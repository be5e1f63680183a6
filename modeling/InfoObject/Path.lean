/-! Slash-separated paths: the shortest form of a path, joining paths, and the directory of a file. -/
namespace InfoObject.Path

/-- The parts between separators; there is one part more than there are separators. -/
def split (sep : Char) : List Char → List (List Char)
  | [] => [[]]
  | c::cs =>
    if c = sep then []::split sep cs
    else
      match split sep cs with
      | p::ps => (c::p)::ps
      | [] => [[c]]

def unsplit (sep : Char) (ps : List (List Char)) : List Char := [sep].intercalate ps

def parent : List Char := ['.','.']

/-- Drops empty parts and `.`, and lets `..` take away the part before it. `done` holds the parts kept so far, the
last one first. -/
def reduce (rooted : Bool) (done : List (List Char)) : List (List Char) → List (List Char)
  | [] => done.reverse
  | p::ps =>
    if p = [] ∨ p = ['.'] then reduce rooted done ps
    else if p = parent then
      match done with
      | [] => reduce rooted (if rooted then [] else [parent]) ps
      | q::qs => reduce rooted (if q = parent then parent::q::qs else qs) ps
    else reduce rooted (p::done) ps

def isRooted (cs : List Char) : Bool := cs.head? == some '/'

def parts (cs : List Char) : List (List Char) := reduce (isRooted cs) [] (split '/' cs)

def cleanChars (cs : List Char) : List Char :=
  let body := unsplit '/' (parts cs)
  if isRooted cs then '/'::body else if body.isEmpty then ['.'] else body

def clean (path : String) : String := String.ofList (cleanChars path.toList)

def join (elements : List String) : String :=
  match elements.filter (!·.isEmpty) with
  | [] => ""
  | es => String.ofList (cleanChars (unsplit '/' (es.map String.toList)))

def isAbsolute (path : String) : Bool := isRooted path.toList

def beforeName (cs : List Char) : List Char := (cs.reverse.dropWhile (· != '/')).reverse

def directory (path : String) : String := String.ofList (cleanChars (beforeName path.toList))

/-- A list of paths has colons between them; an empty one has no paths. -/
def splitList (paths : String) : List String :=
  if paths.isEmpty then [] else (split ':' paths.toList).map String.ofList

end InfoObject.Path
