import InfoObject.Files.Access
import InfoObject.Path

/-! Files held in memory: a directory tree seen from the working directory. -/
namespace InfoObject.Files

/-- Where a file or directory is: the names from the working directory down to it. The directories above are `..`, and
`..` behind that; the root is `/`. -/
abbrev Place := List String

/-- The working directory, one above it, or the root. -/
def Place.isAbove (p : Place) : Bool := p.all (· == "..") || p == ["/"]

def Place.isWithin (p : Place) : Bool := p.head?.all fun n => n != ".." && n != "/"

def Place.parent (p : Place) : Place :=
  if p == ["/"] then p else if Place.isAbove p then p++[".."] else p.dropLast

/-- The longest name that a directory can hold, and the longest path that can be asked for, in bytes. -/
def maxName : Nat := 255
def maxPath : Nat := 4095

/-- The files with their places, and the directories that were made. A directory is also there when a file is
below it. -/
structure Tree where
  files : List (Place × List UInt8)
  directories : List Place
deriving DecidableEq, Repr

namespace Tree

def file? (t : Tree) (p : Place) : Option (List UInt8) := t.files.lookup p

def isDirectory (t : Tree) (p : Place) : Bool :=
  Place.isAbove p || t.directories.any (p.isPrefixOf ·) || t.files.any fun (q,_) => p.isPrefixOf q && p != q

def entry? (t : Tree) (p : Place) : Option Entry :=
  if t.isDirectory p then some .directory else if (t.file? p).isSome then some .file else none

/-- Follows names from a place. Every name but the last has to be there. -/
def follow (t : Tree) (here : Place) : List String → Except Cause Place
  | [] => .ok here
  | n::ns =>
    match t.entry? here with
    | none => .error .notFound
    | some .file => .error .notDirectory
    | some .directory =>
      if n = "" ∨ n = "." then follow t here ns
      else if n = ".." then follow t (Place.parent here) ns
      else if n.utf8ByteSize > maxName then .error .nameTooLong
      else follow t (here++[n]) ns

def locate (t : Tree) (path : String) : Except Cause Place :=
  if path.toList.contains '\x00' then .error .invalidName
  else if path.isEmpty then .error .notFound
  else if path.utf8ByteSize > maxPath then .error .nameTooLong
  else t.follow (if Path.isAbsolute path then ["/"] else []) ((Path.split '/' path.toList).map String.ofList)

def examine (t : Tree) (path : String) : Except Cause Entry := do
  let p ← t.locate path
  match t.entry? p with
  | some e => return e
  | none => throw .notFound

def read (t : Tree) (path : String) : Except Failure (List UInt8) :=
  match t.locate path with
  | .error e => .error ⟨"open",path,e⟩
  | .ok p =>
    match t.entry? p, t.file? p with
    | some .directory, _ => .error ⟨"read",path,.isDirectory⟩
    | _, some content => .ok content
    | _, none => .error ⟨"open",path,.notFound⟩

def put (t : Tree) (p : Place) (content : List UInt8) : Tree :=
  if (t.file? p).isSome then {t with files := t.files.map fun (q,c) => if q = p then (q,content) else (q,c)}
  else {t with files := t.files++[(p,content)]}

def write (t : Tree) (path : String) (content : List UInt8) : Except Failure Tree :=
  match t.locate path with
  | .error e => .error ⟨"open",path,e⟩
  | .ok p =>
    if t.isDirectory p then .error ⟨"open",path,.isDirectory⟩
    else if t.isDirectory p.dropLast then .ok (t.put p content)
    else .error ⟨"open",path,.notFound⟩

/-- A slash behind the name of a directory to be made means nothing. -/
def makeDirectory (t : Tree) (path : String) : Except Failure Tree :=
  let name := String.ofList (path.toList.reverse.dropWhile (· == '/')).reverse
  match t.locate name with
  | .error e => .error ⟨"mkdir",path,e⟩
  | .ok p =>
    if (t.entry? p).isSome then .error ⟨"mkdir",path,.alreadyExists⟩
    else if t.isDirectory p.dropLast then .ok {t with directories := t.directories++[p]}
    else .error ⟨"mkdir",path,.notFound⟩

def changing (action : Tree → Except Failure Tree) : StateM Tree (Except Failure Unit) := fun t =>
  match action t with
  | .ok t => (.ok (),t)
  | .error e => (.error e,t)

end Tree

instance : Access (StateM Tree) where
  examine path := fun t => (t.examine path,t)
  read path := fun t => (t.read path,t)
  write path content := Tree.changing (·.write path content)
  makeDirectory path := Tree.changing (·.makeDirectory path)

end InfoObject.Files
