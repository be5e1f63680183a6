import InfoObject.GoSource.Lexeme

/-! Comments in groups, which stand together between two lexemes. -/
namespace InfoObject.GoSource

abbrev CommentGroup := List Comment

/-- The comments that belong together: each starts at most so many lines below the end of the one before. Behind them,
the line where they end and the rest. -/
def takeGroup (gap lastLine : Nat) : List Comment → CommentGroup × Nat × List Comment
  | [] => ([],lastLine,[])
  | c::cs =>
    if c.line ≤ lastLine+gap then
      let (group,last,rest) := takeGroup gap c.lastLine cs
      (c::group,last,rest)
    else ([],lastLine,c::cs)

/-- The groups of comments that are not behind a lexeme on its line, and the line where the last one ends. -/
def groupsOf : Nat → List Comment → List CommentGroup × Option Nat
  | 0, _ => ([],none)
  | _, [] => ([],none)
  | fuel+1, c::cs =>
    let (group,last,rest) := takeGroup 1 c.lastLine cs
    let (groups,lastEnd) := groupsOf fuel rest
    ((c::group)::groups,lastEnd.or (some last))

def attach (lastLine : Nat) (cs : List Comment) (l : Lexeme) : List CommentGroup × Lexeme :=
  match cs with
  | [] => ([],l)
  | c::r =>
    let (trail,trailEnd,rest) := if c.line = lastLine then
        let (group,last,rest) := takeGroup 0 c.lastLine r
        (c::group,last,rest)
      else ([],0,cs)
    let nextLine := (rest.head?.map Comment.line).getD l.line
    let isTrail := nextLine != trailEnd || (rest.isEmpty && (l.kind == .finish || (l.kind == .operator && l.text == ";")))
    let (groups,lastEnd) := groupsOf rest.length rest
    let lead := if lastEnd.any (· + 1 == l.line) then groups.getLastD [] else []
    ((if trail.isEmpty then [] else [trail])++groups,{l with lead, trail := if isTrail then trail else []})

structure Source where
  lexemes : List Lexeme
  groups : List CommentGroup
  starts : List Nat
  size : Nat
deriving DecidableEq, Repr

/-- The lexemes with the comments that belong to them, and all groups of comments. The line is that of the lexeme before. -/
def gather (lastLine : Nat) (waiting : List Comment) : List Item → List Lexeme × List CommentGroup
  | [] => ([],[])
  | .comment c::r => gather lastLine (waiting++[c]) r
  | .lexeme l::r =>
    let (groups,l) := attach lastLine waiting l
    let (ls,more) := gather l.line [] r
    (l::ls,groups++more)

def Source.ofText? (text : String) : Option Source := do
  let items ← items? text
  let (lexemes,groups) := gather 0 [] items
  return ⟨lexemes,groups,lineStarts text,text.utf8ByteSize⟩

end InfoObject.GoSource
