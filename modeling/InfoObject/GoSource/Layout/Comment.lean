import InfoObject.GoSource.BuildCondition
import InfoObject.GoSource.Documentation
import InfoObject.GoSource.Layout

/-! Comments between the tokens of a file: those that document a declaration in their own layout, others as they are. -/
namespace InfoObject.GoSource

def isLowerOrDigit (c : Char) : Bool := c.isLower || c.isDigit

def isDirective (cs : List Char) : Bool :=
  ["line ","extern ","export "].any (fun s => s.toList.isPrefixOf cs) ||
    match cs.span (· != ':') with
    | (word,_::c::_) => !word.isEmpty && word.all isLowerOrDigit && isLowerOrDigit c
    | _ => false

def allStars (cs : List Char) : Bool :=
  match Path.split '\n' cs with
  | _::lines => lines.all fun l => (l.dropWhile Documentation.isIndentation).head? == some '*'
  | [] => true

def lineText (cs : List Char) : List Char :=
  match cs.drop 2 with
  | ' '::cs => cs
  | cs => cs

def docLine (line : List Char) : String :=
  String.ofList (match line with
    | [] => ['/','/']
    | '\t'::_ => '/':: '/'::line
    | _ => '/':: '/':: ' '::line)

def linesOf (cs : List Char) : List (List Char) :=
  match (Path.split '\n' cs).reverse with
  | []::ls => ls.reverse
  | ls => ls.reverse

/-- A group that documents a declaration as it is laid out, with what is meant for tools at the end. -/
def documented (group : CommentGroup) : CommentGroup :=
  match group with
  | [] => []
  | first::rest =>
    let put (text : String) : Comment := {first with text}
    if first.text.startsWith "/*" then
      let cs := first.text.toList
      if !rest.isEmpty || !cs.contains '\n' || allStars cs then group
      else
        let inner := (cs.drop 2).dropLast.dropLast
        [put ("/*\n"++String.ofList (Documentation.bodyOf inner).render++"*/")]
    else if group.any fun c => !c.isLine then group
    else
      let (directives,lines) := (group.map (·.text.toList)).partition fun cs => isDirective (cs.drop 2)
      if lines.isEmpty then group
      else
        let body := (Documentation.bodyOf (lines.flatMap fun cs => lineText cs++['\n'])).render
        (linesOf body).map (fun l => put (docLine l)) ++
          (if directives.isEmpty then [] else put "//"::directives.map fun cs => put (String.ofList cs))

/-! ### Comments of several lines -/

def isBlankLine (cs : List Char) : Bool := cs.all fun c => c.toNat ≤ 0x20

def commonMargin : List Char → List Char → List Char
  | a::as, b::bs => if a = b ∧ (a.toNat ≤ 0x20 ∨ a = '*') then a::commonMargin as bs else []
  | _, _ => []

def withoutSuffix (suffix cs : List Char) : List Char :=
  if suffix.reverse.isPrefixOf cs.reverse then cs.take (cs.length-suffix.length) else cs

/-- What lines share at their start but for a line of stars, or for what stands in the first line before its text. -/
def marginBefore (first margin : List Char) : List Char × Bool :=
  match margin.span (· != '*') with
  | (before,_::_) => (withoutSuffix [' '] before,true)
  | _ =>
    let text := first.drop 2
    if isBlankLine text then
      let blanks := (margin.reverse.takeWhile (· == ' ')).length
      if blanks > 0 then (margin.take (margin.length-min blanks 3),false)
      else if margin.getLast? = some '\t' then (margin.dropLast,false)
      else (margin,false)
    else
      let space := text.takeWhile fun c => c.toNat ≤ 0x20
      let suffix := if space.head? = some '\t' then space else ' ':: ' '::space
      (withoutSuffix suffix margin,false)

/-- The lines of a comment without what they share at their start. The first one starts the comment, the last one ends it. -/
def withoutMargin (lines : List (List Char)) : List (List Char) :=
  match lines with
  | [] => []
  | [l] => [l]
  | first::rest =>
    let last := rest.getLastD []
    let inner := rest.dropLast.map fun l => if isBlankLine l then [] else l
    let margin := match inner.filter fun l => !l.isEmpty with
      | [] => commonMargin last last
      | l::ls => ls.foldl commonMargin (commonMargin l l)
    let (margin,hasStars) := marginBefore first margin
    let (last,margin) :=
      if isBlankLine (last.dropLast.dropLast) then
        (margin++(if hasStars then [' '] else [])++['*','/'],margin)
      else (last,commonMargin margin last)
    first::(inner++[last]).map fun l => l.drop margin.length

namespace Layout

def groupEndsLine (g : CommentGroup) : Bool :=
  g.any fun c => c.isLine || c.text.toList.contains '\n' || c.place.line != (g.head?.map (·.place.line)).getD 0

/-- Whether there is a comment to write before a place. Behind what can end a statement none may end the line. -/
def isCommentBefore (p : Place) : Layout Bool := do
  let s ← get
  match s.comments with
  | g::_ => return (g.head?.map (·.place.offset)).getD 0 < p.offset && (!s.mayEnd || !groupEndsLine g)
  | [] => return false

/-- How many gaps are passed before a comment on a line of its own, if others follow, and whether the end of a line does. -/
def gapsAbove (closes aligned : Bool) : Nat → List Gap → Option Nat × Bool
  | _, [] => (none,false)
  | n, .blank::gs => gapsAbove closes aligned (n+1) gs
  | n, .tab::gs => gapsAbove closes aligned (n+1) gs
  | n, .indent::gs => gapsAbove closes aligned (n+1) gs
  | n, .unindent::gs =>
    if gs.head? == some .unindent || (!closes && aligned) then gapsAbove closes aligned (n+1) gs else (some n,false)
  | n, g::_ => (some n,g.isLineEnd)

/-- The white space before a comment, of which the one before in its group may be written already. -/
def writeBeforeComment (p next : Place) (prev : Option Comment) (token : String) : Layout Unit := do
  let s ← get
  if s.output.isEmpty then return
  if p.line = s.last.line ∧ !prev.any Comment.isLine then
    let before := s.gaps.takeWhile Gap.isFlat
    if prev.isNone then
      modify fun s => { s with
        gaps := before.map (fun g => if g = .blank then .ignored else g)++s.gaps.drop before.length}
      writeGaps (if before.length < s.gaps.length then before.length else 0)
    if prev.isSome || !before.contains .tab then writeSpace (if p.line = next.line then ' ' else '\t') 1
  else
    let (stop,atEnd) := gapsAbove (token == "\x7d") (p.column == next.column) 0 s.gaps
    let passed := stop.getD s.gaps.length
    modify fun s => { s with
      gaps := (s.gaps.take passed).map (fun g => if g = .blank ∨ g = .tab then .ignored else g) ++
        (if atEnd then .ignored::s.gaps.drop (passed+1) else s.gaps.drop passed)}
    let dropped := atEnd && prev.isNone
    writeGaps (stop.getD 0)
    let s ← get
    let lines := if p.isSome && s.last.isSome then p.line-s.last.line else 0
    let lines := if s.indent = 0 ∧ dropped then lines+1 else lines
    let lines := if lines = 0 ∧ prev.any Comment.isLine then 1 else lines
    if lines > 0 then writeSpace '\x0c' (min lines 2)

def writeBlockLines (p : Place) : List (List Char) → Layout Unit
  | [] => pure ()
  | l::ls => do
    if !l.isEmpty then writeText p (String.ofList (Text.trimRight l)) true
    match ls with
    | [] => pure ()
    | ls =>
      writeSpace '\x0c' 1
      writeBlockLines (← get).place ls

def writeComment (c : Comment) : Layout Unit := do
  let indent := (← get).indent
  let cs := c.text.toList
  if c.isLine then
    let place := (← get).output.size
    if (BuildCondition.newText? cs).isSome then modify fun s => {s with newConditions := s.newConditions++[place]}
    else if (BuildCondition.oldText? cs).isSome then
      modify fun s => {s with oldConditions := s.oldConditions++[place]}
    if c.text.startsWith "//line " && c.place.column == 1 then modify fun s => {s with indent := 0}
    writeText c.place (String.ofList (Text.trimRight cs)) true
    modify fun s => {s with indent}
  else
    let lines := Path.split '\n' cs
    let lines :=
      if c.place.column = 1 ∧ indent > 0 then
        match lines with
        | l::ls => l::ls.map fun l => ' ':: ' ':: ' '::l
        | [] => []
      else lines
    writeBlockLines c.place (withoutMargin lines)

/-- The white space behind comments: at most one end of a line, if it is needed. Whether a line was ended. -/
def keepOneEnd (needsEnd : Bool) : List Gap → List Gap × Bool
  | [] => ([],needsEnd)
  | g::gs =>
    if g.isLineEnd then
      if needsEnd then let (gs,_) := keepOneEnd false gs; (g::gs,false)
      else let (gs,r) := keepOneEnd false gs; (.ignored::gs,r)
    else
      let (gs,r) := keepOneEnd needsEnd gs
      ((if g = .blank ∨ g = .tab then .ignored else g)::gs,r)

def writeAfterComments (needsEnd : Bool) : Layout Bool := do
  let (gaps,missing) := keepOneEnd needsEnd (← get).gaps
  modify fun s => {s with gaps}
  writeAllGaps
  if missing then writeSpace '\n' 1
  return needsEnd

/-- A group of comments before the next token. Behind it, its last comment, or nothing if the group was left out. -/
def writeGroup (g : CommentGroup) (next : Place) (prev : Option Comment) (token : String) : Layout (Option Comment) := do
  let finish := (g.getLast?.map fun c => c.place.offset+c.text.utf8ByteSize).getD 0
  let isDoc := (← get).lastToken != "import" && (g.head?.map (·.place.column)) == some 1 &&
    (← placeOf (finish+1)) == next
  let shown := if isDoc then documented g else g
  if shown.isEmpty then
    writeBeforeComment ((g.head?.map (·.place)).getD .none) next prev token
    modify fun s => {s with place := next, last := next}
    return none
  else
    let mut prev := prev
    for c in shown do
      writeBeforeComment c.place next prev token
      writeComment c
      prev := some c
    if isDoc then
      let p ← placeOf finish
      modify fun s => {s with place := p, last := p}
      return g.getLast?
    else return prev

/-- The comments before the next token, in groups. Whether the end of a line was written behind them. -/
def writeComments (next : Place) (token : String) : Nat → Option Comment → Layout Bool
  | 0, _ => return false
  | fuel+1, prev => do
    match (← get).comments, ← isCommentBefore next with
    | g::gs, true =>
      match ← writeGroup g next prev token with
      | none =>
        modify fun s => {s with comments := gs}
        writeAfterComments false
      | some c =>
        modify fun s => {s with comments := gs}
        writeComments next token fuel (some c)
    | _, _ =>
      match prev with
      | none => return false
      | some c =>
        let s ← get
        let isClose := (token == ")" && s.prevOpen != "(") || (token == "]" && s.prevOpen != "[")
        let needsSpace := !s.noExtraBlank && !c.isLine && c.place.line == next.line && token != "," && !isClose
        let endsLine := needsSpace && s.gaps.any Gap.isLineEnd && !s.noExtraLine && s.level == 0
        if needsSpace && !endsLine then writeSpace ' ' 1
        writeAfterComments (endsLine || c.isLine || token == "" || (token == "\x7d" && !s.noExtraLine))

/-- Everything that comes before the next token. The end of the file has no text. -/
def flush (next : Place) (token : String) : Layout Bool := do
  if ← isCommentBefore next then writeComments next token ((← get).comments.length+1) none
  else
    writeAllGaps
    return false

def setComment (g : CommentGroup) : Layout Unit :=
  modify fun s => if g.isEmpty || !s.takesOwnComments then s else {s with comments := s.comments++[g]}

end Layout

end InfoObject.GoSource
