import InfoObject.GoSource.Layout.Comment

/-! The tokens of a file, with the white space and the comments before them. -/
namespace InfoObject.GoSource.Layout

/-- The bracket that was opened last, if nothing has come behind it. -/
def noteOpen : Layout Unit := modify fun s =>
  if s.lastToken = "" then s
  else if s.lastToken = "(" ∨ s.lastToken = "[" then {s with prevOpen := s.lastToken}
  else {s with prevOpen := "" }

def maxGaps : Nat := 16

def gap (g : Gap) : Layout Unit := do
  noteOpen
  if g = .ignored then return
  if (← get).gaps.length = maxGaps then writeAllGaps
  modify fun s => {s with gaps := s.gaps++[g], mayEnd := s.mayEnd && !g.isLineEnd, lastToken := "" }

/-- Before the closing brace of a literal: no line is ended for a comment, and no blank is put behind it. -/
def toggle (blank : Bool) : Layout Unit := do
  noteOpen
  modify fun s => {s with noExtraLine := !s.noExtraLine, noExtraBlank := s.noExtraBlank != blank}

def put (kind text : String) (isLiteral mayEnd : Bool) : Layout Unit := do
  modify fun s => {s with lastToken := kind}
  let next := (← get).place
  let ended ← flush next kind
  let s ← get
  let lines := if s.mayEnd then 0 else min (next.line-s.place.line) 2
  let lines := if ended ∧ lines = 2 then 1 else lines
  if lines > 0 then writeSpace '\n' lines
  writeText next text isLiteral
  modify fun s => {s with mayEnd := mayEnd && lines == 0}

/-- Whether two tokens would be read as another one without a blank between them. -/
def wouldJoin (last : String) (next : Option Char) : Bool :=
  match last, next with
  | "int", some '.' => true
  | "+", some '+' => true
  | "-", some '-' => true
  | "/", some '*' => true
  | "<", some '-' => true
  | "<", some '<' => true
  | "&", some '&' => true
  | "&", some '^' => true
  | _, _ => false

def token (text : String) : Layout Unit := do
  noteOpen
  if wouldJoin (← get).lastToken text.toList.head? then modify fun s => {s with gaps := [.blank]}
  put text text false (endsStatement (if keywords.contains text then .keyword else .operator) text)

def tokenAt (p : Place) (text : String) : Layout Unit := do
  setPlace p
  token text

def ident (x : Ident) : Layout Unit := do
  noteOpen
  put "name" x.name false true

def literal (kind : LexemeKind) (text : String) : Layout Unit := do
  noteOpen
  put (if kind = .int then "int" else "literal") text true true

/-- Ends of lines up to a line of the source, at least so many, with white space before the first. Whether there are any. -/
def lineBreak (line least : Nat) (before : Gap) (newSection : Bool) : Layout Bool := do
  let n := max (min (line-(← get).place.line) 2) least
  if n = 0 then return false
  gap before
  gap (if newSection then .sectionEnd else .newline)
  (List.range (n-1)).forM fun _ => gap .newline
  return true

end InfoObject.GoSource.Layout
