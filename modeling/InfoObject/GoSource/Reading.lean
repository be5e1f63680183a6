import InfoObject.GoSource.Tree

/-! Reading trees from lexemes. Every fault ends the reading. -/
namespace InfoObject.GoSource

structure Reader where
  rest : List Lexeme
  /-- How deep in brackets; below zero a brace starts a block. -/
  level : Int := 0

abbrev Reading := StateT Reader Option

def Lexeme.is (l : Lexeme) (text : String) : Bool :=
  (l.kind == .operator || l.kind == .keyword) && l.text == text

def Lexeme.isLiteral (l : Lexeme) : Bool :=
  match l.kind with
  | .int => true
  | .float => true
  | .imaginary => true
  | .char => true
  | .string => true
  | _ => false

namespace Reading

def look : Reading Lexeme := fun s => s.rest.head?.map (·,s)

def next : Reading Lexeme := fun s =>
  match s.rest with
  | [] => none
  | [l] => some (l,s)
  | l::ls => some (l,{s with rest := ls})

def isAt (text : String) : Reading Bool := do return (← look).is text

def isAtKind (kind : LexemeKind) : Reading Bool := do return (← look).kind == kind

def isAtAny (texts : List String) : Reading Bool := do
  let l ← look
  return texts.any l.is

def expect (text : String) : Reading Place := do
  if ← isAt text then return (← next).place else failure

def ident : Reading Ident := do
  let l ← next
  if l.kind = .name then return ⟨l.place,l.text⟩ else failure

def iterate {α : Type} (step : α → Reading (α × Bool)) : Nat → α → Reading α
  | 0, _ => failure
  | fuel+1, a => do
    let (a,more) ← step a
    if more then iterate step fuel a else return a

def loop {α : Type} (step : α → Reading (α × Bool)) (a : α) : Reading α := do
  iterate step ((← get).rest.length+1) a

def atLevel {α : Type} (f : Int → Int) (x : Reading α) : Reading α := do
  let level := (← get).level
  modify fun s => {s with level := f level}
  let a ← x
  modify fun s => {s with level}
  return a

def inBrackets {α : Type} (x : Reading α) : Reading α := atLevel (· + 1) x

def separated {α : Type} (item : Reading α) : Reading (List α) := do
  loop (fun done => do
    if ← isAt "," then
      let _ ← next
      return (done++[← item],true)
    else return (done,false)) [← item]

/-- Items with commas between them up to the closing sign, which is left. The last one may have a comma too. -/
def listed {α : Type} (item : Reading α) (close : String) : Reading (List α) := do
  loop (fun done => do
    if ← isAt close then return (done,false)
    let done := done++[← item]
    if ← isAt "," then
      let _ ← next
      return (done,true)
    else if ← isAt close then return (done,false)
    else failure) []

/-- The end of a statement and the comments behind it. A closing sign needs none. -/
def semicolon : Reading CommentGroup := do
  if ← isAtAny [")","\x7d"] then return []
  let l ← look
  if !l.is ";" then failure
  let _ ← next
  if l.isImplied then return l.trail else return (← look).trail

end Reading

structure Readers where
  binary : Nat → Reading Expr
  unary : Reading Expr
  type? : Reading (Option Expr)
  braces : Option Expr → Reading Expr
  statement : Reading Stmt

namespace Readers

def expression (r : Readers) : Reading Expr := r.binary 1

def type (r : Readers) : Reading Expr := do
  match ← r.type? with
  | some t => return t
  | none => failure

end Readers

end InfoObject.GoSource
