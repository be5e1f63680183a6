import InfoObject.GoSource.Reading.Declaration

/-! Reading statements. -/
namespace InfoObject.GoSource

open Reading

/-- What a simple statement may be besides: one with a label, or the header of a loop over a range. -/
inductive Role where
  | plain
  | labels
  | ranges
deriving DecidableEq

structure RangeHeader where
  left : List Expr
  place : Place
  operator : String
  x : Expr

def assignments : List String :=
  [":=","=","+=","-=","*=","/=","%=","&=","|=","^=","<<=",">>=","&^="]

def Expr.isTypeQuestion : Expr → Bool
  | .assertion _ _ none _ => true
  | _ => false

/-- Whether a statement asks for a type, with or without a name for the value. -/
def Stmt.isTypeGuard? : Stmt → Option Bool
  | .expression x => some x.isTypeQuestion
  | .assign [_] _ operator [x] =>
    if x.isTypeQuestion then
      if operator = ":=" then some true else if operator = "=" then none else some false
    else some false
  | _ => some false

def Stmt.condition? : Option Stmt → Option (Option Expr)
  | none => some none
  | some (.expression x) => some (some x)
  | some _ => none

namespace Readers

variable (r : Readers)

def simpleOrRange (role : Role) : Reading (Stmt ⊕ RangeHeader) := do
  let xs ← r.expressions
  let l ← look
  if assignments.any l.is then
    let _ ← next
    if role = .ranges ∧ (l.is ":=" || l.is "=") = true ∧ (← isAt "range") = true then
      let _ ← next
      return .inr ⟨xs,l.place,l.text,← r.expression⟩
    else return .inl (.assign xs l.place l.text (← r.expressions))
  else
    match xs with
    | [x] =>
      if l.is ":" then
        match x with
        | .ident label =>
          if role != .labels then failure
          let _ ← next
          return .inl (.labeled label l.place (← r.statement))
        | _ => failure
      else if l.is "<-" then
        let _ ← next
        return .inl (.send x l.place (← r.expression))
      else if l.is "++" || l.is "--" then
        let _ ← next
        return .inl (.increment x l.place l.text)
      else return .inl (.expression x)
    | _ => failure

def simple (role : Role) : Reading Stmt := do
  match ← r.simpleOrRange role with
  | .inl s => return s
  | .inr _ => failure

def callOnly : Reading Expr := do
  match ← r.expression with
  | .call f left arguments dots right => return .call f left arguments dots right
  | _ => failure

def goOrDefer : Reading Stmt := do
  let l ← next
  let call ← r.callOnly
  let _ ← semicolon
  return if l.is "go" then .go l.place call else .defer l.place call

def returnStatement : Reading Stmt := do
  let l ← next
  let results ← if ← isAtAny [";","\x7d"] then pure [] else r.expressions
  let _ ← semicolon
  return .returns l.place results

def branchStatement : Reading Stmt := do
  let l ← next
  let label ←
    if l.is "goto" || ((l.is "continue" || l.is "break") && (← isAtKind .name)) then pure (some (← ident)) else pure none
  let _ ← semicolon
  return .branch l.place l.text label

def header {α : Type} (x : Reading α) : Reading α := atLevel (fun _ => -1) x

def ifHeader : Reading (Option Stmt × Expr) := header do
  if ← isAt "\x7b" then failure
  let start ← if ← isAt ";" then pure none else pure (some (← r.simple .plain))
  if ← isAt "\x7b" then
    match Stmt.condition? start with
    | some (some x) => return (none,x)
    | _ => failure
  let _ ← expect ";"
  if ← isAt "\x7b" then failure
  match Stmt.condition? (some (← r.simple .plain)) with
  | some (some x) => return (start,x)
  | _ => failure

def ifStatement : Reading Stmt := do
  let place ← expect "if"
  let (start,condition) ← r.ifHeader
  let body ← r.block
  if ← isAt "else" then
    let _ ← next
    if ← isAt "if" then return .conditional place start condition body (some (← r.statement))
    else
      let other ← r.block
      let _ ← semicolon
      return .conditional place start condition body (some (.block other))
  else
    let _ ← semicolon
    return .conditional place start condition body none

def statements : Reading (List Stmt) := do
  loop (fun done => do
    if (← isAtAny ["case","default","\x7d"]) || (← isAtKind .finish) then return (done,false)
    else return (done++[← r.statement],true)) []

def caseClause : Reading Stmt := do
  let l ← next
  let expressions ← if l.is "case" then pure (some (← r.expressions)) else pure none
  let colon ← expect ":"
  return .clause l.place expressions colon (← r.statements)

def clauses (clause : Reading Stmt) : Reading Block := do
  let left ← expect "\x7b"
  let list ← loop (fun done => do
    if ← isAtAny ["case","default"] then return (done++[← clause],true) else return (done,false)) []
  let right ← expect "\x7d"
  let _ ← semicolon
  return .mk left list right

def switchHeader : Reading (Option Stmt × Option Stmt) := header do
  if ← isAt "\x7b" then return (none,none)
  let first ← if ← isAt ";" then pure none else pure (some (← r.simple .plain))
  if ← isAt ";" then
    let _ ← next
    let second ← if ← isAt "\x7b" then pure none else pure (some (← r.simple .plain))
    return (first,second)
  else return (none,first)

def switchStatement : Reading Stmt := do
  let place ← expect "switch"
  let (start,tag) ← r.switchHeader
  match tag with
  | none => return .switch place start none (← clauses r.caseClause)
  | some tag =>
    match tag.isTypeGuard? with
    | none => failure
    | some true => return .typeSwitch place start tag (← clauses r.caseClause)
    | some false =>
      let body ← clauses r.caseClause
      match Stmt.condition? (some tag) with
      | some x => return .switch place start x body
      | none => failure

def communication : Reading Stmt := do
  let xs ← r.expressions
  let l ← look
  if l.is "<-" then
    match xs with
    | [x] =>
      let _ ← next
      return .send x l.place (← r.expression)
    | _ => failure
  else if l.is "=" || l.is ":=" then
    if xs.length > 2 then failure
    let _ ← next
    return .assign xs l.place l.text [← r.expression]
  else
    match xs with
    | [x] => return .expression x
    | _ => failure

def communicationClause : Reading Stmt := do
  let l ← next
  let c ← if l.is "case" then pure (some (← r.communication)) else pure none
  let colon ← expect ":"
  return .communication l.place c colon (← r.statements)

def selectStatement : Reading Stmt := do
  let place ← expect "select"
  return .select place (← clauses r.communicationClause)

def forHeader : Reading (RangeHeader ⊕ (Option Stmt × Option Expr × Option Stmt)) := header do
  if ← isAt "\x7b" then return .inr (none,none,none)
  if ← isAt "range" then
    let _ ← next
    return .inl ⟨[],.none,"",← r.expression⟩
  let first ← if ← isAt ";" then pure none else pure (some (← r.simpleOrRange .ranges))
  match first with
  | some (.inr h) => return .inl h
  | _ =>
    let first := first.bind fun
      | .inl s => some s
      | .inr _ => none
    if ← isAt ";" then
      let _ ← next
      if ← isAt "\x7b" then failure
      let second ← if ← isAt ";" then pure none else pure (some (← r.simple .plain))
      let _ ← semicolon
      let third ← if ← isAt "\x7b" then pure none else pure (some (← r.simple .plain))
      match Stmt.condition? second with
      | some x => return .inr (first,x,third)
      | none => failure
    else
      match Stmt.condition? first with
      | some x => return .inr (none,x,none)
      | none => failure

def forStatement : Reading Stmt := do
  let place ← expect "for"
  let parts ← r.forHeader
  let body ← r.block
  let _ ← semicolon
  match parts with
  | .inr (start,condition,post) => return .loop place start condition post body
  | .inl h =>
    match h.left with
    | [] => return .range place none none .none "" h.x body
    | [key] => return .range place (some key) none h.place h.operator h.x body
    | [key,value] => return .range place (some key) (some value) h.place h.operator h.x body
    | _ => failure

def startsSimple (l : Lexeme) : Bool :=
  l.kind == .name || l.isLiteral ||
    ["func","(","[","struct","map","chan","interface","+","-","*","&","^","<-","!","~"].any l.is

def statementStep : Reading Stmt := do
  let l ← look
  if ["const","type","var"].any l.is then return .declaration (← r.groupDeclaration)
  else if startsSimple l then
    let s ← r.simple .labels
    match s with
    | .labeled label colon s => return .labeled label colon s
    | s =>
      let _ ← semicolon
      return s
  else if l.is "go" || l.is "defer" then r.goOrDefer
  else if l.is "return" then r.returnStatement
  else if ["break","continue","goto","fallthrough"].any l.is then branchStatement
  else if l.is "\x7b" then
    let b ← r.block
    let _ ← semicolon
    return .block b
  else if l.is "if" then r.ifStatement
  else if l.is "switch" then r.switchStatement
  else if l.is "select" then r.selectStatement
  else if l.is "for" then r.forStatement
  else if l.is ";" then
    let _ ← next
    return .empty l.place l.isImplied
  else if l.is "\x7d" then return .empty l.place true
  else failure

def ofDepth : Nat → Readers
  | 0 => ⟨fun _ => failure,failure,failure,fun _ => failure,failure⟩
  | depth+1 =>
    let r := ofDepth depth
    ⟨r.binaryStep,r.unaryStep,r.typeStep,r.bracesStep,r.statementStep⟩

/-- A declaration of a file. Imports come first. -/
def fileDeclaration (importAllowed : Bool) : Reading Decl := do
  let l ← look
  if l.is "func" then r.functionDeclaration
  else if ["const","type","var"].any l.is || (importAllowed && l.is "import") then r.groupDeclaration
  else failure

def file : Reading FileTree := do
  let place ← expect "package"
  let package ← ident
  let _ ← semicolon
  let (declarations,_) ← loop (fun (done,importAllowed) => do
    if ← isAtKind .finish then return ((done,importAllowed),false)
    let isImport ← isAt "import"
    return ((done++[← r.fileDeclaration importAllowed],importAllowed && isImport),true)) (([] : List Decl),true)
  return ⟨place,package,declarations⟩

end Readers

/-- The tree of a file. No part is nested deeper than twice the number of lexemes. -/
def FileTree.ofSource? (s : Source) : Option FileTree :=
  ((Readers.ofDepth (2*s.lexemes.length+10)).file.run {rest := s.lexemes}).map (·.1)

end InfoObject.GoSource
