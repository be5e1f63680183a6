import InfoObject.GoSource.Reading.Type

/-! Reading expressions. -/
namespace InfoObject.GoSource

open Reading

/-- How tight an operator between two operands binds; zero for none. -/
def precedence (operator : String) : Nat :=
  if operator = "||" then 1
  else if operator = "&&" then 2
  else if ["==","!=","<","<=",">",">="].contains operator then 3
  else if ["+","-","|","^"].contains operator then 4
  else if ["*","/","%","<<",">>","&","&^"].contains operator then 5
  else 0

namespace Expr

def bare : Expr → Expr
  | parens _ x _ => x.bare
  | x => x

def isParens : Expr → Bool
  | parens _ _ _ => true
  | _ => false

/-- An arrow before a channel type belongs to it, and its own arrow, if there is one, to the type behind that. -/
def withArrow? (arrow : Place) : Expr → Option Expr
  | chan _ own direction value =>
    match direction with
    | .both => some (.chan arrow arrow .receive value)
    | .send => (value.withArrow? own).map (.chan arrow arrow .receive)
    | .receive => none
  | _ => none

def isChan : Expr → Bool
  | chan _ _ _ _ => true
  | _ => false

def takesBraces (level : Int) (x : Expr) : Bool :=
  match x.bare with
  | ident _ => level ≥ 0
  | selector _ _ => level ≥ 0
  | index _ _ _ _ => level ≥ 0
  | array _ _ _ => true
  | struct _ _ => true
  | map _ _ _ => true
  | _ => false

end Expr

namespace Readers

variable (r : Readers)

def expressions : Reading (List Expr) := separated r.expression

def block : Reading Block := do
  let left ← expect "\x7b"
  let statements ← loop (fun done => do
    if (← isAtAny ["case","default","\x7d"]) || (← isAtKind .finish) then return (done,false)
    else return (done++[← r.statement],true)) []
  return .mk left statements (← expect "\x7d")

def function : Reading Expr := do
  let type ← r.functionType
  if ← isAt "\x7b" then return .function type (← inBrackets r.block) else return .funcType type

def operand : Reading Expr := do
  let l ← look
  if l.kind = .name then return .ident (← ident)
  else if l.isLiteral then
    let _ ← next
    return .literal l.place l.kind l.text
  else if l.is "(" then
    let _ ← next
    let x ← inBrackets r.expression
    return .parens l.place x (← expect ")")
  else if l.is "func" then r.function
  else r.type

def selection (x : Expr) : Reading Expr := do
  let _ ← expect "."
  if ← isAt "(" then
    let left ← expect "("
    let type ← if ← isAt "type" then do
        let _ ← next
        pure none
      else pure (some (← r.type))
    return .assertion x left type (← expect ")")
  else return .selector x (← ident)

/-- An index, the ends of a slice, or types. Between two colons and behind the second there is an end. -/
def brackets (x : Expr) : Reading Expr := do
  let left ← expect "["
  if ← isAt "]" then failure
  let isEnd : Reading Bool := do return (← isAtAny [":","]"]) || (← isAtKind .finish)
  inBrackets do
    let first ← if ← isAt ":" then pure none else pure (some (← r.expression))
    if ← isAt ":" then
      let _ ← next
      let high ← if ← isEnd then pure none else pure (some (← r.expression))
      if ← isAt ":" then
        let _ ← next
        if high.isNone || (← isEnd) then failure
        let max ← r.expression
        return .slice x left first high (some max) (← expect "]")
      else return .slice x left first high none (← expect "]")
    else
      let more ← loop (fun done => do
        if ← isAt "," then
          let _ ← next
          if (← isAt "]") || (← isAtKind .finish) then return (done,true)
          else return (done++[← r.type],true)
        else return (done,false)) []
      return .index x left (first.toList++more) (← expect "]")

def call (f : Expr) : Reading Expr := do
  let left ← expect "("
  let (arguments,dots) ← inBrackets (loop (fun (done,dots) => do
    if (← isAt ")") || dots.isSome then return ((done,dots),false)
    let done := done++[← r.expression]
    let dots ← if ← isAt "..." then pure (← next).place else pure dots
    if ← isAt "," then
      let _ ← next
      return ((done,dots),true)
    else return ((done,dots),false)) (([] : List Expr),Place.none))
  return .call f left arguments dots (← expect ")")

def primaryRest (x : Expr) : Reading Expr := do
  loop (fun x => do
    if ← isAt "." then return (← r.selection x,true)
    else if ← isAt "[" then return (← r.brackets x,true)
    else if ← isAt "(" then return (← r.call x,true)
    else if (← isAt "\x7b") && x.takesBraces (← get).level then
      if x.isParens then failure
      return (← r.braces (some x),true)
    else return (x,false)) x

def unaryOperators : List String := ["+","-","!","^","&","~"]

def unaryStep : Reading Expr := do
  let l ← look
  if unaryOperators.any l.is then
    let _ ← next
    return .unary l.place l.text (← r.unary)
  else if l.is "<-" then
    let _ ← next
    let x ← r.unary
    if x.isChan then
      match x.withArrow? l.place with
      | some x => return x
      | none => failure
    else return .unary l.place l.text x
  else if l.is "*" then
    let _ ← next
    return .star l.place (← r.unary)
  else r.primaryRest (← r.operand)

/-- The operators behind a first operand that bind at least so tight, with their operands. -/
def binaryRest (x : Expr) (least : Nat) : Reading Expr := do
  loop (fun x => do
    let l ← look
    let p := if l.kind = .operator then precedence l.text else 0
    if p < least then return (x,false)
    let _ ← next
    return (.binary x l.place l.text (← r.binary (p+1)),true)) x

def binaryStep (least : Nat) : Reading Expr := do r.binaryRest (← r.unary) least

def value : Reading Expr := do
  if ← isAt "\x7b" then r.braces none else r.expression

def element : Reading Expr := do
  let x ← r.value
  if ← isAt ":" then
    let colon ← next
    return .keyed x colon.place (← r.value)
  else return x

def bracesStep (type : Option Expr) : Reading Expr := do
  let left ← expect "\x7b"
  let elements ← inBrackets (listed r.element "\x7d")
  return .composite type left elements (← expect "\x7d")

end Readers

end InfoObject.GoSource
