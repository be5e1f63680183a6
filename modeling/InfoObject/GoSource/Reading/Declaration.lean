import InfoObject.GoSource.Reading.Expression

/-! Reading declarations of values, types and functions. -/
namespace InfoObject.GoSource

open Reading

namespace Expr

/-- Whether an expression can only be a type, or terms of which one is meant. -/
def isTypeOnly : Expr → Bool
  | array _ _ _ => true
  | struct _ _ => true
  | funcType _ => true
  | interface _ _ => true
  | map _ _ _ => true
  | chan _ _ _ _ => true
  | binary x _ _ y => x.isTypeOnly || y.isTypeOnly
  | unary _ operator _ => operator == "~"
  | parens _ x _ => x.isTypeOnly
  | _ => false

/-- An expression as a name and its type, if it looks like that. With force it need only be possible. -/
def nameAndType (force : Bool) : Expr → Option (Ident × Option Expr)
  | ident x => some (x,none)
  | binary x place operator y =>
    if operator = "*" then
      match x with
      | ident n => if force || y.isTypeOnly then some (n,some (.star place y)) else none
      | _ => none
    else if operator = "|" then
      match x.nameAndType (force || y.isTypeOnly) with
      | some (n,some t) => some (n,some (.binary t place operator y))
      | _ => none
    else none
  | call f left arguments spread right =>
    match f, arguments with
    | ident n, [x] => if !spread.isSome && (force || x.isTypeOnly) then some (n,some (.parens left x right)) else none
    | _, _ => none
  | _ => none

end Expr

namespace Readers

variable (r : Readers)

def importSpec (doc : CommentGroup) : Reading Spec := do
  let name ←
    if ← isAtKind .name then pure (some (← ident))
    else if ← isAt "." then
      let l ← next
      pure (some ⟨l.place,"."⟩)
    else pure none
  let l ← next
  if l.kind != .string then failure
  return .imported doc name (l.place,l.text) (← semicolon)

def valueSpec (keyword : String) (doc : CommentGroup) : Reading Spec := do
  let names ← separated ident
  let type ←
    if keyword = "var" then if ← isAt "=" then pure none else pure (some (← r.type))
    else if (← isAtKind .finish) || (← isAtAny [";",")"]) then pure none
    else r.type?
  let values ← if ← isAt "=" then do
      let _ ← next
      r.expressions
    else pure []
  return .value doc names type values (← semicolon)

def equals? : Reading Place := do
  if ← isAt "=" then return (← next).place else return .none

/-- Behind the opening bracket after a name: parameters of the type, or the length of an array. -/
def bracketedType (left : Place) : Reading (Option FieldList × Place × Expr) := do
  if !(← isAtKind .name) then return (none,.none,← r.arrayRest left none)
  let x ← ident
  let x ←
    if ← isAt "[" then pure (.ident x)
    else inBrackets do
      let x ← r.primaryRest (.ident x)
      r.binaryRest x 1
  match x.nameAndType (← isAt ",") with
  | some (name,type) =>
    if type.isSome || !(← isAt "]") then
      let fields ← r.parameterList name type "]" false
      let right ← expect "]"
      let equals ← equals?
      return (some (.mk left fields right),equals,← r.type)
    else return (none,.none,← r.arrayRest left (some x))
  | none => return (none,.none,← r.arrayRest left (some x))

def typeSpec (doc : CommentGroup) : Reading Spec := do
  let name ← ident
  let (parameters,equals,type) ←
    if ← isAt "[" then do r.bracketedType (← next).place
    else do
      let equals ← equals?
      pure (none,equals,← r.type)
  return .type doc name parameters equals type (← semicolon)

def spec (keyword : String) (doc : CommentGroup) : Reading Spec :=
  if keyword = "import" then importSpec doc
  else if keyword = "type" then r.typeSpec doc
  else r.valueSpec keyword doc

def groupDeclaration : Reading Decl := do
  let l ← next
  if ← isAt "(" then
    let left ← next
    let specs ← loop (fun done => do
      if (← isAt ")") || (← isAtKind .finish) then return (done,false)
      let doc := (← look).lead
      return (done++[← r.spec l.text doc],true)) []
    let right ← expect ")"
    let _ ← semicolon
    return .group l.lead l.place l.text left.place specs right
  else return .group l.lead l.place l.text .none [← r.spec l.text []] .none

def functionDeclaration : Reading Decl := do
  let l ← next
  let receiver ← if ← isAt "(" then pure (some (← r.parameters false)) else pure none
  let name ← ident
  let typeParameters ← if ← isAt "[" then pure (some (← r.typeParameters)) else pure none
  if receiver.isSome && typeParameters.isSome then failure
  let parameters ← r.parameters true
  let results ← r.results
  let type := .mk l.place typeParameters parameters results
  if ← isAt "\x7b" then
    let body ← r.block
    let _ ← semicolon
    return .function l.lead receiver name type (some body)
  else
    let _ ← semicolon
    if ← isAt "\x7b" then failure
    return .function l.lead receiver name type none

end Readers

end InfoObject.GoSource
