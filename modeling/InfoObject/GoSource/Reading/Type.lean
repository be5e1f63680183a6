import InfoObject.GoSource.Reading

/-! Reading types, and the parameters of functions and types. -/
namespace InfoObject.GoSource

open Reading

/-- An identifier, or one of a package, of which the first may be read already. -/
def typeName (first : Option Ident) : Reading Expr := do
  let x ← match first with
    | some x => pure x
    | none => ident
  if ← isAt "." then
    let _ ← next
    return .selector (.ident x) (← ident)
  else return .ident x

namespace Readers

variable (r : Readers)

def typeInstance (t : Expr) : Reading Expr := do
  let left ← expect "["
  let items ← inBrackets (listed r.type "]")
  let right ← expect "]"
  if items.isEmpty then failure
  return .index t left items right

def qualifiedName (first : Option Ident) : Reading Expr := do
  let t ← typeName first
  if ← isAt "[" then r.typeInstance t else return t

/-- Behind an opening bracket, the length that may be read already, and the item type. -/
def arrayRest (left : Place) (length : Option Expr) : Reading Expr := do
  let length ← match length with
    | some n => pure (some n)
    | none => inBrackets do
      if ← isAt "..." then return some (.dots (← next).place none)
      else if ← isAt "]" then return none
      else return some (← r.expression)
  let _ ← expect "]"
  return .array left length (← r.type)

/-- Behind a name: a type with that name and its arguments, or an array type that the name is for. -/
def arrayOrInstance (x : Ident) : Reading (Option Ident × Expr) := do
  let left ← expect "["
  let (items,endsWithComma) ← inBrackets do
    if ← isAt "]" then return ([],false)
    loop (fun (done,_) => do
      if ← isAt "," then
        let _ ← next
        if ← isAt "]" then return ((done,true),false)
        return ((done++[← r.expression],false),true)
      else return ((done,false),false)) ([← r.expression],false)
  let right ← expect "]"
  match items with
  | [] => return (some x,.array left none (← r.type))
  | [n] =>
    match ← r.type? with
    | some t => if endsWithComma then failure else return (some x,.array left (some n) t)
    | none => return (none,.index (.ident x) left [n] right)
  | items => return (none,.index (.ident x) left items right)

def term : Reading Expr := do
  if ← isAt "~" then
    let l ← next
    return .unary l.place "~" (← r.type)
  else r.type

/-- Terms of which one is meant; the first may be read already. -/
def union (first : Option Expr) : Reading Expr := do
  let x ← match first with
    | some x => pure x
    | none => r.term
  loop (fun x => do
    if ← isAt "|" then
      let l ← next
      return (.binary x l.place "|" (← r.term),true)
    else return (x,false)) x

/-- A parameter as it is read: a name alone may still turn out to be a type. -/
structure Parameter where
  name : Option Ident := none
  type : Option Expr := none

def dotsType : Reading Expr := do
  let left ← expect "..."
  return .dots left (some (← r.type))

def namedParameter (x : Ident) (takesUnions : Bool) : Reading Parameter := do
  if ← isAt "[" then
    let (name,type) ← r.arrayOrInstance x
    let type ← if takesUnions && (← isAt "|") then r.union type else pure type
    return ⟨name,type⟩
  else if ← isAt "..." then return ⟨x,← r.dotsType⟩
  else if ← isAt "." then
    let type ← r.qualifiedName x
    let type ← if takesUnions && (← isAt "|") then r.union type else pure type
    return ⟨none,type⟩
  else if takesUnions && (← isAt "~") then return ⟨x,← r.union none⟩
  else if takesUnions && (← isAt "|") then return ⟨none,← r.union (some (.ident x))⟩
  else
    match ← r.type? with
    | none => return ⟨x,none⟩
    | some type =>
      let type ← if takesUnions && (← isAt "|") then r.union type else pure type
      return ⟨x,type⟩

def parameter (first : Option Ident) (takesUnions : Bool) : Reading Parameter := do
  match first with
  | some x => r.namedParameter x takesUnions
  | none =>
    if takesUnions && (← isAt "~") then return ⟨none,← r.union none⟩
    else if ← isAtKind .name then r.namedParameter (← ident) takesUnions
    else if ← isAt "..." then return ⟨none,← r.dotsType⟩
    else
      let type ← r.type
      let type ← if takesUnions && (← isAt "|") then r.union type else pure type
      return ⟨none,type⟩

def plainField (names : List Ident) (type : Expr) : Field := .mk [] names type none []

/-- Parameters with names: those without a type have that of the next. -/
def namedFields? (names : List Ident) : List Parameter → Option (List Field)
  | [] => if names.isEmpty then some [] else none
  | ⟨none,_⟩::_ => none
  | ⟨some x,none⟩::ps => namedFields? (names++[x]) ps
  | ⟨some x,some t⟩::ps => (namedFields? [] ps).map (plainField (names++[x]) t::·)

def isDots : Expr → Bool
  | .dots _ _ => true
  | _ => false

/-- Only the last parameter of a function may stand for many. -/
def dotsAllowed (takesDots : Bool) : List Field → Bool
  | [] => true
  | [f] => !isDots f.type || (takesDots && f.names.length ≤ 1)
  | f::fs => !isDots f.type && dotsAllowed takesDots fs

/-- The fields for parameters. Either all have names or none has. -/
def fieldsOf? (takesUnions takesDots : Bool) (ps : List Parameter) : Option (List Field) := do
  let fields ←
    if ps.any fun p => p.name.isSome && p.type.isSome then namedFields? [] ps
    else if takesUnions && !ps.isEmpty then none
    else some (ps.filterMap fun p => (p.type.or (p.name.map .ident)).map (plainField []))
  if dotsAllowed takesDots fields then return fields else none

/-- Parameters up to the closing sign, which is left. Of the first one the name or more may be read already. -/
def parameterList (name : Option Ident) (type : Option Expr) (close : String) (takesDots : Bool) : Reading (List Field) := do
  let takesUnions := close == "]"
  let (ps,_) ← loop (fun (done,first) => do
    if done.isEmpty && first then pure () else if ← isAt close then return ((done,false),false)
    let p ←
      if first then
        match type with
        | some t => do
          let t ← if takesUnions then r.union t else pure t
          pure (⟨name,t⟩ : Parameter)
        | none => r.parameter name takesUnions
      else r.parameter none takesUnions
    let done := done++[p]
    if ← isAt "," then
      let _ ← next
      return ((done,false),true)
    else if ← isAt close then return ((done,false),false)
    else failure) (([] : List Parameter),name.isSome || type.isSome)
  match fieldsOf? takesUnions takesDots ps with
  | some fields => return fields
  | none => failure

def typeParameters : Reading FieldList := do
  let left ← expect "["
  let fields ← r.parameterList none none "]" false
  let right ← expect "]"
  if fields.isEmpty then failure
  return .mk left fields right

def parameters (takesDots : Bool) : Reading FieldList := do
  let left ← expect "("
  let fields ← r.parameterList none none ")" takesDots
  return .mk left fields (← expect ")")

def results : Reading (Option FieldList) := do
  if ← isAt "(" then return some (← r.parameters false)
  match ← r.type? with
  | some t => return some (.mk .none [plainField [] t] .none)
  | none => return none

def signature (place : Place) : Reading Signature := do
  let parameters ← r.parameters true
  return .mk place none parameters (← r.results)

def functionType : Reading Signature := do r.signature (← expect "func")

def tag : Reading (Option (Place × String)) := do
  let l ← look
  if l.kind = .string then
    let _ ← next
    return some (l.place,l.text)
  else return none

/-- The names and the type of fields that stand together, or a type that is embedded. -/
def fieldParts : Reading (List Ident × Expr) := do
  if ← isAt "*" then
    let star ← next
    return ([],.star star.place (← r.qualifiedName none))
  let x ← ident
  if ← isAt "." then return ([],← r.qualifiedName x)
  if (← isAtKind .string) || (← isAtAny [";","\x7d"]) then return ([],.ident x)
  let names ← loop (fun done => do
    if ← isAt "," then
      let _ ← next
      return (done++[← ident],true)
    else return (done,false)) [x]
  if names.length = 1 ∧ (← isAt "[") = true then
    let (name,type) ← r.arrayOrInstance x
    return (name.toList,type)
  else return (names,← r.type)

def field : Reading Field := do
  let doc := (← look).lead
  let (names,type) ← r.fieldParts
  let tag ← tag
  return .mk doc names type tag (← semicolon)

def structType : Reading Expr := do
  let place ← expect "struct"
  let left ← expect "\x7b"
  let fields ← loop (fun done => do
    if (← isAtKind .name) || (← isAt "*") then return (done++[← r.field],true) else return (done,false)) []
  return .struct place (.mk left fields (← expect "\x7d"))

def methodOrType : Reading (List Ident × Expr) := do
  match ← typeName none with
  | .ident x =>
    if ← isAt "[" then
      let left := (← next).place
      let first ← inBrackets r.expression
      let items ←
        if ← isAt "," then do
          let _ ← next
          pure (first::(← inBrackets (listed r.type "]")))
        else pure [first]
      return ([],.index (.ident x) left items (← expect "]"))
    else if ← isAt "(" then return ([x],.funcType (← r.signature .none))
    else return ([],.ident x)
  | t => if ← isAt "[" then return ([],← r.typeInstance t) else return ([],t)

def member? : Reading (Option Field) := do
  let doc := (← look).lead
  if ← isAtKind .name then
    let (names,type) ← r.methodOrType
    let type ← if names.isEmpty then r.union type else pure type
    return some (.mk doc names type none (← semicolon))
  else if ← isAt "~" then
    let type ← r.union none
    return some (.mk [] [] type none (← semicolon))
  else
    match ← r.type? with
    | none => return none
    | some t =>
      let type ← r.union t
      return some (.mk [] [] type none (← semicolon))

def interfaceType : Reading Expr := do
  let place ← expect "interface"
  let left ← expect "\x7b"
  let members ← loop (fun done => do
    match ← r.member? with
    | some f => return (done++[f],true)
    | none => return (done,false)) []
  return .interface place (.mk left members (← expect "\x7d"))

def mapType : Reading Expr := do
  let place ← expect "map"
  let _ ← expect "["
  let key ← r.type
  let _ ← expect "]"
  return .map place key (← r.type)

def chanType : Reading Expr := do
  let place := (← look).place
  if ← isAt "chan" then
    let _ ← next
    if ← isAt "<-" then
      let arrow := (← next).place
      return .chan place arrow .send (← r.type)
    else return .chan place .none .both (← r.type)
  else
    let _ ← expect "<-"
    let _ ← expect "chan"
    return .chan place place .receive (← r.type)

def typeStep : Reading (Option Expr) := do
  let l ← look
  if l.kind = .name then return some (← r.qualifiedName none)
  else if l.is "[" then return some (← r.arrayRest (← next).place none)
  else if l.is "struct" then return some (← r.structType)
  else if l.is "*" then
    let star ← next
    return some (.star star.place (← r.type))
  else if l.is "func" then return some (.funcType (← r.functionType))
  else if l.is "interface" then return some (← r.interfaceType)
  else if l.is "map" then return some (← r.mapType)
  else if l.is "chan" || l.is "<-" then return some (← r.chanType)
  else if l.is "(" then
    let left ← next
    let t ← r.type
    return some (.parens left.place t (← expect ")"))
  else return none

end Readers

end InfoObject.GoSource
