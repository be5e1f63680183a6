import InfoObject.Check.Resolve
import InfoObject.Notation.Parser

/-! The objects of a set, with the sets it names expanded in place. -/
namespace InfoObject.Check

open Model

def scopeOf (module : Option (Id .module)) : Checking Scope := do
  match module with
  | some id => pure ⟨id,(← load id).file⟩
  | none => throw .noModule

/-- A name in a set means a set if it names one, or if it names no object and begins in upper case. -/
def namesSet (m : Scope) (r : Notation.Reference) : Checking Bool := do
  match (← lookup m.id r).map Assignment.kind with
  | some .objectSet => pure true
  | some .object => pure false
  | _ => do
    let i ← build (intern r.name.name)
    pure i.isUpper

/-- An object written in a set is named after the set and its place among the elements. -/
def newElement (m : Scope) (s : SetDef) (index : Nat) (e : Notation.ElementDecl) : Checking Element := do
  let location := m.locate e.span
  match e with
  | .block b => .literal <$> build (newObjectDef m s!"{s.name}[{index}]" s.governor b location)
  | .reference r =>
    if ← namesSet m r then .set <$> build (newSetRef m r.render s.governor r location)
    else .object <$> build (newObjectRef m r.render s.governor r location)

def newElements (m : Scope) (s : SetDef) : Nat → List Notation.ElementDecl → Checking (List Element)
  | _, [] => pure []
  | index, e::rest => do
    let e ← newElement m s index e
    let rest ← newElements m s (index+1) rest
    pure (e::rest)

def readElements (s : SetDef) : Checking (Except Notation.SyntaxError Expansion) := do
  let b ← orStuck s.block .noBody
  match b.parseSet with
  | .error e => pure (.error e)
  | .ok body =>
    let m ← scopeOf s.module
    let elements ← newElements m s 0 body.elements
    pure (.ok ⟨elements,body.extensible⟩)

def expand (id : Id .setDef) : Checking (Except Notation.SyntaxError Expansion) := do
  let s ← load id
  match s.expansion with
  | some e => pure e
  | none =>
    let e ← readElements s
    save id {(← load id) with expansion := some e}
    pure e

def flattenElement (flatten : Id .setDef → Checking (List (Id .objectDef))) : Element → Checking (List (Id .objectDef))
  | .literal id => pure [id]
  | .object id => do
    let o ← resolveObject (.reference id)
    pure (if (← load o).erroneous then [] else [o])
  | .set id => do flatten (← resolveSet (.reference id))

def flattenElements (flatten : Id .setDef → Checking (List (Id .objectDef))) : List Element → Checking (List (Id .objectDef))
  | [] => pure []
  | e::rest => do
    let objects ← restoringChain (flattenElement flatten e)
    let others ← flattenElements flatten rest
    pure (objects++others)

def flattenWithin : Nat → Id .setDef → Checking (List (Id .objectDef))
  | 0, _ => throw .outOfFuel
  | fuel+1, id => do
    let s ← load id
    if s.erroneous then pure []
    else
      match ← current? s.flattening with
      | some objects => pure objects
      | none => restoringChain do
        if ← enter id s.name s.location then
          let _ ← expand id
          let objects ← flattenElements (flattenWithin fuel) (← load id).elements
          save id {(← load id) with flattening := some ⟨objects,← marker⟩}
          pure objects
        else pure []

/-- The objects of a set in the order of its elements, repetitions kept. A set that is met while it is
flattened itself contributes nothing. -/
def flatten (id : Id .setDef) : Checking (List (Id .objectDef)) := do flattenWithin (← budget) id

end InfoObject.Check
