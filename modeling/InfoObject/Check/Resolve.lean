import InfoObject.Check.Pass

/-! What names refer to in the end. Each reference is resolved once in a generation; one that is met again
during its own resolution closes a cycle and stands for nothing. -/
namespace InfoObject.Check

open Model

/-- Tells that a name has the wrong kind. What is malformed was reported where it stands. -/
def reportKind {τ : Type} (r : NameRef τ) (want got : Kind) : Checking Unit :=
  if got = .erroneous then pure ()
  else reportError (.kindMismatch r.reference.render want got) r.referenceLocation none

def reportMissing {τ : Type} (r : NameRef τ) : Checking Unit :=
  reportError (.assignmentNotFound r.reference.render) r.referenceLocation none

/-! Types -/

/-- A type name that no assignment has may be a builtin one. -/
def missingType (r : TypeRef) : Checking TypeTarget := do
  match r.reference.qualifier, BuiltinType.ofName? r.reference.name.name with
  | none, some b => pure (some b)
  | _, _ =>
    reportMissing r
    pure none

def findType (follow : Id .typeRef → Checking TypeTarget) (r : TypeRef) : Checking TypeTarget := do
  match ← lookup r.scope r.reference with
  | none => missingType r
  | some a =>
    match a.declared with
    | .type next => follow next
    | d =>
      reportKind r .type d.kind
      pure none

def typeWithin : Nat → Id .typeRef → Checking TypeTarget
  | 0, _ => throw .outOfFuel
  | fuel+1, id => do
    let r ← load id
    match ← current? r.resolution with
    | some target => pure target
    | none => restoringChain do
      let target ← if ← enter id r.name r.location then findType (typeWithin fuel) r else pure none
      save id {(← load id) with resolution := some ⟨target,← marker⟩}
      pure target

def resolveType (id : Id .typeRef) : Checking TypeTarget := do typeWithin (← budget) id

/-! Values -/

def findValue (follow : ValueExpr → Checking ValueTarget) (r : ValueRef) : Checking ValueTarget := do
  match ← lookup r.scope r.reference with
  | none =>
    reportMissing r
    pure none
  | some a =>
    match a.declared with
    | .value _ v => follow v
    | d =>
      reportKind r .value d.kind
      pure none

def valueWithin : Nat → ValueExpr → Checking ValueTarget
  | _, .literal _ _ v => pure (some v)
  | 0, .reference _ => throw .outOfFuel
  | fuel+1, .reference id => do
    let r ← load id
    match ← current? r.resolution with
    | some target => pure target
    | none => restoringChain do
      let target ← if ← enter id r.name r.location then findValue (valueWithin fuel) r else pure none
      save id {(← load id) with resolution := some ⟨target,← marker⟩}
      pure target

def resolveValue (v : ValueExpr) : Checking ValueTarget := do valueWithin (← budget) v

/-! Classes and objects, which lead to each other through the class of an object -/

def governObject (followClass : ClassExpr → Checking (Id .classDef)) (id : Id .objectDef) : Checking (Id .classDef) := do
  let c ← followClass (← load id).governor
  save id {(← load id) with objectClass := some c}
  pure c

def findClassOfObject (followClass : ClassExpr → Checking (Id .classDef))
    (followObject : ObjectExpr → Checking (Id .objectDef)) (r : ClassRef) (d : Declared) : Checking (Id .classDef) := do
  match d with
  | .object o => governObject followClass (← followObject o)
  | d =>
    reportKind r.toNameRef .object d.kind
    build (standInClass r.name r.location)

def findClass (followClass : ClassExpr → Checking (Id .classDef))
    (followObject : ObjectExpr → Checking (Id .objectDef)) (r : ClassRef) : Checking (Id .classDef) := do
  match ← lookup r.scope r.reference with
  | none =>
    reportMissing r.toNameRef
    build (standInClass r.name r.location)
  | some a =>
    if r.ofObject then findClassOfObject followClass followObject r a.declared
    else
      match a.declared with
      | .objectClass c => followClass c
      | d =>
        reportKind r.toNameRef .objectClass d.kind
        build (standInClass r.name r.location)

def classesDiffer (got expected : Id .classDef) : Checking Bool := do
  let g ← load got
  let e ← load expected
  pure (got != expected && !g.erroneous && !e.erroneous)

def reportClassMismatch {τ : Type} (r : NameRef τ) (got expected : Id .classDef) : Checking Unit := do
  reportError (.classMismatch r.reference.render (← load got).name (← load expected).name)
    r.referenceLocation none

def findObject (followClass : ClassExpr → Checking (Id .classDef))
    (followObject : ObjectExpr → Checking (Id .objectDef)) (r : ObjectRef) (expected : Id .classDef) :
    Checking (Id .objectDef) := do
  match ← lookup r.scope r.reference with
  | none =>
    reportMissing r.toNameRef
    build (standInObject r.name expected r.location)
  | some a =>
    match a.declared with
    | .object o =>
      let found ← followObject o
      if (← load found).erroneous then build (standInObject r.name expected r.location)
      else
        let got ← governObject followClass found
        if ← classesDiffer got expected then
          reportClassMismatch r.toNameRef got expected
          build (standInObject r.name expected r.location)
        else pure found
    | d =>
      reportKind r.toNameRef .object d.kind
      build (standInObject r.name expected r.location)

mutual

def classWithin : Nat → ClassExpr → Checking (Id .classDef)
  | _, .definition id => pure id
  | 0, .reference _ => throw .outOfFuel
  | fuel+1, .reference id => do
    let r ← load id
    match ← current? r.resolution with
    | some target => pure target
    | none => restoringChain do
      let target ←
        if ← enter id r.name r.location then findClass (classWithin fuel) (objectWithin fuel) r
        else build (standInClass r.name r.location)
      save id {(← load id) with resolution := some ⟨target,← marker⟩}
      pure target

def objectWithin : Nat → ObjectExpr → Checking (Id .objectDef)
  | _, .definition id => pure id
  | 0, .reference _ => throw .outOfFuel
  | fuel+1, .reference id => do
    let r ← load id
    match ← current? r.resolution with
    | some target => pure target
    | none => restoringChain do
      let expected ← classWithin fuel r.governor
      let target ←
        if ← enter id r.name r.location then findObject (classWithin fuel) (objectWithin fuel) r expected
        else build (standInObject r.name expected r.location)
      save id {(← load id) with resolution := some ⟨target,← marker⟩}
      pure target

end

def resolveClass (c : ClassExpr) : Checking (Id .classDef) := do classWithin (← budget) c

def resolveObject (o : ObjectExpr) : Checking (Id .objectDef) := do objectWithin (← budget) o

/-! Object sets -/

def governSet (id : Id .setDef) : Checking (Id .classDef) := do
  let c ← resolveClass (← load id).governor
  save id {(← load id) with setClass := some c}
  pure c

def findSet (follow : SetExpr → Checking (Id .setDef)) (r : SetRef) (expected : Id .classDef) : Checking (Id .setDef) := do
  match ← lookup r.scope r.reference with
  | none =>
    reportMissing r.toNameRef
    build (standInSet r.name expected r.location)
  | some a =>
    match a.declared with
    | .objectSet s =>
      let found ← follow s
      if (← load found).erroneous then build (standInSet r.name expected r.location)
      else
        let got ← governSet found
        if ← classesDiffer got expected then
          reportClassMismatch r.toNameRef got expected
          build (standInSet r.name expected r.location)
        else pure found
    | d =>
      reportKind r.toNameRef .objectSet d.kind
      build (standInSet r.name expected r.location)

def setWithin : Nat → SetExpr → Checking (Id .setDef)
  | _, .definition id => pure id
  | 0, .reference _ => throw .outOfFuel
  | fuel+1, .reference id => do
    let r ← load id
    match ← current? r.resolution with
    | some target => pure target
    | none => restoringChain do
      let expected ← resolveClass r.governor
      let target ←
        if ← enter id r.name r.location then findSet (setWithin fuel) r expected
        else build (standInSet r.name expected r.location)
      save id {(← load id) with resolution := some ⟨target,← marker⟩}
      pure target

def resolveSet (s : SetExpr) : Checking (Id .setDef) := do setWithin (← budget) s

end InfoObject.Check
