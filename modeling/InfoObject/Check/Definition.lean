import InfoObject.Check.Setting

/-! Checking classes, objects and object sets. Checking one may call for the check of others, and in the end of
itself; each is stamped first, so it is checked once in a generation. -/
namespace InfoObject.Check

open Model

inductive Goal where
  | objectClass (id : Id .classDef)
  | object (id : Id .objectDef)
  | objectSet (id : Id .setDef)
deriving DecidableEq, Repr

/-- A marker of an earlier generation, or none at all. -/
def isDue (checked : Marker) : Checking Bool := do pure (checked.before (← marker))

def checkClassRef (id : Id .classRef) : Checking Unit := do
  let r ← load id
  if ← isDue r.checked then
    save id {r with checked := ← marker}
    let _ ← resolveClass (.reference id)

def checkObjectRef (id : Id .objectRef) : Checking Unit := do
  let r ← load id
  if ← isDue r.checked then
    save id {r with checked := ← marker}
    let _ ← resolveObject (.reference id)

def checkSetRef (id : Id .setRef) : Checking Unit := do
  let r ← load id
  if ← isDue r.checked then
    save id {r with checked := ← marker}
    let _ ← resolveSet (.reference id)

/-- Checks that a value is one of a type. Nothing is said of what is unknown. -/
def checkValue (v : ValueExpr) (t : Id .typeRef) (location : Location) : Checking Unit := do
  let type ← resolveType t
  let value ← resolveValue v
  match type, value with
  | some type, some value =>
    if type.accepts value then pure ()
    else reportError (.valueTypeMismatch value.render type.name) location none
  | _, _ => pure ()

/-! Settings -/

variable (go : Goal → Checking Unit)

def checkHeld (s : Setting) (f : Field) : Checking Unit := do
  match s.value with
  | .type t => let _ ← resolveType t
  | .value v =>
    match f.shape with
    | .value t _ => checkValue v t s.location
    | _ => let _ ← resolveValue v
  | .object o => go (.object (← resolveObject o))
  | .set (.definition id) => go (.objectSet id)
  | .set (.reference id) => checkSetRef id

def checkSetting (s : Setting) (f : Field) : Checking Unit := do
  if f.kind ≠ .erroneous ∧ s.kind ≠ f.kind then
    let fault : Fault :=
      if isBlockSetting s then .unsupportedPayload s.name.display
      else .settingKindMismatch s.name.display f.kind s.kind
    reportError fault s.location none
  else restoringChain (checkHeld go s f)

/-! Classes -/

/-- The fields that are not the first of their name, each with the first one. -/
def duplicateFields? (c : ClassDef) : Option (List (Field × Field)) :=
  (c.fields.zipIdx.filter fun (f,i) => c.fieldIndex? f.name ≠ some i).mapM fun (f,_) => (c.field? f.name).map ((f,·))

/-- Tells of repeated fields, and once of each name where it was first declared. -/
def reportDuplicates (owner : String) : List Identifier → List (Field × Field) → Checking Unit
  | _, [] => pure ()
  | noted, (f,first)::rest => do
    if f.name ∈ noted then pure () else reportWarning (.declaredHere f.name.display) first.location
    reportError (.duplicateField f.name.display owner) f.location (some first.location)
    reportDuplicates owner (f.name::noted) rest

def loadField (owner : Id .classDef) (index : Nat) : Checking Field := do
  match (← load owner).fields[index]? with
  | some f => pure f
  | none => throw (.dangling owner.key)

def saveDefault (owner : Id .classDef) (index : Nat) (s : Setting) : Checking Unit := do
  let c ← load owner
  save owner (c.withDefault index s)

/-- The default of a field as a setting, built when it is first needed. -/
def defaultSetting (owner : Id .classDef) (index : Nat) (f : Field) (p : Notation.Payload) : Checking Setting := do
  match f.defaultSetting with
  | some s => pure s
  | none =>
    let m ← scopeOf (some f.scope)
    let s ← newSetting m s!"&{f.name.display} DEFAULT" f.name p f
    saveDefault owner index s
    pure s

def checkDefault (owner : Id .classDef) (index : Nat) (f : Field) : Checking Unit := do
  match f.declaredDefault with
  | none => pure ()
  | some p => checkSetting go (← defaultSetting owner index f p) f

def checkNotUnique (f : Field) : Checking Unit :=
  if f.declaredUnique then reportError (.uniqueNotValueField f.name.display) f.location none else pure ()

def checkField (owner : Id .classDef) (index : Nat) : Checking Unit := do
  let f ← loadField owner index
  match f.shape with
  | .type => checkNotUnique f
  | .value t _ => let _ ← resolveType t
  | .object c | .objectSet c =>
    checkNotUnique f
    let _ ← resolveClass (.reference c)
  | .malformed => reportError (.malformedField f.name.display) f.location none
  if f.isErroneous then pure () else checkDefault go owner index f

def checkFields (id : Id .classDef) (c : ClassDef) : Checking Unit := do
  reportDuplicates c.name [] (← orStuck (duplicateFields? c) .unnamed)
  (List.range c.fields.length).forM fun i => restoringChain (checkField go id i)

def checkClass (id : Id .classDef) : Checking Unit := do
  let c ← load id
  if ← isDue c.checked then
    save id (c.visited (← marker))
    if c.erroneous then pure () else checkFields go id c

/-! Objects -/

def reportUnknown (m : Scope) (c : ClassDef) (d : Notation.SettingDecl) : Checking Unit :=
  reportError (.unknownField d.name.name c.name) (m.locate d.name.span) none

def reportRepeated (m : Scope) (d : Notation.SettingDecl) : Checking Unit :=
  reportError (.duplicateSetting d.name.name) (m.locate d.span) none

/-- Checks one field of an object's class: it must be set if it is required, and set to what it holds. -/
def checkObjectField (o : ObjectDef) (settings : List Setting) (f : Field) : Checking Unit := do
  match settings.find? (·.name == f.name) with
  | some s => checkSetting go s f
  | none =>
    if f.isRequired then reportError (.missingField f.name.display o.name) o.location none else pure ()

/-- The fields of a class that no earlier field has the name of. -/
def firstFields (c : ClassDef) : List Field :=
  c.fields.zipIdx.filterMap fun (f,i) => if c.fieldIndex? f.name = some i then some f else none

def checkBody (id : Id .objectDef) (m : Scope) (classId : Id .classDef) (body : Notation.ObjectBody) : Checking Unit := do
  let o ← load id
  let c ← load classId
  let p ← partitionBody m o.name c [] body.settings
  save id {(← load id) with settings := p.settings}
  p.unknown.forM (reportUnknown m c)
  p.repeated.forM (reportRepeated m)
  (firstFields c).forM (checkObjectField go o p.settings)

def reportBody (m : Scope) (e : Notation.SyntaxError) : Checking Unit :=
  reportError (.deferredSyntax e.fault) (m.locate e.span) none

/-- Checks the class of something that a class governs; true if there is a class to go on with. -/
def checkGoverning (c : Id .classDef) : Checking Bool := do
  if (← load c).erroneous then pure false
  else
    go (.objectClass c)
    pure true

def checkObject (id : Id .objectDef) : Checking Unit := do
  let o ← load id
  if ← isDue o.checked then
    save id {o with checked := ← marker}
    if o.erroneous then pure ()
    else
      let c ← governObject resolveClass id
      if ← checkGoverning go c then
        let b ← orStuck o.block .noBody
        let m ← scopeOf o.module
        match b.parseObject with
        | .error e => reportBody m e
        | .ok body => checkBody go id m c body

/-! Object sets -/

def settingValue (id : Id .objectDef) (name : Identifier) : Checking ValueTarget := do
  match ((← load id).setting? name).map Setting.value with
  | some (.value v) => resolveValue v
  | _ => pure none

/-- Compares the values of a unique field over a list of objects; `seen` holds the first object of each value. -/
def checkUniqueField (owner : Id .classDef) (index : Nat) (f : Field) (seen : List (String × Id .objectDef)) :
    List (Id .objectDef) → Checking Unit
  | [] => pure ()
  | id::rest => do
    go (.object id)
    match ← settingValue id f.name with
    | none => checkUniqueField owner index f seen rest
    | some v =>
      match seen.lookup v.render with
      | none => checkUniqueField owner index f ((v.render,id)::seen) rest
      | some first =>
        if first = id then pure ()
        else
          let o ← load id
          reportConflict ⟨owner,index,first,id⟩
            (.duplicateUniqueValue f.name.display v.render o.name) o.location (← load first).location
        checkUniqueField owner index f seen rest

def uniqueFields (c : ClassDef) : List (Nat × Field) :=
  c.fields.zipIdx.filterMap fun (f,i) =>
    if f.uniqueType?.isSome ∧ c.fieldIndex? f.name = some i then some (i,f) else none

/-- No two objects of a set may share the value of a unique field. -/
def checkUnique (classId : Id .classDef) (objects : List (Id .objectDef)) : Checking Unit := do
  let c ← load classId
  (uniqueFields c).forM fun (i,f) => checkUniqueField go classId i f [] objects

def checkElement : Element → Checking Unit
  | .literal id => go (.object id)
  | .object id => checkObjectRef id
  | .set id => checkSetRef id

def checkElements (id : Id .setDef) (classId : Id .classDef) (e : Expansion) : Checking Unit := do
  let s ← load id
  if e.elements.isEmpty ∧ e.extensible = false then reportWarning (.emptySet s.name) s.location
  e.elements.forM fun x => restoringChain (checkElement go x)
  checkUnique go classId (← flatten id)

def checkSet (id : Id .setDef) : Checking Unit := do
  let s ← load id
  if ← isDue s.checked then
    save id {s with checked := ← marker}
    if s.erroneous then pure ()
    else
      let c ← governSet id
      if ← checkGoverning go c then
        match ← expand id with
        | .error e => reportBody (← scopeOf s.module) e
        | .ok e => checkElements go id c e

/-- One step of checking, with `go` for what it calls for. -/
def checkStep : Goal → Checking Unit
  | .objectClass id => checkClass go id
  | .object id => checkObject go id
  | .objectSet id => checkSet go id

def checkWithin : Nat → Goal → Checking Unit
  | 0, _ => throw .outOfFuel
  | fuel+1, g => checkStep (checkWithin fuel) g

def check (g : Goal) : Checking Unit := do checkWithin (← budget) g

end InfoObject.Check
