import InfoObject.Check.Flatten

/-! Settings of fields: what kind of setting a payload is, and the entities it introduces. -/
namespace InfoObject.Check

open Model

def settingKind? : Kind → Option FieldKind
  | .type => some .type
  | .value => some .value
  | .object => some .object
  | .objectSet => some .objectSet
  | _ => none

/-- The kind of setting that a name without an assignment makes: builtin types and value words are known, the
word for both being read as the field wants it. -/
def unassignedKind (r : Notation.Reference) (fallback : FieldKind) : FieldKind :=
  if r.qualifier.isSome then fallback
  else
    let builtin := (BuiltinType.ofName? r.name.name).isSome
    if builtin ∧ fallback = .type then .type
    else if (keywordLiteral? r.name.name).isSome then .value
    else if builtin then .type
    else fallback

def classifyReference (m : Scope) (r : Notation.Reference) (fallback : FieldKind) : Checking FieldKind := do
  match ← lookup m.id r with
  | some a => pure ((settingKind? a.kind).getD fallback)
  | none => pure (unassignedKind r fallback)

/-- The class that governs what a field holds; for a field that holds neither an object nor a set there is a
stand-in. -/
def fieldGovernor (f : Field) (location : Location) : Build ClassExpr :=
  match f.shape with
  | .object c => pure (.reference c)
  | .objectSet c => pure (.reference c)
  | _ => .definition <$> standInClass f.name.display location

def referenceSetting (m : Scope) (f : Field) (r : Notation.Reference) (location : Location) : FieldKind → Build SettingValue
  | .type => .type <$> newTypeRef m r.render r location
  | .object => do
    let g ← fieldGovernor f location
    (.object ∘ .reference) <$> newObjectRef m r.render g r location
  | .objectSet => do
    let g ← fieldGovernor f location
    (.set ∘ .reference) <$> newSetRef m r.render g r location
  | _ =>
    match referenceLiteral? r with
    | some v => pure (.value (.literal r.render location v))
    | none => (.value ∘ .reference) <$> alloc (newNameRef m r.render r location : ValueRef)

def blockSetting (m : Scope) (f : Field) (display : String) (b : Notation.RawBlock) (location : Location) :
    Build SettingValue := do
  let g ← fieldGovernor f location
  if f.kind = .objectSet then (.set ∘ .definition) <$> newSetDef m display g b location
  else (.object ∘ .definition) <$> newObjectDef m display g b location

/-- The setting of a field by a payload. What is written in place is named after the owner and the field. -/
def newSetting (m : Scope) (owner : String) (name : Identifier) (p : Notation.Payload) (f : Field) : Checking Setting := do
  let location := m.locate p.span
  let display := s!"{owner}.&{name.display}"
  let value ←
    match p with
    | .int l => pure (.value (.literal display location (.integer l.value)))
    | .text l => pure (.value (.literal display location (.text l.content)))
    | .block b => build (blockSetting m f display b location)
    | .reference r => do
      let kind ← classifyReference m r f.kind
      build (referenceSetting m f r location kind)
  pure ⟨name,location,value⟩

def isBlockSetting (s : Setting) : Bool :=
  match s.value with
  | .object (.definition _) => true
  | .set (.definition _) => true
  | _ => false

/-- The parts of an object body: what sets a field of the class for the first time, what sets one again, and
what names no field. -/
structure Partition where
  settings : List Setting
  repeated : List Notation.SettingDecl
  unknown : List Notation.SettingDecl

/-- Sorts the settings of a body; `done` holds the settings so far, the latest first. -/
def partitionBody (m : Scope) (owner : String) (c : ClassDef) (done : List Setting) :
    List Notation.SettingDecl → Checking Partition
  | [] => pure ⟨done.reverse,[],[]⟩
  | d::rest => do
    let name ← build (intern d.name.name)
    if done.any (·.name == name) then
      let p ← partitionBody m owner c done rest
      pure {p with repeated := d::p.repeated}
    else
      match c.field? name with
      | none =>
        let p ← partitionBody m owner c done rest
        pure {p with unknown := d::p.unknown}
      | some f =>
        let s ← newSetting m owner name d.payload f
        partitionBody m owner c (s::done) rest

end InfoObject.Check
