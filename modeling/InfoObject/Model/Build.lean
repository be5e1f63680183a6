import InfoObject.Model.Store

/-! Entities from the tree of a module. Names are registered in the order in which they are met. -/
namespace InfoObject.Model

abbrev Build := StateM Store

def intern (name : String) : Build Identifier := fun s => s.intern name

def alloc {t : EntityType} {α : Type} [Stored t α] (a : α) : Build (Id t) := fun s => s.add a

structure Scope where
  id : Id .module
  file : String

def Scope.locate (m : Scope) (span : Span) : Location := ⟨m.file,span⟩

def isBuiltinType (r : Notation.Reference) : Bool :=
  r.qualifier.isNone && (BuiltinType.ofName? r.name.name).isSome

def isClassName (r : Notation.Reference) : Build Bool := do
  let i ← intern r.name.name
  pure (i.isAllUpper && !isBuiltinType r)

def newNameRef {τ : Type} (m : Scope) (name : String) (r : Notation.Reference) (location : Location) : NameRef τ :=
  ⟨name,location,r,m.id,none⟩

def newTypeRef (m : Scope) (name : String) (r : Notation.Reference) (location : Location) : Build (Id .typeRef) :=
  alloc (newNameRef m name r location : TypeRef)

def newClassRef (m : Scope) (name : String) (r : Notation.Reference) (ofObject : Bool)
    (location : Location) : Build (Id .classRef) :=
  alloc {newNameRef m name r location with ofObject, checked := Marker.zero : ClassRef}

def newGovernor (m : Scope) (r : Notation.Reference) : Build (Id .classRef) :=
  newClassRef m r.render r false (m.locate r.span)

def newGovernorType (m : Scope) (r : Notation.Reference) : Build (Id .typeRef) :=
  newTypeRef m r.render r (m.locate r.span)

def newObjectDef (m : Scope) (name : String) (governor : ClassExpr) (block : Notation.RawBlock)
    (location : Location) : Build (Id .objectDef) :=
  alloc { name, location, erroneous := false, checked := Marker.zero, module := some m.id, governor,
          objectClass := none, block := some block, settings := [] : ObjectDef}

def newObjectRef (m : Scope) (name : String) (governor : ClassExpr) (r : Notation.Reference)
    (location : Location) : Build (Id .objectRef) :=
  alloc {newNameRef m name r location with governor, checked := Marker.zero : ObjectRef}

def newSetDef (m : Scope) (name : String) (governor : ClassExpr) (block : Notation.RawBlock)
    (location : Location) : Build (Id .setDef) :=
  alloc { name, location, erroneous := false, checked := Marker.zero, module := some m.id, governor,
          setClass := none, block := some block, expansion := none, flattening := none : SetDef}

def newSetRef (m : Scope) (name : String) (governor : ClassExpr) (r : Notation.Reference)
    (location : Location) : Build (Id .setRef) :=
  alloc {newNameRef m name r location with governor, checked := Marker.zero : SetRef}

/-! Stand-ins for what could not be found -/

def standInClass (name : String) (location : Location) : Build (Id .classDef) :=
  alloc { name, location, erroneous := true, checked := Marker.zero, module := none, fields := [],
          index := none, indexed := nofun : ClassDef}

def standInObject (name : String) (objectClass : Id .classDef) (location : Location) : Build (Id .objectDef) :=
  alloc { name, location, erroneous := true, checked := Marker.zero, module := none,
          governor := .definition objectClass, objectClass := some objectClass, block := none,
          settings := [] : ObjectDef}

def standInSet (name : String) (setClass : Id .classDef) (location : Location) : Build (Id .setDef) :=
  alloc { name, location, erroneous := true, checked := Marker.zero, module := none,
          governor := .definition setClass, setClass := some setClass, block := none,
          expansion := some (.ok ⟨[],false⟩), flattening := none : SetDef}

/-! Values -/

/-- The words that are values wherever they stand without a module. -/
def keywordLiteral? : String → Option Literal
  | "TRUE" => some (.boolean true)
  | "FALSE" => some (.boolean false)
  | "NULL" => some .null
  | _ => none

def referenceLiteral? (r : Notation.Reference) : Option Literal :=
  if r.qualifier.isNone then keywordLiteral? r.name.name else none

/-- A value from a literal or a reference. A body is none. -/
def newValue (m : Scope) (name : String) (p : Notation.Payload) (location : Location) : Build (Option ValueExpr) :=
  match p with
  | .int l => pure (some (.literal name location (.integer l.value)))
  | .text l => pure (some (.literal name location (.text l.content)))
  | .block _ => pure none
  | .reference r =>
    match referenceLiteral? r with
    | some v => pure (some (.literal name location v))
    | none => do
      let id ← alloc (newNameRef m name r location : ValueRef)
      pure (some (.reference id))

/-! Classes -/

def fieldShape (m : Scope) (name : Identifier) (f : Notation.FieldDecl) : Build FieldShape :=
  match f.governor with
  | none => pure (if name.isUpper then .type else .malformed)
  | some g => do
    if ← isClassName g then
      let c ← newGovernor m g
      pure (if name.isUpper then .objectSet c else .object c)
    else if name.isUpper then pure .malformed
    else
      let t ← newGovernorType m g
      pure (.value t f.unique)

def newField (m : Scope) (f : Notation.FieldDecl) : Build Field := do
  let name ← intern f.name.name
  let shape ← fieldShape m name f
  pure { name, location := m.locate f.span, shape, declaredOptional := f.optional,
         declaredUnique := f.unique, declaredDefault := f.default, scope := m.id,
         defaultSetting := none}

def newClassDef (m : Scope) (name : String) (fields : List Notation.FieldDecl) (location : Location) :
    Build (Id .classDef) := do
  let fields ← fields.mapM (newField m)
  alloc { name, location, erroneous := false, checked := Marker.zero, module := some m.id, fields,
          index := none, indexed := nofun : ClassDef}

/-! Assignments -/

/-- An assignment without a governor names a class or a type. -/
def declareUngoverned (m : Scope) (name : String) (i : Identifier) (location : Location) : Notation.Payload → Build Declared
  | .reference r => do
    if i.isAllUpper && !isBuiltinType r then
      let c ← newClassRef m name r false location
      pure (.objectClass (.reference c))
    else if i.isUpper then
      let t ← newTypeRef m name r location
      pure (.type t)
    else pure .malformed
  | _ => pure .malformed

def declareOfClass (m : Scope) (name : String) (i : Identifier) (location : Location)
    (governor : ClassExpr) : Notation.Payload → Build Declared
  | .block b =>
    if i.isUpper then (.objectSet ∘ .definition) <$> newSetDef m name governor b location
    else (.object ∘ .definition) <$> newObjectDef m name governor b location
  | .reference r =>
    if i.isUpper then (.objectSet ∘ .reference) <$> newSetRef m name governor r location
    else (.object ∘ .reference) <$> newObjectRef m name governor r location
  | _ => pure .malformed

def declareOfType (m : Scope) (name : String) (i : Identifier) (location : Location)
    (governor : Notation.Reference) (p : Notation.Payload) : Build Declared := do
  if i.isUpper then pure .malformed
  else
    match ← newValue m name p location with
    | none => pure .malformed
    | some v =>
      let t ← newGovernorType m governor
      pure (.value t v)

def declare (m : Scope) (i : Identifier) (a : Notation.Assignment) : Build Declared := do
  let name := a.name.name
  let location := m.locate a.name.span
  match a.value, a.governor with
  | .classBody fields _, _ => (.objectClass ∘ .definition) <$> newClassDef m name fields location
  | .classOf object _, _ => (.objectClass ∘ .reference) <$> newClassRef m name object true location
  | .payload p, none => declareUngoverned m name i location p
  | .payload p, some g =>
    if ← isClassName g then
      let c ← newGovernor m g
      declareOfClass m name i location (.reference c) p
    else declareOfType m name i location g p

def newAssignment (m : Scope) (a : Notation.Assignment) : Build Assignment := do
  let i ← intern a.name.name
  let declared ← declare m i a
  pure { node := a, identifier := i, location := m.locate a.name.span, module := m.id, declared,
         checked := Marker.zero}

def newImports (i : Notation.Import) : Build (List ImportedName) := do
  let source ← intern i.source.name
  i.names.mapM fun n => do
    let name ← intern n.name
    pure ⟨name,source,n.span,Marker.zero⟩

/-- Builds the entities of a module, which gets the next free number. -/
def newModule (node : Notation.Module) : Build (Id .module) := do
  let name ← intern node.name.name
  let id ← alloc ({node, name, assignments := [], imports := []} : Module)
  let m : Scope := ⟨id,node.file⟩
  let imports ← node.imports.mapM newImports
  let assignments ← node.assignments.mapM (newAssignment m)
  modify fun s => s.put id {node, name, assignments, imports := imports.flatten}
  pure id

end InfoObject.Model
