import InfoObject.Diagnostic
import InfoObject.Generation
import InfoObject.Model.Literal
import InfoObject.Name
import InfoObject.Notation.Tree

/-! The entities that modules declare. They refer to each other by numbers in the tables of a store, so an
object may name itself. -/
namespace InfoObject.Model

inductive EntityType where
  | module
  | classDef
  | classRef
  | typeRef
  | valueRef
  | objectDef
  | objectRef
  | setDef
  | setRef
deriving DecidableEq, Repr

structure Id (t : EntityType) where
  index : Nat
deriving DecidableEq, Repr

def EntityType.tag : EntityType → Nat
  | module => 0
  | classDef => 1
  | classRef => 2
  | typeRef => 3
  | valueRef => 4
  | objectDef => 5
  | objectRef => 6
  | setDef => 7
  | setRef => 8

/-- A number that no other entity of any type has. -/
def Id.key {t : EntityType} (i : Id t) : Nat := i.index*9+t.tag

theorem EntityType.tag_lt (t : EntityType) : t.tag < 9 := by
  cases t <;> decide

theorem Id.key_inj {t : EntityType} {i j : Id t} (h : i.key = j.key) : i = j := by
  cases i
  cases j
  simp only [key] at h
  simp only [mk.injEq]
  omega

structure Resolution (τ : Type) where
  target : τ
  marker : Marker
deriving Repr

/-- A name written somewhere, to be resolved in the scope of its module. The entity it introduces has a name
and place of its own, which for the value of an assignment are those of the assignment. -/
structure NameRef (τ : Type) where
  name : String
  location : Location
  reference : Notation.Reference
  scope : Id .module
  resolution : Option (Resolution τ)
deriving Repr

def NameRef.target? {τ : Type} (r : NameRef τ) : Option τ := r.resolution.map Resolution.target

def NameRef.referenceLocation {τ : Type} (r : NameRef τ) : Location :=
  ⟨r.location.file,r.reference.span⟩

abbrev TypeRef := NameRef TypeTarget
abbrev ValueRef := NameRef ValueTarget

inductive ClassExpr where
  | definition (id : Id .classDef)
  | reference (id : Id .classRef)
deriving DecidableEq, Repr

inductive ObjectExpr where
  | definition (id : Id .objectDef)
  | reference (id : Id .objectRef)
deriving DecidableEq, Repr

inductive SetExpr where
  | definition (id : Id .setDef)
  | reference (id : Id .setRef)
deriving DecidableEq, Repr

inductive ValueExpr where
  | literal (name : String) (location : Location) (value : Literal)
  | reference (id : Id .valueRef)
deriving DecidableEq, Repr

/-- The name of a class, or of an object whose class is meant. -/
structure ClassRef extends NameRef (Id .classDef) where
  ofObject : Bool
  checked : Marker
deriving Repr

/-- The name of an object, where an object of the governing class is expected. -/
structure ObjectRef extends NameRef (Id .objectDef) where
  governor : ClassExpr
  checked : Marker
deriving Repr

structure SetRef extends NameRef (Id .setDef) where
  governor : ClassExpr
  checked : Marker
deriving Repr

inductive SettingValue where
  | type (id : Id .typeRef)
  | value (v : ValueExpr)
  | object (o : ObjectExpr)
  | set (s : SetExpr)
deriving DecidableEq, Repr

structure Setting where
  name : Identifier
  location : Location
  value : SettingValue
deriving Repr

def Setting.kind (s : Setting) : FieldKind :=
  match s.value with
  | .type _ => .type
  | .value _ => .value
  | .object _ => .object
  | .set _ => .objectSet

inductive FieldShape where
  | type
  | value (type : Id .typeRef) (unique : Bool)
  | object (governor : Id .classRef)
  | objectSet (governor : Id .classRef)
  | malformed
deriving DecidableEq, Repr

def FieldShape.kind : FieldShape → FieldKind
  | type => .type
  | value _ _ => .value
  | object _ => .object
  | objectSet _ => .objectSet
  | malformed => .erroneous

structure Field where
  name : Identifier
  location : Location
  shape : FieldShape
  declaredOptional : Bool
  declaredUnique : Bool
  declaredDefault : Option Notation.Payload
  scope : Id .module
  /-- Built from the declared default when the field is first checked, and kept. -/
  defaultSetting : Option Setting
deriving Repr

def Field.kind (f : Field) : FieldKind := f.shape.kind
def Field.isErroneous (f : Field) : Bool := f.shape == .malformed
def Field.isOptional (f : Field) : Bool := f.isErroneous || f.declaredOptional
def Field.hasDefault (f : Field) : Bool := !f.isErroneous && f.declaredDefault.isSome

def Field.isRequired (f : Field) : Bool := !f.isOptional && !f.hasDefault

def Field.uniqueType? (f : Field) : Option (Id .typeRef) :=
  match f.shape with
  | .value type true => some type
  | _ => none

/-- The places of fields by name. A name that is met again keeps its first place. -/
def indexNames (names : List Identifier) : List (Identifier × Nat) :=
  names.zipIdx.foldl (fun t (name,i) => if (t.lookup name).isSome then t else (name,i)::t) []

structure ClassDef where
  name : String
  location : Location
  erroneous : Bool
  checked : Marker
  module : Option (Id .module)
  fields : List Field
  /-- Built when a field is first looked for, and again by each check. -/
  index : Option (List (Identifier × Nat))
  indexed : ∀ t ∈ index, t = indexNames (fields.map Field.name)
deriving Repr

namespace ClassDef

def reindex (c : ClassDef) : ClassDef :=
  {c with index := some (indexNames (c.fields.map Field.name)), indexed := fun _ h => (Option.some.inj h).symm}

/-- The class as a search for a field leaves it. -/
def searched (c : ClassDef) : ClassDef := if c.index.isSome then c else c.reindex

def fieldIndex? (c : ClassDef) (name : Identifier) : Option Nat := c.searched.index.bind (·.lookup name)

/-- Of fields with one name, the first declared. -/
def field? (c : ClassDef) (name : Identifier) : Option Field := (c.fieldIndex? name).bind (c.fields[·]?)

/-- The class as a check of it begins. A stand-in has no fields to look for. -/
def visited (c : ClassDef) (now : Marker) : ClassDef :=
  { c with checked := now, index := if c.erroneous then c.index else c.reindex.index
           indexed := by split <;> exact indexed _}

/-- The class with the default of a field as a setting. -/
def withDefault (c : ClassDef) (n : Nat) (s : Setting) : ClassDef :=
  { c with fields := c.fields.modify n fun f => {f with defaultSetting := some s}
           indexed := by
             have hnames : (c.fields.modify n fun f => {f with defaultSetting := some s}).map Field.name = c.fields.map Field.name := by
               refine List.ext_getElem? fun i => ?_
               rw [List.getElem?_map,List.getElem?_modify,List.getElem?_map]
               split <;> cases c.fields[i]? <;> rfl
             exact hnames ▸ c.indexed}

end ClassDef

/-- An object written as a body, or a stand-in for one that could not be found. -/
structure ObjectDef where
  name : String
  location : Location
  erroneous : Bool
  checked : Marker
  module : Option (Id .module)
  governor : ClassExpr
  objectClass : Option (Id .classDef)
  block : Option Notation.RawBlock
  /-- The settings of known fields, in the order written, as of the last check that built them. -/
  settings : List Setting
deriving Repr

def ObjectDef.setting? (o : ObjectDef) (name : Identifier) : Option Setting :=
  o.settings.find? (·.name == name)

inductive Element where
  | literal (id : Id .objectDef)
  | object (id : Id .objectRef)
  | set (id : Id .setRef)
deriving DecidableEq, Repr

structure Expansion where
  elements : List Element
  extensible : Bool
deriving Repr

structure SetDef where
  name : String
  location : Location
  erroneous : Bool
  checked : Marker
  module : Option (Id .module)
  governor : ClassExpr
  setClass : Option (Id .classDef)
  block : Option Notation.RawBlock
  expansion : Option (Except Notation.SyntaxError Expansion)
  flattening : Option (Resolution (List (Id .objectDef)))
deriving Repr

def SetDef.elements (s : SetDef) : List Element :=
  match s.expansion with
  | some (.ok e) => e.elements
  | _ => []

def SetDef.extensible (s : SetDef) : Bool :=
  match s.expansion with
  | some (.ok e) => e.extensible
  | _ => false

def SetDef.objects (s : SetDef) : List (Id .objectDef) :=
  s.flattening.elim [] Resolution.target

inductive Declared where
  | malformed
  | objectClass (c : ClassExpr)
  | object (o : ObjectExpr)
  | objectSet (s : SetExpr)
  | type (t : Id .typeRef)
  | value (t : Id .typeRef) (v : ValueExpr)
deriving DecidableEq, Repr

def Declared.kind : Declared → Kind
  | malformed => .erroneous
  | objectClass _ => .objectClass
  | object _ => .object
  | objectSet _ => .objectSet
  | type _ => .type
  | value _ _ => .value

structure Assignment where
  node : Notation.Assignment
  identifier : Identifier
  location : Location
  module : Id .module
  declared : Declared
  checked : Marker
deriving Repr

def Assignment.kind (a : Assignment) : Kind := a.declared.kind

structure ImportedName where
  name : Identifier
  source : Identifier
  span : Span
  used : Marker
deriving Repr

structure Module where
  node : Notation.Module
  name : Identifier
  assignments : List Assignment
  imports : List ImportedName
deriving Repr

def Module.file (m : Module) : String := m.node.file
def Module.locate (m : Module) (span : Span) : Location := ⟨m.file,span⟩

/-- Of assignments to one name, the first. -/
def Module.find? (m : Module) (name : Identifier) : Option Assignment :=
  m.assignments.find? (·.identifier == name)

/-- Definitions are what can be emitted: references are not. -/
inductive Definition where
  | objectClass (id : Id .classDef)
  | object (id : Id .objectDef)
  | objectSet (id : Id .setDef)
deriving DecidableEq, Repr

def Assignment.definition? (a : Assignment) : Option Definition :=
  match a.declared with
  | .objectClass (.definition c) => some (.objectClass c)
  | .object (.definition o) => some (.object o)
  | .objectSet (.definition s) => some (.objectSet s)
  | _ => none

def Module.definitions (m : Module) : List Definition := m.assignments.filterMap Assignment.definition?

end InfoObject.Model
