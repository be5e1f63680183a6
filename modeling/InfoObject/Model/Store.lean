import InfoObject.Model.Entity

/-! The tables of all entities of a project, with its names and the modules it keeps. -/
namespace InfoObject.Model

/-- The modules in use, in the order in which their names were first added, and each by its name. -/
structure Shelf where
  modules : List (Id .module)
  byName : List (Identifier × Id .module)
deriving Repr

namespace Shelf

instance : Membership (Id .module) Shelf := ⟨fun s i => i ∈ s.modules⟩

/-- A name leads to a module from now on, whatever it led to before. -/
def enter (s : Shelf) (name : Identifier) (i : Id .module) : List (Identifier × Id .module) :=
  (name,i)::s.byName.filter (·.1 ≠ name)

def append (s : Shelf) (name : Identifier) (i : Id .module) : Shelf := ⟨s.modules++[i],s.enter name i⟩

/-- Puts a module in the place of an earlier one, if that one is there. -/
def replace? (s : Shelf) (name : Identifier) (previous i : Id .module) : Option Shelf :=
  (s.modules.idxOf? previous).map fun n => ⟨s.modules.set n i,s.enter name i⟩

end Shelf

structure Store where
  registry : Registry
  modules : Array Module
  classes : Array ClassDef
  classRefs : Array ClassRef
  typeRefs : Array TypeRef
  valueRefs : Array ValueRef
  objects : Array ObjectDef
  objectRefs : Array ObjectRef
  sets : Array SetDef
  setRefs : Array SetRef
  kept : Shelf
deriving Repr

def Store.empty : Store := ⟨Registry.empty,#[],#[],#[],#[],#[],#[],#[],#[],#[],⟨[],[]⟩⟩

/-- Entities of type `t` are values of `α`, and have a table. -/
class Stored (t : EntityType) (α : outParam Type) where
  rows : Store → Array α
  withRows : Store → Array α → Store

instance : Stored .module Module := ⟨Store.modules,fun s r => {s with modules := r}⟩
instance : Stored .classDef ClassDef := ⟨Store.classes,fun s r => {s with classes := r}⟩
instance : Stored .classRef ClassRef := ⟨Store.classRefs,fun s r => {s with classRefs := r}⟩
instance : Stored .typeRef TypeRef := ⟨Store.typeRefs,fun s r => {s with typeRefs := r}⟩
instance : Stored .valueRef ValueRef := ⟨Store.valueRefs,fun s r => {s with valueRefs := r}⟩
instance : Stored .objectDef ObjectDef := ⟨Store.objects,fun s r => {s with objects := r}⟩
instance : Stored .objectRef ObjectRef := ⟨Store.objectRefs,fun s r => {s with objectRefs := r}⟩
instance : Stored .setDef SetDef := ⟨Store.sets,fun s r => {s with sets := r}⟩
instance : Stored .setRef SetRef := ⟨Store.setRefs,fun s r => {s with setRefs := r}⟩

namespace Store

variable {t : EntityType} {α : Type} [Stored t α]

def get? (s : Store) (i : Id t) : Option α := (Stored.rows t s)[i.index]?

def put (s : Store) (i : Id t) (a : α) : Store :=
  Stored.withRows t s ((Stored.rows t s).setIfInBounds i.index a)

def add (s : Store) (a : α) : Id t × Store :=
  (⟨(Stored.rows t s).size⟩,Stored.withRows t s ((Stored.rows t s).push a))

def size (s : Store) : Nat :=
  s.modules.size+s.classes.size+s.classRefs.size+s.typeRefs.size+s.valueRefs.size +
    s.objects.size+s.objectRefs.size+s.sets.size+s.setRefs.size

def keptModules (s : Store) : List Module := s.kept.modules.filterMap (s.get? ·)

def moduleNamed? (s : Store) (name : Identifier) : Option (Id .module) := s.kept.byName.lookup name

def intern (s : Store) (name : String) : Identifier × Store :=
  let (i,r) := s.registry.intern name .asn
  (i,{s with registry := r})

/-- What a module assigns to a name, if there is such a module. There is no answer if the number of the module leads
nowhere. -/
def findIn? (s : Store) (module name : Identifier) : Option (Option Assignment) :=
  match s.moduleNamed? module with
  | none => some none
  | some i => (s.get? i).map (·.find? name)

end Store

/-- Marks the first import of a name as used, and gives the module it comes from. -/
def useImport (name : Identifier) (marker : Marker) : List ImportedName → Option (Identifier × List ImportedName)
  | [] => none
  | i::rest =>
    if i.name = name then some (i.source,{i with used := marker}::rest)
    else (useImport name marker rest).map fun (source,rest) => (source,i::rest)

namespace Store

/-- What an unqualified name means in a module: a name of its own, or else one that it imports. -/
def lookupUnqualified? (s : Store) (scope : Id .module) (m : Module) (name : Identifier) (marker : Marker) :
    Option (Option Assignment × Store) :=
  match m.find? name with
  | some a => some (some a,s)
  | none =>
    match useImport name marker m.imports with
    | none => some (none,s)
    | some (source,imports) => (s.findIn? source name).map ((·,s.put scope {m with imports}))

/-- What a reference means in a module. A name that was never registered means nothing. -/
def lookup? (s : Store) (scope : Id .module) (r : Notation.Reference) (marker : Marker) :
    Option (Option Assignment × Store) := do
  let m ← s.get? scope
  match s.registry.lookup r.name.name .asn with
  | none => some (none,s)
  | some name =>
    match r.qualifier with
    | none => s.lookupUnqualified? scope m name marker
    | some q =>
      match s.registry.lookup q.name .asn with
      | none => some (none,s)
      | some module => (s.findIn? module name).map ((·,s))

end Store

end InfoObject.Model
