import InfoObject.Proofs.Run

/-! The parts of an entity that no check changes, and how the entities that a check builds look. -/
namespace InfoObject.Model

/-! Entities without what checks leave in them -/

def NameRef.bare {τ : Type} (r : NameRef τ) : NameRef τ := {r with resolution := none}

def ClassRef.bare (r : ClassRef) : ClassRef := {r with resolution := none, checked := Marker.zero}

def ObjectRef.bare (r : ObjectRef) : ObjectRef := {r with resolution := none, checked := Marker.zero}

def SetRef.bare (r : SetRef) : SetRef := {r with resolution := none, checked := Marker.zero}

def ObjectDef.bare (o : ObjectDef) : ObjectDef :=
  {o with checked := Marker.zero, objectClass := none, settings := []}

def SetDef.bare (d : SetDef) : SetDef :=
  {d with checked := Marker.zero, setClass := none, expansion := none, flattening := none}

def Field.bare (f : Field) : Field := {f with defaultSetting := none}

def ClassDef.bare (c : ClassDef) : ClassDef :=
  {c with checked := Marker.zero, fields := c.fields.map Field.bare, index := none, indexed := nofun}

def Assignment.bare (a : Assignment) : Assignment := {a with checked := Marker.zero}

def ImportedName.bare (i : ImportedName) : ImportedName := {i with used := Marker.zero}

def Module.bare (m : Module) : Module :=
  {m with assignments := m.assignments.map Assignment.bare, imports := m.imports.map ImportedName.bare}

section Bare

theorem NameRef.bare_eq_iff {r r' : NameRef τ} : r'.bare = r.bare ↔ r'.name = r.name ∧ r'.location = r.location ∧
    r'.reference = r.reference ∧ r'.scope = r.scope := by
  simp [bare]

theorem ClassRef.bare_eq_iff {r r' : ClassRef} : r'.bare = r.bare ↔
    r'.toNameRef.bare = r.toNameRef.bare ∧ r'.ofObject = r.ofObject := by
  simp [bare,NameRef.bare]

theorem ObjectRef.bare_eq_iff {r r' : ObjectRef} : r'.bare = r.bare ↔
    r'.toNameRef.bare = r.toNameRef.bare ∧ r'.governor = r.governor := by
  simp [bare,NameRef.bare]

theorem SetRef.bare_eq_iff {r r' : SetRef} : r'.bare = r.bare ↔
    r'.toNameRef.bare = r.toNameRef.bare ∧ r'.governor = r.governor := by
  simp [bare,NameRef.bare]

theorem ObjectDef.bare_eq_iff {o o' : ObjectDef} : o'.bare = o.bare ↔
    o'.name = o.name ∧ o'.location = o.location ∧ o'.erroneous = o.erroneous ∧ o'.module = o.module ∧
      o'.governor = o.governor ∧ o'.block = o.block := by
  simp [bare]

theorem SetDef.bare_eq_iff {d d' : SetDef} : d'.bare = d.bare ↔
    d'.name = d.name ∧ d'.location = d.location ∧ d'.erroneous = d.erroneous ∧ d'.module = d.module ∧
      d'.governor = d.governor ∧ d'.block = d.block := by
  simp [bare]

theorem Field.bare_eq_iff {f f' : Field} : f'.bare = f.bare ↔ f'.name = f.name ∧ f'.location = f.location ∧ f'.shape = f.shape ∧
      f'.declaredOptional = f.declaredOptional ∧ f'.declaredUnique = f.declaredUnique ∧
      f'.declaredDefault = f.declaredDefault ∧ f'.scope = f.scope := by
  simp [bare]

theorem ClassDef.bare_eq_iff {c c' : ClassDef} : c'.bare = c.bare ↔
    c'.name = c.name ∧ c'.location = c.location ∧ c'.erroneous = c.erroneous ∧ c'.module = c.module ∧
      c'.fields.map Field.bare = c.fields.map Field.bare := by
  simp [bare]

theorem ClassDef.withDefault_bare (c : ClassDef) (n : Nat) (s : Setting) : (c.withDefault n s).bare = c.bare := by
  refine bare_eq_iff.mpr ⟨rfl,rfl,rfl,rfl,List.ext_getElem? fun k => ?_⟩
  simp only [withDefault,List.getElem?_map,List.getElem?_modify]
  split <;> cases c.fields[k]? <;> rfl

theorem Assignment.bare_eq_iff {a a' : Assignment} : a'.bare = a.bare ↔
    a'.node = a.node ∧ a'.identifier = a.identifier ∧ a'.location = a.location ∧ a'.module = a.module ∧
      a'.declared = a.declared := by
  simp [bare]

theorem ImportedName.bare_eq_iff {i i' : ImportedName} : i'.bare = i.bare ↔
    i'.name = i.name ∧ i'.source = i.source ∧ i'.span = i.span := by
  simp [bare]

theorem Module.bare_eq_iff {m m' : Module} : m'.bare = m.bare ↔ m'.node = m.node ∧ m'.name = m.name ∧
      m'.assignments.map Assignment.bare = m.assignments.map Assignment.bare ∧
      m'.imports.map ImportedName.bare = m.imports.map ImportedName.bare := by
  simp [bare]

theorem scope_of_bare {r r' : NameRef τ} (h : r'.bare = r.bare) : r'.scope = r.scope :=
  (NameRef.bare_eq_iff.mp h).2.2.2

theorem Module.file_of_bare {m n : Module} (h : m.bare = n.bare) : m.file = n.file :=
  congrArg (fun x => x.file) (Module.bare_eq_iff.mp h).1

theorem exists_of_map_eq {f : α → β} {l l' : List α} (h : l.map f = l'.map f) (hx : x ∈ l) : ∃ y ∈ l', f x = f y := by
  obtain ⟨y,hy,he⟩ := List.mem_map.mp (h ▸ List.mem_map_of_mem (f := f) hx)
  exact ⟨y,hy,he.symm⟩

theorem mem_fields_of_bare {c d : ClassDef} (h : d.bare = c.bare) (hg : g ∈ d.fields) : ∃ f ∈ c.fields, g.bare = f.bare :=
  exists_of_map_eq (ClassDef.bare_eq_iff.mp h).2.2.2.2 hg

theorem mem_assignments_of_bare {m n : Module} (h : n.bare = m.bare) (hb : b ∈ n.assignments) : ∃ a ∈ m.assignments,
    b.bare = a.bare :=
  exists_of_map_eq (Module.bare_eq_iff.mp h).2.2.1 hb

theorem mem_imports_of_bare {m n : Module} (h : n.bare = m.bare) (hy : y ∈ n.imports) : ∃ x ∈ m.imports, y.bare = x.bare :=
  exists_of_map_eq (Module.bare_eq_iff.mp h).2.2.2 hy

end Bare

/-! Fields by name -/

theorem lookup_enterNames {names : List Identifier} {t : List (Identifier × Nat)} {k : Nat} : ((names.zipIdx k).foldl
    (fun t x => if (t.lookup x.1).isSome then t else x::t) t).lookup n =
      (t.lookup n).or ((names.findIdx? (· == n)).map (·+k)) := by
  induction names generalizing t k with
  | nil => simp
  | cons x names ih =>
    rw [List.zipIdx_cons,List.foldl_cons,ih,List.findIdx?_cons]
    by_cases hx : x = n
    · subst hx
      cases hl : t.lookup x <;> simp [hl]
    · have hn : (n == x) = false := by simpa using Ne.symm hx
      have hplace : ((names.findIdx? (· == n)).map (·+(k+1))) = (((names.findIdx? (· == n)).map (·+1)).map (·+k)) := by
        rw [Option.map_map]
        congr 1
        funext i
        simp only [Function.comp]
        omega
      split <;> simp [hx,hn,hplace,List.lookup_cons]

/-- The index of a class leads to the first field of each name. -/
theorem ClassDef.fieldIndex?_eq (c : ClassDef) (n : Identifier) : c.fieldIndex? n = c.fields.findIdx? (·.name == n) := by
  have hnames : ∀ t ∈ c.searched.index, t = indexNames (c.fields.map Field.name) := by
    unfold searched
    split
    · exact c.indexed
    · exact c.reindex.indexed
  obtain ⟨t,ht⟩ : ∃ t, c.searched.index = some t := by
    unfold searched
    split
    · exact Option.isSome_iff_exists.mp ‹_›
    · exact ⟨_,rfl⟩
  rw [fieldIndex?,ht,Option.bind_some,hnames t ht,indexNames,lookup_enterNames,List.findIdx?_map]
  simp [Function.comp_def]

theorem ClassDef.field?_eq (c : ClassDef) (n : Identifier) : c.field? n = c.fields.find? (·.name == n) := by
  rw [field?,fieldIndex?_eq,List.find?_eq_bind_findIdx?_getElem?]

theorem mem_fields_of_field? {c : ClassDef} (h : c.field? n = some f) : f ∈ c.fields :=
  List.mem_of_find?_eq_some (c.field?_eq n ▸ h)

/-! Entities as they are built -/

def typeRefRow (m : Scope) (name : String) (r : Notation.Reference) (l : Location) : TypeRef :=
  newNameRef m name r l

def valueRefRow (m : Scope) (name : String) (r : Notation.Reference) (l : Location) : ValueRef :=
  newNameRef m name r l

def objectRow (m : Scope) (name : String) (g : ClassExpr) (b : Notation.RawBlock) (l : Location) : ObjectDef :=
  { name, location := l, erroneous := false, checked := Marker.zero, module := some m.id, governor := g,
    objectClass := none, block := some b, settings := []}

def objectRefRow (m : Scope) (name : String) (g : ClassExpr) (r : Notation.Reference) (l : Location) : ObjectRef :=
  {newNameRef m name r l with governor := g, checked := Marker.zero}

def setRow (m : Scope) (name : String) (g : ClassExpr) (b : Notation.RawBlock) (l : Location) : SetDef :=
  { name, location := l, erroneous := false, checked := Marker.zero, module := some m.id, governor := g,
    setClass := none, block := some b, expansion := none, flattening := none}

def setRefRow (m : Scope) (name : String) (g : ClassExpr) (r : Notation.Reference) (l : Location) : SetRef :=
  {newNameRef m name r l with governor := g, checked := Marker.zero}

def asnIdentifier (name : String) : Identifier := ⟨Dialect.asn.canonical name,.asn⟩

/-- An element of a set as the body of the set declares it. -/
inductive ElementBuilt (s : Store) (m : Scope) (d : SetDef) (index : Nat) :
    Notation.ElementDecl → Element → Prop
  | literal {b : Notation.RawBlock} {o : Id .objectDef} {row : ObjectDef} (h : s.get? o = some row)
      (e : row.bare = objectRow m s!"{d.name}[{index}]" d.governor b (m.locate b.span)) :
      ElementBuilt s m d index (.block b) (.literal o)
  | object {r : Notation.Reference} {i : Id .objectRef} {row : ObjectRef} (h : s.get? i = some row)
      (e : row.bare = objectRefRow m r.render d.governor r (m.locate r.span))
      (u : (asnIdentifier r.name.name).isUpper = false) : ElementBuilt s m d index (.reference r) (.object i)
  | set {r : Notation.Reference} {i : Id .setRef} {row : SetRef} (h : s.get? i = some row)
      (e : row.bare = setRefRow m r.render d.governor r (m.locate r.span))
      (u : (asnIdentifier r.name.name).isUpper = true) : ElementBuilt s m d index (.reference r) (.set i)

def ElementsBuilt (s : Store) (m : Scope) (d : SetDef) (index : Nat) : List Notation.ElementDecl → List Element → Prop
  | [],[] => True
  | x::xs,e::es => ElementBuilt s m d index x e ∧ ElementsBuilt s m d (index+1) xs es
  | _,_ => False

def ExpansionBuilt (s : Store) (d : SetDef) (e : Except Notation.SyntaxError Expansion) : Prop :=
  match d.block with
  | none => e = .ok ⟨[],false⟩
  | some b =>
    match b.parseSet with
    | .error x => e = .error x
    | .ok body => ∃ i m es, d.module = some i ∧ s.get? i = some m ∧ e = .ok ⟨es,body.extensible⟩ ∧
        ElementsBuilt s ⟨i,m.file⟩ d 0 body.elements es

/-- The class that an object or a set written for a field has. One without fields stands in for it if the field holds
neither. -/
def GovernorBuilt (s : Store) (f : Field) (g : ClassExpr) : Prop :=
  match f.shape with
  | .object c => g = .reference c
  | .objectSet c => g = .reference c
  | _ => ∃ c row, g = .definition c ∧ s.get? c = some row ∧ row.fields = []

/-- What a name makes as a setting of some kind. -/
inductive NameBuilt (s : Store) (m : Scope) (f : Field) (r : Notation.Reference) (l : Location) :
    SettingValue → Prop
  | type {t : Id .typeRef} {row : TypeRef} (h : s.get? t = some row) (e : row.bare = typeRefRow m r.render r l) :
      NameBuilt s m f r l (.type t)
  | object {i : Id .objectRef} {row : ObjectRef} {g : ClassExpr} (h : s.get? i = some row)
      (e : row.bare = objectRefRow m r.render g r l) (hg : GovernorBuilt s f g) :
      NameBuilt s m f r l (.object (.reference i))
  | set {i : Id .setRef} {row : SetRef} {g : ClassExpr} (h : s.get? i = some row)
      (e : row.bare = setRefRow m r.render g r l) (hg : GovernorBuilt s f g) :
      NameBuilt s m f r l (.set (.reference i))
  | literal {v : Literal} (h : referenceLiteral? r = some v) :
      NameBuilt s m f r l (.value (.literal r.render l v))
  | value {i : Id .valueRef} {row : ValueRef} (n : referenceLiteral? r = none) (h : s.get? i = some row)
      (e : row.bare = valueRefRow m r.render r l) : NameBuilt s m f r l (.value (.reference i))

/-- What a payload makes as a setting of a field. -/
inductive ValueBuilt (s : Store) (m : Scope) (f : Field) (display : String) (l : Location) :
    Notation.Payload → SettingValue → Prop
  | int {n : Notation.IntLit} :
      ValueBuilt s m f display l (.int n) (.value (.literal display l (.integer n.value)))
  | text {n : Notation.TextLit} :
      ValueBuilt s m f display l (.text n) (.value (.literal display l (.text n.content)))
  | object {b : Notation.RawBlock} {o : Id .objectDef} {row : ObjectDef} {g : ClassExpr}
      (k : f.kind ≠ .objectSet) (h : s.get? o = some row) (e : row.bare = objectRow m display g b l)
      (hg : GovernorBuilt s f g) : ValueBuilt s m f display l (.block b) (.object (.definition o))
  | set {b : Notation.RawBlock} {d : Id .setDef} {row : SetDef} {g : ClassExpr}
      (k : f.kind = .objectSet) (h : s.get? d = some row) (e : row.bare = setRow m display g b l)
      (hg : GovernorBuilt s f g) : ValueBuilt s m f display l (.block b) (.set (.definition d))
  | name {r : Notation.Reference} {v : SettingValue} (h : NameBuilt s m f r l v) :
      ValueBuilt s m f display l (.reference r) v

/-- A setting of a field by a payload, written in a module for an owner. -/
structure SettingBuilt (s : Store) (m : Scope) (owner : String) (name : Identifier) (p : Notation.Payload)
    (f : Field) (st : Setting) : Prop where
  named : st.name = name
  placed : st.location = m.locate p.span
  value : ValueBuilt s m f s!"{owner}.&{name.display}" (m.locate p.span) p st.value

/-- A default as the field declares it. -/
def DefaultBuilt (s : Store) (f : Field) (st : Setting) : Prop :=
  ∃ m p, s.get? f.scope = some m ∧ f.declaredDefault = some p ∧
    SettingBuilt s ⟨f.scope,m.file⟩ s!"&{f.name.display} DEFAULT" f.name p f st

def SettingIn (s : Store) (o : ObjectDef) (st : Setting) : Prop :=
  ∃ i m p f, o.module = some i ∧ s.get? i = some m ∧ SettingBuilt s ⟨i,m.file⟩ o.name st.name p f st

/-- The number of the entity that a setting holds, if it holds one. -/
def SettingValue.key? : SettingValue → Option Nat
  | .type t => some t.key
  | .value (.literal _ _ _) => none
  | .value (.reference i) => some i.key
  | .object (.definition o) => some o.key
  | .object (.reference i) => some i.key
  | .set (.definition d) => some d.key
  | .set (.reference i) => some i.key

def Element.key : Element → Nat
  | .literal o => o.key
  | .object i => i.key
  | .set i => i.key

/-- The entity `k` was built for a place of the entity `owner`: for the default of a field, or as an element. -/
inductive Holds (s : Store) : Nat → Nat → Nat → Prop
  | default {c : Id .classDef} {row : ClassDef} {n : Nat} {f : Field} {st : Setting} {k : Nat}
      (h : s.get? c = some row) (hf : row.fields[n]? = some f) (hd : f.defaultSetting = some st)
      (hk : st.value.key? = some k) : Holds s c.key n k
  | element {d : Id .setDef} {row : SetDef} {n : Nat} {e : Element}
      (h : s.get? d = some row) (he : row.elements[n]? = some e) : Holds s d.key n e.key

/-! Stores that modules and checks build -/

/-- The governor that an assignment writes belongs to its module. -/
def GovernorIn (s : Store) (m : Id .module) (g : ClassExpr) : Prop :=
  ∃ i row, g = .reference i ∧ s.get? i = some row ∧ row.scope = m

def FieldIn (s : Store) (m : Id .module) (f : Field) : Prop :=
  f.scope = m ∧
    match f.shape with
    | .value t _ => ∃ row, s.get? t = some row ∧ row.scope = m
    | .object c => GovernorIn s m (.reference c)
    | .objectSet c => GovernorIn s m (.reference c)
    | _ => True

def ValueIn (s : Store) (m : Id .module) : ValueExpr → Prop
  | .literal _ _ _ => True
  | .reference i => ∃ row, s.get? i = some row ∧ row.scope = m

/-- What an assignment declares belongs to its module. -/
def DeclaredIn (s : Store) (m : Id .module) : Declared → Prop
  | .malformed => True
  | .objectClass (.definition c) => ∃ row, s.get? c = some row ∧ row.erroneous = false ∧
      row.module = some m ∧ ∀ f ∈ row.fields, FieldIn s m f
  | .objectClass (.reference i) => ∃ row, s.get? i = some row ∧ row.scope = m
  | .object (.definition o) => ∃ row, s.get? o = some row ∧ row.erroneous = false ∧
      row.module = some m ∧ row.block.isSome ∧ GovernorIn s m row.governor
  | .object (.reference i) => ∃ row, s.get? i = some row ∧ row.scope = m ∧ GovernorIn s m row.governor
  | .objectSet (.definition d) => ∃ row, s.get? d = some row ∧ row.erroneous = false ∧
      row.module = some m ∧ row.block.isSome ∧ GovernorIn s m row.governor
  | .objectSet (.reference i) => ∃ row, s.get? i = some row ∧ row.scope = m ∧ GovernorIn s m row.governor
  | .type t => ∃ row, s.get? t = some row ∧ row.scope = m
  | .value t v => (∃ row, s.get? t = some row ∧ row.scope = m) ∧ ValueIn s m v

/-- Names of objects begin in lower case and names of object sets in upper case. -/
def CaseFits (a : Assignment) : Prop :=
  (a.kind = .object → a.identifier.isUpper = false) ∧ (a.kind = .objectSet → a.identifier.isUpper = true)

structure ModuleIn (s : Store) (i : Id .module) (m : Module) : Prop where
  name : m.name ∈ s.registry.entries
  assigned : ∀ a ∈ m.assignments, a.identifier ∈ s.registry.entries
  imported : ∀ x ∈ m.imports, x.name ∈ s.registry.entries ∧ x.source ∈ s.registry.entries
  declared : ∀ a ∈ m.assignments, DeclaredIn s i a.declared
  cases : ∀ a ∈ m.assignments, CaseFits a

/-- The modules of a shelf are there, each once, and are found by their names and by no others. -/
structure Arranged (s : Store) (l : Shelf) : Prop where
  rows : ∀ i ∈ l, ∃ m, s.get? i = some m
  distinct : l.modules.Nodup
  named : ∀ name i, l.byName.lookup name = some i ↔ i ∈ l ∧ ∃ m, s.get? i = some m ∧ m.name = name

/-- What every store has that was built from modules by checks. -/
structure Sane (s : Store) : Prop where
  shelf : Arranged s s.kept
  asn : ∀ x ∈ s.registry.entries, x.origin = .asn
  modules : ∀ i m, s.get? i = some m → ModuleIn s i m
  expansions : ∀ (i : Id .setDef) d e, s.get? i = some d → d.expansion = some e → ExpansionBuilt s d e
  defaults : ∀ (i : Id .classDef) c f st, s.get? i = some c → f ∈ c.fields → f.defaultSetting = some st →
    DefaultBuilt s f st
  settings : ∀ (i : Id .objectDef) o st, s.get? i = some o → st ∈ o.settings → SettingIn s o st
  apart : ∀ i j m n k, Holds s i m k → Holds s j n k → i = j ∧ m = n

/-! Stores that grow -/

/-- A row without what checks leave in it. -/
def Row.bare : {t : EntityType} → Row t → Row t
  | .module,a => Module.bare a
  | .classDef,a => ClassDef.bare a
  | .classRef,a => ClassRef.bare a
  | .typeRef,a => NameRef.bare a
  | .valueRef,a => NameRef.bare a
  | .objectDef,a => ObjectDef.bare a
  | .objectRef,a => ObjectRef.bare a
  | .setDef,a => SetDef.bare a
  | .setRef,a => SetRef.bare a

/-- Every entity of a store is still there, with the parts that no check changes. -/
structure Extends (s s' : Store) : Prop where
  names : s.registry.entries <:+ s'.registry.entries
  rows : ∀ (t : EntityType) (i : Id t) a, s.get? i = some a → ∃ b, s'.get? i = some b ∧ b.bare = a.bare

/-- A store has become another in which the same modules are in use. -/
structure Stays (s s' : Store) : Prop where
  more : Extends s s'
  kept : s'.kept = s.kept

section Growth
variable {s s' : Store}

theorem Extends.refl (s : Store) : Extends s s := ⟨List.suffix_refl _,fun _ _ a ha => ⟨a,ha,rfl⟩⟩

theorem Extends.trans (h : Extends s s') (k : Extends s' s'') : Extends s s'' := by
  refine ⟨h.names.trans k.names,fun t i a ha => ?_⟩
  obtain ⟨b,hb,hab⟩ := h.rows t i a ha
  obtain ⟨c,hc,hbc⟩ := k.rows t i b hb
  exact ⟨c,hc,hbc.trans hab⟩

theorem ValueBuilt.of_shape (hfg : g.shape = f.shape) (h : ValueBuilt s m f display l p v) :
    ValueBuilt s m g display l p v := by
  have hgov : ∀ x, GovernorBuilt s f x → GovernorBuilt s g x := fun x hx => by
    unfold GovernorBuilt at hx ⊢
    rw [hfg]
    exact hx
  have hkind : g.kind = f.kind := by simp only [Field.kind,hfg]
  cases h with
  | int => exact .int
  | text => exact .text
  | object k h eq hg => exact .object (by rw [hkind]; exact k) h eq (hgov _ hg)
  | set k h eq hg => exact .set (by rw [hkind]; exact k) h eq (hgov _ hg)
  | name h =>
    refine .name ?_
    cases h with
    | type h eq => exact .type h eq
    | object h eq hg => exact .object h eq (hgov _ hg)
    | set h eq hg => exact .set h eq (hgov _ hg)
    | literal h => exact .literal h
    | value n h eq => exact .value n h eq

/-- What a default looks like does not depend on whether it was built yet. -/
theorem DefaultBuilt.of_bare (hfg : g.bare = f.bare) (h : DefaultBuilt s f st) : DefaultBuilt s g st := by
  obtain ⟨m,p,hm,hp,hb⟩ := h
  obtain ⟨hname,_,hshape,_,_,hdecl,hscope⟩ := Field.bare_eq_iff.mp hfg
  refine ⟨m,p,by rw [hscope]; exact hm,by rw [hdecl]; exact hp,by rw [hname]; exact hb.named,
    by rw [hscope]; exact hb.placed,?_⟩
  rw [hscope,hname]
  exact hb.value.of_shape hshape

section Extends
variable (e : Extends s s')
include e

theorem Extends.assignment {i : Id .module} {m m' : Module} (hm : s.get? i = some m)
    (hm' : s'.get? i = some m') {n : Nat} (ha : m.assignments[n]? = some a) : ∃ a', m'.assignments[n]? = some a' ∧
    a'.declared = a.declared := by
  obtain ⟨_,hm'',hbare⟩ := e.rows _ i m hm
  cases hm'.symm.trans hm''
  have hmap := congrArg (fun l : List Assignment => l[n]?) (Module.bare_eq_iff.mp hbare).2.2.1
  simp only [List.getElem?_map,ha,Option.map_some] at hmap
  obtain ⟨a',ha',hb⟩ := Option.map_eq_some_iff.mp hmap
  exact ⟨a',ha',(Assignment.bare_eq_iff.mp hb).2.2.2.2⟩

theorem ElementBuilt.mono (hd : d'.bare = d.bare) (h : ElementBuilt s m d n x y) : ElementBuilt s' m d' n x y := by
  obtain ⟨hn,_,_,_,hg,_⟩ := SetDef.bare_eq_iff.mp hd
  cases h with
  | literal h eq =>
    obtain ⟨b,hb,hbe⟩ := e.rows _ _ _ h
    exact .literal hb (hbe.trans (by rw [hn,hg]; exact eq))
  | object h eq u =>
    obtain ⟨b,hb,hbe⟩ := e.rows _ _ _ h
    exact .object hb (hbe.trans (hg ▸ eq)) u
  | set h eq u =>
    obtain ⟨b,hb,hbe⟩ := e.rows _ _ _ h
    exact .set hb (hbe.trans (hg ▸ eq)) u

theorem ElementsBuilt.mono (hd : d'.bare = d.bare) (h : ElementsBuilt s m d n xs ys) : ElementsBuilt s' m d' n xs ys := by
  induction xs generalizing n ys with
  | nil =>
    cases ys with
    | nil => trivial
    | cons y ys => exact h.elim
  | cons x xs ih =>
    cases ys with
    | nil => exact h.elim
    | cons y ys => exact ⟨h.1.mono e hd,ih h.2⟩

theorem ExpansionBuilt.mono (hd : d'.bare = d.bare) (h : ExpansionBuilt s d x) : ExpansionBuilt s' d' x := by
  obtain ⟨_,_,_,hm,_,hb⟩ := SetDef.bare_eq_iff.mp hd
  unfold ExpansionBuilt at h ⊢
  rw [hb]
  cases hblock : d.block with
  | none => simpa only [hblock] using h
  | some b =>
    simp only [hblock] at h ⊢
    cases hp : b.parseSet with
    | error y => simpa only [hp] using h
    | ok body =>
      simp only [hp] at h ⊢
      obtain ⟨i,m,es,hi,hmod,hx,hes⟩ := h
      obtain ⟨m',hm',hme⟩ := e.rows _ i m hmod
      rw [← Module.file_of_bare hme] at hes
      exact ⟨i,m',es,by rw [hm,hi],hm',hx,hes.mono e hd⟩

theorem GovernorBuilt.mono (h : GovernorBuilt s f g) : GovernorBuilt s' f g := by
  unfold GovernorBuilt at h ⊢
  cases hf : f.shape with
  | object c | objectSet c => simpa only [hf] using h
  | _ =>
    simp only [hf] at h ⊢
    obtain ⟨c,row,rfl,hrow,hnone⟩ := h
    obtain ⟨b,hb,hbe⟩ := e.rows _ _ _ hrow
    exact ⟨c,b,rfl,hb,by simpa [hnone] using (ClassDef.bare_eq_iff.mp hbe).2.2.2.2⟩

theorem NameBuilt.mono (h : NameBuilt s m f r l v) : NameBuilt s' m f r l v := by
  cases h with
  | type h eq =>
    obtain ⟨b,hb,hbe⟩ := e.rows _ _ _ h
    exact .type hb (hbe.trans eq)
  | object h eq hg =>
    obtain ⟨b,hb,hbe⟩ := e.rows _ _ _ h
    exact .object hb (hbe.trans eq) (hg.mono e)
  | set h eq hg =>
    obtain ⟨b,hb,hbe⟩ := e.rows _ _ _ h
    exact .set hb (hbe.trans eq) (hg.mono e)
  | literal h => exact .literal h
  | value n h eq =>
    obtain ⟨b,hb,hbe⟩ := e.rows _ _ _ h
    exact .value n hb (hbe.trans eq)

theorem ValueBuilt.mono (h : ValueBuilt s m f display l p v) : ValueBuilt s' m f display l p v := by
  cases h with
  | int => exact .int
  | text => exact .text
  | object k h eq hg =>
    obtain ⟨b,hb,hbe⟩ := e.rows _ _ _ h
    exact .object k hb (hbe.trans eq) (hg.mono e)
  | set k h eq hg =>
    obtain ⟨b,hb,hbe⟩ := e.rows _ _ _ h
    exact .set k hb (hbe.trans eq) (hg.mono e)
  | name h => exact .name (h.mono e)

theorem SettingBuilt.mono (h : SettingBuilt s m owner name p f st) : SettingBuilt s' m owner name p f st :=
  ⟨h.named,h.placed,h.value.mono e⟩

theorem DefaultBuilt.mono (h : DefaultBuilt s f st) : DefaultBuilt s' f st := by
  obtain ⟨m,p,hm,hp,hb⟩ := h
  obtain ⟨m',hm',hme⟩ := e.rows _ _ _ hm
  rw [← Module.file_of_bare hme] at hb
  exact ⟨m',p,hm',hp,hb.mono e⟩

theorem SettingIn.mono (ho : o'.bare = o.bare) (h : SettingIn s o st) : SettingIn s' o' st := by
  obtain ⟨i,m,p,f,hi,hm,hb⟩ := h
  obtain ⟨hname,_,_,hmod,_⟩ := ObjectDef.bare_eq_iff.mp ho
  obtain ⟨m',hm',hme⟩ := e.rows _ i m hm
  rw [← Module.file_of_bare hme,← hname] at hb
  exact ⟨i,m',p,f,hmod.trans hi,hm',hb.mono e⟩

theorem GovernorIn.mono (h : GovernorIn s m g) : GovernorIn s' m g := by
  obtain ⟨i,row,hg,hi,hs⟩ := h
  obtain ⟨b,hb,hbe⟩ := e.rows _ i row hi
  exact ⟨i,b,hg,hb,(scope_of_bare (ClassRef.bare_eq_iff.mp hbe).1).trans hs⟩

theorem FieldIn.mono (hfg : g.bare = f.bare) (h : FieldIn s m f) : FieldIn s' m g := by
  obtain ⟨_,_,hshape,_,_,_,hscope⟩ := Field.bare_eq_iff.mp hfg
  refine ⟨hscope.trans h.1,?_⟩
  have hs := h.2
  rw [hshape]
  cases hf : f.shape with
  | type | malformed => trivial
  | value t u =>
    simp only [hf] at hs ⊢
    obtain ⟨row,ht,hrow⟩ := hs
    obtain ⟨b,hb,hbe⟩ := e.rows _ t row ht
    exact ⟨b,hb,(scope_of_bare hbe).trans hrow⟩
  | object c | objectSet c =>
    simp only [hf] at hs ⊢
    exact hs.mono e

theorem ValueIn.mono (h : ValueIn s m v) : ValueIn s' m v := by
  cases v with
  | literal n l v => trivial
  | reference i =>
    obtain ⟨row,hi,hs⟩ := h
    obtain ⟨b,hb,hbe⟩ := e.rows _ i row hi
    exact ⟨b,hb,(scope_of_bare hbe).trans hs⟩

theorem DeclaredIn.mono (h : DeclaredIn s m d) : DeclaredIn s' m d := by
  match d,h with
  | .malformed,_ => trivial
  | .objectClass (.definition c),⟨row,hc,hr,hm,hf⟩ =>
    obtain ⟨b,hb,hbe⟩ := e.rows _ c row hc
    obtain ⟨_,_,herr,hmod,_⟩ := ClassDef.bare_eq_iff.mp hbe
    refine ⟨b,hb,herr.trans hr,hmod.trans hm,?_⟩
    intro g hg
    obtain ⟨f,hfmem,hfg⟩ := mem_fields_of_bare hbe hg
    exact (hf f hfmem).mono e hfg
  | .object (.definition o),⟨row,ho,hr,hm,hk,hg⟩ | .objectSet (.definition o),⟨row,ho,hr,hm,hk,hg⟩ =>
    obtain ⟨b,hb,hbe⟩ := e.rows _ o row ho
    have hgov : b.governor = row.governor := congrArg (·.governor) hbe
    exact ⟨b,hb,(congrArg (·.erroneous) hbe).trans hr,(congrArg (·.module) hbe).trans hm,
      (congrArg (·.block.isSome) hbe).trans hk,by rw [hgov]; exact hg.mono e⟩
  | .object (.reference i),⟨row,hi,hs,hg⟩ | .objectSet (.reference i),⟨row,hi,hs,hg⟩ =>
    obtain ⟨b,hb,hbe⟩ := e.rows _ i row hi
    have hgov : b.governor = row.governor := congrArg (·.governor) hbe
    exact ⟨b,hb,(congrArg (·.scope) hbe).trans hs,by rw [hgov]; exact hg.mono e⟩
  | .objectClass (.reference i),⟨row,hi,hs⟩ | .type i,⟨row,hi,hs⟩ =>
    obtain ⟨b,hb,hbe⟩ := e.rows _ i row hi
    exact ⟨b,hb,(congrArg (·.scope) hbe).trans hs⟩
  | .value t v,⟨⟨row,ht,hs⟩,hv⟩ =>
    obtain ⟨b,hb,hbe⟩ := e.rows _ t row ht
    exact ⟨⟨b,hb,(scope_of_bare hbe).trans hs⟩,hv.mono e⟩

theorem ModuleIn.mono (hmn : n.bare = m.bare) (h : ModuleIn s i m) : ModuleIn s' i n := by
  obtain ⟨_,hname,_,_⟩ := Module.bare_eq_iff.mp hmn
  refine ⟨hname ▸ e.names.subset h.name,?_,?_,?_,?_⟩
  · intro b hb
    obtain ⟨a,ha,hab⟩ := mem_assignments_of_bare hmn hb
    rw [(Assignment.bare_eq_iff.mp hab).2.1]
    exact e.names.subset (h.assigned a ha)
  · intro y hy
    obtain ⟨x,hx,hxy⟩ := mem_imports_of_bare hmn hy
    obtain ⟨hname,hsource,_⟩ := ImportedName.bare_eq_iff.mp hxy
    rw [hname,hsource]
    exact ⟨e.names.subset (h.imported x hx).1,e.names.subset (h.imported x hx).2⟩
  · intro b hb
    obtain ⟨a,ha,hab⟩ := mem_assignments_of_bare hmn hb
    rw [(Assignment.bare_eq_iff.mp hab).2.2.2.2]
    exact (h.declared a ha).mono e
  · intro b hb
    obtain ⟨a,ha,hab⟩ := mem_assignments_of_bare hmn hb
    obtain ⟨_,hi,_,_,hd⟩ := Assignment.bare_eq_iff.mp hab
    have hc := h.cases a ha
    simpa only [CaseFits,Assignment.kind,hd,hi] using hc

end Extends

theorem Arranged.mono (h : Arranged s l) (e : Extends s s') : Arranged s' l := by
  have hrow : ∀ i ∈ l, ∃ m m', s.get? i = some m ∧ s'.get? i = some m' ∧ m'.name = m.name := fun i hi => by
    obtain ⟨m,hm⟩ := h.rows i hi
    obtain ⟨m',hm',hbare⟩ := e.rows _ i m hm
    exact ⟨m,m',hm,hm',(Module.bare_eq_iff.mp hbare).2.1⟩
  refine ⟨fun i hi => ?_,h.distinct,fun name i => ?_⟩
  · obtain ⟨_,m',_,hm',_⟩ := hrow i hi
    exact ⟨m',hm'⟩
  · rw [h.named]
    refine and_congr_right fun hi => ?_
    obtain ⟨m,m',hm,hm',hname⟩ := hrow i hi
    simp only [hm,hm',Option.some.injEq,exists_eq_left',hname]

theorem Sane.kept (h : Sane s) : ∀ i ∈ s.kept, ∃ m, s.get? i = some m := h.shelf.rows

/-- A store stays sane while it grows, if what was built in it lately looks as it should. -/
theorem Sane.mono (h : Sane s) (e : Extends s s') (hkept : s'.kept = s.kept) (hasn : ∀ x ∈ s'.registry.entries, x.origin = .asn)
    (hm : ∀ (i : Id .module) m', s'.get? i = some m' → (∃ m, s.get? i = some m ∧ m'.bare = m.bare) ∨ ModuleIn s' i m')
    (hs : ∀ (i : Id .setDef) d' x, s'.get? i = some d' → d'.expansion = some x →
      (∃ d, s.get? i = some d ∧ d'.bare = d.bare ∧ d.expansion = some x) ∨ ExpansionBuilt s' d' x)
    (hc : ∀ (i : Id .classDef) c' f' st, s'.get? i = some c' → f' ∈ c'.fields → f'.defaultSetting = some st →
      (∃ c f, s.get? i = some c ∧ f ∈ c.fields ∧ f'.bare = f.bare ∧ f.defaultSetting = some st) ∨ DefaultBuilt s' f' st)
    (ho : ∀ (i : Id .objectDef) o' st, s'.get? i = some o' → st ∈ o'.settings →
      (∃ o, s.get? i = some o ∧ o'.bare = o.bare ∧ st ∈ o.settings) ∨ SettingIn s' o' st)
    (ha : ∀ i j m n k, Holds s' i m k → Holds s' j n k → i = j ∧ m = n) : Sane s' := by
  refine ⟨?_,hasn,?_,?_,?_,?_,ha⟩
  · exact hkept ▸ h.shelf.mono e
  · intro i m' hi
    rcases hm i m' hi with ⟨m,hmi,hbare⟩ | hb
    · exact (h.modules i m hmi).mono e hbare
    · exact hb
  · intro i d' x hi hx
    rcases hs i d' x hi hx with ⟨d,hd,hbare,hdx⟩ | hb
    · exact (h.expansions i d x hd hdx).mono e hbare
    · exact hb
  · intro i c' f' st hi hf hst
    rcases hc i c' f' st hi hf hst with ⟨c,f,hci,hfc,hbare,hfs⟩ | hb
    · exact ((h.defaults i c f st hci hfc hfs).mono e).of_bare hbare
    · exact hb
  · intro i o' st hi hst
    rcases ho i o' st hi hst with ⟨o,hoi,hbare,hso⟩ | hb
    · exact (h.settings i o st hoi hso).mono e hbare
    · exact hb

end Growth

end InfoObject.Model
