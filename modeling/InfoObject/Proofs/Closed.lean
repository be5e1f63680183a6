import InfoObject.Proofs.Places

/-! Stores in which every number leads to an entity. Building entities leaves them so. -/
namespace InfoObject.Model

/-! Numbers that a row mentions -/

def ClassExpr.key : ClassExpr → Nat
  | .definition c => c.key
  | .reference i => i.key

def ObjectExpr.key : ObjectExpr → Nat
  | .definition o => o.key
  | .reference i => i.key

def SetExpr.key : SetExpr → Nat
  | .definition d => d.key
  | .reference i => i.key

def ValueExpr.key? : ValueExpr → Option Nat
  | .literal _ _ _ => none
  | .reference i => some i.key

def FieldShape.key? : FieldShape → Option Nat
  | .value t _ => some t.key
  | .object c => some c.key
  | .objectSet c => some c.key
  | .type => none
  | .malformed => none

def Field.keys (f : Field) : List Nat :=
  f.scope.key::(f.shape.key?.toList++(f.defaultSetting.bind fun st => st.value.key?).toList)

def Declared.keys : Declared → List Nat
  | .malformed => []
  | .objectClass c => [c.key]
  | .object o => [o.key]
  | .objectSet d => [d.key]
  | .type t => [t.key]
  | .value t v => t.key::v.key?.toList

/-- The scope of a name and what it was ever found to mean. -/
def NameRef.keys {t : EntityType} (r : NameRef (Id t)) : List Nat := r.scope.key::r.target?.toList.map Id.key

/-- The numbers of the entities that a row may lead a check to. -/
def mentions : {t : EntityType} → Row t → List Nat
  | .module,m => (Module.assignments m).flatMap fun a => a.declared.keys
  | .classDef,c => (ClassDef.fields c).flatMap Field.keys
  | .classRef,r => (ClassRef.toNameRef r).keys
  | .typeRef,r => [(NameRef.scope r).key]
  | .valueRef,r => [(NameRef.scope r).key]
  | .objectDef,o => (ObjectDef.governor o).key::((ObjectDef.module o).toList.map Id.key ++
      (ObjectDef.settings o).filterMap fun st => st.value.key?)
  | .objectRef,r => (ObjectRef.governor r).key::(ObjectRef.toNameRef r).keys
  | .setDef,d => (SetDef.governor d).key::((SetDef.module d).toList.map Id.key ++
      (SetDef.elements d).map Element.key++(SetDef.objects d).map Id.key)
  | .setRef,r => (SetRef.governor r).key::(SetRef.toNameRef r).keys

/-- What is written has a body and a module; a stand-in need not have them. -/
def Whole : {t : EntityType} → Row t → Prop
  | .objectDef,o => ObjectDef.erroneous o = false → (ObjectDef.module o).isSome ∧ (ObjectDef.block o).isSome
  | .setDef,d => SetDef.erroneous d = false → (SetDef.module d).isSome ∧ (SetDef.block d).isSome
  | .module,_ => True
  | .classDef,_ => True
  | .classRef,_ => True
  | .typeRef,_ => True
  | .valueRef,_ => True
  | .objectRef,_ => True
  | .setRef,_ => True

/-- Every number that a row mentions is that of an entity, and every name that is known leads to a module. -/
structure Closed (s : Store) : Prop where
  rows : ∀ (t : EntityType) (i : Id t) a, s.get? i = some a → Whole a ∧ ∀ k ∈ mentions a, Known s k
  named : ∀ name i, s.moduleNamed? name = some i → Known s i.key

section Known
variable {s s' : Store} {t : EntityType} {i : Id t} {a b : Row t} {k : Nat}

theorem Known.row (h : Known s i.key) : ∃ a, s.get? i = some a := by
  obtain ⟨u,j,a,ha,hk⟩ := h
  obtain ⟨rfl,rfl⟩ := Id.eq_of_key hk
  exact ⟨a,ha⟩

theorem Known.mono (e : Extends s s') (h : Known s k) : Known s' k := by
  obtain ⟨u,j,a,ha,rfl⟩ := h
  obtain ⟨b,hb,_⟩ := e.rows u j a ha
  exact .of_row hb

theorem Whole.of_bare (h : b.bare = a.bare) (ha : Whole a) : Whole b := by
  cases t <;> exact (congrArg Whole h).mpr ha

theorem Closed.known (hs : Closed s) (h : s.get? i = some a) (hk : k ∈ mentions a) : Known s k := (hs.rows t i a h).2 k hk

theorem Known.put (h : s.get? i = some a) (hk : Known s k) : Known (s.put i b) k := by
  obtain ⟨u,j,c,hc,rfl⟩ := hk
  obtain ⟨d,hd,_⟩ := Store.get?_put_forth (R := fun _ _ _ => True) (fun _ _ => trivial) h trivial hc
  exact .of_row hd

theorem Closed.put (hs : Closed s) (h : s.get? i = some a) (hw : Whole a → Whole b)
    (hk : ∀ k ∈ mentions b, k ∈ mentions a ∨ Known s k) : Closed (s.put i b) := by
  refine ⟨fun u j c hc => ?_,fun name j hj => (hs.named name j ?_).put h⟩
  obtain ⟨d,hd,hdc⟩ := Store.get?_put_back
    (R := fun _ c d => Whole c ∧ (∀ k ∈ mentions c, Known s k) → Whole d ∧ ∀ k ∈ mentions d, Known s k)
    (fun _ _ h => h) h (fun ha => ⟨hw ha.1,fun k hk' => (hk k hk').elim (ha.2 k) id⟩) hc
  · obtain ⟨hw,hm⟩ := hdc (hs.rows u j d hd)
    exact ⟨hw,fun k hk => (hm k hk).put h⟩
  · simpa only [Store.moduleNamed?,Store.kept_put] using hj

end Known

/-! Builders -/

section Builders
variable {s s' : Store} {m : Scope} {n : String} {r : Notation.Reference} {l : Location} {g : ClassExpr}

theorem Makes.closed_alloc {i : Id t} (h : Makes (Model.alloc b) s i s') (hs : Closed s) (hw : Whole b)
    (hk : ∀ k ∈ mentions b, Known s k) : Closed s' := by
  obtain rfl : (s.add (t := t) b).2 = s' := congrArg Prod.snd h
  have known : ∀ k, Known s k → Known (s.add (t := t) b).2 k := by
    rintro k ⟨u,j,a,ha,rfl⟩
    by_cases htu : t = u
    · subst htu
      exact .of_row (Store.get?_add_old b ha)
    · exact .of_row ((Store.get?_add_other htu b j).trans ha)
  refine ⟨fun u j c hc => ?_,fun name j hj => known _ (hs.named name j ?_)⟩
  · by_cases htu : t = u
    · subst htu
      rcases Store.get?_add_cases hc with hc' | ⟨rfl,rfl⟩
      · exact ⟨(hs.rows _ j c hc').1,fun k hk => known k (hs.known hc' hk)⟩
      · exact ⟨hw,fun k hk' => known k (hk k hk')⟩
    · rw [Store.get?_add_other htu] at hc
      exact ⟨(hs.rows u j c hc).1,fun k hk => known k (hs.known hc hk)⟩
  · cases t <;> exact hj

theorem Makes.closed_intern (h : Makes (Model.intern name) s i s') (hs : Closed s) : Closed s' := by
  obtain rfl : (s.intern name).2 = s' := congrArg Prod.snd h
  have same : ∀ (t : EntityType) (i : Id t), (s.intern name).2.get? i = s.get? i := fun t i => by cases t <;> rfl
  have known : ∀ k, Known s k → Known (s.intern name).2 k := by
    rintro k ⟨u,j,b,hb,rfl⟩
    exact .of_row ((same u j).trans hb)
  refine ⟨fun t i a ha => ?_,fun x j hj => known _ (hs.named x j hj)⟩
  rw [same] at ha
  exact ⟨(hs.rows t i a ha).1,fun k hk => known k (hs.known ha hk)⟩

theorem Makes.closed_newTypeRef (h : Makes (Model.newTypeRef m n r l) s i s') (hs : Closed s)
    (hm : Known s m.id.key) : Closed s' :=
  Makes.closed_alloc (t := .typeRef) h hs trivial (by simpa [mentions,newNameRef] using hm)

section
variable (hs : Closed s) (hm : Known s m.id.key) (hg : Known s g.key)
include hs hm hg

theorem Makes.closed_newObjectDef (h : Makes (Model.newObjectDef m n g b l) s i s')
    : Closed s' :=
  Makes.closed_alloc (t := .objectDef) h hs (fun _ => ⟨rfl,rfl⟩) (by simpa [mentions] using ⟨hg,hm⟩)

theorem Makes.closed_newObjectRef (h : Makes (Model.newObjectRef m n g r l) s i s')
    : Closed s' :=
  Makes.closed_alloc (t := .objectRef) h hs trivial
    (by simpa [mentions,NameRef.keys,newNameRef,NameRef.target?] using ⟨hg,hm⟩)

theorem Makes.closed_newSetDef (h : Makes (Model.newSetDef m n g b l) s i s')
    : Closed s' :=
  Makes.closed_alloc (t := .setDef) h hs (fun _ => ⟨rfl,rfl⟩)
    (by simpa [mentions,SetDef.elements,SetDef.objects] using ⟨hg,hm⟩)

theorem Makes.closed_newSetRef (h : Makes (Model.newSetRef m n g r l) s i s')
    : Closed s' :=
  Makes.closed_alloc (t := .setRef) h hs trivial
    (by simpa [mentions,NameRef.keys,newNameRef,NameRef.target?] using ⟨hg,hm⟩)

end

theorem Makes.closed_standInClass (h : Makes (Model.standInClass n l) s i s') (hs : Closed s) : Closed s' :=
  Makes.closed_alloc (t := .classDef) h hs trivial (by simp [mentions])

theorem Makes.closed_standInObject (h : Makes (Model.standInObject n c l) s i s') (hs : Closed s)
    (hc : Known s c.key) : Closed s' :=
  Makes.closed_alloc (t := .objectDef) h hs nofun (by simpa [mentions,ClassExpr.key] using hc)

theorem Makes.closed_standInSet (h : Makes (Model.standInSet n c l) s i s') (hs : Closed s) (hc : Known s c.key) : Closed s' :=
  Makes.closed_alloc (t := .setDef) h hs nofun
    (by simpa [mentions,ClassExpr.key,SetDef.elements,SetDef.objects] using hc)

end Builders

/-! What is written in a module -/

section Written
variable {s : Store}

theorem GovernorIn.known (h : GovernorIn s x g) : Known s g.key := by
  obtain ⟨i,row,rfl,hi,_⟩ := h
  exact .of_row hi

theorem FieldIn.known (hx : Known s x.key) (h : FieldIn s x f) (hd : f.defaultSetting = none) : ∀ k ∈ f.keys, Known s k := by
  obtain ⟨rfl,hshape⟩ := h
  have hkey : ∀ k ∈ f.shape.key?, Known s k := by
    intro k hk
    cases hf : f.shape with
    | value t u =>
      simp only [hf] at hshape hk
      obtain ⟨row,hrow,_⟩ := hshape
      exact Option.some.inj hk ▸ .of_row hrow
    | object c | objectSet c =>
      simp only [hf] at hshape hk
      exact Option.some.inj hk ▸ hshape.known
    | type | malformed => simp [hf,FieldShape.key?] at hk
  simpa [Field.keys,hd] using ⟨hx,hkey⟩

theorem DeclaredIn.known (h : DeclaredIn s x d) : ∀ k ∈ d.keys, Known s k := by
  match d,h with
  | .malformed,_ => simp [Declared.keys]
  | .objectClass (.definition i),⟨row,hi,_⟩ | .objectClass (.reference i),⟨row,hi,_⟩
  | .object (.definition i),⟨row,hi,_⟩ | .object (.reference i),⟨row,hi,_⟩
  | .objectSet (.definition i),⟨row,hi,_⟩ | .objectSet (.reference i),⟨row,hi,_⟩ | .type i,⟨row,hi,_⟩ =>
    simpa [Declared.keys,ClassExpr.key,ObjectExpr.key,SetExpr.key] using .of_row hi
  | .value t (.literal ..),⟨⟨row,ht,_⟩,_⟩ => simpa [Declared.keys,ValueExpr.key?] using .of_row ht
  | .value t (.reference i),⟨⟨row,ht,_⟩,⟨row',hi,_⟩⟩ =>
    simpa [Declared.keys,ValueExpr.key?] using ⟨.of_row ht,.of_row hi⟩

end Written

end InfoObject.Model
