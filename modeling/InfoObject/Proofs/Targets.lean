import InfoObject.Proofs.KeepingDefinitions

/-! What names lead to in a pass without errors: every name that was resolved in the generation leads to an
entity of the modules in use, and of the class that is expected. -/
namespace InfoObject.Check
open Model

/-! What belongs to the modules in use -/

/-- An assignment of a module in use. -/
def Declares (s : Store) (d : Declared) : Prop :=
  ∃ i ∈ s.kept, ∃ row, s.get? i = some row ∧ ∃ a ∈ row.assignments, a.declared = d

def HomedType (s : Store) (i : Id .typeRef) : Prop := ∃ row, s.get? i = some row ∧ row.scope ∈ s.kept

def HomedValue (s : Store) : ValueExpr → Prop
  | .literal _ _ _ => True
  | .reference i => ∃ row, s.get? i = some row ∧ row.scope ∈ s.kept

def HomedClass (s : Store) : ClassExpr → Prop
  | .definition c => Declares s (.objectClass (.definition c))
  | .reference i => ∃ row, s.get? i = some row ∧ row.scope ∈ s.kept

def HomedObject (s : Store) : ObjectExpr → Prop
  | .definition o => ∃ row m, s.get? o = some row ∧ row.erroneous = false ∧ row.module = some m ∧ m ∈ s.kept ∧
      row.block.isSome ∧ HomedClass s row.governor
  | .reference i => ∃ row, s.get? i = some row ∧ row.scope ∈ s.kept ∧ HomedClass s row.governor

def HomedSet (s : Store) : SetExpr → Prop
  | .definition d => ∃ row m, s.get? d = some row ∧ row.erroneous = false ∧ row.module = some m ∧ m ∈ s.kept ∧
      row.block.isSome ∧ HomedClass s row.governor
  | .reference i => ∃ row, s.get? i = some row ∧ row.scope ∈ s.kept ∧ HomedClass s row.governor

def HomedField (s : Store) (f : Field) : Prop :=
  f.scope ∈ s.kept ∧
    match f.shape with
    | .value t _ => HomedType s t
    | .object c => HomedClass s (.reference c)
    | .objectSet c => HomedClass s (.reference c)
    | _ => True

def HomedHeld (s : Store) : SettingValue → Prop
  | .type t => HomedType s t
  | .value v => HomedValue s v
  | .object o => HomedObject s o
  | .set d => HomedSet s d

def HomedDeclared (s : Store) : Declared → Prop
  | .malformed => True
  | .objectClass e => HomedClass s e
  | .object o => HomedObject s o
  | .objectSet d => HomedSet s d
  | .type t => HomedType s t
  | .value t v => HomedType s t ∧ HomedValue s v

theorem Grows.stays (g : Grows X p q) : Stays p.store q.store := ⟨g.extends,g.kept⟩

section Homed
variable {s s' : Store}

theorem GovernorIn.homed (h : GovernorIn s m g) (hm : m ∈ s.kept) : HomedClass s g := by
  obtain ⟨i,row,rfl,hrow,hs⟩ := h
  exact ⟨row,hrow,hs ▸ hm⟩

theorem Declares.homed (h : Declares s d) (hs : Sane s) : HomedDeclared s d := by
  obtain ⟨i,hi,row,hrow,a,ha,rfl⟩ := id h
  have hd := (hs.modules i row hrow).declared a ha
  match hdecl : a.declared,hd with
  | .malformed,_ => trivial
  | .objectClass (.definition c),_ =>
    rw [hdecl] at h
    exact h
  | .objectClass (.reference j),⟨r,hr,hsc⟩ | .type j,⟨r,hr,hsc⟩ => exact ⟨r,hr,hsc ▸ hi⟩
  | .object (.definition o),⟨r,hr,he,hm,hb,hg⟩ | .objectSet (.definition o),⟨r,hr,he,hm,hb,hg⟩ =>
    exact ⟨r,i,hr,he,hm,hi,hb,GovernorIn.homed hg hi⟩
  | .object (.reference j),⟨r,hr,hsc,hg⟩ | .objectSet (.reference j),⟨r,hr,hsc,hg⟩ =>
    exact ⟨r,hr,hsc ▸ hi,GovernorIn.homed hg hi⟩
  | .value t v,⟨⟨r,hr,hsc⟩,hv⟩ =>
    refine ⟨⟨r,hr,hsc ▸ hi⟩,?_⟩
    cases v with
    | literal => trivial
    | reference j =>
      obtain ⟨r,hr,hsc⟩ := hv
      exact ⟨r,hr,hsc ▸ hi⟩

theorem Declares.class_homed (h : Declares s (.objectClass (.definition c))) (hs : Sane s) : ∃ row, s.get? c = some row ∧
    row.erroneous = false ∧ ∀ f ∈ row.fields, HomedField s f := by
  obtain ⟨i,hi,row,hrow,a,ha,hd⟩ := h
  have hin := (hs.modules i row hrow).declared a ha
  rw [hd] at hin
  obtain ⟨r,hr,he,_,hf⟩ := hin
  refine ⟨r,hr,he,?_⟩
  intro f hmem
  obtain ⟨hsc,hshape⟩ := hf f hmem
  refine ⟨hsc ▸ hi,?_⟩
  cases hfs : f.shape with
  | value t u =>
    simp only [hfs] at hshape ⊢
    obtain ⟨r,hr,hsc⟩ := hshape
    exact ⟨r,hr,hsc ▸ hi⟩
  | object c | objectSet c =>
    simp only [hfs] at hshape ⊢
    exact GovernorIn.homed hshape hi
  | _ => trivial

theorem Declares.class_row (h : Declares s (.objectClass (.definition c))) (hs : Sane s) (hc : s.get? c = some row) :
    row.erroneous = false ∧ ∀ f ∈ row.fields, HomedField s f := by
  obtain ⟨row',hrow,hhomed⟩ := h.class_homed hs
  cases hc.symm.trans hrow
  exact hhomed

theorem HomedObject.formed (h : HomedObject s (.definition i)) (ho : s.get? i = some o) : o.erroneous = false := by
  obtain ⟨row,_,hrow,herr,_⟩ := h
  cases ho.symm.trans hrow
  exact herr

theorem HomedSet.formed (h : HomedSet s (.definition i)) (hd : s.get? i = some d) : d.erroneous = false := by
  obtain ⟨row,_,hrow,herr,_⟩ := h
  cases hd.symm.trans hrow
  exact herr

theorem lookup_declares (hs : Sane s) (hk : scope ∈ s.kept) (h : s.lookup? scope n m = some (some a,s')) :
    Declares s a.declared := by
  obtain ⟨i,row,hi,hrow,ha,_⟩ := (LooksUp.of_lookup? h).sane hs
  exact ⟨i,hi.elim (fun h => h ▸ hk) id,row,hrow,a,ha,rfl⟩

def HomedElement (s : Store) (g : ClassExpr) : Element → Prop
  | .literal o => HomedObject s (.definition o) ∧ ∃ row, s.get? o = some row ∧ row.governor = g
  | .object i => HomedObject s (.reference i) ∧ ∃ row, s.get? i = some row ∧ row.governor = g
  | .set i => HomedSet s (.reference i) ∧ ∃ row, s.get? i = some row ∧ row.governor = g

theorem ElementBuilt.homed (h : ElementBuilt s m d n x e) (hm : m.id ∈ s.kept) (hg : HomedClass s d.governor) :
    HomedElement s d.governor e := by
  cases h with
  | @literal b o row h e =>
    obtain ⟨_,_,he,hmod,hgov,hblock⟩ :=
      ObjectDef.bare_eq_iff.mp (show row.bare = (objectRow _ _ _ _ _).bare from e)
    exact ⟨⟨row,m.id,h,he,hmod,hm,by rw [hblock]; rfl,hgov ▸ hg⟩,row,h,hgov⟩
  | @object r i row h e u | @set r i row h e u =>
    have hscope : row.scope = m.id := congrArg (·.scope) e
    have hgov : row.governor = d.governor := congrArg (·.governor) e
    exact ⟨⟨row,h,hscope ▸ hm,hgov ▸ hg⟩,row,h,hgov⟩

theorem element_homed (hs : Sane s) (hi : HomedSet s (.definition i)) (hd : s.get? i = some d)
    (he : e ∈ d.elements) : HomedElement s d.governor e := by
  obtain ⟨row,m,hrow,_,hmod,hm,hblock,hg⟩ := hi
  cases hd.symm.trans hrow
  obtain ⟨j,_,_,_,hj,hel⟩ := hs.element hd he
  cases hmod.symm.trans hj
  exact ElementBuilt.homed hel hm hg

theorem value_homed {i : Id .objectDef} (hs : Sane s) (ho : s.get? i = some o) (hm : ∀ j, o.module = some j → j ∈ s.kept)
    (hst : st ∈ o.settings) (hv : st.value = .value v) : HomedValue s v := by
  obtain ⟨j,_,_,_,hj,_,hb⟩ := hs.settings i o st ho hst
  have hbv := hb.value
  rw [hv] at hbv
  cases hbv with
  | int | text => trivial
  | name h =>
    cases h with
    | literal => trivial
    | @value i row n h e => exact ⟨row,h,(congrArg NameRef.scope e : row.bare.scope = j) ▸ hm j hj⟩

variable (e : Stays s s')
include e

theorem Declares.mono (h : Declares s d) : Declares s' d := by
  obtain ⟨i,hi,row,hrow,a,ha,rfl⟩ := h
  obtain ⟨row',hrow',hb⟩ := e.more.rows _ i row hrow
  obtain ⟨a',ha',hab⟩ := mem_assignments_of_bare (m := row') hb.symm ha
  exact ⟨i,e.kept ▸ hi,row',hrow',a',ha',(Assignment.bare_eq_iff.mp hab).2.2.2.2.symm⟩

theorem HomedClass.mono (h : HomedClass s g) : HomedClass s' g := by
  cases g with
  | definition c => exact Declares.mono e h
  | reference i =>
    obtain ⟨row,hrow,hs⟩ := h
    obtain ⟨row',hrow',hb⟩ := e.more.rows _ i row hrow
    exact ⟨row',hrow',by rw [e.kept,scope_of_bare (ClassRef.bare_eq_iff.mp hb).1]; exact hs⟩

theorem HomedHeld.mono (h : HomedHeld s v) : HomedHeld s' v := by
  match v,h with
  | .value (.literal ..),_ => trivial
  | .type i,⟨row,hrow,hs⟩ | .value (.reference i),⟨row,hrow,hs⟩ =>
    obtain ⟨row',hrow',hb⟩ := e.more.rows _ i row hrow
    exact ⟨row',hrow',by rw [e.kept,scope_of_bare hb]; exact hs⟩
  | .object (.definition o),⟨row,m,hrow,herr,hm,hin,hblock,hg⟩ | .set (.definition o),⟨row,m,hrow,herr,hm,hin,hblock,hg⟩ =>
    obtain ⟨row',hrow',hb⟩ := e.more.rows _ o row hrow
    have hgov : row'.governor = row.governor := congrArg (·.governor) hb
    exact ⟨row',m,hrow',(congrArg (·.erroneous) hb).trans herr,(congrArg (·.module) hb).trans hm,e.kept ▸ hin,
      (congrArg (·.block.isSome) hb).trans hblock,hgov ▸ HomedClass.mono e hg⟩
  | .object (.reference i),⟨row,hrow,hs,hg⟩ | .set (.reference i),⟨row,hrow,hs,hg⟩ =>
    obtain ⟨row',hrow',hb⟩ := e.more.rows _ i row hrow
    have hgov : row'.governor = row.governor := congrArg (·.governor) hb
    have hscope : row'.scope = row.scope := congrArg (·.scope) hb
    exact ⟨row',hrow',by rw [e.kept,hscope]; exact hs,hgov ▸ HomedClass.mono e hg⟩

theorem HomedType.mono (h : HomedType s i) : HomedType s' i := HomedHeld.mono (v := .type i) e h

theorem HomedValue.mono (h : HomedValue s v) : HomedValue s' v := HomedHeld.mono (v := .value v) e h

theorem HomedObject.mono (h : HomedObject s o) : HomedObject s' o := HomedHeld.mono (v := .object o) e h

theorem HomedSet.mono (h : HomedSet s d) : HomedSet s' d := HomedHeld.mono (v := .set d) e h

theorem Declares.back (hs : Sane s) (h : Declares s' d) : Declares s d := by
  obtain ⟨i,hi,row',hrow',a,ha,rfl⟩ := h
  obtain ⟨row,hrow⟩ := hs.kept i (e.kept ▸ hi)
  obtain ⟨row2,hrow2,hb⟩ := e.more.rows _ i row hrow
  cases hrow'.symm.trans hrow2
  obtain ⟨a',ha',hab⟩ := mem_assignments_of_bare hb ha
  exact ⟨i,e.kept ▸ hi,row,hrow,a',ha',((Assignment.bare_eq_iff.mp hab).2.2.2.2).symm⟩

end Homed

/-! Targets -/

/-- An object that a name may lead to where the class `g` governs. -/
structure GoodObject (m : Marker) (s : Store) (g : ClassExpr) (o : Id .objectDef) : Prop where
  declared : Declares s (.object (.definition o))
  governed : ∃ row c, s.get? o = some row ∧ row.objectClass = some c ∧ classNow m s row.governor = some c ∧
    classNow m s g = some c

structure GoodSet (m : Marker) (s : Store) (g : ClassExpr) (d : Id .setDef) : Prop where
  declared : Declares s (.objectSet (.definition d))
  governed : ∃ row c, s.get? d = some row ∧ row.setClass = some c ∧ classNow m s row.governor = some c ∧
    classNow m s g = some c

/-- An object that the list of the set `i` may have: a declared one, or one written in the set or in a set that
is declared. -/
structure Listed (m : Marker) (s : Store) (i : Id .setDef) (g : ClassExpr) (o : Id .objectDef) : Prop where
  source : Declares s (.object (.definition o)) ∨ ∃ j row, (j = i ∨ Declares s (.objectSet (.definition j))) ∧
    s.get? j = some row ∧ .literal o ∈ row.elements
  governed : ∃ row c, s.get? o = some row ∧ row.erroneous = false ∧ classNow m s row.governor = some c ∧
    classNow m s g = some c

/-- What was found for a row in the generation is as it should be. -/
def RowGood (m : Marker) (s : Store) : {t : EntityType} → Id t → Row t → Prop
  | .typeRef,_,r => ∀ t, found m (NameRef.resolution r) = some t → ∃ b, t = some b
  | .valueRef,_,r => ∀ t, found m (NameRef.resolution r) = some t → ∃ v, t = some v
  | .classRef,_,r => ∀ c, found m (ClassRef.toNameRef r).resolution = some c →
      Declares s (.objectClass (.definition c))
  | .objectRef,_,r => ∀ o, found m (ObjectRef.toNameRef r).resolution = some o →
      GoodObject m s (ObjectRef.governor r) o
  | .setRef,_,r => ∀ d, found m (SetRef.toNameRef r).resolution = some d → GoodSet m s (SetRef.governor r) d
  | .setDef,i,d => ∀ os, found m (SetDef.flattening d) = some os → ∀ o ∈ os, Listed m s i (SetDef.governor d) o
  | .module,_,_ => True
  | .classDef,_,_ => True
  | .objectDef,_,_ => True

/-- A pass in which all is well so far. -/
structure Ready (p : Pass) : Prop where
  sane : Sane p.store
  formed : ¬ Declares p.store .malformed
  fields : ∀ c row, Declares p.store (.objectClass (.definition c)) → p.store.get? c = some row → Formed row
  calm : ∀ k, p.onChain k → ∃ (t : EntityType) (i : Id t) (a : Row t), i.key = k ∧ p.store.get? i = some a ∧
    Pending p.marker a
  targets : ∀ (t : EntityType) (i : Id t) a, p.store.get? i = some a → RowGood p.marker p.store i a

/-- Nothing was found wrong so far. -/
structure Pass.Clean (p : Pass) : Prop where
  reports : ¬ p.hasError
  cycles : p.chain.cycles = []

section Clean
variable {X : Nat → Prop} {p q : Pass}

theorem Grows.hasError (h : Grows X p q) (hp : p.hasError) : q.hasError := by
  obtain ⟨e,he⟩ := hp
  exact ⟨e,h.reports.subset he⟩

theorem Evolves.clean (h : Evolves X p q) (hq : q.Clean) : p.Clean := by
  obtain ⟨l,hl,_⟩ := h.cycles
  exact ⟨fun hp => hq.reports (h.hasError hp),(List.append_eq_nil_iff.mp (hl.symm.trans hq.cycles)).1⟩

theorem Keeps.clean (hm : Keeps R m) (h : Gives m p a q) (hq : q.Clean) : p.Clean := (hm _ _ _ h).toEvolves.clean hq

/-- Where all is well, entities on the chain have nothing to lose. -/
theorem Ready.evolves (h : Ready p) (e : Evolves p.onChain p q) : Evolves (fun _ => False) p q := by
  refine e.imp fun t i a ha hx => .inr ?_
  obtain ⟨u,j,b,hk,hb,hp⟩ := h.calm _ hx
  obtain ⟨rfl,rfl,rfl⟩ := Store.row_of_key hk hb ha
  exact hp.free

end Clean

section Stable
variable {X : Nat → Prop} {p q : Pass} (hX : ObjectsOnly X) (g : Grows X p q)

include hX g

theorem GoodObject.mono (h : GoodObject p.marker p.store e o) : GoodObject q.marker q.store e o := by
  obtain ⟨row,c,hrow,hc,hg,he⟩ := h.governed
  obtain ⟨row',hrow',hm,hk⟩ := g.rows .objectDef o row hrow
  have hgov := ObjectMoves.governor hm
  exact ⟨h.declared.mono g.stays,row',c,hrow',hk c hc ⟨hg,fun _ _ => hX.not_of (by decide) _⟩,
    by rw [hgov]; exact g.classNow hX hg,g.classNow hX he⟩

theorem GoodSet.mono (h : GoodSet p.marker p.store e d) : GoodSet q.marker q.store e d := by
  obtain ⟨row,c,hrow,hc,hg,he⟩ := h.governed
  obtain ⟨row',hrow',hm,hk⟩ := g.rows .setDef d row hrow
  have hgov := SetMoves.governor hm
  exact ⟨h.declared.mono g.stays,row',c,hrow',hk c hc ⟨hg,fun _ _ => hX.not_of (by decide) _⟩,
    by rw [hgov]; exact g.classNow hX hg,g.classNow hX he⟩

omit hX g in
theorem SetMoves.mem_elements (h : SetMoves m x d d') (he : e ∈ d.elements) : e ∈ d'.elements := by
  cases hx : d.expansion with
  | none => simp [SetDef.elements,hx] at he
  | some y =>
    have hx' := h.expansion y hx
    simpa only [SetDef.elements,hx,hx'] using he

theorem Listed.mono (h : Listed p.marker p.store i e o) : Listed q.marker q.store i e o := by
  refine ⟨?_,?_⟩
  · refine h.source.imp (fun hd => hd.mono g.stays) ?_
    rintro ⟨j,row,hj,hrow,hmem⟩
    obtain ⟨row',hrow',hm,_⟩ := g.rows .setDef j row hrow
    exact ⟨j,row',hj.imp id fun hd => hd.mono g.stays,hrow',SetMoves.mem_elements hm hmem⟩
  · obtain ⟨row,c,hrow,herr,hg,he⟩ := h.governed
    obtain ⟨row',hrow',hm,_⟩ := g.rows .objectDef o row hrow
    obtain ⟨_,_,herr',_,hgov,_⟩ := ObjectDef.bare_eq_iff.mp (ObjectMoves.bare hm)
    exact ⟨row',c,hrow',herr'.trans herr,by rw [hgov]; exact g.classNow hX hg,g.classNow hX he⟩

theorem RowGood.mono {a b : Row t} (h : RowGood p.marker p.store i a) (hr : SameResults a b)
    (hb : b.bare = a.bare) : RowGood q.marker q.store i b := by
  rw [g.marker]
  cases t with
  | typeRef | valueRef =>
    intro x hx
    exact h x (hr ▸ hx)
  | classRef =>
    intro c hc
    exact (h c (hr ▸ hc)).mono g.stays
  | objectRef | setRef =>
    intro o ho
    have hgov : b.governor = a.governor := congrArg (·.governor) hb
    rw [hgov]
    exact g.marker ▸ (h o (hr ▸ ho)).mono hX g
  | setDef =>
    intro os hos o ho
    rw [(SetDef.bare_eq_iff.mp hb).2.2.2.2.1]
    exact g.marker ▸ (h os (hr ▸ hos) o ho).mono hX g
  | _ => trivial

omit hX g in
theorem Unfound.good {a : Row t} (h : Unfound a) : RowGood m s i a := by
  cases t with
  | typeRef | valueRef | classRef | objectRef | setRef | setDef =>
    exact fun x hx => absurd ((congrArg (found m) h).symm.trans hx) (by simp)
  | _ => trivial

omit hX g in
theorem SameResults.pending {a b : Row t} (h : SameResults a b) (ha : Pending m a) : Pending m b := by
  cases t with
  | typeRef | valueRef | classRef | objectRef | setRef | setDef =>
    exact (congrArg (found m) h).trans ha
  | _ => exact ha.elim

end Stable

/-! Steps that leave all well -/

section Ready
variable {p q : Pass} {t : EntityType} {i : Id t}

theorem Ready.fields_of_grows (h : Ready p) (g : Grows X p q) (c : Id .classDef) (row : ClassDef)
    (hc : Declares q.store (.objectClass (.definition c))) (hrow : q.store.get? c = some row) : Formed row := by
  have hp := hc.back g.stays h.sane
  obtain ⟨row0,hrow0,_⟩ := hp.class_homed h.sane
  obtain ⟨row',hrow',hbare⟩ := g.extends.rows _ c row0 hrow0
  cases hrow.symm.trans hrow'
  exact (h.fields c row0 hp hrow0).of_bare hbare

theorem Ready.of_unresolved (h : Ready p) (hX : ObjectsOnly X) (g : Evolves X p q) (hl : q.chain.links = p.chain.links)
    (u : Unresolved p.store q.store) : Ready q := by
  refine ⟨g.sane h.sane,fun hd => h.formed (hd.back g.stays h.sane),h.fields_of_grows g.toGrows,?_,?_⟩
  · intro k hk
    rw [Pass.onChain_congr hl] at hk
    obtain ⟨t,i,a,rfl,ha,hp⟩ := h.calm k hk
    obtain ⟨b,hb,_⟩ := g.rows t i a ha
    refine ⟨t,i,b,rfl,hb,?_⟩
    rw [g.marker]
    rcases u t i b hb with ⟨a',ha',hab⟩ | ⟨hn,_⟩
    · cases ha.symm.trans ha'
      exact hab.pending hp
    · rw [ha] at hn
      contradiction
  · intro t i b hb
    rcases u t i b hb with ⟨a,ha,hab⟩ | ⟨_,hu⟩
    · obtain ⟨b',hb',hm,_⟩ := g.rows t i a ha
      cases hb.symm.trans hb'
      exact (h.targets t i a ha).mono hX g.toGrows hab hm.bare_eq
    · exact hu.good

theorem Ready.plain (h : Ready p) (g : Plain p q) : Ready q :=
  h.of_unresolved objectsOnly_false g.toEvolves (by rw [g.chain]) g.unresolved

theorem Ready.unlink (h : Ready p) (hl : c.links ⊆ p.chain.links) : Ready {p with chain := c} := by
  refine ⟨h.sane,h.formed,h.fields,?_,h.targets⟩
  rintro k ⟨l,hmem,rfl⟩
  exact h.calm l.key ⟨l,hl hmem,rfl⟩

theorem Ready.enter {a : Row t} (h : Ready p) (ha : p.store.get? i = some a)
    (hp : Pending p.marker a) (hl : l.key = i.key) : Ready (p.entered l) := by
  refine ⟨h.sane,h.formed,h.fields,?_,h.targets⟩
  intro k hk
  rcases onChain_add hk with hk | rfl
  · exact h.calm k hk
  · exact ⟨t,i,a,hl.symm,ha,hp⟩

theorem Pass.Clean.enter (h : Pass.Clean (p.entered l)) : (p.chain.add l).1 = true ∧
    ¬ p.onChain l.key := by
  by_cases hl : p.chain.holds l
  · have hc := h.cycles
    simp [Chain.add,hl] at hc
  · refine ⟨by simp [Chain.add,hl],?_⟩
    rintro ⟨x,hx,hk⟩
    simp only [Chain.holds,List.any_eq_true,not_exists,not_and] at hl
    exact hl x hx (by simp [hk])

theorem Pass.Clean.of_rewind (hc : p.chain.rewind = some c) (h : Pass.Clean {p with store := s, chain := c}) : p.Clean := by
  refine ⟨h.reports,?_⟩
  have hcycles := h.cycles
  unfold Chain.rewind at hc
  split at hc
  · contradiction
  · obtain rfl := Option.some.inj hc
    exact hcycles

theorem rewind_links {c d : Chain} (h : c.rewind = some d) : d.links ⊆ c.links := by
  unfold Chain.rewind at h
  split at h
  · contradiction
  · obtain rfl := Option.some.inj h
    exact List.take_subset ..

theorem Gives.restoringChain_clean (h : Gives (restoringChain m) p a q)
    (hq : q.Clean) : ∃ r c, Gives m p.marked a r ∧ r.Clean ∧ q = {r with chain := c} ∧
    (Ready r → Ready q) := by
  obtain ⟨r,c,hm,hc,rfl⟩ := gives_restoringChain.mp h
  exact ⟨r,c,hm,.of_rewind (s := r.store) hc hq,rfl,fun hr => hr.unlink (rewind_links hc)⟩

theorem Ready.resolve {id : Id t} {a b : Row t} (h : Ready p) (ha : p.store.get? id = some a)
    (hp : Pending p.marker a) (hm : Moves p.marker True a b) (hs : SameParts a b)
    (hk : ClassKept (fun _ => False) p.marker p.store a b) (good : RowGood p.marker p.store id b)
    (hl : c.links ⊆ p.chain.links) (hoff : ∀ l ∈ c.links, l.key ≠ id.key) :
    Ready {p with store := p.store.put id b, chain := c} := by
  have g : Evolves (fun _ => False) p (p.put id b) :=
    .put ha (hm.imp fun _ => .inr hp.free) hs hk
  refine ⟨g.sane h.sane,fun hd => h.formed (hd.back g.stays h.sane),fun c row => h.fields_of_grows g.toGrows c row,?_,?_⟩
  · rintro k ⟨l,hmem,rfl⟩
    obtain ⟨u,j,x,hj,hx,hpend⟩ := h.calm l.key ⟨l,hl hmem,rfl⟩
    refine ⟨u,j,x,hj,?_,hpend⟩
    exact (Store.get?_put_of_key b fun he => hoff l hmem (hj.symm.trans he.symm)).trans hx
  · intro u j x hx
    have hgood : RowGood p.marker p.store j x := by
      by_cases hk : id.key = j.key
      · obtain ⟨rfl,rfl,rfl⟩ := Store.row_of_key hk (Store.get?_put_self ha) hx
        exact good
      · exact h.targets u j x ((Store.get?_put_of_key b hk).symm.trans hx)
    exact hgood.mono objectsOnly_false g.toGrows (.refl _) rfl

theorem Ready.pending {a : Row t} (h : Ready p) (ha : p.store.get? i = some a)
    (hi : p.onChain i.key) : Pending p.marker a := by
  obtain ⟨u,j,b,hj,hb,hpend⟩ := h.calm _ hi
  obtain ⟨rfl,rfl,rfl⟩ := Store.row_of_key hj hb ha
  exact hpend

theorem Chain.add_links {c : Chain} (h : (c.add l).1 = true) : (c.add l).2.links = c.links++[l] := by
  simp only [Chain.add] at h ⊢
  split at h
  · simp at h
  · simp_all

section Once
variable {t : EntityType} {τ ε : Type} [Referring t τ] {id : Id t} {before : Row t → Checking ε}
  {search : Bool → Row t → ε → Checking τ} {x : τ}

theorem Attempt.ready (h : Attempt id before search p r x q e p1 p2 r2 c) (kb : Keeps True (before r))
    (ks : ∀ b, Keeps True (search b r e)) (hq : q.Clean) (hp : Ready p)
    (h1 : Ready p.marked → p1.Clean → Ready p1 ∧ ∃ r1, p1.store.get? id = some r1 ∧
    found p1.marker (Referring.resolution r1) = none) (h2 : ∀ p1', p1'.store = p1.store → p1'.marker = p1.marker →
    Ready p1' → Gives (search true r e) p1' x p2 → p2.Clean → Ready p2 ∧
    RowGood p2.marker p2.store id (Referring.resolve r2 ⟨x,p2.marker⟩)) : Ready q ∧ Ready p2 ∧
    found p2.marker (Referring.resolution r2) = none := by
  have k1 := kb _ _ _ h.prepared
  have k2 := ks _ _ _ _ h.searched
  have hchain : c.links = p1.chain.links := by
    obtain ⟨_,hl,_⟩ := h.evolves kb ks
    rw [h.result] at hl
    exact hl.trans k1.restored.symm
  have hc2 : p2.Clean := .of_rewind h.rewound (h.result ▸ hq)
  have hc1' := k2.toEvolves.clean hc2
  obtain ⟨hfresh,hoff⟩ := hc1'.enter
  have hc1 : p1.Clean := (Evolves.enter (X := fun _ => False) (p := p1) (linkOf id r)).clean hc1'
  obtain ⟨hr1,r1,hrow1,hnone1⟩ := h1 (hp.unlink fun _ h => h) hc1
  have hready1' := hr1.enter hrow1 ((Referring.pending _ _).mpr hnone1) (l := linkOf id r) rfl
  have hsearch := h.searched
  rw [hfresh] at hsearch
  obtain ⟨hr2,hgood⟩ := h2 (p1.entered (linkOf id r)) rfl rfl hready1' hsearch hc2
  have hlinks2 : p2.chain.links = p1.chain.links++[linkOf id r] := k2.restored.trans (Chain.add_links hfresh)
  have hpend := hr2.pending h.row ⟨linkOf id r,by simp [hlinks2],rfl⟩
  refine ⟨?_,hr2,(Referring.pending _ _).mp hpend⟩
  rw [h.result]
  refine hr2.resolve h.row hpend (Referring.moves _ _ _) (Referring.parts _ _) (Referring.classKept _ _ _ _ _) hgood ?_ ?_
  · rw [hchain,hlinks2]
    exact List.subset_append_left _ _
  · intro l hl he
    rw [hchain] at hl
    exact hoff ⟨l,hl,he⟩

end Once

end Ready

end InfoObject.Check
