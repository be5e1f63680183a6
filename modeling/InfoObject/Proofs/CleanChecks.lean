import InfoObject.Proofs.Outcome

/-! Checks that find nothing wrong: each establishes what its stamp stands for. -/
namespace InfoObject.Check
open Model

/-- What is to be checked belongs to a module in use. -/
def HomedGoal (s : Store) : Goal → Prop
  | .objectClass i => Declares s (.objectClass (.definition i))
  | .object i => HomedObject s (.definition i)
  | .objectSet i => HomedSet s (.definition i)

section Homed
variable {s s' : Store}

theorem HomedField.mono (e : Stays s s') (h : HomedField s f) : HomedField s' f := by
  refine ⟨e.kept ▸ h.1,?_⟩
  have hs := h.2
  cases hf : f.shape with
  | value t u =>
    simp only [hf] at hs ⊢
    exact HomedType.mono e hs
  | object c | objectSet c =>
    simp only [hf] at hs ⊢
    exact HomedClass.mono e hs
  | _ => trivial

theorem GovernorBuilt.homed (h : GovernorBuilt s f g) (hf : HomedField s f) (hk : f.kind = .object ∨ f.kind = .objectSet) :
    HomedClass s g := by
  have hs := hf.2
  unfold GovernorBuilt at h
  cases hshape : f.shape <;> simp_all [Field.kind,FieldShape.kind]

theorem NameBuilt.homed (h : NameBuilt s m f r l v) (hm : m.id ∈ s.kept) (hf : HomedField s f)
    (hk : (match v with | .object _ => FieldKind.object | .set _ => .objectSet | _ => f.kind) = f.kind) : HomedHeld s v := by
  cases h with
  | @type i row h e | @value i row n h e =>
    have hscope : row.scope = m.id := congrArg (·.scope) e
    exact ⟨row,h,hscope ▸ hm⟩
  | @object i row g h e hg | @set i row g h e hg =>
    have hscope : row.scope = m.id := congrArg (·.scope) e
    have hgov : row.governor = g := congrArg (·.governor) e
    exact ⟨row,h,hscope ▸ hm,hgov ▸ GovernorBuilt.homed hg hf (by simp [← hk])⟩
  | literal h => trivial

theorem SettingBuilt.homed (h : SettingBuilt s m owner name x f st) (hm : m.id ∈ s.kept) (hf : HomedField s f)
    (hk : st.kind = f.kind) : HomedHeld s st.value := by
  have hv := h.value
  unfold Setting.kind at hk
  generalize st.value = v at hv hk
  cases hv with
  | int | text => trivial
  | @object b o row g k hrow e hg | @set b o row g k hrow e hg =>
    have hgov : row.governor = g := congrArg (·.governor) e
    exact ⟨row,m.id,hrow,congrArg (·.erroneous) e,congrArg (·.module) e,hm,congrArg (·.block.isSome) e,
      hgov ▸ GovernorBuilt.homed hg hf (by simp [← hk])⟩
  | name h =>
    refine NameBuilt.homed h hm hf ?_
    cases v <;> first | exact hk | rfl

end Homed

/-! The course of a check -/

/-- A pass between two steps of a check that found nothing wrong. -/
structure Course (W : Busy) (p : Pass) : Prop where
  ready : Ready p
  links : p.chain.links = []
  fresh : Marker.zero.before p.marker = true
  conflicts : p.conflicts ≠ [] → p.hasError
  busy : ∀ o c, W o c → ∃ row, p.store.get? o = some row ∧ row.checked.before p.marker = false ∧
    classNow p.marker p.store row.governor = some c

/-- What a step of a check leaves: whatever was stamped meanwhile was checked. -/
structure Step (W : Busy) (p q : Pass) : Prop where
  grows : Grows (fun _ => False) p q
  course : Course W q
  settles : ∀ (t : EntityType) (i : Id t), Stamped q.marker q.store i →
    Stamped p.marker p.store i ∨ Done q.marker q.store W i

/-- The checks of the classes of all busy objects led here. -/
def From (W : Busy) (p : Pass) (g : Goal) : Prop :=
  ∀ o c, W o c → Reaches p.marker p.store W (.objectClass c) g

section Course
variable {α : Type} {W V : Busy} {X : Nat → Prop} {p q r : Pass}

theorem Step.refl (h : Course W p) : Step W p p := ⟨.refl _ _,h,fun _ _ hs => .inl hs⟩

theorem Step.trans (h : Step W p q) (k : Step W q r) : Step W p r := by
  refine ⟨h.grows.trans k.grows,k.course,fun t i hs => ?_⟩
  rcases k.settles t i hs with hq | hd
  · rcases h.settles t i hq with hp | hd
    · exact .inl hp
    · exact .inr (hd.mono (busyOnly_false W) k.grows fun _ _ hw => hw)
  · exact .inr hd

theorem Course.evolves (h : Course W p) (k : Kept False p q) : Evolves (fun _ => False) p q :=
  k.toEvolves.weaken fun _ hk => absurd hk (not_onChain h.links)

/-- Steps that change only busy objects in what may be lost leave the course. -/
theorem Course.mono (h : Course W p) (g : Grows X p q) (hX : ObjectsOnly X) (hV : ∀ o c, V o c → W o c)
    (hl : q.chain.links = []) (hr : Ready q) : Course V q := by
  refine ⟨hr,hl,g.marker ▸ h.fresh,g.conflicts h.conflicts,fun o c hw => ?_⟩
  obtain ⟨row,hrow,hst,hc⟩ := h.busy o c (hV o c hw)
  obtain ⟨row',hrow',hm,_⟩ := g.rows .objectDef o row hrow
  refine ⟨row',hrow',?_,?_⟩
  · rw [g.marker]
    exact (ObjectMoves.checked hm).not_due hst
  · rw [ObjectMoves.governor hm]
    exact g.classNow hX hc

theorem Course.of_kept (h : Course W p) (k : Kept False p q) (hr : Ready q) : Course W q :=
  h.mono (h.evolves k).toGrows objectsOnly_false (fun _ _ hw => hw) (k.restored.trans h.links) hr

theorem Course.unstamped (h : Course W p) (k : Kept False p q) (hr : Ready q) (hu : Unstamped p.store q.store) : Step W p q :=
  ⟨(h.evolves k).toGrows,h.of_kept k hr,fun _ _ hs => .inl (hu.stamped h.fresh (k.marker ▸ hs))⟩

theorem Course.resolving (h : Course W p) (k : Kept True p q) (hr : Ready q) : Step W p q :=
  h.unstamped k.weaken hr (k.quiet trivial).stamps

theorem Id.of_key {t u : EntityType} {i : Id t} {j : Id u} (h : i.key = j.key) {P : {t : EntityType} → Id t → Prop}
    (hP : P i) : P j := by
  obtain ⟨rfl,rfl⟩ := Id.eq_of_key h
  exact hP

/-- A row that was stamped, and is otherwise as it was. -/
structure Marked (p : Pass) {t : EntityType} (a b : Row t) : Prop where
  moves : Moves p.marker False a b
  parts : SameParts a b
  kept : ClassKept (fun _ => False) p.marker p.store a b
  results : SameResults a b
  stamp : stampOf b = some p.marker

section Marked
variable {t : EntityType} {i : Id t} {a b : Row t} (h : Course W p) (ha : p.store.get? i = some a) (hm : Marked p a b)
include h ha hm

theorem Course.stamp : Course W (p.put i b) ∧
      Grows (fun _ => False) p (p.put i b) ∧
      ∀ (u : EntityType) (j : Id u), Stamped p.marker (p.store.put i b) j → Stamped p.marker p.store j ∨ i.key = j.key := by
  have e : Evolves (fun _ => False) p (p.put i b) := .put ha hm.moves hm.parts hm.kept
  have hready : Ready (p.put i b) := h.ready.of_unresolved objectsOnly_false e rfl (.put ha hm.results)
  refine ⟨h.mono e.toGrows objectsOnly_false (fun _ _ hw => hw) h.links hready,e.toGrows,?_⟩
  rintro u j ⟨c,k,hc,hck,hd⟩
  by_cases hij : i.key = j.key
  · exact .inr hij
  · exact .inl ⟨c,k,(Store.get?_put_of_key b hij).symm.trans hc,hck,hd⟩

theorem Course.stamped_step (hstep : Step W (p.put i b) q)
    (hdone : Done q.marker q.store W i) : Step W p q ∧ Stamped q.marker q.store i := by
  obtain ⟨_,g,hold⟩ := h.stamp ha hm
  have hst : Stamped p.marker (p.store.put i b) i :=
    ⟨b,p.marker,Store.get?_put_self ha,hm.stamp,Marker.before_irrefl _⟩
  refine ⟨⟨g.trans hstep.grows,hstep.course,fun u j hj => ?_⟩,hstep.grows.stamped hst⟩
  rcases hstep.settles u j hj with hj | hd
  · exact (hold u j hj).imp id fun hk => Id.of_key hk (P := Done q.marker q.store W) hdone
  · exact .inr hd

end Marked

theorem From.mono (h : From W p g) (k : Grows (fun _ => False) p q) : From W q g :=
  fun o c hw => Reaches.mono (busyOnly_false W) k (fun _ _ hw => hw) (h o c hw)

theorem From.lead (h : From W p x) (hl : Leads p.marker p.store W x y) : From W p y :=
  fun o c hw => (h o c hw).tail hl

theorem Gives.restoringChain_step {Q : Marker → Store → Prop} (hk : Keeps False m) (h : Gives (restoringChain m) p a q) (hq : q.Clean)
    (hp : Course W p) (hm : ∀ r, Gives m p.marked a r → r.Clean → Course W p.marked → Step W p.marked r ∧ Q r.marker r.store) :
    Step W p q ∧ Q q.marker q.store := by
  have hlinks := (hk.restoringChain _ _ _ h).restored.trans hp.links
  obtain ⟨r,c,hr,hclean,rfl,hready⟩ := h.restoringChain_clean hq
  obtain ⟨hs,hQ⟩ := hm r hr hclean ⟨hp.ready.unlink fun _ h => h,hp.links,hp.fresh,hp.conflicts,hp.busy⟩
  exact ⟨⟨{hs.grows with},⟨hready hs.course.ready,hlinks,hs.course.fresh,hs.course.conflicts,hs.course.busy⟩,hs.settles⟩,hQ⟩

end Course

/-! Names and values -/

section Names
variable {W : Busy} {p q : Pass} {u : Unit}

theorem Ready.object_homed (h : Ready p) (he : HomedObject p.store e) (hx : objectNow p.marker p.store e = some x) :
    HomedObject p.store (.definition x) := by
  rcases h.object_found hx with rfl | hd
  · exact he
  · exact hd.homed h.sane

/-- A reference that is due is stamped and resolved; one that is not was stamped before. -/
theorem Course.checkName {t : EntityType} {i : Id t} {checked : Row t → Marker} {stamp : Row t → Marker → Row t} {m : Checking τ}
    (hp : Course W p) (h : Gives (whenDue i checked stamp fun _ => do let _ ← m) p u q)
    (hr : ∀ r, stampOf r = some (checked r)) (hmark : ∀ r, Marked p r (stamp r p.marker))
    (hm : ∀ p1 x, Grows (fun _ => False) p p1 → Course W p1 → Gives m p1 x q → Step W p1 q ∧ Done q.marker q.store W i) :
    Step W p q ∧ Stamped q.marker q.store i := by
  obtain ⟨r,hrow,⟨hd,rfl⟩ | ⟨_,x,hx⟩⟩ := gives_checkName.mp h
  · exact ⟨.refl hp,r,checked r,hrow,hr r,hd⟩
  · obtain ⟨hc,g,_⟩ := hp.stamp hrow (hmark r)
    obtain ⟨hs,hdone⟩ := hm _ x g hc hx
    exact hp.stamped_step hrow (hmark r) hs hdone

section
variable (hq : q.Clean) (hp : Course W p)
include hq hp

theorem Gives.resolveClass_step (h : Gives (resolveClass e) p c q)
    (he : HomedClass p.store e) : Step W p q ∧ classNow q.marker q.store e = some c :=
  ⟨hp.resolving (keeps_resolveClass _ _ _ _ h) (followsWell_resolveClass.ready _ _ _ _ h hq hp.ready he),
    follows_resolveClass _ _ _ _ h⟩

theorem Gives.resolveType_step (h : Gives (resolveType i) p x q)
    (hi : HomedType p.store i) : Step W p q ∧ ∃ b, x = some b ∧ typeNow q.marker q.store i = some (some b) := by
  obtain ⟨hr,hb⟩ := h.resolveType_ready hq hp.ready hi
  exact ⟨hp.resolving (keeps_resolveType _ _ _ _ h) hr,hb⟩

theorem Gives.resolveValue_step (h : Gives (resolveValue v) p x q)
    (hv : HomedValue p.store v) : Step W p q ∧ ∃ l, x = some l ∧ valueNow q.marker q.store v = some (some l) := by
  obtain ⟨hr,hl⟩ := h.resolveValue_ready hq hp.ready hv
  exact ⟨hp.resolving (keeps_resolveValue _ _ _ _ h) hr,hl⟩

theorem Gives.resolveObject_step (h : Gives (resolveObject e) p x q)
    (he : HomedObject p.store e) : Step W p q ∧ objectNow q.marker q.store e = some x ∧
    HomedObject q.store (.definition x) := by
  have hw := followsObjectsWell_resolveObject
  have k := hw.keeps _ _ _ _ h
  have hr := hw.ready _ _ _ _ h hq hp.ready he
  have hnow := hw.follows _ _ _ _ h
  exact ⟨hp.resolving k hr,hnow,hr.object_homed (HomedObject.mono k.stays he) hnow⟩

theorem Gives.checkClassRef_step (h : Gives (checkClassRef i) p u q)
    (hi : HomedClass p.store (.reference i)) : Step W p q ∧ Stamped q.marker q.store i := by
  refine hp.checkName (t := .classRef) h (fun _ => rfl) (fun _ => ⟨⟨rfl,.inr rfl,.refl ..⟩,trivial,trivial,rfl,rfl⟩) ?_
  intro p1 x g hc hx
  obtain ⟨hs,hnow⟩ := hx.resolveClass_step hq hc (HomedClass.mono g.stays hi)
  exact ⟨hs,x,hnow⟩

theorem Gives.checkObjectRef_step (h : Gives (checkObjectRef i) p u q)
    (hi : HomedObject p.store (.reference i)) : Step W p q ∧ Stamped q.marker q.store i := by
  refine hp.checkName (t := .objectRef) h (fun _ => rfl) (fun _ => ⟨⟨rfl,.inr rfl,.refl ..⟩,trivial,trivial,rfl,rfl⟩) ?_
  intro p1 x g hc hx
  obtain ⟨hs,hnow,_⟩ := hx.resolveObject_step hq hc (HomedObject.mono g.stays hi)
  exact ⟨hs,x,hnow⟩

theorem Gives.checkSetRef_step (h : Gives (checkSetRef i) p u q)
    (hi : HomedSet p.store (.reference i)) : Step W p q ∧ Stamped q.marker q.store i := by
  refine hp.checkName (t := .setRef) h (fun _ => rfl) (fun _ => ⟨⟨rfl,.inr rfl,.refl ..⟩,trivial,trivial,rfl,rfl⟩) ?_
  intro p1 x g hc hx
  have hw := followsSetsWell_resolveSet
  have hready := hw.ready _ _ _ _ hx hq hc.ready (HomedSet.mono g.stays hi)
  exact ⟨hc.resolving (keeps_resolveSet _ _ _ _ hx) hready,x,hw.follows _ _ _ _ hx⟩

theorem Gives.checkValue_step (h : Gives (checkValue v t l) p u q)
    (hv : HomedValue p.store v) (ht : HomedType p.store t) : Step W p q ∧ ∃ b l, typeNow q.marker q.store t =
    some (some b) ∧ valueNow q.marker q.store v = some (some l) ∧ b.accepts l = true := by
  simp only [checkValue,gives_bind] at h
  obtain ⟨x,p1,hx,y,p2,hy,h⟩ := h
  have h2 : q = p2 ∧ ∀ b l, x = some b → y = some l → b.accepts l = true := by
    cases x with
    | none => exact ⟨(gives_pure.mp h).2,fun b l hb => by simp at hb⟩
    | some b =>
      cases y with
      | none => exact ⟨(gives_pure.mp h).2,fun b l _ hl => by simp at hl⟩
      | some l =>
        rcases gives_ite.mp h with ⟨ha,h⟩ | ⟨_,h⟩
        · refine ⟨(gives_pure.mp h).2,fun b' l' hb hl => ?_⟩
          obtain rfl := Option.some.inj hb
          obtain rfl := Option.some.inj hl
          exact ha
        · exact absurd hq h.reportError_not_clean
  obtain ⟨rfl,hacc⟩ := h2
  have hq1 := (keeps_resolveValue (R := True) _).clean hy hq
  obtain ⟨s1,b,rfl,hb⟩ := hx.resolveType_step hq1 hp ht
  obtain ⟨s2,l,rfl,hl⟩ := hy.resolveValue_step hq s1.course (HomedValue.mono s1.grows.stays hv)
  exact ⟨s1.trans s2,b,l,s2.grows.typeNow objectsOnly_false hb,hl,hacc b l rfl rfl⟩

end

end Names

/-! Settings and classes -/

/-- Checks that leave the course, and with what is to be checked stamped. -/
structure ChecksWell (go : Goal → Checking Unit) : Prop where
  keeps : ∀ g, Keeps False (go g)
  step : ∀ g W p q, Gives (go g) p () q → q.Clean → Course W p → HomedGoal p.store g → From W p g →
    Step W p q ∧ g.Stamped q.marker q.store

section Classes
variable {go : Goal → Checking Unit} (hgo : ChecksWell go) {W : Busy} {p q : Pass} {u : Unit}

theorem Grows.homed_held (g : Grows X p q) (h : HomedHeld p.store v) : HomedHeld q.store v :=
  HomedHeld.mono g.stays h

theorem Grows.homed_field (g : Grows X p q) (h : HomedField p.store f) : HomedField q.store f :=
  h.mono g.stays

theorem Gives.forM_step {α : Type} {l : List α} {f : α → Checking PUnit} {Q : α → Pass → Prop}
    (hk : ∀ x ∈ l, Keeps False (f x)) (hstep : ∀ x ∈ l, ∀ p1 p2, Step W p p1 → Gives (f x) p1 () p2 → p2.Clean →
    Step W p1 p2 ∧ Q x p2) (hQ : ∀ x ∈ l, ∀ p1 p2, Step W p1 p2 → Q x p1 → Q x p2) (h : Gives (l.forM f) p u q)
    (hq : q.Clean) (hp : Course W p) : Step W p q ∧ ∀ x ∈ l, Q x q := by
  induction l generalizing p with
  | nil =>
    obtain rfl := gives_forM_nil.mp h
    exact ⟨.refl hp,fun x hx => by simp at hx⟩
  | cons x l ih =>
    obtain ⟨p1,hx,hl⟩ := gives_forM_cons.mp h
    have hall : Keeps False (l.forM f) := .forM fun y hy => hk y (List.mem_cons_of_mem _ hy)
    obtain ⟨s1,hQ1⟩ := hstep x (List.mem_cons_self ..) p p1 (.refl hp) hx (hall.clean hl hq)
    obtain ⟨s2,hQ2⟩ := ih (fun y hy => hk y (List.mem_cons_of_mem _ hy))
      (fun y hy a b hs => hstep y (List.mem_cons_of_mem _ hy) a b (s1.trans hs))
      (fun y hy => hQ y (List.mem_cons_of_mem _ hy)) hl s1.course
    refine ⟨s1.trans s2,fun y hy => ?_⟩
    rcases List.mem_cons.mp hy with rfl | hy
    · exact hQ _ (List.mem_cons_self ..) _ _ s2 hQ1
    · exact hQ2 y hy

theorem Gives.checkNotUnique_clean (h : Gives (checkNotUnique f) p u q) (hq : q.Clean) : q = p := by
  rcases gives_ite.mp h with ⟨_,h⟩ | ⟨_,h⟩
  · exact absurd hq h.reportError_not_clean
  · exact (gives_pure.mp h).2

theorem Gives.defaultSetting_step (h : Gives (Check.defaultSetting i n f x) p st q) (hp : Course W p)
    (hc : p.store.get? i = some c) (hf : c.fields[n]? = some f) (hx : f.declaredDefault = some x) : Step W p q ∧ ∃ c' f',
    q.store.get? i = some c' ∧ c'.fields[n]? = some f' ∧ FieldMoves f f' ∧ f'.defaultSetting = some st := by
  obtain ⟨k,hu⟩ := h.defaultSetting hc hf hx
  obtain ⟨hd,rfl⟩ | ⟨_,p1,c1,hplain,hc1,_,_,rfl⟩ := h.defaultSetting_cases hx
  · exact ⟨.refl hp,c,f,hc,hf,.refl f,hd⟩
  · have hunres : Unresolved p.store (p1.store.put i (c1.withDefault n st)) :=
      hplain.unresolved.trans hplain.extends (.put (t := .classDef) hc1 trivial)
    have hready := hp.ready.of_unresolved objectsOnly_false (hp.evolves k) k.restored hunres
    refine ⟨hp.unstamped k hready hu,?_⟩
    obtain ⟨c2,hc2,hm,_⟩ := k.rows .classDef i c hc
    obtain ⟨f',hf',hff⟩ := getElem?_of_forall₂ (ClassMoves.fields hm) hf
    refine ⟨c2,f',hc2,hf',hff,?_⟩
    cases (Store.get?_put_self (t := .classDef) hc1).symm.trans hc2
    simp only [ClassDef.withDefault,List.getElem?_modify] at hf'
    obtain ⟨g,_,rfl⟩ := Option.map_eq_some_iff.mp hf'
    simp

theorem Ready.field_known (h : Ready p) (hi : Declares p.store (.objectClass (.definition i)))
    (hc : p.store.get? i = some c) (hf : f ∈ c.fields) : HomedField p.store f ∧ f.shape ≠ .malformed := by
  obtain ⟨he,hh⟩ := hi.class_row h.sane hc
  exact ⟨hh f hf,h.fields i c hi hc he f hf⟩

def FieldAt (i : Id .classDef) (n : Nat) (m : Marker) (s : Store) : Prop :=
  ∃ c f, s.get? i = some c ∧ c.fields[n]? = some f ∧ FieldDone m s f

theorem FieldAt.mono (g : Grows (fun _ => False) p q) (h : FieldAt i n p.marker p.store) : FieldAt i n q.marker q.store := by
  obtain ⟨c,f,hc,hf,hd⟩ := h
  obtain ⟨c',hc',hm,_⟩ := g.rows .classDef i c hc
  obtain ⟨f',hf',hff⟩ := getElem?_of_forall₂ (ClassMoves.fields hm) hf
  exact ⟨c',f',hc',hf',hd.mono objectsOnly_false g hff⟩

variable (hq : q.Clean) (hp : Course W p)
include hq hp

theorem Gives.checkShape_step (h : Gives (checkShape f) p u q)
    (hf : HomedField p.store f) : Step W p q ∧ ShapeDone q.marker q.store f.shape := by
  obtain ⟨_,hs⟩ := hf
  -- a field that holds objects or sets asks for its class
  have governed : ∀ c, HomedClass p.store (.reference c) →
      Gives (do checkNotUnique f; let _ ← resolveClass (.reference c)) p u q →
      Step W p q ∧ ∃ d, classNow q.marker q.store (.reference c) = some d := by
    intro c hc h
    obtain ⟨_,p1,hu,h⟩ := gives_bind.mp h
    obtain ⟨d,p2,hd,h⟩ := gives_bind.mp h
    obtain ⟨_,rfl⟩ := gives_pure.mp h
    obtain rfl := hu.checkNotUnique_clean ((keeps_resolveClass (R := True) _).clean hd hq)
    obtain ⟨s,hnow⟩ := hd.resolveClass_step hq hp hc
    exact ⟨s,d,hnow⟩
  unfold checkShape at h
  match hshape : f.shape with
  | .type =>
    simp only [hshape] at h
    obtain rfl := h.checkNotUnique_clean hq
    exact ⟨.refl hp,trivial⟩
  | .value t b =>
    simp only [hshape] at h hs
    obtain ⟨x,p1,hx,h⟩ := gives_bind.mp h
    obtain ⟨_,rfl⟩ := gives_pure.mp h
    obtain ⟨s,b,_,hb⟩ := hx.resolveType_step hq hp hs
    exact ⟨s,b,hb⟩
  | .object c | .objectSet c =>
    simp only [hshape] at h hs
    exact governed c hs h
  | .malformed =>
    simp only [hshape] at h
    exact absurd hq h.reportError_not_clean

include hgo

theorem Gives.checkHeld_step (h : Gives (checkHeld go st f) p u q)
    (hh : HomedHeld p.store st.value) (hf : HomedField p.store f) (hk : st.kind = f.kind)
    (hx : Holder p.marker p.store W x st.value) (hfrom : From W p x) : Step W p q ∧ HeldDone q.marker q.store f st.value := by
  unfold checkHeld at h
  unfold Setting.kind at hk
  generalize st.value = v at *
  match v with
  | .type t =>
    obtain ⟨x,p1,hx,h⟩ := gives_bind.mp h
    obtain ⟨_,rfl⟩ := gives_pure.mp h
    obtain ⟨s,b,_,hb⟩ := hx.resolveType_step hq hp hh
    exact ⟨s,b,hb⟩
  | .value v =>
    cases hshape : f.shape with
    | value t b =>
      simp only [hshape] at h
      obtain ⟨_,ht⟩ := hf
      simp only [hshape] at ht
      obtain ⟨s,b,l,hb,hl,ha⟩ := h.checkValue_step hq hp hh ht
      exact ⟨s,t,_,b,l,hshape,hb,hl,ha⟩
    | _ => simp [Field.kind,FieldShape.kind,hshape] at hk
  | .object o =>
    obtain ⟨i,p1,hi,h⟩ := gives_bind.mp h
    have hq1 := (hgo.keeps _).clean h hq
    obtain ⟨s1,hnow,hhomed⟩ := hi.resolveObject_step hq1 hp hh
    have hfrom1 : From W p1 (.object i) :=
      (hfrom.mono s1.grows).lead (.held (hx.mono (busyOnly_false W) s1.grows fun _ _ hw => hw) hnow)
    obtain ⟨s2,hst⟩ := hgo.step _ W _ _ h hq s1.course hhomed hfrom1
    exact ⟨s1.trans s2,i,s2.grows.objectNow objectsOnly_false hnow,hst⟩
  | .set (.definition d) => exact hgo.step _ W _ _ h hq hp hh (hfrom.lead (.held hx rfl))
  | .set (.reference i) => exact h.checkSetRef_step hq hp hh

theorem Gives.checkSetting_step (h : Gives (checkSetting go st f) p u q)
    (hh : st.kind = f.kind → HomedHeld p.store st.value) (hf : HomedField p.store f) (hformed : f.shape ≠ .malformed)
    (hx : Holder p.marker p.store W x st.value) (hfrom : From W p x) : Step W p q ∧ SettingDone q.marker q.store f st := by
  rcases gives_ite.mp h with ⟨_,h⟩ | ⟨hkind,h⟩
  · exact absurd hq h.reportError_not_clean
  · have hk : st.kind = f.kind := by
      have hne : f.kind ≠ .erroneous := by
        unfold Field.kind
        cases hs : f.shape <;> simp_all [FieldShape.kind]
      simpa [hne] using hkind
    refine h.restoringChain_step (Q := fun m s => SettingDone m s f st) (keeps_checkHeld hgo.keeps st f) hq hp fun r hm hr hc => ?_
    obtain ⟨s,hd⟩ := hm.checkHeld_step hgo hr hc (hh hk) hf hk hx hfrom
    exact ⟨s,hk,s.grows.homed_held (hh hk),hd⟩

theorem Gives.checkField_step (h : Gives (checkField go i n) p u q)
    (hi : Declares p.store (.objectClass (.definition i))) (hfrom : From W p (.objectClass i)) : Step W p q ∧
    FieldAt i n q.marker q.store := by
  obtain ⟨c,f,p1,c1,hc,hf,hs,hc1,hf1,h⟩ := h.checkField_cases
  obtain ⟨hh,hformed⟩ := hp.ready.field_known hi hc (List.mem_of_getElem? hf)
  rcases h with ⟨he | hx,rfl⟩ | ⟨_,x,st,p2,hx,hst,h⟩
  · simp [Field.isErroneous,hformed] at he
  · obtain ⟨s1,hshape⟩ := hs.checkShape_step hq hp hh
    exact ⟨s1,c1,f,hc1,hf1,hshape,fun x hx' => by simp [hx] at hx'⟩
  · have hq2 := (keeps_checkSetting hgo.keeps st f).clean h hq
    have hq1 := (hst.defaultSetting hc1 hf1 hx).1.toEvolves.clean hq2
    obtain ⟨s1,hshape⟩ := hs.checkShape_step hq1 hp hh
    obtain ⟨s2,c2,f2,hc2,hf2,hff,hd2⟩ := hst.defaultSetting_step s1.course hc1 hf1 hx
    have s12 := s1.trans s2
    have hmem := List.mem_of_getElem? hf2
    obtain ⟨hh2,_⟩ := s2.course.ready.field_known (hi.mono s12.grows.stays) hc2 hmem
    obtain ⟨_,_,hsh,_⟩ := Field.bare_eq_iff.mp hff.bare
    -- the default was built in the module of its field
    have hheld : st.kind = f.kind → HomedHeld p2.store st.value := by
      intro hk
      obtain ⟨m,x,hm,_,hb⟩ := s2.course.ready.sane.defaults i c2 f2 st hc2 hmem hd2
      exact SettingBuilt.homed hb hh2.1 hh2 (hk.trans (by simp only [Field.kind,hsh]))
    obtain ⟨s3,hdone⟩ := h.checkSetting_step hgo hq s2.course hheld (s12.grows.homed_field hh) hformed
      (.default hc2 hmem hd2) (hfrom.mono s12.grows)
    obtain ⟨c3,hc3,hm3,_⟩ := s3.grows.rows .classDef i c2 hc2
    obtain ⟨f3,hf3,hff3⟩ := getElem?_of_forall₂ (ClassMoves.fields hm3) hf2
    have hsh3 : f3.shape = f.shape := (Field.bare_eq_iff.mp hff3.bare).2.2.1.trans hsh
    refine ⟨s12.trans s3,c3,f3,hc3,hf3,?_,fun x _ => ⟨st,hff3.default st hd2,hdone.of_shape hsh3⟩⟩
    rw [hsh3]
    exact hshape.mono objectsOnly_false (s2.grows.trans s3.grows)

theorem Gives.checkClass_step (h : Gives (checkClass go i) p u q)
    (hi : Declares p.store (.objectClass (.definition i))) (hfrom : From W p (.objectClass i)) : Step W p q ∧
    Stamped q.marker q.store i := by
  obtain ⟨c,hc,⟨hd,rfl⟩ | ⟨_,ds,hds,⟨he,_⟩ | ⟨he,h⟩⟩⟩ := h.checkClass_cases
  · exact ⟨.refl hp,c,c.checked,hc,rfl,hd⟩
  · simp [(hi.class_row hp.ready.sane hc).1] at he
  · have hk : ∀ n ∈ List.range c.fields.length, Keeps False (restoringChain (checkField go i n)) :=
      fun n _ => (keeps_checkField hgo.keeps i n).restoringChain
    rw [if_neg (by simp [he])] at hds
    obtain rfl : ds = [] := redeclarations_silent hds fun e he => ((Keeps.forM hk).clean h hq).1 ⟨e,List.mem_append_left _ he⟩
    have hm : Marked (t := .classDef) p c (c.visited p.marker) :=
      ⟨⟨rfl,.inr rfl,List.forall₂_same.mpr fun f _ => FieldMoves.refl f⟩,rfl,trivial,trivial,rfl⟩
    obtain ⟨hc1,g1,_⟩ := hp.stamp (t := .classDef) hc hm
    have hrow : (p.store.put i (c.visited p.marker)).get? i = some (c.visited p.marker) :=
      Store.get?_put_self (t := .classDef) hc
    have hstep : ∀ n ∈ List.range c.fields.length, ∀ p1 p2,
        Step W (p.put i (c.visited p.marker)) p1 →
        Gives (restoringChain (checkField go i n)) p1 () p2 → p2.Clean → Step W p1 p2 ∧ FieldAt i n p2.marker p2.store := by
      intro n _ p1 p2 s1 h hq2
      have g2 := g1.trans s1.grows
      have hfrom1 : From W p1 (.objectClass i) := hfrom.mono g2
      exact h.restoringChain_step (keeps_checkField hgo.keeps i n) hq2 s1.course fun r hm hr hc2 =>
        hm.checkField_step hgo hr hc2 (hi.mono g2.stays) hfrom1
    obtain ⟨hs,hall⟩ := h.forM_step hk hstep (fun n _ _ _ s hQ => hQ.mono s.grows) hq hc1
    refine hp.stamped_step (t := .classDef) hc hm hs ?_
    obtain ⟨c',hc',hmoves,_⟩ := hs.grows.rows .classDef i _ hrow
    refine ⟨c',hc',fun f hf => ?_⟩
    obtain ⟨n,hn⟩ := List.mem_iff_getElem?.mp hf
    have hlt : n < c.fields.length :=
      (List.getElem?_eq_some_iff.mp hn).1.trans_eq (ClassMoves.fields hmoves).length_eq.symm
    obtain ⟨c'',f',hc'',hf',hdone⟩ := hall n (List.mem_range.mpr hlt)
    cases hc'.symm.trans hc''
    cases hn.symm.trans hf'
    exact hdone

theorem Gives.checkGoverning_step (h : Gives (checkGoverning go c) p b q)
    (hc : Declares p.store (.objectClass (.definition c))) (hfrom : From W p (.objectClass c)) : b = true ∧ Step W p q ∧
    Stamped q.marker q.store c := by
  simp only [checkGoverning,gives_bind,gives_load,gives_ite,gives_pure] at h
  obtain ⟨row,_,⟨hrow,rfl⟩,⟨he,_⟩ | ⟨_,_,_,h,rfl,rfl⟩⟩ := h
  · simp [(hc.class_row hp.ready.sane hrow).1] at he
  · exact ⟨rfl,hgo.step _ W _ _ h hq hp hc hfrom⟩

end Classes

end InfoObject.Check
