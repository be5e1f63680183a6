import InfoObject.Proofs.Keeping
import Mathlib.Data.List.Nodup

/-! Checks of definitions keep what was found in the generation: each definition is changed only by the one
check that finds it due. -/
namespace InfoObject.Check
open Model

section Stamping
variable {p : Pass}

theorem Kept.stamp {t : EntityType} {i : Id t} {a b : Row t} (ht : t ≠ .classDef ∧ t ≠ .setDef)
    (ha : p.store.get? i = some a) (hm : Moves p.marker (p.onChain i.key) a b) (hs : SameParts a b)
    (hk : ClassKept p.onChain p.marker p.store a b) : Kept False p (p.put i b) :=
  ⟨.put ha hm hs hk,rfl,False.elim,False.elim,(Unstamped.refl _).visited_put ht rfl⟩

theorem gives_isDue : Gives (isDue m) p b q ↔ b = m.before p.marker ∧ q = p := by
  simp [isDue,gives_marker,and_comm]

/-- What is checked once in a generation: it is stamped before the check goes on. -/
def whenDue {t : EntityType} (i : Id t) (checked : Row t → Marker) (stamp : Row t → Marker → Row t)
    (rest : Row t → Checking Unit) : Checking Unit := do
  let r ← load i
  if ← isDue (checked r) then
    save i (stamp r (← marker))
    rest r

theorem gives_whenDue {t : EntityType} {i : Id t} {checked : Row t → Marker} {stamp : Row t → Marker → Row t}
    {rest : Row t → Checking Unit} : Gives (whenDue i checked stamp rest) p u q ↔ ∃ r, p.store.get? i = some r ∧
    ((checked r).before p.marker = false ∧ q = p ∨ (checked r).before p.marker = true ∧
      Gives (rest r) (p.put i (stamp r p.marker)) () q) := by
  simp only [whenDue,gives_bind,gives_load,gives_isDue,gives_ite,gives_marker,gives_save,gives_pure]
  constructor
  · rintro ⟨r,_,⟨hr,rfl⟩,b,_,⟨rfl,rfl⟩,⟨hd,_,_,⟨rfl,rfl⟩,_,_,rfl,h⟩ | ⟨hd,_,rfl⟩⟩
    · exact ⟨r,hr,.inr ⟨hd,h⟩⟩
    · exact ⟨r,hr,.inl ⟨by simpa using hd,rfl⟩⟩
  · rintro ⟨r,hr,⟨hd,rfl⟩ | ⟨hd,h⟩⟩
    · exact ⟨r,q,⟨hr,rfl⟩,_,_,⟨rfl,rfl⟩,.inr ⟨by simpa using hd,trivial,rfl⟩⟩
    · exact ⟨r,p,⟨hr,rfl⟩,_,_,⟨rfl,rfl⟩,.inl ⟨hd,_,_,⟨rfl,rfl⟩,(),_,rfl,h⟩⟩

theorem gives_drop : Gives (do let _ ← m) p () q ↔ ∃ x, Gives m p x q := by simp

theorem gives_unless {e : Bool} {m : Checking Unit} :
    Gives (if e then pure () else m) p () q ↔ e = true ∧ q = p ∨ e = false ∧ Gives m p () q := by
  simp [gives_ite,gives_pure]

/-- Names are stamped, and then resolved. -/
theorem gives_checkName {t : EntityType} {i : Id t} {checked : Row t → Marker} {stamp : Row t → Marker → Row t} {m : Checking τ} :
    Gives (whenDue i checked stamp fun _ => do let _ ← m) p u q ↔ ∃ r, p.store.get? i = some r ∧
    ((checked r).before p.marker = false ∧ q = p ∨ (checked r).before p.marker = true ∧ ∃ x,
      Gives m (p.put i (stamp r p.marker)) x q) := by
  simp only [← gives_drop]
  exact gives_whenDue

theorem Kept.stamp_classRef {i : Id .classRef} (hr : p.store.get? i = some r) : Kept False p (p.put i {r with checked := p.marker}) :=
  .stamp (t := .classRef) (by decide) hr ⟨rfl,.inr rfl,.refl ..⟩ trivial trivial

theorem Kept.stamp_objectRef {i : Id .objectRef} (hr : p.store.get? i = some r) :
    Kept False p (p.put i {r with checked := p.marker}) :=
  .stamp (t := .objectRef) (by decide) hr ⟨rfl,.inr rfl,.refl ..⟩ trivial trivial

theorem Kept.stamp_setRef {i : Id .setRef} (hr : p.store.get? i = some r) : Kept False p (p.put i {r with checked := p.marker}) :=
  .stamp (t := .setRef) (by decide) hr ⟨rfl,.inr rfl,.refl ..⟩ trivial trivial

theorem keeps_checkName {t : EntityType} {i : Id t} {checked : Row t → Marker} {stamp : Row t → Marker → Row t} {m : Checking τ}
    (hs : ∀ p r, p.store.get? i = some r → Kept False p (p.put i (stamp r p.marker))) (hm : Keeps False m) :
    Keeps False (whenDue i checked stamp fun _ => do let _ ← m) := by
  intro p a q h
  obtain ⟨r,hr,⟨_,rfl⟩ | ⟨_,x,hx⟩⟩ := gives_checkName.mp h
  · exact .refl _ _
  · exact (hs p r hr).trans (hm _ _ _ hx)

theorem keeps_checkClassRef (i : Id .classRef) : Keeps False (checkClassRef i) :=
  keeps_checkName (t := .classRef) (fun _ _ => .stamp_classRef) (keeps_resolveClass _)

theorem keeps_checkObjectRef (i : Id .objectRef) : Keeps False (checkObjectRef i) :=
  keeps_checkName (t := .objectRef) (fun _ _ => .stamp_objectRef) (keeps_resolveObject _)

theorem keeps_checkSetRef (i : Id .setRef) : Keeps False (checkSetRef i) :=
  keeps_checkName (t := .setRef) (fun _ _ => .stamp_setRef) (keeps_resolveSet _)

end Stamping

/-! Flattening -/

section Flattening
variable {R : Prop} {p q r : Pass}

theorem Gives.expand_cases (h : Gives (expand i) p e q) : ∃ d, p.store.get? i = some d ∧
    (d.expansion = some e ∧ q = p ∨ d.expansion = none ∧ ∃ p1 d', Gives (Check.readElements d) p e p1 ∧
      p1.store.get? i = some d' ∧ q = p1.put i {d' with expansion := some e}) := by
  simp only [expand,gives_bind,gives_load] at h
  obtain ⟨d,_,⟨hd,rfl⟩,h⟩ := h
  refine ⟨d,hd,?_⟩
  cases he : d.expansion with
  | some x =>
    simp only [he,gives_pure] at h
    exact .inl ⟨by rw [h.1],h.2⟩
  | none =>
    simp only [he,gives_bind,gives_load,gives_save,gives_pure] at h
    obtain ⟨e,p1,hr,d',_,⟨hd',rfl⟩,_,_,rfl,rfl,rfl⟩ := h
    exact .inr ⟨rfl,_,d',hr,hd',rfl⟩

theorem keeps_expand (i : Id .setDef) : Keeps R (expand i) := by
  intro p a q h
  obtain ⟨d,hd,⟨_,rfl⟩ | ⟨he,p1,d',hr,hd',rfl⟩⟩ := h.expand_cases
  · exact .refl _ _
  · obtain ⟨hplain,hb,hf,hn⟩ := hr.readElements
    refine .of_quiet (hplain.expand hd he hd' hb hf hn) (by rw [hplain.chain]) ?_ (by rw [hplain.silent])
    refine hplain.quiet.trans hplain.extends ⟨?_,.put (t := .setDef) hd' rfl⟩
    intro j c c' hc hc'
    rw [Store.get?_put_other (by decide)] at hc'
    cases hc.symm.trans hc'
    rfl

theorem Gives.expand_unresolved (h : Gives (expand i) p e q) : q.chain = p.chain ∧ Unresolved p.store q.store ∧ ∃ d,
    q.store.get? i = some d ∧ d.expansion = some e := by
  obtain ⟨d,hd,⟨he,rfl⟩ | ⟨_,p1,d',hr,hd',rfl⟩⟩ := h.expand_cases
  · exact ⟨rfl,.refl _,d,hd,he⟩
  · obtain ⟨hplain,_⟩ := hr.readElements
    exact ⟨hplain.chain,hplain.unresolved.trans hplain.extends (.put (t := .setDef) hd' rfl),_,
      Store.get?_put_self (t := .setDef) hd',rfl⟩

theorem keeps_flattenElement (hf : ∀ i, Keeps R (f i)) (e : Element) : Keeps R (flattenElement f e) := by
  cases e with
  | literal o => exact .pure _
  | object i => exact (keeps_resolveObject _).bind fun _ => keeps_load.bind fun _ => .pure _
  | set i => exact (keeps_resolveSet _).bind fun d => hf d

theorem keeps_flattenElements (hf : ∀ i, Keeps R (f i)) (es : List Element) : Keeps R (flattenElements f es) := by
  induction es with
  | nil => exact .pure _
  | cons e es ih => exact (keeps_flattenElement hf e).restoringChain.bind fun _ => ih.bind fun _ => .pure _

def setLink (i : Id .setDef) (d : SetDef) : Link := ⟨i.key,d.name,d.location⟩

/-- The steps of a flattening that was not made in the generation. -/
structure Flattening (n : Nat) (i : Id .setDef) (p : Pass) (d : SetDef) (os : List (Id .objectDef)) (q : Pass)
    (e : Except Notation.SyntaxError Expansion) (p1 p2 : Pass) (d1 d2 : SetDef) (c : Chain) : Prop where
  expanded : Gives (expand i) {p with chain := (p.chain.mark.add (setLink i d)).2} e p1
  row1 : p1.store.get? i = some d1
  flattened : Gives (flattenElements (flattenWithin n) d1.elements) p1 os p2
  row2 : p2.store.get? i = some d2
  rewound : p2.chain.rewind = some c
  result : q = {p2 with store := p2.store.put i {d2 with flattening := some ⟨os,p2.marker⟩}, chain := c}

theorem gives_flattenWithin : Gives (flattenWithin (n+1) i) p os q ↔ ∃ d, p.store.get? i = some d ∧
    (d.erroneous = true ∧ os = [] ∧ q = p ∨ d.erroneous = false ∧
    (found p.marker d.flattening = some os ∧ q = p ∨ found p.marker d.flattening = none ∧
    ((p.chain.mark.add (setLink i d)).1 = true ∧ (∃ e p1 p2 d1 d2 c, Flattening n i p d os q e p1 p2 d1 d2 c) ∨
    (p.chain.mark.add (setLink i d)).1 = false ∧ os = [] ∧ ∃ c, (p.chain.mark.add (setLink i d)).2.rewind = some c ∧ q =
    {p with chain := c}))) := by
  simp only [flattenWithin,gives_bind,gives_load,gives_ite,gives_pure]
  constructor
  · rintro ⟨d,_,⟨hd,rfl⟩,⟨he,rfl,rfl⟩ | ⟨he,h⟩⟩
    · exact ⟨d,hd,.inl ⟨he,rfl,rfl⟩⟩
    · refine ⟨d,hd,.inr ⟨by simpa using he,?_⟩⟩
      simp only [gives_current?] at h
      obtain ⟨o,_,⟨rfl,ho⟩,h⟩ := h
      cases o with
      | some y =>
        obtain ⟨rfl,rfl⟩ := gives_pure.mp h
        exact .inl ⟨ho.symm,rfl⟩
      | none =>
        refine .inr ⟨ho.symm,?_⟩
        obtain ⟨p3,c,hm,hc,hq⟩ := gives_restoringChain.mp h
        simp only [gives_bind,gives_enter,gives_ite,gives_load,gives_marker,gives_save,gives_pure] at hm
        obtain ⟨b,_,⟨rfl,rfl⟩,⟨hb,e,p1,he,d1,p1',⟨hd1,hp1⟩,y,p2,hs,d2,p2',⟨hd2,hp2⟩,k,p2'',⟨hk,hp2'⟩,_,_,rfl,rfl,rfl⟩ |
          ⟨hb,rfl,rfl⟩⟩ := hm
        · subst hp1 hp2 hp2' hk
          exact .inl ⟨hb,e,_,_,d1,d2,c,he,hd1,hs,hd2,hc,hq⟩
        · exact .inr ⟨Bool.eq_false_iff.mpr hb,rfl,c,hc,hq⟩
  · rintro ⟨d,hd,⟨he,rfl,rfl⟩ | ⟨he,h⟩⟩
    · exact ⟨d,q,⟨hd,rfl⟩,.inl ⟨he,rfl,rfl⟩⟩
    · refine ⟨d,p,⟨hd,rfl⟩,.inr ⟨by simpa using he,?_⟩⟩
      simp only [gives_current?]
      rcases h with ⟨hx,rfl⟩ | ⟨hn,h⟩
      · exact ⟨some os,q,⟨rfl,hx.symm⟩,gives_pure.mpr ⟨rfl,rfl⟩⟩
      · refine ⟨none,p,⟨rfl,hn.symm⟩,?_⟩
        rcases h with ⟨hb,e,p1,p2,d1,d2,c,h⟩ | ⟨hb,rfl,c,hc,hq⟩
        · refine gives_restoringChain.mpr
            ⟨p2.put i {d2 with flattening := some ⟨os,p2.marker⟩},c,?_,h.rewound,h.result⟩
          simp only [gives_bind,gives_enter,gives_ite,gives_load,gives_marker,gives_save,gives_pure]
          exact ⟨_,_,⟨rfl,rfl⟩,.inl ⟨hb,e,p1,h.expanded,d1,p1,⟨h.row1,rfl⟩,os,p2,h.flattened,d2,p2,⟨h.row2,rfl⟩,
            _,_,⟨rfl,rfl⟩,(),_,rfl,rfl,rfl⟩⟩
        · refine gives_restoringChain.mpr ⟨p.marked.entered (setLink i d),c,?_,hc,hq⟩
          simp only [gives_bind,gives_enter,gives_ite,gives_pure]
          exact ⟨_,_,⟨rfl,rfl⟩,.inr ⟨Bool.eq_false_iff.mp hb,trivial,rfl⟩⟩

theorem Flattening.evolves (h : Flattening n i p d os q e p1 p2 d1 d2 c) (ih : ∀ j, Keeps True (flattenWithin n j)) :
    Evolves (fun k => p.onChain k ∨ k = i.key) p q ∧ q.chain.links = p.chain.links ∧ Quiet p.store q.store ∧
      q.reports.filter ofRepeat = p.reports.filter ofRepeat := by
  have k1 := keeps_expand (R := True) i _ _ _ h.expanded
  have k2 := k1.trans (keeps_flattenElements ih _ _ _ _ h.flattened)
  have e1 : Evolves (fun k => p.onChain k ∨ k = i.key) p.marked
      (p.marked.entered (setLink i d)) := .enter (p := p.marked) _
  have e2 : Evolves (fun k => p.onChain k ∨ k = i.key) (p.marked.entered (setLink i d)) p2 :=
    k2.toEvolves.weaken fun k hk => onChain_add (p := p.marked) hk
  have e3 : Evolves (fun k => p.onChain k ∨ k = i.key) p2
      (p2.put i {d2 with flattening := some ⟨os,p2.marker⟩}) :=
    .put (t := .setDef) h.row2 ⟨rfl,.refl ..,fun _ h => h,.inr ⟨⟨os,rfl⟩,.inr (.inr rfl)⟩⟩ rfl fun _ h _ => h
  obtain ⟨he,hl⟩ := ((e1.trans e2).trans e3).restore h.rewound
  rw [h.result]
  have hq : Quiet p.store p2.store := k2.quiet trivial
  exact ⟨he,hl,hq.trans k2.extends (.put (t := .setDef) h.row2 rfl rfl),k2.hushed trivial⟩

theorem keeps_flattenWithin (n : Nat) (i : Id .setDef) : Keeps True (flattenWithin n i) := by
  induction n generalizing i with
  | zero => exact .throw _
  | succ n ih =>
    intro p os q hg
    obtain ⟨d,hd,⟨_,_,rfl⟩ | ⟨_,⟨_,rfl⟩ | ⟨hn,⟨_,e,p1,p2,d1,d2,c,h⟩ | ⟨_,_,c,hc,rfl⟩⟩⟩⟩ := gives_flattenWithin.mp hg
    · exact .refl _ _
    · exact .refl _ _
    · obtain ⟨he,hl,hq,hr⟩ := h.evolves ih
      exact .of_quiet (he.drop (t := .setDef) hd hn) hl hq hr
    · obtain ⟨he,hl⟩ := Evolves.restore (X := p.onChain) (.enter (p := p.marked) _) hc
      exact .of_quiet he hl (.refl _) rfl

theorem keeps_flatten (i : Id .setDef) : Keeps R (flatten i) :=
  keeps_budget.bind fun n => (keeps_flattenWithin n i).weaken

end Flattening

/-! Checks -/

section Checks
variable {go : Goal → Checking Unit} (hgo : ∀ g, Keeps False (go g)) {p q : Pass}

theorem keeps_checkValue (v : ValueExpr) (t : Id .typeRef) (l : Location) : Keeps False (checkValue v t l) := by
  refine (keeps_resolveType t).bind fun type => (keeps_resolveValue v).bind fun value => ?_
  split
  · exact .ite (.pure _) (keeps_reportError rfl)
  · exact .pure _

include hgo in
theorem keeps_checkHeld (s : Setting) (f : Field) : Keeps False (checkHeld go s f) := by
  unfold checkHeld
  split
  · exact (keeps_resolveType _).bind fun _ => .pure _
  · split
    · exact keeps_checkValue _ _ _
    · exact (keeps_resolveValue _).bind fun _ => .pure _
  · exact (keeps_resolveObject _).bind fun i => hgo _
  · exact hgo _
  · exact keeps_checkSetRef _

include hgo in
theorem keeps_checkSetting (s : Setting) (f : Field) : Keeps False (checkSetting go s f) :=
  .ite (keeps_reportError (by split <;> rfl)) (keeps_checkHeld hgo s f).restoringChain

theorem Gives.defaultSetting_cases (h : Gives (defaultSetting i n f x) p st q) (hx : f.declaredDefault = some x) :
    f.defaultSetting = some st ∧ q = p ∨ f.defaultSetting = none ∧ ∃ p1 c, Plain p p1 ∧ p1.store.get? i = some c ∧
    DefaultBuilt p1.store f st ∧ FreshValue p.store p1.store st.value ∧ q =
    (p1.put i (c.withDefault n st)) := by
  unfold Check.defaultSetting at h
  cases hd : f.defaultSetting with
  | some s =>
    simp only [hd,gives_pure] at h
    exact .inl ⟨by rw [h.1],h.2⟩
  | none =>
    simp only [hd,saveDefault,gives_bind,gives_load,gives_save,gives_pure] at h
    obtain ⟨m,p1,hm,s,p2,hs,_,_,⟨c',_,⟨hc',rfl⟩,rfl⟩,rfl,rfl⟩ := h
    obtain ⟨rfl,j,row,hj,hrow,rfl⟩ := hm.scopeOf
    obtain rfl := Option.some.inj hj
    obtain ⟨hplain,hb,hfresh⟩ := hs.newSetting
    obtain ⟨row',hrow',hbare⟩ := hplain.extends.rows _ _ _ hrow
    refine .inr ⟨rfl,_,c',hplain,hc',⟨row',x,hrow',hx,?_⟩,hfresh,rfl⟩
    rw [Module.file_of_bare hbare]
    exact hb

theorem Gives.defaultSetting (h : Gives (defaultSetting i n f x) p st q) (hc : p.store.get? i = some c)
    (hf : c.fields[n]? = some f) (hx : f.declaredDefault = some x) : Kept False p q ∧ Unstamped p.store q.store := by
  obtain ⟨_,rfl⟩ | ⟨hd,p1,c',hplain,hc',hb,hfresh,rfl⟩ := h.defaultSetting_cases hx
  · exact ⟨.refl _ _,.refl _⟩
  · have hu : Unstamped p.store (p1.store.put i (c'.withDefault n st)) :=
      hplain.quiet.stamps.trans (.put (t := .classDef) hc' rfl)
    exact ⟨⟨hplain.default hc hf hd hc' hb hfresh,by rw [hplain.chain],False.elim,False.elim,
      hu.visited (q := p1.put i _) (congrArg _ hplain.silent)⟩,hu⟩

/-- Checks a field but for its default. -/
def checkShape (f : Field) : Checking Unit :=
  match f.shape with
  | .type => checkNotUnique f
  | .value t _ => do let _ ← resolveType t
  | .object c | .objectSet c => do
    checkNotUnique f
    let _ ← resolveClass (.reference c)
  | .malformed => reportError (.malformedField f.name.display) f.location none

theorem checkField_eq (i : Id .classDef) (n : Nat) : checkField go i n = (do
    let f ← loadField i n
    checkShape f
    if f.isErroneous then pure () else checkDefault go i n f) := by
  refine bind_congr fun f => ?_
  unfold checkShape
  cases f.shape <;> first | rfl | simp only [bind_assoc,pure_bind]

theorem gives_loadField : Gives (loadField i n) p f q ↔ q = p ∧ ∃ c, p.store.get? i = some c ∧ c.fields[n]? = some f := by
  simp only [loadField,gives_bind,gives_load]
  constructor
  · rintro ⟨c,_,⟨hc,rfl⟩,h⟩
    split at h
    · rename_i g hg
      obtain ⟨rfl,rfl⟩ := gives_pure.mp h
      exact ⟨rfl,c,hc,hg⟩
    · exact absurd h gives_throw
  · rintro ⟨rfl,c,hc,hf⟩
    exact ⟨c,q,⟨hc,rfl⟩,by simp [hf]⟩

theorem keeps_checkNotUnique (f : Field) : Keeps True (checkNotUnique f) := .ite (keeps_reportError rfl) (.pure _)

theorem keeps_checkShape (f : Field) : Keeps True (checkShape f) := by
  unfold checkShape
  split
  · exact keeps_checkNotUnique f
  · exact (keeps_resolveType _).bind fun _ => .pure _
  · exact (keeps_checkNotUnique f).bind fun _ => (keeps_resolveClass _).bind fun _ => .pure _
  · exact (keeps_checkNotUnique f).bind fun _ => (keeps_resolveClass _).bind fun _ => .pure _
  · exact keeps_reportError rfl

/-- The shape of a field is checked, and then its default if it has one and is not malformed. -/
theorem Gives.checkField_cases (h : Gives (checkField go i n) p u q) : ∃ c f p1 c1, p.store.get? i = some c ∧
    c.fields[n]? = some f ∧ Gives (checkShape f) p () p1 ∧ p1.store.get? i = some c1 ∧ c1.fields[n]? = some f ∧
    ((f.isErroneous = true ∨ f.declaredDefault = none) ∧ q = p1 ∨ f.isErroneous = false ∧ ∃ x st p2,
      f.declaredDefault = some x ∧ Gives (Check.defaultSetting i n f x) p1 st p2 ∧ Gives (checkSetting go st f) p2 () q) := by
  rw [checkField_eq] at h
  simp only [gives_bind,gives_loadField,gives_ite,gives_pure] at h
  obtain ⟨f,_,⟨rfl,c,hc,hf⟩,_,p1,hs,h⟩ := h
  have k1 := keeps_checkShape f _ _ _ hs
  obtain ⟨c1,hc1,_⟩ := k1.extends.rows _ i c hc
  -- Resolving names built no default, so the field is as it was read.
  have hf1 : c1.fields[n]? = some f := ((k1.quiet trivial).fields i c c1 hc hc1) ▸ hf
  refine ⟨c,f,p1,c1,hc,hf,hs,hc1,hf1,?_⟩
  rcases h with ⟨he,_,rfl⟩ | ⟨he,h⟩
  · exact .inl ⟨.inl he,rfl⟩
  · unfold checkDefault at h
    cases hx : f.declaredDefault with
    | none =>
      simp only [hx,gives_pure] at h
      exact .inl ⟨.inr rfl,h.2⟩
    | some x =>
      simp only [hx,gives_bind] at h
      obtain ⟨st,p2,hst,h⟩ := h
      exact .inr ⟨by simpa using he,x,st,p2,rfl,hst,h⟩

include hgo in
theorem keeps_checkField (i : Id .classDef) (n : Nat) : Keeps False (checkField go i n) := by
  intro p a q h
  obtain ⟨_,f,p1,_,_,_,hs,hc,hf,h⟩ := h.checkField_cases
  have k1 := (keeps_checkShape f _ _ _ hs).weaken (R := False)
  rcases h with ⟨_,rfl⟩ | ⟨_,x,st,p2,hx,hst,h⟩
  · exact k1
  · exact (k1.trans (hst.defaultSetting hc hf hx).1).trans (keeps_checkSetting hgo st f _ _ _ h)

theorem Gives.checkField_formed (h : Gives (checkField go i n) p u q) (hc : p.store.get? i = some c)
    (hf : c.fields[n]? = some f) : f.shape ≠ .malformed ∨ q.hasError := by
  by_cases hs : f.shape = .malformed
  · right
    obtain ⟨c',f',p1,_,hc',hf',h1,_,_,h⟩ := h.checkField_cases
    cases hc.symm.trans hc'
    cases hf.symm.trans hf'
    simp only [checkShape,hs,gives_reportError] at h1
    rcases h with ⟨_,rfl⟩ | ⟨he,_⟩
    · rw [h1]
      exact ⟨_,List.mem_cons_self ..⟩
    · simp [Field.isErroneous,hs] at he
  · exact .inl hs

theorem Gives.checkFields_formed (hgo : ∀ g, Keeps False (go g))
    (h : Gives ((List.range c.fields.length).forM fun n => restoringChain (checkField go i n)) p u q)
    (hc : p.store.get? i = some c) (hd : q.store.get? i = some d) : Formed d ∨ q.hasError := by
  by_cases hq : q.hasError
  · exact .inr hq
  · left
    have hk : ∀ n ∈ List.range c.fields.length, Keeps False (restoringChain (checkField go i n)) :=
      fun n _ => (keeps_checkField hgo i n).restoringChain
    have hall := Keeps.forM hk _ _ _ h
    obtain ⟨d',hd',hbare⟩ := hall.extends.rows _ i c hc
    cases hd.symm.trans hd'
    refine Formed.of_bare hbare fun _ f hf => ?_
    obtain ⟨n,hn⟩ := List.mem_iff_getElem?.mp hf
    obtain ⟨p',q',kp,hg,kq⟩ := Keeps.forM_mem hk h
      (List.mem_range.mpr (List.getElem?_eq_some_iff.mp hn).1)
    obtain ⟨r,ch,hm,_,rfl⟩ := gives_restoringChain.mp hg
    obtain ⟨c',hc',hmoves,_⟩ := kp.rows .classDef i c hc
    obtain ⟨f',hf',hff⟩ := getElem?_of_forall₂ (ClassMoves.fields hmoves) hn
    rcases hm.checkField_formed hc' hf' with hs | ⟨e,he⟩
    · rwa [(Field.bare_eq_iff.mp hff.bare).2.2.1] at hs
    · exact absurd ⟨e,kq.reports.subset he⟩ hq

theorem checkFields_eq : checkFields go i c = (do
    reportDuplicates c.name [] (duplicateFields c)
    (List.range c.fields.length).forM fun n => restoringChain (checkField go i n)) := by
  simp only [checkFields,duplicateFields?_eq,orStuck,pure_bind]

/-- A pass in which a class is stamped and the fields of it that share a name are told of. -/
def Pass.visit (p : Pass) (i : Id .classDef) (c : ClassDef) (ds : List Diagnostic) : Pass :=
  {p with store := p.store.put i (c.visited p.marker), reports := ds++p.reports}

theorem Gives.checkClass_cases (h : Gives (checkClass go i) p u q) : ∃ c, p.store.get? i = some c ∧
    (c.checked.before p.marker = false ∧ q = p ∨ c.checked.before p.marker = true ∧
    ∃ ds, ds.Perm (if c.erroneous then [] else redeclarations c) ∧ (c.erroneous = true ∧ q = p.visit i c ds ∨
      c.erroneous = false ∧ Gives ((List.range c.fields.length).forM fun n => restoringChain (checkField go i n))
        (p.visit i c ds) () q)) := by
  obtain ⟨c,hc,h | ⟨hdue,h⟩⟩ := (gives_whenDue (t := .classDef)).mp h
  · exact ⟨c,hc,.inl h⟩
  · refine ⟨c,hc,.inr ⟨hdue,?_⟩⟩
    rcases gives_unless.mp h with ⟨he,rfl⟩ | ⟨he,h⟩
    · exact ⟨[],by simp [he],.inl ⟨he,rfl⟩⟩
    · rw [checkFields_eq,gives_bind] at h
      obtain ⟨_,_,hdup,h⟩ := h
      obtain ⟨ds,hds,rfl⟩ := hdup.reportDuplicates_all
      exact ⟨ds,by simpa [he] using hds,.inr ⟨he,h⟩⟩

theorem Evolves.visit (hc : p.store.get? i = some c) : Evolves X p (p.visit i c ds) := by
  have hm : ClassMoves p.marker c (c.visited p.marker) := ⟨rfl,.inr rfl,List.forall₂_same.mpr fun f _ => FieldMoves.refl f⟩
  exact (Evolves.put (t := .classDef) hc hm rfl trivial).trans (.report ds)

theorem Charges.visit (hc : p.store.get? i = some c) (hdue : c.checked.before p.marker = true)
    (hds : ds.Perm (if c.erroneous then [] else redeclarations c)) : Charges p (p.visit i c ds) := by
  have hrow : (p.visit i c ds).store.get? i = some (c.visited p.marker) := Store.get?_put_self (t := .classDef) hc
  have hall : ∀ d ∈ ds, ofRepeat d = true := fun d hd => by
    have := hds.subset hd
    split at this
    · contradiction
    · exact ofRepeat_redeclarations this
  refine ⟨[i],List.nodup_singleton i,fun j => ?_,?_⟩
  · rw [List.mem_singleton]
    by_cases hij : i = j
    · subst hij
      refine iff_of_true rfl ⟨⟨_,_,hrow,rfl,Marker.before_irrefl _⟩,?_⟩
      rintro ⟨c',_,hc',hk,hst⟩
      cases hc.symm.trans hc'
      obtain rfl := Option.some.inj hk
      simp [hdue] at hst
    · simp [Pass.visit,stamped_put_ne hij,Ne.symm hij]
  · rw [List.flatMap_singleton,classShare_congr hc hrow rfl,classShare,hc,Pass.visit,List.filter_append,
      List.filter_eq_self.mpr hall]
    exact hds.append_right _

include hgo in
theorem keeps_checkClass (i : Id .classDef) : Keeps False (checkClass go i) := by
  intro p a q hg
  obtain ⟨c,hc,⟨_,rfl⟩ | ⟨hdue,ds,hds,h⟩⟩ := hg.checkClass_cases
  · exact .refl _ _
  · have e1 : Evolves p.onChain p (p.visit i c ds) := .visit hc
    have hrow : (p.visit i c ds).store.get? i = some (c.visited p.marker) := Store.get?_put_self (t := .classDef) hc
    have k2 : Kept False (p.visit i c ds) q := by
      rcases h with ⟨_,rfl⟩ | ⟨_,h⟩
      · exact .refl _ _
      · exact Keeps.forM (fun n _ => (keeps_checkField hgo i n).restoringChain) _ _ _ h
    refine ⟨e1.trans k2.toEvolves,k2.restored,False.elim,False.elim,fun hfresh j d hd hst => ?_,
      fun hl hfresh j d hd hst => ?_,fun hfresh => (Charges.visit hc hdue hds).trans e1.toGrows (k2.visited.told hfresh) k2.toGrows⟩
    · by_cases hij : i = j
      · subst hij
        right
        rcases h with ⟨he,rfl⟩ | ⟨_,h⟩
        · cases hrow.symm.trans hd
          exact .inl fun hf => by simp [ClassDef.visited,he] at hf
        · exact Gives.checkFields_formed (c := c.visited p.marker) hgo h hrow hd
      · exact (k2.visited.classes hfresh j d hd hst).imp_left (stamped_put_ne hij).mp
    · exact (k2.visited.sets hl hfresh j d hd hst).imp_left (stamped_put_other (t := .classDef) (by decide)).mp

/-! Objects -/

/-- A setting that a body declares for a field of a class. -/
structure SettingSorted (s : Store) (m : Scope) (owner : String) (c : ClassDef) (d : Notation.SettingDecl)
    (st : Setting) : Prop where
  named : st.name = asnIdentifier d.name.name
  built : ∃ f, c.field? st.name = some f ∧ SettingBuilt s m owner st.name d.payload f st

theorem SettingSorted.mono (e : Extends s s') (h : SettingSorted s m owner c d st) : SettingSorted s' m owner c d st := by
  obtain ⟨f,hf,hb⟩ := h.built
  exact ⟨h.named,f,hf,hb.mono e⟩

/-- The members of a list that are so, given those before them. -/
def pick (P : List α → α → Prop) [∀ l a, Decidable (P l a)] (before : List α) : List α → List α
  | [] => []
  | a::l => if P before a then a::pick P (before++[a]) l else pick P (before++[a]) l

theorem pick_cons_pos {P : List α → α → Prop} [∀ l a, Decidable (P l a)] (h : P before a) :
    pick P before (a::l) = a::pick P (before++[a]) l := if_pos h

theorem pick_cons_neg {P : List α → α → Prop} [∀ l a, Decidable (P l a)] (h : ¬ P before a) :
    pick P before (a::l) = pick P (before++[a]) l := if_neg h

def declaredName (d : Notation.SettingDecl) : Identifier := asnIdentifier d.name.name

/-- A setting of something that is no field of the class. -/
def Foreign (c : ClassDef) (d : Notation.SettingDecl) : Prop := c.field? (declaredName d) = none

/-- A setting of a field of the class that was set before. -/
def Again (c : ClassDef) (before : List Notation.SettingDecl) (d : Notation.SettingDecl) : Prop :=
  ¬ Foreign c d ∧ ∃ e ∈ before, declaredName e = declaredName d

/-- The first setting of a field of the class. -/
def Fresh (c : ClassDef) (before : List Notation.SettingDecl) (d : Notation.SettingDecl) : Prop :=
  ¬ Foreign c d ∧ ∀ e ∈ before, declaredName e ≠ declaredName d

instance : Decidable (Foreign c d) := inferInstanceAs (Decidable (_ = none))
instance : Decidable (Again c before d) := inferInstanceAs (Decidable (_ ∧ _))
instance : Decidable (Fresh c before d) := inferInstanceAs (Decidable (_ ∧ _))

/-- The parts of a body. What is declared first for a field of the class is there as a setting, and no field is set
twice. -/
structure BodySorted (s : Store) (m : Scope) (owner : String) (c : ClassDef) (done : List Setting)
    (before ds : List Notation.SettingDecl) (x : Partition) (l : List Setting) : Prop where
  settings : x.settings = done.reverse++l
  sorted : List.Forall₂ (SettingSorted s m owner c) (pick (Fresh c) before ds) l
  repeated : x.repeated = pick (Again c) before ds
  unknown : x.unknown = ds.filter (Foreign c)
  nodup : (done.map Setting.name).Nodup → (x.settings.map Setting.name).Nodup

theorem Gives.partitionBody (h : Gives (partitionBody m owner c done ds) p x q) : Plain p q ∧ (Sane p.store →
    ∀ before, (∀ n, n ∈ done.map Setting.name ↔ c.field? n ≠ none ∧ ∃ e ∈ before, declaredName e = n) →
    ∃ l, BodySorted q.store m owner c done before ds x l) := by
  induction ds generalizing done p x with
  | nil =>
    simp only [Check.partitionBody,gives_pure] at h
    obtain ⟨rfl,rfl⟩ := h
    exact ⟨.refl _,fun _ _ _ => ⟨[],by simp,.nil,rfl,rfl,by simp [List.map_reverse,List.nodup_reverse]⟩⟩
  | cons d ds ih =>
    simp only [Check.partitionBody,gives_bind,gives_build,gives_ite,gives_pure] at h
    obtain ⟨name,p0,⟨s,hs,hp0⟩,h⟩ := h
    obtain ⟨hgrown,hname⟩ := Makes.intern hs
    have h0 : Plain p p0 := hp0 ▸ .of_built hgrown
    rcases h with ⟨hold,y,p1,hy,rfl,rfl⟩ | ⟨hnew,h⟩
    · obtain ⟨h1,hb⟩ := ih hy
      refine ⟨h0.trans h1,fun hsane before hdone => ?_⟩
      obtain rfl : name = declaredName d := hname hsane
      obtain ⟨hf,e,he,hed⟩ := (hdone _).mp (by simpa using hold)
      obtain ⟨l,hbs⟩ := hb (h0.sane hsane) (before++[d]) fun n => by grind
      refine ⟨l,hbs.settings,?_,?_,?_,hbs.nodup⟩
      · rw [pick_cons_neg fun hfresh => hfresh.2 e he hed]
        exact hbs.sorted
      · rw [pick_cons_pos ⟨hf,e,he,hed⟩,← hbs.repeated]
      · rw [List.filter_cons_of_neg (by simpa using (show ¬ Foreign c d from hf)),← hbs.unknown]
    · cases hf : c.field? name with
      | none =>
        simp only [hf,gives_bind,gives_pure] at h
        obtain ⟨y,p1,hy,rfl,rfl⟩ := h
        obtain ⟨h1,hb⟩ := ih hy
        refine ⟨h0.trans h1,fun hsane before hdone => ?_⟩
        obtain rfl : name = declaredName d := hname hsane
        obtain ⟨l,hbs⟩ := hb (h0.sane hsane) (before++[d]) fun n => by grind
        refine ⟨l,hbs.settings,?_,?_,?_,hbs.nodup⟩
        · rw [pick_cons_neg fun hfresh => hfresh.1 hf]
          exact hbs.sorted
        · rw [pick_cons_neg fun hagain => hagain.1 hf,← hbs.repeated]
        · rw [List.filter_cons_of_pos (by simpa using (show Foreign c d from hf)),← hbs.unknown]
      | some f =>
        simp only [hf,gives_bind] at h
        obtain ⟨st,p1,hst,h⟩ := h
        obtain ⟨h1,hbuilt,_⟩ := hst.newSetting
        obtain ⟨h2,hb⟩ := ih h
        refine ⟨(h0.trans h1).trans h2,fun hsane before hdone => ?_⟩
        obtain rfl : name = declaredName d := hname hsane
        have hfirst : ∀ e ∈ before, declaredName e ≠ declaredName d := fun e he hed =>
          hnew (by simpa using (hdone _).mpr ⟨by simp [hf],e,he,hed⟩)
        obtain ⟨l,hbs⟩ := hb (h1.sane (h0.sane hsane)) (before++[d]) fun n => by
          have := hbuilt.named
          grind
        have hsorted : SettingSorted p1.store m owner c d st :=
          ⟨hbuilt.named,f,hbuilt.named ▸ hf,by rw [hbuilt.named]; exact hbuilt⟩
        refine ⟨st::l,?_,?_,?_,?_,?_⟩
        · rw [hbs.settings]
          simp
        · rw [pick_cons_pos ⟨by simp [Foreign,hf],hfirst⟩]
          exact .cons (hsorted.mono h2.extends) hbs.sorted
        · rw [pick_cons_neg fun hagain => hagain.2.elim fun e he => hfirst e he.1 he.2,hbs.repeated]
        · rw [List.filter_cons_of_neg (by simp [Foreign,hf]),hbs.unknown]
        · intro hnodup
          refine hbs.nodup (List.nodup_cons.mpr ⟨fun hmem => hnew ?_,hnodup⟩)
          obtain ⟨y,hy,hyn⟩ := List.mem_map.mp hmem
          exact List.any_eq_true.mpr ⟨y,hy,by simp [hyn,hbuilt.named]⟩

theorem pick_fresh_eq {ds : List Notation.SettingDecl} (hu : ds.filter (Foreign c) = [])
    (hr : pick (Again c) before ds = []) : pick (Fresh c) before ds = ds := by
  induction ds generalizing before with
  | nil => rfl
  | cons d ds ih =>
    have hf : ¬ Foreign c d := by simpa using List.filter_eq_nil_iff.mp hu d (List.mem_cons_self ..)
    by_cases ha : Again c before d
    · simp [pick_cons_pos ha] at hr
    · rw [pick_cons_neg ha] at hr
      rw [pick_cons_pos ⟨hf,fun e he hed => ha ⟨hf,e,he,hed⟩⟩,ih (by simpa [hf] using hu) hr]

include hgo in
theorem keeps_checkObjectField (o : ObjectDef) (settings : List Setting) (f : Field) :
    Keeps False (checkObjectField go o settings f) := by
  unfold checkObjectField
  split
  · exact keeps_checkSetting hgo _ f
  · exact .ite (keeps_reportError rfl) (.pure _)

structure BodyChecked (go : Goal → Checking Unit) (i : Id .objectDef) (m : Scope) (ci : Id .classDef)
    (body : Notation.ObjectBody) (p q : Pass) (o : ObjectDef) (c : ClassDef) (x : Partition) (p1 : Pass)
    (o' : ObjectDef) (p2 p3 : Pass) : Prop where
  object : p.store.get? i = some o
  objectClass : p.store.get? ci = some c
  sorted : Gives (partitionBody m o.name c [] body.settings) p x p1
  row : p1.store.get? i = some o'
  unknown : Gives (x.unknown.forM (reportUnknown m c))
    {p1 with store := p1.store.put i {o' with settings := x.settings} } () p2
  repeated : Gives (x.repeated.forM (reportRepeated m)) p2 () p3
  fields : Gives ((firstFields c).forM (checkObjectField go o x.settings)) p3 () q

theorem gives_checkBody : Gives (checkBody go i m ci body) p u q ↔ ∃ o c x p1 o' p2 p3,
    BodyChecked go i m ci body p q o c x p1 o' p2 p3 := by
  simp only [checkBody,gives_bind,gives_load,gives_save]
  constructor
  · rintro ⟨o,_,⟨ho,rfl⟩,c,_,⟨hc,rfl⟩,x,p1,hx,o',_,⟨ho',rfl⟩,_,_,rfl,_,p2,hu,_,p3,hr,hf⟩
    exact ⟨o,c,x,_,o',p2,p3,ho,hc,hx,ho',hu,hr,hf⟩
  · rintro ⟨o,c,x,p1,o',p2,p3,h⟩
    exact ⟨o,p,⟨h.object,rfl⟩,c,p,⟨h.objectClass,rfl⟩,x,p1,h.sorted,o',p1,⟨h.row,rfl⟩,(),_,rfl,(),p2,h.unknown,
      (),p3,h.repeated,h.fields⟩

theorem BodySorted.built (h : BodySorted s m owner c [] [] ds x l) (hst : st ∈ x.settings) : ∃ y f,
    c.field? st.name = some f ∧ SettingBuilt s m owner st.name y f st := by
  rw [h.settings] at hst
  obtain ⟨n,hn⟩ := List.mem_iff_getElem?.mp (by simpa using hst : st ∈ l)
  obtain ⟨d,_,hd⟩ := getElem?_of_forall₂_flip h.sorted hn
  exact ⟨d.payload,hd.built⟩

theorem BodyChecked.saves {row : Module} (h : BodyChecked go i ⟨j,row.file⟩ ci body p q o c x p1 o' p2 p3)
    (hst : o.checked.before p.marker = false) (hj : o.module = some j) (hrow : p.store.get? j = some row) :
    Evolves (fun k => k = i.key) p (p1.put i {o' with settings := x.settings}) := by
  obtain ⟨hplain,hsorted⟩ := h.sorted.partitionBody
  obtain ⟨o'',ho'',hm,_⟩ := hplain.rows .objectDef i o h.object
  cases h.row.symm.trans ho''
  refine hplain.settings h.row ⟨rfl,.refl ..,fun hd => ?_,fun _ hx => absurd rfl hx⟩ ?_
  · have := (ObjectMoves.checked hm).not_due hst
    simp [show o'.checked.before p.marker = true from hd] at this
  · intro hs st hst
    obtain ⟨l,hb⟩ := hsorted hs [] (by simp)
    obtain ⟨row',hrow',hbare⟩ := hplain.extends.rows _ j row hrow
    obtain ⟨hname,_,_,hmod,_⟩ := ObjectDef.bare_eq_iff.mp (ObjectMoves.bare hm)
    rw [← Module.file_of_bare hbare,← hname] at hb
    obtain ⟨y,f,_,hbuilt⟩ := hb.built hst
    exact ⟨j,row',y,f,hmod.trans hj,hrow',hbuilt⟩

theorem BodyChecked.stamped (h : BodyChecked go i m ci body p q o c x p1 o' p2 p3)
    (hst : o.checked.before p.marker = false) : o'.checked.before p1.marker = false := by
  obtain ⟨hplain,_⟩ := h.sorted.partitionBody
  obtain ⟨o'',ho'',hm,_⟩ := hplain.rows .objectDef i o h.object
  cases h.row.symm.trans ho''
  rw [hplain.marker]
  exact (ObjectMoves.checked hm).not_due hst

include hgo in
theorem BodyChecked.rest_kept (h : BodyChecked go i m ci body p q o c x p1 o' p2 p3) :
    Kept False (p1.put i {o' with settings := x.settings}) q :=
  ((Keeps.forM (fun _ _ => keeps_reportError rfl) _ _ _ h.unknown).trans
    (Keeps.forM (fun _ _ => keeps_reportError rfl) _ _ _ h.repeated)).trans
    (Keeps.forM (fun f _ => keeps_checkObjectField hgo o x.settings f) _ _ _ h.fields)

include hgo in
theorem BodyChecked.evolves {row : Module} (h : BodyChecked go i ⟨j,row.file⟩ ci body p q o c x p1 o' p2 p3)
    (hst : o.checked.before p.marker = false) (hj : o.module = some j) (hrow : p.store.get? j = some row) :
    Evolves (fun k => p.onChain k ∨ k = i.key) p q ∧ q.chain.links = p.chain.links ∧ Visited p q := by
  obtain ⟨hplain,_⟩ := h.sorted.partitionBody
  have e1 := h.saves hst hj hrow
  have k1 := h.rest_kept hgo
  have hlinks : p1.chain.links = p.chain.links := by rw [hplain.chain]
  refine ⟨(e1.weaken fun _ hk => .inr hk).trans (k1.toEvolves.weaken fun k hk => .inl ?_),k1.restored.trans hlinks,?_⟩
  · exact (Pass.onChain_congr (p := p) (q := p1.put i {o' with settings := x.settings})
      hlinks) ▸ hk
  · exact Visited.trans (hplain.quiet.stamps.visited_put (t := .objectDef) (by decide) (congrArg _ hplain.silent)) e1.toGrows hlinks.trans k1.visited
      k1.toGrows fun hl _ hk => absurd hk (not_onChain hl)

include hgo in
theorem keeps_checkGoverning (c : Id .classDef) : Keeps False (checkGoverning go c) :=
  keeps_load.bind fun _ => .ite (.pure _) ((hgo _).bind fun _ => .pure _)

/-- Checks the body of an object of a class that is known. -/
def checkBlock (go : Goal → Checking Unit) (i : Id .objectDef) (o : ObjectDef) (c : Id .classDef) : Checking Unit := do
  let b ← orStuck o.block .noBody
  let m ← scopeOf o.module
  match b.parseObject with
  | .error e => reportBody m e
  | .ok body => checkBody go i m c body

/-- The steps of the check of an object or a set that is due and was found, once it is stamped. -/
structure Governed (go : Goal → Checking Unit) (govern : Checking (Id .classDef)) (rest : Id .classDef → Checking Unit)
    (p q : Pass) (c : Id .classDef) (p1 : Pass) (b : Bool) (p2 : Pass) : Prop where
  governed : Gives govern p c p1
  classChecked : Gives (checkGoverning go c) p1 b p2
  rest : Gives (if b then rest c else pure ()) p2 () q

theorem gives_governed {rest : Id .classDef → Checking Unit} : Gives (do
    let c ← govern
    if ← checkGoverning go c then rest c) p () q ↔ ∃ c p1 b p2, Governed go govern rest p q c p1 b p2 := by
  simp only [gives_bind]
  constructor
  · rintro ⟨c,p1,hc,b,p2,hb,h⟩
    exact ⟨c,p1,b,p2,hc,hb,h⟩
  · rintro ⟨c,p1,b,p2,h⟩
    exact ⟨c,p1,h.governed,b,p2,h.classChecked,h.rest⟩

abbrev ObjectChecked (go : Goal → Checking Unit) (i : Id .objectDef) (p q : Pass) (o : ObjectDef) :=
  Governed go (governObject resolveClass i) (checkBlock go i o)
    {p with store := p.store.put i {o with checked := p.marker} } q

theorem gives_checkObject : Gives (checkObject go i) p u q ↔ ∃ o, p.store.get? i = some o ∧
    (o.checked.before p.marker = false ∧ q = p ∨ o.checked.before p.marker = true ∧
    (o.erroneous = true ∧ q = p.put i {o with checked := p.marker} ∨ o.erroneous = false ∧ ∃
    c p1 b p2, ObjectChecked go i p q o c p1 b p2)) := by
  refine (gives_whenDue (t := .objectDef)).trans (exists_congr fun o => and_congr_right fun _ => or_congr .rfl ?_)
  exact and_congr_right fun _ => gives_unless.trans (or_congr .rfl (and_congr_right fun _ => gives_governed))

/-- An object is checked against its class if its block can be read. -/
theorem Gives.checkBlock_cases (h : Gives (checkBlock go i o c) p u q) : ∃ b j row,
    o.block = some b ∧ o.module = some j ∧ p.store.get? j = some row ∧
    ((∃ e, b.parseObject = .error e ∧ Gives (reportBody ⟨j,row.file⟩ e) p u q) ∨
      ∃ body o c' x p1 o' p2 p3, b.parseObject = .ok body ∧ BodyChecked go i ⟨j,row.file⟩ c body p q o c' x p1 o' p2 p3) := by
  simp only [checkBlock,gives_bind,gives_orStuck] at h
  obtain ⟨b,_,⟨hblock,rfl⟩,m,p1,hm,h⟩ := h
  obtain ⟨rfl,j,row,hj,hrow,rfl⟩ := hm.scopeOf
  refine ⟨b,j,row,hblock,hj,hrow,?_⟩
  cases hp : b.parseObject with
  | error e =>
    simp only [hp] at h
    exact .inl ⟨e,rfl,h⟩
  | ok body =>
    simp only [hp] at h
    obtain ⟨o,c',x,p1,o',p2,p3,h⟩ := gives_checkBody.mp h
    exact .inr ⟨body,o,c',x,p1,o',p2,p3,rfl,h⟩

theorem Gives.checkBlock (h : Gives (checkBlock go i o c) p u q) (hgo : ∀ g, Keeps False (go g))
    (ho : p.store.get? i = some o1) (hb : o1.bare = o.bare) (hst : o1.checked.before p.marker = false) :
    Evolves (fun k => p.onChain k ∨ k = i.key) p q ∧ q.chain.links = p.chain.links ∧ Visited p q := by
  obtain ⟨_,j,row,_,hj,hrow,⟨e,_,h⟩ | ⟨_,_,_,_,_,_,_,_,_,h⟩⟩ := h.checkBlock_cases
  · have hk := keeps_reportError (R := False) rfl _ _ _ h
    exact ⟨hk.toEvolves.weaken fun _ hk => .inl hk,hk.restored,hk.visited⟩
  · cases ho.symm.trans h.object
    exact h.evolves hgo hst ((ObjectDef.bare_eq_iff.mp hb).2.2.2.1.trans hj) hrow

section Object
variable {i : Id .objectDef} {o : ObjectDef} {c : Id .classDef} {p1 p2 : Pass} {b : Bool}

theorem Kept.stamp_object (ho : p.store.get? i = some o) :
    Kept False p (p.put i {o with checked := p.marker}) :=
  .stamp (t := .objectDef) (by decide) ho ⟨rfl,.inr rfl,fun _ => rfl,fun _ _ => rfl⟩ rfl fun _ h _ => h

include hgo

theorem ObjectChecked.kept (h : ObjectChecked go i p q o c p1 b p2) :
    Kept False (p.put i {o with checked := p.marker}) p2 :=
  (keeps_governObject keeps_resolveClass follows_resolveClass i _ _ _ h.governed).trans
    (keeps_checkGoverning hgo c _ _ _ h.classChecked)

theorem ObjectChecked.row (h : ObjectChecked go i p q o c p1 b p2) (ho : p.store.get? i = some o) :
    ∃ o2, p2.store.get? i = some o2 ∧ o2.bare = o.bare ∧ o2.checked.before p2.marker = false := by
  have k := h.kept hgo
  obtain ⟨o2,ho2,hm,_⟩ := k.rows .objectDef i {o with checked := p.marker} (Store.get?_put_self (t := .objectDef) ho)
  have hbare : o2.bare = ({o with checked := p.marker} : ObjectDef).bare := ObjectMoves.bare hm
  refine ⟨o2,ho2,hbare,?_⟩
  rw [k.marker]
  exact (ObjectMoves.checked hm).not_due (Marker.before_irrefl _)

theorem ObjectChecked.rest_evolves (h : ObjectChecked go i p q o c p1 b p2) (ho : p.store.get? i = some o) :
    Evolves (fun k => p2.onChain k ∨ k = i.key) p2 q ∧ q.chain.links = p2.chain.links ∧ Visited p2 q := by
  have hr := h.rest
  cases b with
  | false =>
    obtain ⟨_,rfl⟩ := gives_pure.mp hr
    exact ⟨.refl _ _,rfl,(Unstamped.refl _).visited rfl⟩
  | true =>
    obtain ⟨o2,ho2,hbare,hst⟩ := h.row hgo ho
    exact hr.checkBlock hgo ho2 hbare hst

theorem keeps_checkObject (i : Id .objectDef) : Keeps False (checkObject go i) := by
  intro p a q hg
  obtain ⟨o,ho,⟨_,rfl⟩ | ⟨hd,⟨_,rfl⟩ | ⟨_,c,p1,b,p2,h⟩⟩⟩ := gives_checkObject.mp hg
  · exact .refl _ _
  · exact .stamp_object ho
  · have k := (Kept.stamp_object ho).trans (h.kept hgo)
    obtain ⟨he,hl,hv⟩ := h.rest_evolves hgo ho
    rw [Pass.onChain_congr k.restored] at he
    have hall := (k.toEvolves.weaken fun _ hk => .inl hk).trans he
    refine ⟨hall.drop (t := .objectDef) ho hd,hl.trans k.restored,False.elim,False.elim,
      k.visited.trans k.toGrows k.restored.trans hv he.toGrows fun hl2 j hj => ?_⟩
    exact ⟨i,hj.resolve_left (Pass.onChain_congr k.restored ▸ not_onChain hl2)⟩

end Object

/-! Object sets -/

theorem keeps_reportConflict (c : Conflict) (hf : ofRepeat (.error ⟨f,l,some r⟩) = false) :
    Keeps False (reportConflict c f l r) := by
  intro p a q h
  obtain ⟨_,rfl⟩ | ⟨_,rfl⟩ := gives_reportConflict.mp h
  · exact .refl _ _
  · refine .of_quiet {Evolves.refl _ _ with reports := List.suffix_cons _ _, conflicts := ?_} rfl (.refl _)
      (List.filter_cons_of_neg (by simp [hf]))
    exact fun _ _ => ⟨_,List.mem_cons_self ..⟩

theorem keeps_settingValue (i : Id .objectDef) (name : Identifier) : Keeps True (settingValue i name) := by
  refine keeps_load.bind fun o => ?_
  split
  · exact keeps_resolveValue _
  · exact .pure _

include hgo in
theorem keeps_checkUniqueField (owner : Id .classDef) (n : Nat) (f : Field) (seen : List (String × Id .objectDef))
    (os : List (Id .objectDef)) : Keeps False (checkUniqueField go owner n f seen os) := by
  induction os generalizing seen with
  | nil => exact .pure _
  | cons o os ih =>
    unfold checkUniqueField
    refine (hgo _).bind fun _ => (keeps_settingValue o _).weaken.bind fun v => ?_
    split
    · exact ih _
    · split
      · exact ih _
      · split
        · exact ih _
        · exact keeps_load.bind fun _ => keeps_load.bind fun _ => (keeps_reportConflict _ rfl).bind fun _ => ih _

include hgo in
theorem keeps_checkUnique (c : Id .classDef) (os : List (Id .objectDef)) : Keeps False (checkUnique go c os) :=
  keeps_load.bind fun _ => .forM fun x _ => keeps_checkUniqueField hgo c x.1 x.2 [] os

include hgo in
theorem keeps_checkElement (e : Element) : Keeps False (checkElement go e) := by
  cases e with
  | literal o => exact hgo _
  | object i => exact keeps_checkObjectRef i
  | set i => exact keeps_checkSetRef i

include hgo in
theorem keeps_checkElements (i : Id .setDef) (c : Id .classDef) (e : Expansion) : Keeps False (checkElements go i c e) := by
  refine keeps_load.bind fun d => ?_
  have rest : Keeps False (do
      e.elements.forM fun x => restoringChain (checkElement go x)
      checkUnique go c (← flatten i)) :=
    (Keeps.forM fun x _ => (keeps_checkElement hgo x).restoringChain).bind fun _ =>
      (keeps_flatten i).bind fun os => keeps_checkUnique hgo c os
  split
  · exact (keeps_reportWarning rfl).bind fun _ => rest
  · exact rest

/-- Checks what a set of a class that is known has in it. -/
def checkExpansion (go : Goal → Checking Unit) (i : Id .setDef) (d : SetDef) (c : Id .classDef) : Checking Unit := do
  match ← expand i with
  | .error e => reportBody (← scopeOf d.module) e
  | .ok e => checkElements go i c e

abbrev SetChecked (go : Goal → Checking Unit) (i : Id .setDef) (p q : Pass) (d : SetDef) :=
  Governed go (governSet i) (checkExpansion go i d) {p with store := p.store.put i {d with checked := p.marker} } q

theorem gives_checkSet : Gives (checkSet go i) p u q ↔ ∃ d, p.store.get? i = some d ∧
    (d.checked.before p.marker = false ∧ q = p ∨ d.checked.before p.marker = true ∧
    (d.erroneous = true ∧ q = p.put i {d with checked := p.marker} ∨ d.erroneous = false ∧ ∃
    c p1 b p2, SetChecked go i p q d c p1 b p2)) := by
  refine (gives_whenDue (t := .setDef)).trans (exists_congr fun d => and_congr_right fun _ => or_congr .rfl ?_)
  exact and_congr_right fun _ => gives_unless.trans (or_congr .rfl (and_congr_right fun _ => gives_governed))

include hgo in
theorem keeps_checkExpansion (i : Id .setDef) (d : SetDef) (c : Id .classDef) : Keeps False (checkExpansion go i d c) := by
  refine (keeps_expand i).bind fun e => ?_
  cases e with
  | error x =>
    intro p a q h
    obtain ⟨m,p1,hm,hr⟩ := gives_bind.mp h
    rw [hm.scopeOf.1] at hr
    exact keeps_reportError rfl _ _ _ hr
  | ok x => exact keeps_checkElements hgo i c x

/-- The objects of a set are listed in it, unless it is met while it is flattened itself. -/
theorem Gives.flatten_listed (h : Gives (flatten i) p os q) (hd : p.store.get? i = some d) (he : d.erroneous = false) :
    (∃ d', q.store.get? i = some d' ∧ found q.marker d'.flattening = some os) ∨ (p.chain.mark.add (setLink i d)).1 = false ∧
    ∃ c, (p.chain.mark.add (setLink i d)).2.rewind = some c ∧ q = {p with chain := c} := by
  simp only [flatten,gives_bind,gives_budget] at h
  obtain ⟨n,p0,⟨_,rfl⟩,h⟩ := h
  cases n with
  | zero => exact absurd h gives_throw
  | succ n =>
    obtain ⟨d',hd',h⟩ := gives_flattenWithin.mp h
    cases hd.symm.trans hd'
    obtain ⟨he',_⟩ | ⟨_,⟨hos,rfl⟩ | ⟨_,⟨_,e,p1,p2,d1,d2,c,hf⟩ | ⟨hb,_,hc⟩⟩⟩ := h
    · rw [he] at he'
      contradiction
    · exact .inl ⟨d,hd',hos⟩
    · rw [hf.result]
      exact .inl ⟨_,Store.get?_put_self (t := .setDef) hf.row2,found_now ..⟩
    · exact .inr ⟨hb,hc⟩

theorem Gives.checkElements_surveyed (h : Gives (checkElements go i c e) p u q) (hgo : ∀ g, Keeps False (go g))
    (hl : p.chain.links = []) (hd : p.store.get? i = some d) (he : d.erroneous = false) (hd' : q.store.get? i = some d') :
    Surveyed q d' := by
  obtain ⟨d0,p0,h0,hrest⟩ := gives_bind.mp h
  obtain ⟨_,rfl⟩ := gives_load.mp h0
  obtain ⟨p1,k1,h⟩ : ∃ p1, Kept False p0 p1 ∧ Gives (do
      e.elements.forM fun x => restoringChain (checkElement go x)
      checkUnique go c (← flatten i)) p1 u q := by
    split at hrest
    · obtain ⟨_,p1,h1,h⟩ := gives_bind.mp hrest
      exact ⟨p1,keeps_reportWarning rfl _ _ _ h1,h⟩
    · exact ⟨_,.refl _ _,hrest⟩
  obtain ⟨_,p2,h2,h⟩ := gives_bind.mp h
  obtain ⟨os,p3,h3,h4⟩ := gives_bind.mp h
  have k2 := k1.trans (Keeps.forM (fun x _ => (keeps_checkElement hgo x).restoringChain) _ _ _ h2)
  have l2 := k2.restored.trans hl
  have l3 := (keeps_flatten (R := False) i _ _ _ h3).restored.trans l2
  obtain ⟨d2,hd2,hbare⟩ := k2.extends.rows _ i d hd
  have hlisted := h3.flatten_listed hd2 ((SetDef.bare_eq_iff.mp hbare).2.2.1.trans he)
  obtain ⟨d3,hd3,hos⟩ := hlisted.resolve_right fun hb => by simp [Chain.add,Chain.holds,Chain.mark,l2] at hb
  exact .mono objectsOnly_false ((keeps_checkUnique hgo c os _ _ _ h4).grows l3) hd3 hd' (.listed hos)

theorem Gives.checkExpansion_surveyed (h : Gives (checkExpansion go i d0 c) p u q) (hgo : ∀ g, Keeps False (go g))
    (hl : p.chain.links = []) (hd : p.store.get? i = some d) (he : d.erroneous = false) (hd' : q.store.get? i = some d') :
    Surveyed q d' := by
  obtain ⟨e,p1,h1,h⟩ := gives_bind.mp h
  have k1 := keeps_expand (R := False) i _ _ _ h1
  have l1 := k1.restored.trans hl
  obtain ⟨_,_,d1,hd1,hx⟩ := h1.expand_unresolved
  cases e with
  | error x =>
    obtain ⟨m,p2,hm,hr⟩ := gives_bind.mp h
    obtain ⟨rfl,_⟩ := hm.scopeOf
    exact .mono objectsOnly_false ((keeps_reportError (R := False) rfl _ _ _ hr).grows l1) hd1 hd' (.unread hx)
  | ok x =>
    obtain ⟨d2,hd2,hbare⟩ := k1.extends.rows _ i d hd
    exact Gives.checkElements_surveyed h hgo l1 hd2 ((SetDef.bare_eq_iff.mp hbare).2.2.1.trans he) hd'

theorem Gives.checkGoverning_wrong (h : Gives (checkGoverning go c) p false q) : ∃ row, p.store.get? c = some row ∧
    row.erroneous = true := by
  simp only [checkGoverning,gives_bind,gives_load,gives_ite,gives_pure] at h
  obtain ⟨row,_,⟨hrow,rfl⟩,⟨he,_⟩ | ⟨_,_,_,_,hf,_⟩⟩ := h
  · exact ⟨row,hrow,he⟩
  · contradiction

include hgo in
theorem SetChecked.surveyed (h : SetChecked go i p q d c p1 b p2) (hl : p.chain.links = []) (hd : p.store.get? i = some d)
    (he : d.erroneous = false) (hd' : q.store.get? i = some d') : Surveyed q d' := by
  have hrow : (p.store.put i {d with checked := p.marker}).get? i = some {d with checked := p.marker} :=
    Store.get?_put_self (t := .setDef) hd
  have k1 := keeps_governSet (R := False) i _ _ _ h.governed
  have k2 := keeps_checkGoverning hgo c _ _ _ h.classChecked
  obtain ⟨d2,hd2,hbare⟩ := (k1.trans k2).extends.rows _ i _ hrow
  have hr := h.rest
  cases b with
  | true =>
    exact Gives.checkExpansion_surveyed hr hgo ((k1.trans k2).restored.trans hl) hd2
      ((SetDef.bare_eq_iff.mp hbare).2.2.1.trans he) hd'
  | false =>
    obtain ⟨_,rfl⟩ := gives_pure.mp hr
    obtain ⟨row,hc,hw⟩ := Gives.checkGoverning_wrong h.classChecked
    obtain ⟨d1,hd1,hbare1⟩ := k1.extends.rows _ i _ hrow
    refine .mono objectsOnly_false (k2.grows (k1.restored.trans hl)) hd1 hd' (.classless ?_ hc hw)
    rw [(SetDef.bare_eq_iff.mp hbare1).2.2.2.2.1]
    exact Gives.govern_now (t := .setDef) h.governed keeps_resolveClass follows_resolveClass hrow

include hgo in
theorem keeps_checkSet (i : Id .setDef) : Keeps False (checkSet go i) := by
  intro p a q hg
  obtain ⟨d,hd,⟨_,rfl⟩ | ⟨_,h⟩⟩ := gives_checkSet.mp hg
  · exact .refl _ _
  · have e1 : Evolves p.onChain p (p.put i {d with checked := p.marker}) :=
      .put (t := .setDef) hd ⟨rfl,.inr rfl,fun _ h => h,.refl ..⟩ rfl fun _ h _ => h
    have k2 : Kept False (p.put i {d with checked := p.marker}) q := by
      rcases h with ⟨_,rfl⟩ | ⟨_,c,p1,b,p2,h⟩
      · exact .refl _ _
      · exact ((keeps_governSet i _ _ _ h.governed).trans (keeps_checkGoverning hgo c _ _ _ h.classChecked)).trans
          (Keeps.ite (keeps_checkExpansion hgo i d c) (.pure _) _ _ _ h.rest)
    have hother : ∀ j : Id .classDef, Stamped p.marker (p.store.put i {d with checked := p.marker}) j → Stamped p.marker p.store j :=
      fun j => (stamped_put_other (t := .setDef) (by decide)).mp
    refine ⟨e1.trans k2.toEvolves,k2.restored,False.elim,False.elim,fun hfresh j c hc hst => ?_,
      fun hl hfresh j d' hd' hst => ?_,fun hfresh => Charges.trans ?_ e1.toGrows (k2.visited.told hfresh) k2.toGrows⟩
    · exact (k2.visited.classes hfresh j c hc hst).imp_left (hother j)
    · by_cases hij : i = j
      · subst hij
        right
        rcases h with ⟨he,rfl⟩ | ⟨he,c,p1,b,p2,h⟩
        · cases (Store.get?_put_self (t := .setDef) hd).symm.trans hd'
          exact .wrong he
        · exact SetChecked.surveyed hgo h hl hd he hd'
      · exact (k2.visited.sets hl hfresh j d' hd' hst).imp_left (stamped_put_ne (t := .setDef) hij).mp
    · exact .same hother rfl

end Checks

theorem keeps_checkWithin (n : Nat) (g : Goal) : Keeps False (checkWithin n g) := by
  induction n generalizing g with
  | zero => exact .throw _
  | succ n ih =>
    cases g with
    | objectClass i => exact keeps_checkClass ih i
    | object i => exact keeps_checkObject ih i
    | objectSet i => exact keeps_checkSet ih i

theorem keeps_check (g : Goal) : Keeps False (check g) := keeps_budget.bind fun n => keeps_checkWithin n g

end InfoObject.Check
