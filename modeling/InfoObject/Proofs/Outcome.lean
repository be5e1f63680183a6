import InfoObject.Proofs.CleanResolution
import Mathlib.Logic.Relation

/-! What the check of a definition establishes when nothing is found wrong, and which checks call for which. -/
namespace InfoObject.Check
open Model

def Goal.Stamped (m : Marker) (s : Store) : Goal → Prop
  | .objectClass i => Check.Stamped m s i
  | .object i => Check.Stamped m s i
  | .objectSet i => Check.Stamped m s i

theorem stamped_object {i : Id .objectDef} : Stamped m s i ↔ ∃ o, s.get? i = some o ∧ o.checked.before m = false := by
  constructor
  · rintro ⟨o,k,ho,hk,hb⟩
    obtain rfl := Option.some.inj hk
    exact ⟨o,ho,hb⟩
  · rintro ⟨o,ho,hb⟩
    exact ⟨o,o.checked,ho,rfl,hb⟩

/-! Which checks call for which -/

/-- Objects that were stamped but whose settings are not built yet, each with its class. -/
abbrev Busy := Id .objectDef → Id .classDef → Prop

/-- A definition holds a value: a class as the default of a field, an object as one of its settings once they are
built. -/
inductive Holder (m : Marker) (s : Store) (W : Busy) : Goal → SettingValue → Prop
  | default {i : Id .classDef} {c : ClassDef} {f : Field} {st : Setting} (hi : s.get? i = some c)
      (hf : f ∈ c.fields) (hst : f.defaultSetting = some st) : Holder m s W (.objectClass i) st.value
  | setting {i : Id .objectDef} {o : ObjectDef} {st : Setting} (hi : s.get? i = some o)
      (hm : o.checked.before m = false) (hw : ∀ c, ¬ W i c) (hst : st ∈ o.settings) :
      Holder m s W (.object i) st.value

/-- The definition whose check what a setting holds calls for. -/
def CallsFor (m : Marker) (s : Store) : SettingValue → Goal → Prop
  | .object e,.object x => objectNow m s e = some x
  | .set (.definition d),.objectSet x => x = d
  | _,_ => False

/-- The check of one definition calls for that of another. -/
inductive Leads (m : Marker) (s : Store) (W : Busy) : Goal → Goal → Prop
  | held {x y : Goal} {v : SettingValue} (hv : Holder m s W x v) (hy : CallsFor m s v y) : Leads m s W x y
  | objectClass {i : Id .objectDef} {o : ObjectDef} {c : Id .classDef} (hi : s.get? i = some o)
      (hc : classNow m s o.governor = some c) : Leads m s W (.object i) (.objectClass c)
  | setClass {i : Id .setDef} {d : SetDef} {c : Id .classDef} (hi : s.get? i = some d)
      (hc : classNow m s d.governor = some c) : Leads m s W (.objectSet i) (.objectClass c)
  | element {i : Id .setDef} {d : SetDef} {o : Id .objectDef} (hi : s.get? i = some d)
      (ho : .literal o ∈ d.elements) : Leads m s W (.objectSet i) (.object o)
  | listed {i : Id .setDef} {d : SetDef} {os : List (Id .objectDef)} {o : Id .objectDef} (hi : s.get? i = some d)
      (hos : found m d.flattening = some os) (ho : o ∈ os) : Leads m s W (.objectSet i) (.object o)

/-- The check of one definition leads to that of another in some steps, or in none. -/
abbrev Reaches (m : Marker) (s : Store) (W : Busy) : Goal → Goal → Prop := Relation.ReflTransGen (Leads m s W)

/-! What was established -/

/-- What a setting of a field holds was found, and what is to be checked was stamped. -/
def HeldDone (m : Marker) (s : Store) (f : Field) : SettingValue → Prop
  | .type t => ∃ b, typeNow m s t = some (some b)
  | .value v => ∃ t u b l, f.shape = .value t u ∧ typeNow m s t = some (some b) ∧ valueNow m s v = some (some l) ∧
      b.accepts l = true
  | .object e => ∃ x, objectNow m s e = some x ∧ Stamped m s x
  | .set (.definition d) => Stamped m s d
  | .set (.reference i) => Stamped m s i

structure SettingDone (m : Marker) (s : Store) (f : Field) (st : Setting) : Prop where
  kind : st.kind = f.kind
  homed : HomedHeld s st.value
  held : HeldDone m s f st.value

def ShapeDone (m : Marker) (s : Store) : FieldShape → Prop
  | .type => True
  | .value t _ => ∃ b, typeNow m s t = some (some b)
  | .object c => ∃ d, classNow m s (.reference c) = some d
  | .objectSet c => ∃ d, classNow m s (.reference c) = some d
  | .malformed => False

structure FieldDone (m : Marker) (s : Store) (f : Field) : Prop where
  shape : ShapeDone m s f.shape
  default : ∀ x, f.declaredDefault = some x → ∃ st, f.defaultSetting = some st ∧ SettingDone m s f st

def ClassDone (m : Marker) (s : Store) (i : Id .classDef) : Prop :=
  ∃ c, s.get? i = some c ∧ ∀ f ∈ c.fields, FieldDone m s f

/-- The settings of an object are those its body declares, each of a field of its class and none twice, and the
required fields are among them. -/
structure SettingsDone (m : Marker) (s : Store) (o : ObjectDef) (c : ClassDef) : Prop where
  body : ∃ b body, o.block = some b ∧ b.parseObject = .ok body ∧
    o.settings.map Setting.name = body.settings.map fun d => asnIdentifier d.name.name
  nodup : (o.settings.map Setting.name).Nodup
  known : ∀ st ∈ o.settings, ∃ f, c.field? st.name = some f ∧ SettingDone m s f st
  required : ∀ n f, c.field? n = some f → f.isRequired = true → ∃ st ∈ o.settings, st.name = n

def ObjectDone (m : Marker) (s : Store) (W : Busy) (i : Id .objectDef) : Prop :=
  ∃ o ci c, s.get? i = some o ∧ o.checked.before m = false ∧ (∀ x, ¬ W i x) ∧ o.objectClass = some ci ∧
    classNow m s o.governor = some ci ∧ s.get? ci = some c ∧ Stamped m s ci ∧ SettingsDone m s o c

def ElementDone (m : Marker) (s : Store) : Element → Prop
  | .literal o => Stamped m s o
  | .object i => Stamped m s i
  | .set i => Stamped m s i

def valueOf (s : Store) (i : Id .objectDef) (n : Identifier) : Option ValueExpr := do
  let o ← s.get? i
  let st ← o.setting? n
  match st.value with
  | .value v => some v
  | _ => none

/-- Values of a field were found over a list of objects, and no two objects share one. -/
structure Distinct (m : Marker) (s : Store) (W : Busy) (n : Identifier) (os : List (Id .objectDef)) : Prop where
  checked : ∀ o ∈ os, Stamped m s o ∧ ∀ x, ¬ W o x
  found : ∀ a ∈ os, ∀ v, valueOf s a n = some v → ∃ l, valueNow m s v = some (some l)
  apart : ∀ a ∈ os, ∀ b ∈ os, ∀ v w l, valueOf s a n = some v → valueOf s b n = some w →
    valueNow m s v = some (some l) → valueNow m s w = some (some l) → a = b

/-- Unique fields of a class were compared over the objects of a set, unless the set was reached from the class. -/
def UniqueDone (m : Marker) (s : Store) (W : Busy) (i : Id .setDef) (ci : Id .classDef) (os : List (Id .objectDef)) : Prop :=
  Reaches m s W (.objectClass ci) (.objectSet i) ∨
    ∀ c n f, s.get? ci = some c → c.field? n = some f → f.uniqueType?.isSome = true → Distinct m s W n os

def SetDone (m : Marker) (s : Store) (W : Busy) (i : Id .setDef) : Prop :=
  ∃ d ci e os, s.get? i = some d ∧ d.setClass = some ci ∧ classNow m s d.governor = some ci ∧
    Stamped m s ci ∧ d.expansion = some (.ok e) ∧ (∀ x ∈ e.elements, ElementDone m s x) ∧
    found m d.flattening = some os ∧ UniqueDone m s W i ci os

/-- What a stamp on a row stands for. -/
def Done (m : Marker) (s : Store) (W : Busy) : {t : EntityType} → Id t → Prop
  | .classDef,i => ClassDone m s i
  | .objectDef,i => ObjectDone m s W i
  | .setDef,i => SetDone m s W i
  | .classRef,i => ∃ c, classNow m s (.reference i) = some c
  | .objectRef,i => ∃ o, objectNow m s (.reference i) = some o
  | .setRef,i => ∃ d, setNow m s (.reference i) = some d
  | .module,_ => True
  | .typeRef,_ => True
  | .valueRef,_ => True

/-! What was established stays -/

section Stable
variable {X : Nat → Prop} {p q : Pass}

variable (hX : ObjectsOnly X) (g : Grows X p q)

include hX g

theorem Grows.now [Referring t τ] (ht : t ≠ .objectDef) {i : Id t}
    (h : ((p.store.get? i).bind fun r => found p.marker (Referring.resolution r)) = some x) :
    ((q.store.get? i).bind fun r => found q.marker (Referring.resolution r)) = some x := by
  obtain ⟨a,ha,hx⟩ := Option.bind_eq_some_iff.mp h
  obtain ⟨b,hb,hm,_⟩ := g.rows t i a ha
  rw [hb,Option.bind_some,(Referring.resolves _ _ _ _ hm).eq_of_found (hX.not_of ht i) hx,g.marker]
  exact hx

theorem Grows.typeNow (h : typeNow p.marker p.store i = some x) : typeNow q.marker q.store i = some x :=
  g.now hX (t := .typeRef) (by decide) h

theorem Grows.valueNow (h : valueNow p.marker p.store v = some x) : valueNow q.marker q.store v = some x := by
  cases v with
  | literal => exact h
  | reference i => exact g.now hX (t := .valueRef) (by decide) h

theorem Grows.objectNow (h : objectNow p.marker p.store e = some x) : objectNow q.marker q.store e = some x := by
  cases e with
  | definition => exact h
  | reference i => exact g.now hX (t := .objectRef) (by decide) h

theorem Grows.setNow (h : setNow p.marker p.store e = some x) : setNow q.marker q.store e = some x := by
  cases e with
  | definition => exact h
  | reference i => exact g.now hX (t := .setRef) (by decide) h

theorem CallsFor.mono (h : CallsFor p.marker p.store v x) : CallsFor q.marker q.store v x := by
  match v,x,h with
  | .object _,.object _,h => exact g.objectNow hX h
  | .set (.definition _),.objectSet _,h => exact h

theorem HeldDone.mono (h : HeldDone p.marker p.store f v) : HeldDone q.marker q.store f v := by
  match v,h with
  | .type _,⟨b,hb⟩ => exact ⟨b,g.typeNow hX hb⟩
  | .value _,⟨t,u,b,l,hf,hb,hl,ha⟩ => exact ⟨t,u,b,l,hf,g.typeNow hX hb,g.valueNow hX hl,ha⟩
  | .object _,⟨x,hx,hst⟩ => exact ⟨x,g.objectNow hX hx,g.stamped hst⟩
  | .set (.definition d),h => exact g.stamped (i := d) h
  | .set (.reference i),h => exact g.stamped (i := i) h

theorem SettingDone.mono (h : SettingDone p.marker p.store f st) : SettingDone q.marker q.store f st :=
  ⟨h.kind,HomedHeld.mono g.stays h.homed,h.held.mono hX g⟩

omit hX g in
theorem SettingDone.of_shape (hs : f'.shape = f.shape) (h : SettingDone m s f st) : SettingDone m s f' st := by
  refine ⟨h.kind.trans (by simp only [Field.kind,hs]),h.homed,?_⟩
  have hh := h.held
  unfold HeldDone at hh ⊢
  rw [hs]
  exact hh

theorem ShapeDone.mono (h : ShapeDone p.marker p.store x) : ShapeDone q.marker q.store x := by
  match x,h with
  | .type,_ => trivial
  | .value _ _,⟨b,hb⟩ => exact ⟨b,g.typeNow hX hb⟩
  | .object _,⟨d,hd⟩ | .objectSet _,⟨d,hd⟩ => exact ⟨d,g.classNow hX hd⟩

theorem FieldDone.mono (hf : FieldMoves f f') (h : FieldDone p.marker p.store f) : FieldDone q.marker q.store f' := by
  obtain ⟨_,_,hs,_,_,hd,_⟩ := Field.bare_eq_iff.mp hf.bare
  refine ⟨hs ▸ h.shape.mono hX g,fun x hx => ?_⟩
  obtain ⟨st,hst,hdone⟩ := h.default x (hd ▸ hx)
  exact ⟨st,hf.default st hst,(hdone.mono hX g).of_shape hs⟩

theorem ClassDone.mono (h : ClassDone p.marker p.store i) : ClassDone q.marker q.store i := by
  obtain ⟨c,hc,hf⟩ := h
  obtain ⟨c',hc',hm,_⟩ := g.rows .classDef i c hc
  refine ⟨c',hc',fun f' hf' => ?_⟩
  obtain ⟨n,hn⟩ := List.mem_iff_getElem?.mp hf'
  obtain ⟨f,hfn,hff⟩ := getElem?_of_forall₂_flip (ClassMoves.fields hm) hn
  exact (hf f (List.mem_of_getElem? hfn)).mono hX g hff

omit hX g in
theorem find?_of_forall₂ (hP : ∀ a b, R a b → P b = P a) (h : List.Forall₂ R l l') (ha : l.find? P = some a) : ∃ b,
    l'.find? P = some b ∧ R a b := by
  induction h with
  | nil => simp at ha
  | @cons x y l l' hxy _ ih =>
    by_cases hx : P x
    · obtain rfl : x = a := by simpa [hx] using ha
      exact ⟨y,by simp [hP _ _ hxy,hx],hxy⟩
    · obtain ⟨b,hb,hab⟩ := ih (by simpa [hx] using ha)
      exact ⟨b,by simp [hP _ _ hxy,hx,hb],hab⟩

omit hX g in
theorem FieldMoves.name (h : FieldMoves f f') : f'.name = f.name := (Field.bare_eq_iff.mp h.bare).1

omit hX g in
theorem ClassMoves.field? (h : ClassMoves m c c') (hf : c.field? n = some f) : ∃ f', c'.field? n = some f' ∧ FieldMoves f f' := by
  rw [ClassDef.field?_eq] at hf ⊢
  exact find?_of_forall₂ (fun _ _ hab => by rw [hab.name]) h.fields hf

omit hX g in
theorem ClassMoves.field?_back (h : ClassMoves m c c') (hf : c'.field? n = some f') : ∃ f, c.field? n = some f ∧
    FieldMoves f f' := by
  rw [ClassDef.field?_eq] at hf ⊢
  exact find?_of_forall₂ (R := fun b a => FieldMoves a b) (fun _ _ hab => by rw [hab.name]) h.fields.flip hf

omit hX g in
theorem FieldMoves.isRequired (h : FieldMoves f f') : f'.isRequired = f.isRequired := by
  obtain ⟨_,_,hs,ho,_,hd,_⟩ := Field.bare_eq_iff.mp h.bare
  simp only [Field.isRequired,Field.isOptional,Field.hasDefault,Field.isErroneous,hs,ho,hd]

omit hX g in
theorem FieldMoves.uniqueType? (h : FieldMoves f f') : f'.uniqueType? = f.uniqueType? := by
  obtain ⟨_,_,hs,_⟩ := Field.bare_eq_iff.mp h.bare
  simp only [Field.uniqueType?,hs]

theorem SettingsDone.mono (ho : o'.bare = o.bare) (hs : o'.settings = o.settings) (hc : ClassMoves m c c')
    (h : SettingsDone p.marker p.store o c) : SettingsDone q.marker q.store o' c' := by
  obtain ⟨_,_,_,_,_,hb⟩ := ObjectDef.bare_eq_iff.mp ho
  refine ⟨?_,by rw [hs]; exact h.nodup,?_,?_⟩
  · rw [hs,hb]
    exact h.body
  · rw [hs]
    intro st hst
    obtain ⟨f,hf,hdone⟩ := h.known st hst
    obtain ⟨f',hf',hff⟩ := ClassMoves.field? hc hf
    exact ⟨f',hf',(hdone.mono hX g).of_shape (Field.bare_eq_iff.mp hff.bare).2.2.1⟩
  · rw [hs]
    intro n f' hf' hreq
    obtain ⟨f,hf,hff⟩ := ClassMoves.field?_back hc hf'
    exact h.required n f hf (hff.isRequired ▸ hreq)

omit hX in
theorem ElementDone.mono (h : ElementDone p.marker p.store e) : ElementDone q.marker q.store e := by
  match e,h with
  | .literal i,h | .object i,h | .set i,h => exact g.stamped (i := i) h

end Stable

/-! Objects whose settings are being built -/

section Busy
variable {X : Nat → Prop} {W V : Busy} {p q : Pass}

/-- Only objects whose settings are being built are free to change. -/
def BusyOnly (W : Busy) (X : Nat → Prop) : Prop := ∀ k, X k → ∃ o c, W o c ∧ k = o.key

theorem BusyOnly.objectsOnly (h : BusyOnly W X) : ObjectsOnly X := fun k hk => by
  obtain ⟨o,_,_,ho⟩ := h k hk
  exact ⟨o,ho⟩

theorem BusyOnly.not_of (h : BusyOnly W X) (hi : ∀ c, ¬ W i c) : ¬ X i.key := by
  intro hx
  obtain ⟨o,c,hw,ho⟩ := h _ hx
  obtain rfl := Id.key_inj ho
  exact hi c hw

theorem busyOnly_false (W : Busy) : BusyOnly W (fun _ => False) := fun _ hf => hf.elim

variable (hX : BusyOnly W X) (g : Grows X p q) (hV : ∀ o c, V o c → W o c)

include hX g

theorem Grows.settings (ho : p.store.get? i = some o) (hst : o.checked.before p.marker = false)
    (hw : ∀ c, ¬ W i c) : ∃ o', q.store.get? i = some o' ∧ o'.bare = o.bare ∧ o'.settings = o.settings ∧
    o'.checked.before q.marker = false := by
  obtain ⟨o',ho',hm,_⟩ := g.rows .objectDef i o ho
  refine ⟨o',ho',ObjectMoves.bare hm,ObjectMoves.late hm hst (hX.not_of hw),?_⟩
  rw [g.marker]
  exact (ObjectMoves.checked hm).not_due hst

theorem Grows.valueOf (hst : Stamped p.marker p.store i) (hw : ∀ c, ¬ W i c) (n : Identifier) : valueOf q.store i n =
    valueOf p.store i n := by
  obtain ⟨o,ho,hc⟩ := stamped_object.mp hst
  obtain ⟨o',ho',_,hs,_⟩ := g.settings hX ho hc hw
  simp only [Check.valueOf,ho,ho',ObjectDef.setting?,hs,Option.bind_eq_bind,Option.bind_some]

include hV

theorem Holder.mono (h : Holder p.marker p.store W x v) : Holder q.marker q.store V x v := by
  cases h with
  | @default i c f st hi hf hst =>
    obtain ⟨c',hc',hm,_⟩ := g.rows .classDef i c hi
    obtain ⟨n,hn⟩ := List.mem_iff_getElem?.mp hf
    obtain ⟨f',hf',hff⟩ := getElem?_of_forall₂ (ClassMoves.fields hm) hn
    exact .default hc' (List.mem_of_getElem? hf') (hff.default st hst)
  | setting hi hm hw hst =>
    obtain ⟨o',ho',_,hs,hm'⟩ := g.settings hX hi hm hw
    exact .setting ho' hm' (fun c hc => hw c (hV _ c hc)) (hs ▸ hst)

theorem Leads.mono (h : Leads p.marker p.store W x y) : Leads q.marker q.store V x y := by
  have hX' := hX.objectsOnly
  cases h with
  | held hv hy => exact .held (hv.mono hX g hV) (hy.mono hX' g)
  | @objectClass i o c hi hc =>
    obtain ⟨o',ho',hm,_⟩ := g.rows .objectDef i o hi
    refine .objectClass ho' ?_
    rw [ObjectMoves.governor hm]
    exact g.classNow hX' hc
  | @setClass i d c hi hc =>
    obtain ⟨d',hd',hm,_⟩ := g.rows .setDef i d hi
    refine .setClass hd' ?_
    rw [SetMoves.governor hm]
    exact g.classNow hX' hc
  | @element i d o hi ho =>
    obtain ⟨d',hd',hm,_⟩ := g.rows .setDef i d hi
    exact .element hd' (SetMoves.mem_elements hm ho)
  | @listed i d os o hi hos ho =>
    obtain ⟨d',hd',hm,_⟩ := g.rows .setDef i d hi
    refine .listed hd' ?_ ho
    rw [(SetMoves.flattening hm).eq_of_found (hX'.not_of (by decide) i) hos,g.marker]
    exact hos

theorem Reaches.mono (h : Reaches p.marker p.store W x y) : Reaches q.marker q.store V x y :=
  Relation.ReflTransGen.mono (fun _ _ hxy => Leads.mono hX g hV hxy) _ _ h

theorem Distinct.mono (h : Distinct p.marker p.store W n os) : Distinct q.marker q.store V n os := by
  have hv : ∀ a ∈ os, Check.valueOf q.store a n = Check.valueOf p.store a n := fun a ha =>
    g.valueOf hX (h.checked a ha).1 (h.checked a ha).2 n
  -- a value that was found before still stands for the same literal
  have back : ∀ a ∈ os, ∀ v l, Check.valueOf p.store a n = some v → Check.valueNow q.marker q.store v = some (some l) →
      Check.valueNow p.marker p.store v = some (some l) := by
    intro a ha v l hav hl
    obtain ⟨l',hl'⟩ := h.found a ha v hav
    rw [← hl,g.valueNow hX.objectsOnly hl',hl']
  refine ⟨fun o ho => ⟨g.stamped (h.checked o ho).1,fun x hx => (h.checked o ho).2 x (hV o x hx)⟩,
    fun a ha v hav => ?_,fun a ha b hb v w l hav hbw hl hl' => ?_⟩
  · rw [hv a ha] at hav
    obtain ⟨l,hl⟩ := h.found a ha v hav
    exact ⟨l,g.valueNow hX.objectsOnly hl⟩
  · rw [hv a ha] at hav
    rw [hv b hb] at hbw
    exact h.apart a ha b hb v w l hav hbw (back a ha v l hav hl) (back b hb w l hbw hl')

theorem UniqueDone.mono (hc0 : p.store.get? ci = some c0) (h : UniqueDone p.marker p.store W i ci os) :
    UniqueDone q.marker q.store V i ci os := by
  rcases h with hr | hd
  · exact .inl (Reaches.mono hX g hV hr)
  · refine .inr fun c' n f' hc' hf' hu => ?_
    obtain ⟨c'',hc'',hm,_⟩ := g.rows .classDef ci c0 hc0
    cases hc'.symm.trans hc''
    obtain ⟨f,hf,hff⟩ := ClassMoves.field?_back hm hf'
    exact Distinct.mono hX g hV (hd c0 n f hc0 hf (hff.uniqueType? ▸ hu))

theorem ObjectDone.mono (h : ObjectDone p.marker p.store W i) : ObjectDone q.marker q.store V i := by
  have hX' := hX.objectsOnly
  obtain ⟨o,ci,c,ho,hm,hw,hoc,hg,hc,hst,hs⟩ := h
  obtain ⟨o',ho',hbare,hset,hm'⟩ := g.settings hX ho hm hw
  obtain ⟨o'',ho'',_,hk⟩ := g.rows .objectDef i o ho
  cases ho'.symm.trans ho''
  obtain ⟨c',hc',hcm,_⟩ := g.rows .classDef ci c hc
  have hgov := (ObjectDef.bare_eq_iff.mp hbare).2.2.2.2.1
  exact ⟨o',ci,c',ho',hm',fun x hx => hw x (hV i x hx),hk ci hoc ⟨hg,fun _ _ => hX'.not_of (by decide) _⟩,
    by rw [hgov]; exact g.classNow hX' hg,hc',g.stamped hst,hs.mono hX' g hbare hset hcm⟩

theorem SetDone.mono (h : SetDone p.marker p.store W i) : SetDone q.marker q.store V i := by
  have hX' := hX.objectsOnly
  obtain ⟨d,ci,e,os,hd,hdc,hg,hst,he,hel,hos,hu⟩ := h
  obtain ⟨d',hd',hm,hk⟩ := g.rows .setDef i d hd
  have hgov := SetMoves.governor hm
  obtain ⟨c0,_,hc0,_⟩ := id hst
  refine ⟨d',ci,e,os,hd',hk ci hdc ⟨hg,fun _ _ => hX'.not_of (by decide) _⟩,by rw [hgov]; exact g.classNow hX' hg,
    g.stamped hst,SetMoves.expansion hm _ he,fun x hx => (hel x hx).mono g,?_,UniqueDone.mono hX g hV hc0 hu⟩
  rw [(SetMoves.flattening hm).eq_of_found (hX'.not_of (by decide) i) hos,g.marker]
  exact hos

theorem Done.mono {t : EntityType} {i : Id t} (h : Done p.marker p.store W i) : Done q.marker q.store V i := by
  have hX' := hX.objectsOnly
  cases t with
  | classDef => exact ClassDone.mono hX' g h
  | objectDef => exact ObjectDone.mono hX g hV h
  | setDef => exact SetDone.mono hX g hV h
  | classRef => exact h.imp fun c hc => g.classNow hX' hc
  | objectRef => exact h.imp fun o ho => g.objectNow hX' ho
  | setRef => exact h.imp fun d hd => g.setNow hX' hd
  | _ => trivial

end Busy

end InfoObject.Check
