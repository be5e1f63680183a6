import InfoObject.Proofs.CleanModules

/-! Well-formed models: every name in a module in use leads to what it should, and every object is complete. A check
that finds nothing wrong leaves one. -/
namespace InfoObject.Model

/-! The parts of a model -/

/-- A part of what modules declare. -/
inductive Part where
  | type (i : Id .typeRef)
  | value (v : ValueExpr)
  | objectClass (e : ClassExpr)
  | object (e : ObjectExpr)
  | objectSet (e : SetExpr)
deriving DecidableEq, Repr

def Declared.parts : Declared → List Part
  | .malformed => []
  | .objectClass e => [.objectClass e]
  | .object e => [.object e]
  | .objectSet e => [.objectSet e]
  | .type t => [.type t]
  | .value t v => [.type t,.value v]

def FieldShape.parts : FieldShape → List Part
  | .value t _ => [.type t]
  | .object c => [.objectClass (.reference c)]
  | .objectSet c => [.objectClass (.reference c)]
  | _ => []

def SettingValue.part : SettingValue → Part
  | .type t => .type t
  | .value v => .value v
  | .object e => .object e
  | .set e => .objectSet e

def Element.part : Element → Part
  | .literal o => .object (.definition o)
  | .object i => .object (.reference i)
  | .set i => .objectSet (.reference i)

/-- A part that is written in another: a governor, what governs a field, a default, a setting or an element. -/
inductive Within (s : Store) : Part → Part → Prop
  | field {i : Id .classDef} {c : ClassDef} {f : Field} {y : Part} (h : s.get? i = some c) (hf : f ∈ c.fields)
      (hy : y ∈ f.shape.parts) : Within s (.objectClass (.definition i)) y
  | default {i : Id .classDef} {c : ClassDef} {f : Field} {st : Setting} (h : s.get? i = some c) (hf : f ∈ c.fields)
      (hst : f.defaultSetting = some st) : Within s (.objectClass (.definition i)) st.value.part
  | objectGovernor {i : Id .objectDef} {o : ObjectDef} (h : s.get? i = some o) :
      Within s (.object (.definition i)) (.objectClass o.governor)
  | objectRefGovernor {i : Id .objectRef} {r : ObjectRef} (h : s.get? i = some r) :
      Within s (.object (.reference i)) (.objectClass r.governor)
  | setting {i : Id .objectDef} {o : ObjectDef} {st : Setting} (h : s.get? i = some o) (hst : st ∈ o.settings) :
      Within s (.object (.definition i)) st.value.part
  | setGovernor {i : Id .setDef} {d : SetDef} (h : s.get? i = some d) :
      Within s (.objectSet (.definition i)) (.objectClass d.governor)
  | setRefGovernor {i : Id .setRef} {r : SetRef} (h : s.get? i = some r) :
      Within s (.objectSet (.reference i)) (.objectClass r.governor)
  | element {i : Id .setDef} {d : SetDef} {e : Element} (h : s.get? i = some d) (he : e ∈ d.elements) :
      Within s (.objectSet (.definition i)) e.part

/-- A part of what the modules in use declare, at any depth. -/
inductive Owned (s : Store) : Part → Prop
  | declared {i : Id .module} {m : Module} {a : Assignment} {x : Part} (hi : i ∈ s.kept) (h : s.get? i = some m)
      (ha : a ∈ m.assignments) (hx : x ∈ a.declared.parts) : Owned s x
  | within {x y : Part} (hx : Owned s x) (hy : Within s x y) : Owned s y

end InfoObject.Model

namespace InfoObject.Check
open Model

/-! Well-formed models -/

/-- A part stands for something in the generation, and for no stand-in. -/
def Meaningful (m : Marker) (s : Store) : Part → Prop
  | .type i => ∃ b, typeNow m s i = some (some b)
  | .value v => ∃ l, valueNow m s v = some (some l)
  | .objectClass e => ∃ c row, classNow m s e = some c ∧ s.get? c = some row ∧ row.erroneous = false
  | .object e => ∃ o row, objectNow m s e = some o ∧ s.get? o = some row ∧ row.erroneous = false
  | .objectSet e => ∃ d row, setNow m s e = some d ∧ s.get? d = some row ∧ row.erroneous = false

/-- A value stands for a literal that the type it is given takes. -/
def Accepted (m : Marker) (s : Store) (t : Id .typeRef) (v : ValueExpr) : Prop :=
  ∃ b l, typeNow m s t = some (some b) ∧ valueNow m s v = some (some l) ∧ b.accepts l = true

/-- A setting has the kind of its field, and its value is one of the type of the field. -/
structure Fits (m : Marker) (s : Store) (f : Field) (st : Setting) : Prop where
  kind : st.kind = f.kind
  value : ∀ t u v, f.shape = .value t u → st.value = .value v → Accepted m s t v

/-- An object of a class sets what the class requires, and nothing that the class does not know or twice: its
settings are those that its body declares. -/
structure Complete (o : ObjectDef) (c : ClassDef) : Prop where
  required : ∀ n f, c.field? n = some f → f.declaredOptional = false → f.declaredDefault = none →
    ∃ st ∈ o.settings, st.name = n
  known : ∀ st ∈ o.settings, ∃ f, c.field? st.name = some f
  nodup : (o.settings.map Setting.name).Nodup
  body : ∃ b body, o.block = some b ∧ b.parseObject = .ok body ∧
    o.settings.map Setting.name = body.settings.map fun d => asnIdentifier d.name.name

structure WellFormed (m : Marker) (s : Store) : Prop where
  resolved : ∀ x, Owned s x → Meaningful m s x
  objects : ∀ i o, Owned s (.object (.definition i)) → s.get? i = some o → ∃ ci c, o.objectClass = some ci ∧
    classNow m s o.governor = some ci ∧ s.get? ci = some c ∧ c.erroneous = false ∧ Complete o c ∧
    ∀ st ∈ o.settings, ∀ f, c.field? st.name = some f → Fits m s f st
  defaults : ∀ i c f x, Owned s (.objectClass (.definition i)) → s.get? i = some c → f ∈ c.fields →
    f.declaredDefault = some x → ∃ st, f.defaultSetting = some st ∧ Fits m s f st
  values : ∀ t v, Declares s (.value t v) → Accepted m s t v
  objectRefs : ∀ i r, Owned s (.object (.reference i)) → s.get? i = some r → ∃ o row c,
    objectNow m s (.reference i) = some o ∧ s.get? o = some row ∧ row.objectClass = some c ∧
    classNow m s row.governor = some c ∧ classNow m s r.governor = some c
  setRefs : ∀ i r, Owned s (.objectSet (.reference i)) → s.get? i = some r → ∃ d row c,
    setNow m s (.reference i) = some d ∧ s.get? d = some row ∧ row.setClass = some c ∧
    classNow m s row.governor = some c ∧ classNow m s r.governor = some c
  lists : ∀ i d, Owned s (.objectSet (.definition i)) → s.get? i = some d → ∃ c os, d.setClass = some c ∧
    classNow m s d.governor = some c ∧ found m d.flattening = some os ∧ ∀ o ∈ os, ∃ row, s.get? o = some row ∧
    row.erroneous = false ∧ row.objectClass = some c ∧ classNow m s row.governor = some c

/-! What a clean check leaves -/

/-- What a clean check establishes for a part: it belongs to a module in use, and it was found or checked. -/
def PartDone (m : Marker) (s : Store) : Part → Prop
  | .type i => ∃ b, typeNow m s i = some (some b)
  | .value v => ∃ l, valueNow m s v = some (some l)
  | .objectClass e => HomedClass s e ∧ ∃ c, classNow m s e = some c
  | .object (.definition o) => HomedObject s (.definition o) ∧ Stamped m s o
  | .object (.reference i) => HomedObject s (.reference i) ∧ ∃ o, objectNow m s (.reference i) = some o
  | .objectSet (.definition d) => HomedSet s (.definition d) ∧ Stamped m s d
  | .objectSet (.reference i) => HomedSet s (.reference i) ∧ ∃ d, setNow m s (.reference i) = some d

section Finished
variable {p : Pass} (h : Finished p)

include h

theorem Finished.object (hi : Stamped p.marker p.store i) : ObjectDone p.marker p.store .none i :=
  h.done .objectDef i hi

theorem Finished.set (hi : Stamped p.marker p.store i) : SetDone p.marker p.store .none i :=
  h.done .setDef i hi

theorem Finished.field (hi : Declares p.store (.objectClass (.definition i))) (hc : p.store.get? i = some c)
    (hf : f ∈ c.fields) : FieldDone p.marker p.store f := by
  obtain ⟨c',hc',hall⟩ : ClassDone p.marker p.store i := h.done .classDef i (h.declared _ hi)
  cases hc.symm.trans hc'
  exact hall f hf

theorem Finished.default (hi : Declares p.store (.objectClass (.definition i))) (hc : p.store.get? i = some c)
    (hf : f ∈ c.fields) (hst : f.defaultSetting = some st) : SettingDone p.marker p.store f st := by
  obtain ⟨_,x,_,hx,_⟩ := h.course.ready.sane.defaults i c f st hc hf hst
  obtain ⟨st',hst',hdone⟩ := (h.field hi hc hf).default x hx
  cases hst.symm.trans hst'
  exact hdone

theorem SettingDone.part (hst : SettingDone p.marker p.store f st) : PartDone p.marker p.store st.value.part := by
  have hh := hst.homed
  have hd := hst.held
  generalize st.value = v at hh hd
  match v,hh,hd with
  | .type _,_,hd => exact hd
  | .value _,_,⟨_,_,_,l,_,_,hl,_⟩ => exact ⟨l,hl⟩
  | .object (.definition o),hh,⟨x,hx,hs⟩ =>
    obtain rfl := Option.some.inj hx
    exact ⟨hh,hs⟩
  | .object (.reference _),hh,⟨x,hx,_⟩ => exact ⟨hh,x,hx⟩
  | .set (.definition _),hh,hd => exact ⟨hh,hd⟩
  | .set (.reference i),hh,hd => exact ⟨hh,h.done .setRef i hd⟩

omit h in
theorem FieldDone.part (hf : FieldDone p.marker p.store f) (hh : HomedField p.store f)
    (hy : y ∈ f.shape.parts) : PartDone p.marker p.store y := by
  have hs := hf.shape
  obtain ⟨_,hh⟩ := hh
  cases hshape : f.shape with
  | value t u =>
    simp only [hshape,FieldShape.parts,List.mem_singleton] at hy hs
    subst hy
    exact hs
  | object c | objectSet c =>
    simp only [hshape,FieldShape.parts,List.mem_singleton] at hy hs hh
    subst hy
    exact ⟨hh,hs⟩
  | _ => simp [hshape,FieldShape.parts] at hy

theorem Finished.element_part (hi : HomedSet p.store (.definition i)) (hst : Stamped p.marker p.store i)
    (hd : p.store.get? i = some d) (he : e ∈ d.elements) : PartDone p.marker p.store e.part := by
  obtain ⟨d',_,x,_,hd',_,_,_,hx,hels,_⟩ := h.set hst
  cases hd.symm.trans hd'
  have hhomed := element_homed h.course.ready.sane hi hd he
  have hdone := hels e (by simpa only [SetDef.elements,hx] using he)
  cases e with
  | literal o => exact ⟨hhomed.1,hdone⟩
  | object j | set j => exact ⟨hhomed.1,h.done _ j hdone⟩

theorem Finished.declared_part (hd : Declares p.store d) (hx : x ∈ d.parts) : PartDone p.marker p.store x := by
  have hdone := h.declared d hd
  have hh := hd.homed h.course.ready.sane
  cases d with
  | malformed => exact hdone.elim
  | objectClass e =>
    obtain rfl := List.mem_singleton.mp hx
    cases e with
    | definition i => exact ⟨hd,i,rfl⟩
    | reference i => exact ⟨hh,h.done .classRef i hdone⟩
  | object e | objectSet e =>
    obtain rfl := List.mem_singleton.mp hx
    cases e with
    | definition i => exact ⟨hh,hdone⟩
    | reference i => exact ⟨hh,h.done _ i hdone⟩
  | type t =>
    obtain rfl := List.mem_singleton.mp hx
    exact hdone
  | value t v =>
    obtain ⟨b,l,hb,hl,_⟩ := hdone
    rcases List.mem_pair.mp hx with rfl | rfl
    · exact ⟨b,hb⟩
    · exact ⟨l,hl⟩

theorem PartDone.within (hx : PartDone p.marker p.store x) (hy : Within p.store x y) : PartDone p.marker p.store y := by
  have hready := h.course.ready
  cases hy with
  | field hi hf hy => exact (h.field hx.1 hi hf).part (hready.field_known hx.1 hi hf).1 hy
  | default hi hf hst => exact (h.default hx.1 hi hf hst).part h
  | @objectGovernor i o hi =>
    obtain ⟨o',ci,_,ho',_,_,_,hnow,_⟩ := h.object hx.2
    cases hi.symm.trans ho'
    obtain ⟨row,_,hrow,_,_,_,_,hg⟩ := hx.1
    cases hi.symm.trans hrow
    exact ⟨hg,ci,hnow⟩
  | @objectRefGovernor i r hi | @setRefGovernor i r hi =>
    obtain ⟨⟨row,hrow,_,hg⟩,o,ho⟩ := hx
    cases hi.symm.trans hrow
    simp only [objectNow,setNow,hi,Option.bind_some] at ho
    obtain ⟨_,c,_,_,_,hc⟩ := (hready.targets _ i r hi o ho).governed
    exact ⟨hg,c,hc⟩
  | @setting i o st hi hst =>
    obtain ⟨o',_,_,ho',_,_,_,_,_,_,hs⟩ := h.object hx.2
    cases hi.symm.trans ho'
    obtain ⟨f,_,hdone⟩ := hs.known st hst
    exact hdone.part h
  | @setGovernor i d hi =>
    obtain ⟨d',ci,_,_,hd',_,hnow,_⟩ := h.set hx.2
    cases hi.symm.trans hd'
    obtain ⟨row,_,hrow,_,_,_,_,hg⟩ := hx.1
    cases hi.symm.trans hrow
    exact ⟨hg,ci,hnow⟩
  | element hi he => exact h.element_part hx.1 hx.2 hi he

theorem Owned.done (hx : Owned p.store x) : PartDone p.marker p.store x := by
  induction hx with
  | declared hi hm ha hx => exact h.declared_part ⟨_,hi,_,hm,_,ha,rfl⟩ hx
  | within _ hy ih => exact ih.within h hy

omit h in
theorem SettingDone.fits (hst : SettingDone p.marker p.store f st) : Fits p.marker p.store f st := by
  refine ⟨hst.kind,fun t u v hf hv => ?_⟩
  have hheld := hst.held
  rw [hv] at hheld
  obtain ⟨t',u',b,l,hf',hb,hl,ha⟩ := hheld
  rw [hf] at hf'
  obtain ⟨rfl,_⟩ := FieldShape.value.inj hf'
  exact ⟨b,l,hb,hl,ha⟩

theorem SettingsDone.complete (hs : SettingsDone p.marker p.store o c)
    (hci : Declares p.store (.objectClass (.definition ci))) (hc : p.store.get? ci = some c) : Complete o c := by
  refine ⟨fun n f hf hopt hdef => ?_,fun st hst => ?_,hs.nodup,hs.body⟩
  · have hformed := (h.course.ready.field_known hci hc (mem_fields_of_field? hf)).2
    refine hs.required n f hf ?_
    simp [Field.isRequired,Field.isOptional,Field.hasDefault,Field.isErroneous,hopt,hdef,hformed]
  · obtain ⟨f,hf,_⟩ := hs.known st hst
    exact ⟨f,hf⟩

theorem PartDone.meaningful (hx : PartDone p.marker p.store x) : Meaningful p.marker p.store x := by
  have hready := h.course.ready
  cases x with
  | type | value => exact hx
  | objectClass e =>
    obtain ⟨hh,c,hc⟩ := hx
    obtain ⟨row,hrow,he,_⟩ := (hready.class_declared hh hc).class_homed hready.sane
    exact ⟨c,row,hc,hrow,he⟩
  | object e =>
    cases e with
    | definition o =>
      obtain ⟨⟨row,_,hrow,he,_⟩,_⟩ := hx
      exact ⟨o,row,rfl,hrow,he⟩
    | reference i =>
      obtain ⟨hh,o,ho⟩ := hx
      obtain ⟨row,_,hrow,he,_⟩ := hready.object_homed hh ho
      exact ⟨o,row,ho,hrow,he⟩
  | objectSet e =>
    cases e with
    | definition d =>
      obtain ⟨⟨row,_,hrow,he,_⟩,_⟩ := hx
      exact ⟨d,row,rfl,hrow,he⟩
    | reference i =>
      obtain ⟨_,d,hd⟩ := hx
      obtain ⟨r,hr,hf⟩ := Option.bind_eq_some_iff.mp (show (p.store.get? i).bind _ = some d from hd)
      obtain ⟨row,_,hrow,he,_⟩ := (hready.targets .setRef i r hr d hf).declared.homed hready.sane
      exact ⟨d,row,hd,hrow,he⟩

theorem Finished.listed (hst : Stamped p.marker p.store i) (hl : Listed p.marker p.store i g o) :
    Stamped p.marker p.store o := by
  rcases hl.source with hd | ⟨j,row,hj,hrow,hmem⟩
  · exact h.declared _ hd
  · have hstj : Stamped p.marker p.store j := by
      rcases hj with rfl | hj
      · exact hst
      · exact h.declared _ hj
    obtain ⟨d,_,x,_,hd,_,_,_,hx,hels,_⟩ := h.set hstj
    cases hrow.symm.trans hd
    exact hels (.literal o) (by simpa only [SetDef.elements,hx] using hmem)

theorem Finished.wellFormed : WellFormed p.marker p.store where
  resolved x hx := (Owned.done h hx).meaningful h
  objects i o hx ho := by
    obtain ⟨hh,hst⟩ := Owned.done h hx
    obtain ⟨o',ci,c,ho',_,_,hoc,hnow,hc,_,hs⟩ := h.object hst
    cases ho.symm.trans ho'
    obtain ⟨row,_,hrow,_,_,_,_,hg⟩ := hh
    cases ho.symm.trans hrow
    have hdecl := h.course.ready.class_declared hg hnow
    refine ⟨ci,c,hoc,hnow,hc,(hdecl.class_row h.course.ready.sane hc).1,hs.complete h hdecl hc,fun st hst f hf => ?_⟩
    obtain ⟨f',hf',hdone⟩ := hs.known st hst
    cases hf.symm.trans hf'
    exact hdone.fits
  defaults i c f x hx hc hf hdecl := by
    obtain ⟨hh,_⟩ := Owned.done h hx
    obtain ⟨st,hst,hdone⟩ := (h.field hh hc hf).default x hdecl
    exact ⟨st,hst,hdone.fits⟩
  values t v hd := h.declared _ hd
  objectRefs i r hx hr := by
    obtain ⟨_,o,ho⟩ := Owned.done h hx
    have hf := ho
    simp only [objectNow,hr,Option.bind_some] at hf
    obtain ⟨row,c,hrow,hc,hnow,hg⟩ := (h.course.ready.targets .objectRef i r hr o hf).governed
    exact ⟨o,row,c,ho,hrow,hc,hnow,hg⟩
  setRefs i r hx hr := by
    obtain ⟨_,d,hd⟩ := Owned.done h hx
    have hf := hd
    simp only [setNow,hr,Option.bind_some] at hf
    obtain ⟨row,c,hrow,hc,hnow,hg⟩ := (h.course.ready.targets .setRef i r hr d hf).governed
    exact ⟨d,row,c,hd,hrow,hc,hnow,hg⟩
  lists i d hx hd := by
    obtain ⟨_,hst⟩ := Owned.done h hx
    obtain ⟨d',ci,_,os,hd',hdc,hnow,_,_,_,hos,_⟩ := h.set hst
    cases hd.symm.trans hd'
    refine ⟨ci,os,hdc,hnow,hos,fun o ho => ?_⟩
    have hl := h.course.ready.targets .setDef i d hd os hos o ho
    obtain ⟨row,c,hrow,he,hc,hg⟩ := hl.governed
    cases hg.symm.trans hnow
    obtain ⟨row',c',_,hrow',_,_,hoc,hnow',_⟩ := h.object (h.listed hst hl)
    cases hrow.symm.trans hrow'
    cases hc.symm.trans hnow'
    exact ⟨row,hrow,he,hoc,hc⟩

end Finished

end InfoObject.Check
