import InfoObject.Proofs.CleanChecks

/-! Objects and object sets that were checked without a fault: their settings are those of their bodies, and unique
values are told apart. -/
namespace InfoObject.Check
open Model

/-! Fields by name -/

section Fields
variable {c : ClassDef} {f : Field} {n : Identifier}

theorem mem_uniqueFields : (k,f) ∈ uniqueFields c ↔ f.uniqueType?.isSome = true ∧ c.fieldIndex? f.name = some k ∧
    c.fields[k]? = some f := by
  simp only [uniqueFields,List.mem_filterMap,Prod.exists,List.mem_zipIdx_iff_getElem?]
  constructor
  · rintro ⟨g,j,hj,h⟩
    split at h
    · rename_i hu
      obtain ⟨rfl,rfl⟩ := Prod.mk.inj (Option.some.inj h)
      exact ⟨hu.1,hu.2,hj⟩
    · contradiction
  · rintro ⟨hu,hi,hk⟩
    exact ⟨f,k,hk,by simp [hu,hi]⟩

theorem find?_setting {l : List Setting} (h : st ∈ l) (hn : (l.map Setting.name).Nodup) : l.find? (·.name == st.name) =
    some st := by
  induction l with
  | nil => simp at h
  | cons x l ih =>
    obtain ⟨hx,hl⟩ := List.nodup_cons.mp (by simpa using hn : (x.name::l.map Setting.name).Nodup)
    rcases List.mem_cons.mp h with rfl | h
    · simp
    · have hne : x.name ≠ st.name := fun he => hx (he ▸ List.mem_map_of_mem h)
      simpa [hne] using ih h hl

end Fields

/-! Objects -/

variable {go : Goal → Checking Unit} (hgo : ChecksWell go) {W : Busy} {p q : Pass} {u : Unit}

section Objects
variable {V : Busy} {X : Nat → Prop}

/-- What an object that is not stamped becomes does not matter to what led here. -/
theorem Leads.grow (hV : ∀ o c, V o c → W o c ∨ ¬ Stamped m s o) (h : Leads m s W x y) : Leads m s V x y := by
  cases h with
  | held hv hy =>
    refine .held ?_ hy
    cases hv with
    | default hi hf hst => exact .default hi hf hst
    | @setting i o st hi hm hw hst =>
      refine .setting hi hm (fun c hc => ?_) hst
      exact (hV i c hc).elim (hw c) fun hn => hn (stamped_object.mpr ⟨o,hi,hm⟩)
  | objectClass hi hc => exact .objectClass hi hc
  | setClass hi hc => exact .setClass hi hc
  | element hi ho => exact .element hi ho
  | listed hi hos ho => exact .listed hi hos ho

theorem Reaches.grow (hV : ∀ o c, V o c → W o c ∨ ¬ Stamped m s o) (h : Reaches m s W x y) : Reaches m s V x y :=
  Relation.ReflTransGen.mono (fun _ _ hxy => Leads.grow hV hxy) _ _ h

theorem Grows.object_class (hX : ObjectsOnly X) (g : Grows X p q) {i : Id .objectDef} (ho : p.store.get? i = some o)
    (hc : o.objectClass = some c) (hg : Check.classNow p.marker p.store o.governor = some c) : ∃ o', q.store.get? i =
    some o' ∧ o'.bare = o.bare ∧ o'.objectClass = some c ∧ Check.classNow q.marker q.store o'.governor = some c := by
  obtain ⟨o',ho',hm,hk⟩ := g.rows .objectDef i o ho
  refine ⟨o',ho',ObjectMoves.bare hm,hk c hc ⟨hg,fun _ _ => hX.not_of (by decide) _⟩,?_⟩
  rw [ObjectMoves.governor hm]
  exact g.classNow hX hg

theorem Gives.reports_clean {α : Type} {l : List α} {f : α → Checking PUnit} (hf : ∀ x ∈ l, Keeps False (f x))
    (he : ∀ x ∈ l, ∀ p q, Gives (f x) p () q → ¬ q.Clean) (h : Gives (l.forM f) p u q) (hq : q.Clean) : l = [] ∧ q = p := by
  cases l with
  | nil => exact ⟨rfl,gives_forM_nil.mp h⟩
  | cons x l =>
    obtain ⟨p1,hx,hl⟩ := gives_forM_cons.mp h
    have hk : Keeps False (l.forM f) := .forM fun y hy => hf y (List.mem_cons_of_mem _ hy)
    exact absurd (hk.clean hl hq) (he x (List.mem_cons_self ..) _ _ hx)

/-- A field of an object was checked against its settings. -/
structure ObjectFieldDone (p : Pass) (settings : List Setting) (f : Field) : Prop where
  set : ∀ st, settings.find? (·.name == f.name) = some st → SettingDone p.marker p.store f st
  unset : settings.find? (·.name == f.name) = none → f.isRequired = false

theorem ObjectFieldDone.mono (g : Grows (fun _ => False) p q) (h : ObjectFieldDone p settings f) :
    ObjectFieldDone q settings f :=
  ⟨fun st hst => (h.set st hst).mono objectsOnly_false g,h.unset⟩

include hgo in
theorem Gives.checkObjectField_step (h : Gives (checkObjectField go o settings f) p u q) (hq : q.Clean) (hp : Course W p)
    (hh : ∀ st, settings.find? (·.name == f.name) = some st → st.kind = f.kind → HomedHeld p.store st.value)
    (hf : HomedField p.store f) (hformed : f.shape ≠ .malformed)
    (hi : ∃ row, p.store.get? i = some row ∧ row.checked.before p.marker = false ∧ row.settings = settings)
    (hw : ∀ c, ¬ W i c) (hfrom : From W p (.object i)) : Step W p q ∧ ObjectFieldDone q settings f := by
  unfold checkObjectField at h
  cases hfind : settings.find? (·.name == f.name) with
  | none =>
    simp only [hfind] at h
    rcases gives_ite.mp h with ⟨_,h⟩ | ⟨hreq,h⟩
    · exact absurd hq h.reportError_not_clean
    · obtain ⟨_,rfl⟩ := gives_pure.mp h
      exact ⟨.refl hp,fun st hst => by simp [hfind] at hst,fun _ => by simpa using hreq⟩
  | some st =>
    simp only [hfind] at h
    obtain ⟨row,hrow,hst,rfl⟩ := hi
    obtain ⟨s,hd⟩ := h.checkSetting_step hgo hq hp (hh st hfind) hf hformed
      (.setting hrow hst hw (List.mem_of_find?_eq_some hfind)) hfrom
    refine ⟨s,fun st' hst' => ?_,fun hn => by simp [hfind] at hn⟩
    cases hfind.symm.trans hst'
    exact hd

/-- While the class of an object is checked, the object is busy. -/
def Busy.with (W : Busy) (i : Id .objectDef) (c : Id .classDef) : Busy := fun x y => W x y ∨ x = i ∧ y = c

theorem Busy.busyOnly_with (W : Busy) (i : Id .objectDef) (c : Id .classDef) : BusyOnly (W.with i c) (fun k => k = i.key) :=
  fun _ hk => ⟨i,c,.inr ⟨rfl,rfl⟩,hk⟩

section Body
variable {i : Id .objectDef} {j : Id .module} {row : Module} {ci : Id .classDef} {body : Notation.ObjectBody}
  {o o' : ObjectDef} {c : ClassDef} {x : Partition} {p1 p2 p3 : Pass}

theorem BodyChecked.course (h : BodyChecked go i ⟨j,row.file⟩ ci body p q o c x p1 o' p2 p3)
    (hp : Course (W.with i ci) p) (hst : o.checked.before p.marker = false) (hj : o.module = some j)
    (hrow : p.store.get? j = some row) : Course W (p1.put i {o' with settings := x.settings}) ∧
      Unstamped p.store (p1.store.put i {o' with settings := x.settings}) := by
  obtain ⟨hplain,_⟩ := h.sorted.partitionBody
  have e := h.saves hst hj hrow
  have hX := (W.busyOnly_with i ci).objectsOnly
  have hl : p1.chain.links = p.chain.links := by rw [hplain.chain]
  have hready := hp.ready.of_unresolved hX e hl
    (hplain.unresolved.trans hplain.extends (.put (t := .objectDef) h.row trivial))
  exact ⟨hp.mono e.toGrows hX (fun _ _ hw => .inl hw) (hl.trans hp.links) hready,
    hplain.quiet.stamps.trans (.put (t := .objectDef) h.row rfl)⟩

include hgo in
theorem BodyChecked.fields_step (h : BodyChecked go i ⟨j,row.file⟩ ci body p q o c x p1 o' p2 p3) (hq : q.Clean)
    (hp : Course (W.with i ci) p) (hst : o.checked.before p.marker = false) (hj : o.module = some j)
    (hrow : p.store.get? j = some row) (hkept : j ∈ p.store.kept) (hw : ∀ y, ¬ W i y)
    (hci : Declares p.store (.objectClass (.definition ci)))
    (hfrom : ∀ a b, W a b → Reaches p.marker p.store (W.with i ci) (.objectClass b) (.object i)) :
    Step W (p1.put i {o' with settings := x.settings}) q ∧
      x.unknown = [] ∧ x.repeated = [] ∧ (∃ oq, q.store.get? i = some oq ∧ oq.settings = x.settings) ∧
      ∀ f ∈ firstFields c, ObjectFieldDone q x.settings f := by
  have hkf : ∀ f ∈ firstFields c, Keeps False (checkObjectField go o x.settings f) :=
    fun f _ => keeps_checkObjectField hgo.keeps o x.settings f
  have hq3 := (Keeps.forM hkf).clean h.fields hq
  obtain ⟨hrep,rfl⟩ := h.repeated.reports_clean (fun _ _ => keeps_reportError rfl)
    (fun _ _ _ _ hr => hr.reportError_not_clean) hq3
  obtain ⟨hunk,rfl⟩ := h.unknown.reports_clean (fun _ _ => keeps_reportError rfl)
    (fun _ _ _ _ hr => hr.reportError_not_clean) hq3
  obtain ⟨hc1,_⟩ := h.course hp hst hj hrow
  obtain ⟨hplain,hsorted⟩ := h.sorted.partitionBody
  have e := (h.saves hst hj hrow).toGrows
  have hself : (p1.store.put i {o' with settings := x.settings}).get? i = some {o' with settings := x.settings} :=
    Store.get?_put_self (t := .objectDef) h.row
  have hstamped := h.stamped hst
  have hfrom1 : From W (p1.put i {o' with settings := x.settings}) (.object i) :=
    fun a b hab => Reaches.mono (W.busyOnly_with i ci) e (fun _ _ hw => .inl hw) (hfrom a b hab)
  have hstep : ∀ f ∈ firstFields c, ∀ r1 r2,
      Step W (p1.put i {o' with settings := x.settings}) r1 →
      Gives (checkObjectField go o x.settings f) r1 () r2 → r2.Clean → Step W r1 r2 ∧ ObjectFieldDone r2 x.settings f := by
    intro f hf r1 r2 s hg hr2
    have hfield := mem_firstFields.mp hf
    obtain ⟨hh,hformed⟩ := hp.ready.field_known hci h.objectClass (mem_fields_of_field? hfield)
    obtain ⟨o1,ho1,_,hset,hst1⟩ := s.grows.settings (busyOnly_false W) hself hstamped hw
    refine hg.checkObjectField_step hgo hr2 s.course ?_ (s.grows.homed_field (e.homed_field hh)) hformed
      ⟨o1,ho1,hst1,hset⟩ hw (hfrom1.mono s.grows)
    intro st hfind hkind
    -- what was found under the name of the field was built for it
    obtain ⟨l,hb⟩ := hsorted hp.ready.sane [] (by simp)
    have hmem : st ∈ l := by
      have := List.mem_of_find?_eq_some hfind
      simpa [hb.settings] using this
    obtain ⟨k,hk⟩ := List.mem_iff_getElem?.mp hmem
    obtain ⟨d,_,hd⟩ := getElem?_of_forall₂_flip hb.sorted hk
    obtain ⟨f',hf',hbuilt⟩ := hd.built
    have hname : st.name = f.name := by simpa using List.find?_some hfind
    rw [hname,hfield] at hf'
    obtain rfl := Option.some.inj hf'
    have hhomed : HomedHeld p1.store st.value :=
      SettingBuilt.homed hbuilt (hplain.kept ▸ hkept) (hplain.toGrows.homed_field hh) hkind
    exact s.grows.homed_held
      (HomedHeld.mono ⟨.put (t := .objectDef) (b := {o' with settings := x.settings}) h.row rfl,Store.kept_put⟩ hhomed)
  obtain ⟨s,hdone⟩ := h.fields.forM_step hkf hstep (fun _ _ _ _ s hd => hd.mono s.grows) hq hc1
  obtain ⟨oq,hoq,_,hset,_⟩ := s.grows.settings (busyOnly_false W) hself hstamped hw
  exact ⟨s,hunk,hrep,⟨oq,hoq,hset⟩,hdone⟩

theorem BodyChecked.settings_done (h : BodyChecked go i ⟨j,row.file⟩ ci body p q o c x p1 o' p2 p3) (hs : Sane p.store)
    (hblock : o.block = some b) (hparse : b.parseObject = .ok body) (hunk : x.unknown = []) (hrep : x.repeated = [])
    (hdone : ∀ f ∈ firstFields c, ObjectFieldDone q x.settings f) (hoq : oq.block = o.block)
    (hset : oq.settings = x.settings) (hcq : ClassMoves m c cq) : SettingsDone q.marker q.store oq cq := by
  obtain ⟨_,hsorted⟩ := h.sorted.partitionBody
  obtain ⟨l,hb⟩ := hsorted hs [] (by simp)
  have hsorted := hb.sorted
  rw [pick_fresh_eq (hb.unknown ▸ hunk) (hb.repeated ▸ hrep)] at hsorted
  have hl : x.settings = l := by simpa using hb.settings
  have hnodup : (x.settings.map Setting.name).Nodup := hb.nodup (by simp)
  refine ⟨⟨b,body,hoq.trans hblock,hparse,?_⟩,by rw [hset]; exact hnodup,?_,?_⟩
  · rw [hset,hl]
    have hnames : List.Forall₂ (· = ·) (l.map Setting.name)
        (body.settings.map fun d => asnIdentifier d.name.name) := by
      rw [List.forall₂_map_left_iff,List.forall₂_map_right_iff]
      exact hsorted.flip.imp fun _ _ hd => hd.named
    rwa [List.forall₂_eq_eq_eq] at hnames
  · rw [hset]
    intro st hst
    obtain ⟨k,hk⟩ := List.mem_iff_getElem?.mp (hl ▸ hst)
    obtain ⟨d,_,hd⟩ := getElem?_of_forall₂_flip hb.sorted hk
    obtain ⟨f,hf,_⟩ := hd.built
    obtain ⟨f',hf',hff⟩ := ClassMoves.field? hcq hf
    have hname : f.name = st.name := ClassDef.name_of_field? hf
    have hfd := hdone f (mem_firstFields.mpr (hname ▸ hf))
    have hfind : x.settings.find? (·.name == f.name) = some st := by
      rw [hname]
      exact find?_setting hst hnodup
    exact ⟨f',hf',(hfd.set st hfind).of_shape (Field.bare_eq_iff.mp hff.bare).2.2.1⟩
  · rw [hset]
    intro n f' hf' hreq
    obtain ⟨f,hf,hff⟩ := ClassMoves.field?_back hcq hf'
    have hname : f.name = n := ClassDef.name_of_field? hf
    have hfd := hdone f (mem_firstFields.mpr (hname ▸ hf))
    cases hfind : x.settings.find? (·.name == f.name) with
    | none =>
      rw [hff.isRequired,hfd.unset hfind] at hreq
      contradiction
    | some st =>
      exact ⟨st,List.mem_of_find?_eq_some hfind,by simpa [hname] using List.find?_some hfind⟩

end Body

theorem Course.busy_with (h : Course W p) (ho : p.store.get? i = some o) (hst : o.checked.before p.marker = false)
    (hc : classNow p.marker p.store o.governor = some c) : Course (W.with i c) p := by
  refine {h with busy := ?_}
  rintro x y (hw | ⟨rfl,rfl⟩)
  · exact h.busy x y hw
  · exact ⟨o,ho,hst,hc⟩

include hgo in
/-- The body of an object is checked against its class, and then the object is busy no more. -/
theorem Gives.checkBlock_step (h : Gives (Check.checkBlock go i o c) p u q) (hq : q.Clean) (hp : Course (W.with i c) p)
    (hi : HomedObject p.store (.definition i)) (ho : p.store.get? i = some o1) (hbare : o1.bare = o.bare)
    (hst : o1.checked.before p.marker = false) (hoc : o1.objectClass = some c)
    (hnow : classNow p.marker p.store o1.governor = some c) (hw : ∀ y, ¬ W i y)
    (hdecl : Declares p.store (.objectClass (.definition c))) (hstc : Stamped p.marker p.store c)
    (hfrom : ∀ a b, W a b → Reaches p.marker p.store (W.with i c) (.objectClass b) (.object i)) :
    Grows (fun k => k = i.key) p q ∧ Course W q ∧ ObjectDone q.marker q.store W i ∧ ∀ (t : EntityType)
    (k : Id t), Stamped q.marker q.store k → Stamped p.marker p.store k ∨ Done q.marker q.store W k := by
  obtain ⟨_,m,ho',_,hmod,hkept,_⟩ := hi
  cases ho.symm.trans ho'
  obtain ⟨_,_,_,hmod',_,hblock'⟩ := ObjectDef.bare_eq_iff.mp hbare
  obtain ⟨b,j,row,hb,hj,hrow,⟨e,_,h⟩ | ⟨body,_,cd,x,p1,o',p2,p3,hparse,hbody⟩⟩ := h.checkBlock_cases
  · exact absurd hq h.reportError_not_clean
  · cases (hmod'.symm.trans hmod).symm.trans hj
    cases ho.symm.trans hbody.object
    have hj1 := hmod'.trans hj
    obtain ⟨_,hu⟩ := hbody.course hp hst hj1 hrow
    obtain ⟨s,hunk,hrep,⟨oq,hoq,hset⟩,hfields⟩ := hbody.fields_step hgo hq hp hst hj1 hrow hkept hw hdecl hfrom
    have e := (hbody.saves hst hj1 hrow).toGrows
    have hX := W.busyOnly_with i c
    have g : Grows (fun k => k = i.key) p q := e.trans (s.grows.imp fun _ _ _ _ hf => hf.elim)
    refine ⟨g,s.course,?_,fun t k hk => ?_⟩
    · obtain ⟨oq',hoq',hbq,hocq,hnowq⟩ := g.object_class hX.objectsOnly ho hoc hnow
      cases hoq.symm.trans hoq'
      obtain ⟨oq',hoq',hstq⟩ := stamped_object.mp (g.stamped (stamped_object.mpr ⟨_,ho,hst⟩))
      cases hoq.symm.trans hoq'
      obtain ⟨cq,hcq,hcm,_⟩ := g.rows .classDef c cd hbody.objectClass
      exact ⟨oq,c,cq,hoq,hstq,hw,hocq,hnowq,hcq,g.stamped hstc,
        hbody.settings_done hp.ready.sane (hblock'.trans hb) hparse hunk hrep hfields
          (ObjectDef.bare_eq_iff.mp hbq).2.2.2.2.2 hset hcm⟩
    · rcases s.settles t k hk with hk | hd
      · exact .inl (hu.stamped hp.fresh (e.marker ▸ hk))
      · exact .inr hd

include hgo in
theorem Gives.checkObject_step (h : Gives (checkObject go i) p u q) (hq : q.Clean) (hp : Course W p)
    (hi : HomedObject p.store (.definition i)) (hfrom : From W p (.object i)) : Step W p q ∧ Stamped q.marker q.store i := by
  have hall := (hp.evolves (keeps_checkObject hgo.keeps i _ _ _ h)).toGrows
  obtain ⟨o,ho,⟨hd,rfl⟩ | ⟨hdue,⟨he,_⟩ | ⟨_,c,p1,b,p2,h⟩⟩⟩ := gives_checkObject.mp h
  · exact ⟨.refl hp,o,o.checked,ho,rfl,hd⟩
  · simp [hi.formed ho] at he
  obtain ⟨hc0,g0,hold⟩ := hp.stamp (t := .objectDef) ho (b := {o with checked := p.marker})
    ⟨⟨rfl,.inr rfl,fun _ => rfl,fun _ _ => rfl⟩,rfl,fun _ h _ => h,trivial,rfl⟩
  obtain ⟨hrest,_⟩ := h.rest_evolves hgo.keeps ho
  have hq2 := hrest.clean hq
  have hq1 := (keeps_checkGoverning hgo.keeps c).clean h.classChecked hq2
  -- the class is found
  have kgov := keeps_governObject (R := True) keeps_resolveClass follows_resolveClass i _ _ _ h.governed
  obtain ⟨hr1,hdecl,o1,ho1,hoc1,hnow1⟩ := h.governed.governObject_ready hq1 hc0.ready followsWell_resolveClass
    (HomedObject.mono g0.stays hi)
  have s1 := hc0.resolving kgov hr1
  have g1 := g0.trans s1.grows
  have hst1 : o1.checked.before p1.marker = false := by
    obtain ⟨o1',ho1',hm1,_⟩ := s1.grows.rows .objectDef i _ (Store.get?_put_self (t := .objectDef) ho)
    cases ho1.symm.trans ho1'
    rw [s1.grows.marker]
    exact (ObjectMoves.checked hm1).not_due (Marker.before_irrefl _)
  -- the class is checked while the object is busy
  have hnot : ¬ Stamped p.marker p.store i := by
    intro hs
    obtain ⟨o',ho',hs⟩ := stamped_object.mp hs
    cases ho.symm.trans ho'
    rw [hdue] at hs
    contradiction
  have hw : ∀ y, ¬ W i y := fun y hy => by
    obtain ⟨row,hrow,hst,_⟩ := hp.busy i y hy
    exact hnot (stamped_object.mpr ⟨row,hrow,hst⟩)
  have hfrom1 : ∀ a b, W a b → Reaches p1.marker p1.store (W.with i c) (.objectClass b) (.object i) := by
    intro a b hab
    refine Reaches.mono (busyOnly_false _) g1 (fun _ _ h => h) (Reaches.grow ?_ (hfrom a b hab))
    rintro x y (hxy | ⟨rfl,rfl⟩)
    · exact .inl hxy
    · exact .inr hnot
  have hfromc : From (W.with i c) p1 (.objectClass c) := by
    rintro x y (hxy | ⟨rfl,rfl⟩)
    · exact (hfrom1 x y hxy).tail (.objectClass ho1 hnow1)
    · exact .refl
  obtain ⟨rfl,s2,hstc⟩ := h.classChecked.checkGoverning_step hgo hq2 (s1.course.busy_with ho1 hst1 hnow1) hdecl hfromc
  have g2 := g1.trans s2.grows
  -- the body is checked against it
  obtain ⟨o2,ho2,hbare2,hst2⟩ := h.row hgo.keeps ho
  obtain ⟨o2',ho2',_,hoc2,hnow2⟩ := s2.grows.object_class objectsOnly_false ho1 hoc1 hnow1
  cases ho2.symm.trans ho2'
  obtain ⟨g3,hcourse,hdone,hsettles⟩ := h.rest.checkBlock_step hgo hq s2.course (HomedObject.mono g2.stays hi)
    ho2 hbare2 hst2 hoc2 hnow2 hw (hdecl.mono s2.grows.stays) hstc
    fun a b hab => Reaches.mono (busyOnly_false _) s2.grows (fun _ _ h => h) (hfrom1 a b hab)
  refine ⟨⟨hall,hcourse,fun t k hk => ?_⟩,stamped_object.mpr ?_⟩
  · rcases hsettles t k hk with hk | hd
    · rcases s2.settles t k hk with hk | hd
      · rcases hold t k ((kgov.quiet trivial).stamps.stamped hc0.fresh (s1.grows.marker ▸ hk)) with hk | hk
        · exact .inl hk
        · exact .inr (Id.of_key hk (P := Done q.marker q.store W) hdone)
      · exact .inr (hd.mono (W.busyOnly_with i c) g3 fun _ _ hw => .inl hw)
    · exact .inr hd
  · obtain ⟨oq,_,_,hoq,hst,_⟩ := hdone
    exact ⟨oq,hoq,hst⟩

end Objects

/-! Object sets -/

theorem Gives.flatten_found (h : Gives (flatten i) p os q) (hq : q.Clean) (hd : p.store.get? i = some d)
    (he : d.erroneous = false) : ∃ d', q.store.get? i = some d' ∧ found q.marker d'.flattening = some os := by
  refine (h.flatten_listed hd he).resolve_right ?_
  rintro ⟨hb,c,hc,rfl⟩
  have hclean : (p.marked.entered (setLink i d)).Clean := .of_rewind (p := p.marked.entered (setLink i d)) (s := p.store) hc hq
  have hfresh := (Pass.Clean.enter (p := p.marked) hclean).1
  rw [hb] at hfresh
  contradiction

/-- The objects of a list that were compared so far: their values were found, and each is the first of its value. -/
structure Seen (p : Pass) (n : Identifier) (done : List (Id .objectDef)) (seen : List (String × Id .objectDef)) :
    Prop where
  stamped : ∀ a ∈ done, Stamped p.marker p.store a
  found : ∀ a ∈ done, ∀ v, valueOf p.store a n = some v →
    ∃ l, valueNow p.marker p.store v = some (some l) ∧ seen.lookup l.render = some a

theorem Seen.distinct (h : Seen p n os seen) (hw : ∀ o ∈ os, ∀ x, ¬ W o x) : Distinct p.marker p.store W n os := by
  refine ⟨fun o ho => ⟨h.stamped o ho,hw o ho⟩,fun a ha v hv => ?_,fun a ha b hb v w l hv hw hl hl' => ?_⟩
  · obtain ⟨l,hl,_⟩ := h.found a ha v hv
    exact ⟨l,hl⟩
  · obtain ⟨k,hk,hka⟩ := h.found a ha v hv
    obtain ⟨k',hk',hkb⟩ := h.found b hb w hw
    cases Option.some.inj (hk.symm.trans hl)
    cases Option.some.inj (hk'.symm.trans hl')
    exact Option.some.inj (hka.symm.trans hkb)

theorem Seen.mono (g : Grows (fun _ => False) p q) (hw : ∀ a ∈ done, ∀ x, ¬ W a x)
    (h : Seen p n done seen) : Seen q n done seen := by
  refine ⟨fun a ha => g.stamped (h.stamped a ha),fun a ha v hv => ?_⟩
  rw [g.valueOf (busyOnly_false W) (h.stamped a ha) (hw a ha)] at hv
  obtain ⟨l,hl,hs⟩ := h.found a ha v hv
  exact ⟨l,g.valueNow objectsOnly_false hl,hs⟩

theorem Seen.snoc (h : Seen p n done seen) (ho : Stamped p.marker p.store o)
    (hs : ∀ s a, seen.lookup s = some a → seen'.lookup s = some a)
    (hv : ∀ v, valueOf p.store o n = some v → ∃ l, valueNow p.marker p.store v = some (some l) ∧ seen'.lookup l.render =
    some o) : Seen p n (done++[o]) seen' := by
  refine ⟨fun a ha => ?_,fun a ha v hav => ?_⟩
  · rcases List.mem_append.mp ha with ha | ha
    · exact h.stamped a ha
    · obtain rfl := List.mem_singleton.mp ha
      exact ho
  · rcases List.mem_append.mp ha with ha | ha
    · obtain ⟨l,hl,hla⟩ := h.found a ha v hav
      exact ⟨l,hl,hs _ _ hla⟩
    · obtain rfl := List.mem_singleton.mp ha
      exact hv v hav

theorem Gives.reportConflict_not_clean (h : Gives (reportConflict c f l r) p u q) (hp : Course W p) : ¬ q.Clean := by
  obtain ⟨hin,rfl⟩ | ⟨_,rfl⟩ := gives_reportConflict.mp h
  · exact fun hq => hq.reports (hp.conflicts (List.ne_nil_of_mem hin))
  · exact fun hq => hq.reports ⟨_,List.mem_cons_self⟩

theorem Gives.reportWarning_step (h : Gives (reportWarning (.emptySet n) l) p u q) (hp : Course W p) : Step W p q := by
  have hq := gives_reportWarning.mp h
  refine hp.resolving (keeps_reportWarning (R := True) rfl _ _ _ h) ?_
  rw [hq]
  exact {hp.ready with}

theorem Listed.homed (h : Listed p.marker p.store i g o) (hs : Sane p.store) (hi : HomedSet p.store (.definition i)) :
    HomedObject p.store (.definition o) := by
  rcases h.source with hd | ⟨j,row,hj,hrow,hmem⟩
  · exact hd.homed hs
  · rcases hj with rfl | hj
    · exact (element_homed hs hi hrow hmem).1
    · exact (element_homed hs (hj.homed hs) hrow hmem).1

/-- A set whose list has a busy object was reached from its class. -/
theorem Course.reaches_of_busy (h : Course W p) (hl : Listed p.marker p.store i g o) (hw : W o c)
    (hg : classNow p.marker p.store g = some ci) (hfrom : From W p (.objectSet i)) :
    Reaches p.marker p.store W (.objectClass ci) (.objectSet i) := by
  obtain ⟨row,hrow,_,hc⟩ := h.busy o c hw
  obtain ⟨row',c',hrow',_,hc',hg'⟩ := hl.governed
  cases hrow.symm.trans hrow'
  cases hc.symm.trans hc'
  cases hg'.symm.trans hg
  exact hfrom o c hw

theorem Gives.expand_step (h : Gives (expand i) p e q) (hp : Course W p) : Step W p q ∧ ∃ d, q.store.get? i = some d ∧
    d.expansion = some e := by
  obtain ⟨_,_,hd⟩ := h.expand_unresolved
  exact ⟨hp.resolving (keeps_expand i _ _ _ h) (h.expand_ready hp.ready),hd⟩

section Checks
variable (hq : q.Clean) (hp : Course W p)
include hq hp

theorem Gives.settingValue_step (h : Gives (settingValue i n) p v q)
    (hi : HomedObject p.store (.definition i)) : Step W p q ∧
    (valueOf p.store i n = none ∧ v = none ∨ ∃ w l, valueOf p.store i n = some w ∧ v = some l ∧
    valueNow q.marker q.store w = some (some l)) := by
  simp only [settingValue,gives_bind,gives_load] at h
  obtain ⟨o,p0,⟨ho,rfl⟩,h⟩ := h
  simp only [valueOf,ho,Option.bind_eq_bind,Option.bind_some]
  cases hst : o.setting? n with
  | none =>
    simp only [hst,Option.map_none,gives_pure] at h
    obtain ⟨rfl,rfl⟩ := h
    exact ⟨.refl hp,.inl ⟨by simp,rfl⟩⟩
  | some st =>
    simp only [hst,Option.map_some] at h
    cases hv : st.value with
    | value w =>
      simp only [hv] at h
      obtain ⟨o',j,ho',_,hj,hkept,_⟩ := hi
      cases ho.symm.trans ho'
      have hhomed := value_homed hp.ready.sane ho (fun k hk => Option.some.inj (hj.symm.trans hk) ▸ hkept)
        (List.mem_of_find?_eq_some hst) hv
      obtain ⟨s,l,rfl,hl⟩ := h.resolveValue_step hq hp hhomed
      exact ⟨s,.inr ⟨w,l,by simp [hv],rfl,hl⟩⟩
    | _ =>
      simp only [hv,gives_pure] at h
      obtain ⟨rfl,rfl⟩ := h
      exact ⟨.refl hp,.inl ⟨by simp [hv],rfl⟩⟩

include hgo

theorem Gives.checkUniqueField_step (h : Gives (checkUniqueField go owner k f seen os) p u q)
    (hos : ∀ o ∈ os, HomedObject p.store (.definition o) ∧ From W p (.object o)) : Step W p q ∧ ∀ done,
    (∀ o ∈ done++os, ∀ x, ¬ W o x) → Seen p f.name done seen → ∃ seen', Seen q f.name (done++os) seen' := by
  induction os generalizing p seen with
  | nil =>
    obtain ⟨_,rfl⟩ := gives_pure.mp h
    exact ⟨.refl hp,fun done _ hs => ⟨seen,by simpa using hs⟩⟩
  | cons o os ih =>
    simp only [checkUniqueField,gives_bind] at h
    obtain ⟨_,p1,h1,v,p2,h2,h⟩ := h
    have steps : p2.Clean → ∃ _ : Step W p p1, Step W p1 p2 ∧ Stamped p1.marker p1.store o ∧
        (valueOf p1.store o f.name = none ∧ v = none ∨ ∃ w l, valueOf p1.store o f.name = some w ∧ v = some l ∧
          valueNow p2.marker p2.store w = some (some l)) := by
      intro hq2
      have hq1 := (keeps_settingValue o f.name).clean h2 hq2
      obtain ⟨ho,hfrom⟩ := hos o (List.mem_cons_self ..)
      obtain ⟨s1,hst1⟩ := hgo.step _ W _ _ h1 hq1 hp ho hfrom
      obtain ⟨s2,hv2⟩ := h2.settingValue_step hq2 s1.course (HomedObject.mono s1.grows.stays ho)
      exact ⟨s1,s2,hst1,hv2⟩
    -- the rest of the list, from where the object was compared
    have rest : ∀ seen', Gives (checkUniqueField go owner k f seen' os) p2 () q →
        (∀ l, v = some l → seen'.lookup l.render = some o) →
        (∀ s a, seen.lookup s = some a → seen'.lookup s = some a) →
        Step W p q ∧ ∀ done, (∀ a ∈ done++o::os, ∀ x, ¬ W a x) → Seen p f.name done seen →
          ∃ seen', Seen q f.name (done++o::os) seen' := by
      intro seen' hrest hval hext
      obtain ⟨s1,s2,hst1,hv2⟩ := steps ((keeps_checkUniqueField hgo.keeps _ _ _ _ _).clean hrest hq)
      have s12 := s1.trans s2
      obtain ⟨s3,hseen⟩ := ih s12.course hrest fun a ha =>
        ⟨HomedObject.mono s12.grows.stays (hos a (List.mem_cons_of_mem _ ha)).1,
          (hos a (List.mem_cons_of_mem _ ha)).2.mono s12.grows⟩
      refine ⟨s12.trans s3,fun done hw hdone => ?_⟩
      have hwo : ∀ x, ¬ W o x := hw o (by simp)
      have hwd : ∀ a ∈ done, ∀ x, ¬ W a x := fun a ha => hw a (by simp [ha])
      have hsnoc : Seen p2 f.name (done++[o]) seen' := by
        refine (hdone.mono s12.grows hwd).snoc (s2.grows.stamped hst1) hext fun w hw => ?_
        rw [s2.grows.valueOf (busyOnly_false W) hst1 hwo] at hw
        rcases hv2 with ⟨hn,_⟩ | ⟨w',l,hw',hl,hnow⟩
        · rw [hn] at hw
          contradiction
        · cases hw.symm.trans hw'
          exact ⟨l,hnow,hval l hl⟩
      simpa using hseen (done++[o]) (by simpa using hw) hsnoc
    cases v with
    | none => exact rest seen h (fun l hl => by simp at hl) fun _ _ hs => hs
    | some l =>
      simp only at h
      cases hlook : seen.lookup l.render with
      | none =>
        simp only [hlook] at h
        refine rest _ h (fun l' hl' => ?_) fun s a hs => ?_
        · obtain rfl := Option.some.inj hl'
          simp
        · have hne : (s == l.render) = false := by
            by_contra hn
            simp only [Bool.not_eq_false,beq_iff_eq] at hn
            rw [hn,hlook] at hs
            contradiction
          simpa [List.lookup_cons,hne] using hs
      | some first =>
        simp only [hlook] at h
        by_cases hfirst : first = o
        · subst hfirst
          simp only [if_true] at h
          refine rest seen h (fun l' hl' => ?_) fun _ _ hs => hs
          obtain rfl := Option.some.inj hl'
          exact hlook
        · simp only [hfirst,if_false,gives_bind,gives_load] at h
          obtain ⟨_,_,⟨_,rfl⟩,_,p3,⟨_,rfl⟩,_,p4,hconf,hrest⟩ := h
          have hq4 := (keeps_checkUniqueField hgo.keeps _ _ _ _ _).clean hrest hq
          obtain ⟨_,s2,_⟩ := steps ((keeps_reportConflict _ rfl).clean hconf hq4)
          exact absurd hq4 (hconf.reportConflict_not_clean s2.course)

theorem Gives.checkUnique_step (h : Gives (checkUnique go ci os) p u q)
    (hos : ∀ o ∈ os, HomedObject p.store (.definition o) ∧ From W p (.object o)) : Step W p q ∧
    ((∀ o ∈ os, ∀ x, ¬ W o x) → ∀ c n f, q.store.get? ci = some c → c.field? n = some f → f.uniqueType?.isSome = true →
    Distinct q.marker q.store W n os) := by
  simp only [checkUnique,gives_bind,gives_load] at h
  obtain ⟨c,p0,⟨hc,rfl⟩,h⟩ := h
  have hstep : ∀ x ∈ uniqueFields c, ∀ p1 p2, Step W p0 p1 → Gives (checkUniqueField go ci x.1 x.2 [] os) p1 () p2 →
      p2.Clean → Step W p1 p2 ∧ ((∀ o ∈ os, ∀ y, ¬ W o y) → Distinct p2.marker p2.store W x.2.name os) := by
    intro x _ p1 p2 s1 hx hq2
    obtain ⟨s,hseen⟩ := hx.checkUniqueField_step hgo hq2 s1.course fun o ho =>
      ⟨HomedObject.mono s1.grows.stays (hos o ho).1,(hos o ho).2.mono s1.grows⟩
    refine ⟨s,fun hw => ?_⟩
    obtain ⟨_,hdone⟩ := hseen [] (by simpa using hw) ⟨by simp,by simp⟩
    exact hdone.distinct (by simpa using hw)
  obtain ⟨s,hall⟩ := h.forM_step (fun x _ => keeps_checkUniqueField hgo.keeps ci x.1 x.2 [] os) hstep
    (fun _ _ _ _ s hd hw => (hd hw).mono (busyOnly_false W) s.grows fun _ _ h => h) hq hp
  refine ⟨s,fun hw c' n f' hc' hf' hu => ?_⟩
  obtain ⟨c'',hc'',hm,_⟩ := s.grows.rows .classDef ci c hc
  cases hc'.symm.trans hc''
  obtain ⟨f,hf,hff⟩ := ClassMoves.field?_back hm hf'
  have hname : f.name = n := ClassDef.name_of_field? hf
  obtain ⟨k,hk,hkf⟩ := ClassDef.field?_eq_some.mp hf
  have := hall (k,f) (mem_uniqueFields.mpr ⟨hff.uniqueType? ▸ hu,hname.symm ▸ hk,hkf⟩) hw
  exact hname ▸ this

theorem Gives.checkElement_step (h : Gives (checkElement go e) p u q)
    (hi : HomedSet p.store (.definition i)) (hd : p.store.get? i = some d) (he : e ∈ d.elements)
    (hfrom : From W p (.objectSet i)) : Step W p q ∧ ElementDone q.marker q.store e := by
  have hh := element_homed hp.ready.sane hi hd he
  cases e with
  | literal o => exact hgo.step _ W _ _ h hq hp hh.1 (hfrom.lead (.element hd he))
  | object j => exact h.checkObjectRef_step hq hp hh.1
  | set j => exact h.checkSetRef_step hq hp hh.1

theorem Gives.checkElements_step (h : Gives (checkElements go i ci e) p u q)
    (hi : HomedSet p.store (.definition i)) (hd : p.store.get? i = some d) (he : d.expansion = some (.ok e))
    (hnow : classNow p.marker p.store d.governor = some ci) (hfrom : From W p (.objectSet i)) : Step W p q ∧
    (∀ x ∈ e.elements, ElementDone q.marker q.store x) ∧ ∃ dq os, q.store.get? i = some dq ∧ found q.marker dq.flattening =
    some os ∧ UniqueDone q.marker q.store W i ci os := by
  have hwarn : ∃ p1, Step W p p1 ∧ Gives (do
      e.elements.forM fun x => restoringChain (checkElement go x)
      checkUnique go ci (← flatten i)) p1 u q := by
    simp only [checkElements,gives_bind,gives_load] at h
    obtain ⟨_,p0,⟨_,rfl⟩,h⟩ := h
    split at h
    · obtain ⟨_,p1,hw,h⟩ := gives_bind.mp h
      exact ⟨p1,hw.reportWarning_step hp,h⟩
    · exact ⟨p0,.refl hp,h⟩
  obtain ⟨p1,s1,h⟩ := hwarn
  obtain ⟨_,p2,hel,h⟩ := gives_bind.mp h
  obtain ⟨os,p3,hfl,hun⟩ := gives_bind.mp h
  have hq3 := (keeps_checkUnique hgo.keeps _ _).clean hun hq
  have hq2 := (keeps_flatten (R := True) i).clean hfl hq3
  -- each element
  have hstep : ∀ x ∈ e.elements, ∀ r1 r2, Step W p1 r1 → Gives (restoringChain (checkElement go x)) r1 () r2 →
      r2.Clean → Step W r1 r2 ∧ ElementDone r2.marker r2.store x := by
    intro x hx r1 r2 s hg hr2
    have g := s1.grows.trans s.grows
    obtain ⟨d1,hd1,hmoves,_⟩ := g.rows .setDef i d hd
    have hmem : x ∈ d.elements := by simpa only [SetDef.elements,he] using hx
    have hfrom1 : From W r1 (.objectSet i) := hfrom.mono g
    exact hg.restoringChain_step (Q := fun m s => ElementDone m s x) (keeps_checkElement hgo.keeps x) hr2 s.course fun r hm hr hc2 =>
      hm.checkElement_step hgo hr hc2 (HomedSet.mono g.stays hi) hd1 (SetMoves.mem_elements hmoves hmem) hfrom1
  obtain ⟨s2,hels⟩ := hel.forM_step (fun x _ => (keeps_checkElement hgo.keeps x).restoringChain) hstep
    (fun _ _ _ _ s hd => hd.mono s.grows) hq2 s1.course
  -- the list of the set
  have s12 := s1.trans s2
  obtain ⟨d2,hd2,hm2,_⟩ := s12.grows.rows .setDef i d hd
  have hgov2 := SetMoves.governor hm2
  have hi2 := HomedSet.mono s12.grows.stays hi
  have hnow2 : classNow p2.marker p2.store d2.governor = some ci := by
    rw [hgov2]
    exact s12.grows.classNow objectsOnly_false hnow
  obtain ⟨hr3,hlisted⟩ := hfl.flatten_ready hq3 s2.course.ready hi2 hd2 hnow2
  have s3 := s2.course.resolving (keeps_flatten i _ _ _ hfl) hr3
  obtain ⟨d3,hd3,hos3⟩ := hfl.flatten_found hq3 hd2 (hi2.formed hd2)
  have s13 := s12.trans s3
  have hi3 := HomedSet.mono s13.grows.stays hi
  have hfrom3 : From W p3 (.objectSet i) := hfrom.mono s13.grows
  obtain ⟨s4,hunique⟩ := hun.checkUnique_step hgo hq s3.course fun o ho =>
    ⟨(hlisted o ho).homed hr3.sane hi3,hfrom3.lead (.listed hd3 hos3 ho)⟩
  have s14 := s13.trans s4
  obtain ⟨d4,hd4,hm4,_⟩ := s4.grows.rows .setDef i d3 hd3
  refine ⟨s14,fun x hx => (hels x hx).mono (s3.grows.trans s4.grows),d4,os,hd4,?_,?_⟩
  · rw [(SetMoves.flattening hm4).eq_of_found not_false hos3,s4.grows.marker]
    exact hos3
  · by_cases hbusy : ∀ o ∈ os, ∀ x, ¬ W o x
    · exact .inr (hunique hbusy)
    · simp only [not_forall,not_not] at hbusy
      obtain ⟨o,ho,c,hw⟩ := hbusy
      have hl := (hlisted o ho).mono objectsOnly_false s4.grows
      exact .inl (s4.course.reaches_of_busy hl hw ((s3.grows.trans s4.grows).classNow objectsOnly_false hnow2)
        (hfrom.mono s14.grows))

theorem Gives.checkSet_step (h : Gives (checkSet go i) p u q)
    (hi : HomedSet p.store (.definition i)) (hfrom : From W p (.objectSet i)) : Step W p q ∧ Stamped q.marker q.store i := by
  obtain ⟨d,hd,⟨hst,rfl⟩ | ⟨_,⟨he,_⟩ | ⟨_,c,p1,b,p2,h⟩⟩⟩ := gives_checkSet.mp h
  · exact ⟨.refl hp,d,d.checked,hd,rfl,hst⟩
  · simp [hi.formed hd] at he
  have hm : Marked (t := .setDef) p d {d with checked := p.marker} :=
    ⟨⟨rfl,.inr rfl,fun _ h => h,.refl ..⟩,rfl,fun _ h _ => h,rfl,rfl⟩
  obtain ⟨hc0,g0,_⟩ := hp.stamp (t := .setDef) hd hm
  have hq2 := (Keeps.ite (keeps_checkExpansion hgo.keeps i d c) (.pure _)).clean h.rest hq
  have hq1 := (keeps_checkGoverning hgo.keeps c).clean h.classChecked hq2
  -- the class is found and checked
  obtain ⟨hr1,hdecl,d1,hd1,hdc1,hnow1⟩ := h.governed.governSet_ready hq1 hc0.ready
    (HomedSet.mono g0.stays hi)
  have s1 := hc0.resolving (keeps_governSet i _ _ _ h.governed) hr1
  have g1 := g0.trans s1.grows
  obtain ⟨rfl,s2,hstc⟩ := h.classChecked.checkGoverning_step hgo hq2 s1.course hdecl
    ((hfrom.mono g1).lead (.setClass hd1 hnow1))
  -- so are the elements
  obtain ⟨e,p3,hex,hrest⟩ := gives_bind.mp h.rest
  cases e with
  | error e =>
    obtain ⟨m,p4,hsc,hrep⟩ := gives_bind.mp hrest
    exact absurd hq hrep.reportError_not_clean
  | ok e =>
    obtain ⟨s3,d3,hd3,he3⟩ := hex.expand_step s2.course
    have g3 := (g1.trans s2.grows).trans s3.grows
    have g13 := s2.grows.trans s3.grows
    obtain ⟨d3',hd3',hm3,hk3⟩ := g13.rows .setDef i d1 hd1
    cases hd3.symm.trans hd3'
    have hgov3 := SetMoves.governor hm3
    have hnow3 : classNow p3.marker p3.store d3.governor = some c := by
      rw [hgov3]
      exact g13.classNow objectsOnly_false hnow1
    obtain ⟨s4,hels,dq,os,hdq,hos,hun⟩ := hrest.checkElements_step hgo hq s3.course (HomedSet.mono g3.stays hi)
      hd3 he3 hnow3 (hfrom.mono g3)
    obtain ⟨dq',hdq',hmq,hkq⟩ := s4.grows.rows .setDef i d3 hd3
    cases hdq.symm.trans hdq'
    have hgovq := SetMoves.governor hmq
    refine hp.stamped_step (t := .setDef) hd hm (((s1.trans s2).trans s3).trans s4) ?_
    have hdc3 : d3.setClass = some c := hk3 c hdc1 ⟨hnow1,fun _ _ => not_false⟩
    exact ⟨dq,c,e,os,hdq,hkq c hdc3 ⟨hnow3,fun _ _ => not_false⟩,by rw [hgovq]; exact s4.grows.classNow objectsOnly_false hnow3,
      (s3.grows.trans s4.grows).stamped hstc,SetMoves.expansion hmq _ he3,hels,hos,hun⟩

end Checks

theorem checksWell_within (n : Nat) : ChecksWell (checkWithin n) := by
  refine ⟨keeps_checkWithin n,?_⟩
  induction n with
  | zero => exact fun g W p q h => absurd h gives_throw
  | succ n ih =>
    have hgo : ChecksWell (checkWithin n) := ⟨keeps_checkWithin n,ih⟩
    intro g W p q h hq hp hg hfrom
    cases g with
    | objectClass i => exact Gives.checkClass_step hgo hq hp h hg hfrom
    | object i => exact Gives.checkObject_step hgo h hq hp hg hfrom
    | objectSet i => exact Gives.checkSet_step hgo hq hp h hg hfrom

theorem checksWell_check : ChecksWell check := by
  refine ⟨keeps_check,fun g W p q h => ?_⟩
  exact (checksWell_within _).step g W _ q h.within

end InfoObject.Check
