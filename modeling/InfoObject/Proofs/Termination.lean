import InfoObject.Proofs.Ending
import InfoObject.Proofs.Reachable

/-! Every check comes to an end. A definition is stamped before anything is called for from it, so that what there
is to check gets less; what is built from its body counts for less than the body did. -/
namespace InfoObject.Check
open Model

/-! Flattening -/

section Flattening
variable {w : Nat} {p : Pass}

theorem Carries.of_plain (h : Plain p q) : Carries p q :=
  ⟨h.marker,h.budget,h.extends,by rw [h.chain],by rw [h.chain],by rw [h.chain]; exact id⟩

variable (hp : Fit w p)
include hp

theorem ends_expand (hd : p.store.get? i = some d)
    (he : d.erroneous = false) : Ends (expand i) w p fun e s => ∀ x ∈ elementsOf e, Known s x.key := by
  cases hx : d.expansion with
  | some e =>
    refine .read (a := e) hp (by simp [expand,hd,hx]) fun x hmem => ?_
    refine hp.closed.known (t := .setDef) hd ?_
    have hel : d.elements = elementsOf e := by
      cases e <;> simp [SetDef.elements,hx,elementsOf]
    simp only [mentions,hel]
    simp only [List.mem_cons,List.mem_append,List.mem_map]
    exact .inr (.inl (.inr ⟨x,hmem,rfl⟩))
  | none =>
    obtain ⟨hmodule,hblock⟩ := (hp.closed.rows .setDef i d hd).1 he
    obtain ⟨b,hb⟩ := Option.isSome_iff_exists.mp hblock
    obtain ⟨e,q,hg,hext,hs,hw,hk⟩ := builds_readElements hp.closed hd hb fun _ _ => hmodule
    have hplain := hg.readElements.1
    obtain ⟨d',hd',hb⟩ := hext.rows .setDef i d hd
    have hgives : Gives (expand i) p e (q.put i {d' with expansion := some e}) := by
      simp only [expand,gives_bind,gives_load]
      refine ⟨d,p,⟨hd,rfl⟩,?_⟩
      simp only [hx,gives_bind,gives_load,gives_save,gives_pure]
      exact ⟨e,q,hg,d',q,⟨hd',rfl⟩,(),_,rfl,rfl,rfl⟩
    refine ⟨e,_,hgives,(Carries.of_plain hplain).trans ⟨rfl,rfl,.put (t := .setDef) hd' rfl,rfl,rfl,id⟩,
      hs.put (t := .setDef) hd' id fun k hmem => ?_,?_,fun x hmem => (hk x hmem).put (t := .setDef) hd'⟩
    · simp only [mentions,elements_expanded,List.mem_cons,List.mem_append,List.mem_map] at hmem ⊢
      rcases hmem with h | (h | ⟨x,hx,rfl⟩) | h
      · exact .inl (.inl h)
      · exact .inl (.inr (.inl (.inl h)))
      · exact .inr (hk x hx)
      · exact .inl (.inr (.inr h))
    · obtain ⟨_,_,herr,_,_,hblock⟩ := SetDef.bare_eq_iff.mp hb
      have hnone : d'.expansion = none := Eq.trans (hplain.parts .setDef i d d' hd hd') hx
      have hput := Pass.weight_expanded e hd' (herr.trans he) hnone
      have hsame : blockWeight d'.block = blockWeight d.block := congrArg blockWeight hblock
      have hle := hp.weight
      omega

theorem ends_flattenElements (hes : ∀ e ∈ es, Known p.store e.key)
    (hf : ∀ i q, q.chain.links = p.chain.links → Fit w q → Known q.store i.key → Ends (f i) w q fun os s => ∀ o ∈ os,
    Known s o.key) : Ends (flattenElements f es) w p fun os s => ∀ o ∈ os, Known s o.key := by
  induction es generalizing p with
  | nil => exact .pure hp nofun
  | cons e es ih =>
    have helem : Ends (flattenElement f e) w p.marked fun os s => ∀ o ∈ os, Known s o.key := by
      have hk : Known p.store e.key := hes e List.mem_cons_self
      cases e with
      | literal o => exact .pure hp.mark fun x hx => List.mem_singleton.mp hx ▸ hk
      | object i =>
        refine .bind hp.mark (ends_resolveObject hp.mark (o := .reference i) hk) fun o q _ hq ho => ?_
        refine .bind hq (ends_load hq ho) fun row q1 hc1 hq1 _ => .pure hq1 ?_
        split
        · exact nofun
        · exact fun x hx => List.mem_singleton.mp hx ▸ ho.mono hc1.store
      | set i =>
        exact .bind hp.mark (ends_resolveSet hp.mark (x := .reference i) hk) fun d q hc hq hd => hf d q hc.links hq hd
    refine .bind hp (ends_restoringChain helem) fun os q hc hq hos => ?_
    refine .bind hq (ih hq (fun x hx => (hes x (List.mem_cons_of_mem _ hx)).mono hc.store)
      fun i r hl => hf i r (hl.trans hc.links)) fun os' r hc' hr hos' => .pure hr fun o ho => ?_
    rcases List.mem_append.mp ho with ho | ho
    · exact (hos o ho).mono hc'.store
    · exact hos' o ho

theorem ends_flattenWithin (hi : Known p.store i.key) (hn : 2*w+1 ≤ n+2*p.chain.links.length) :
    Ends (flattenWithin n i) w p fun os s => ∀ o ∈ os, Known s o.key := by
  induction n generalizing p i with
  | zero =>
    have := hp.length_le
    omega
  | succ n ih =>
    obtain ⟨d,hd⟩ := hi.row
    cases he : d.erroneous with
    | true => exact .read (a := []) hp (gives_flattenWithin.mpr ⟨d,hd,.inl ⟨he,rfl,rfl⟩⟩) nofun
    | false =>
      cases hf : found p.marker d.flattening with
      | some os =>
        refine .read hp (gives_flattenWithin.mpr ⟨d,hd,.inr ⟨he,.inl ⟨hf,rfl⟩⟩⟩) fun o ho => ?_
        obtain ⟨y,hy,_,rfl⟩ := found_eq_some.mp hf
        refine hp.closed.known (t := .setDef) hd ?_
        simp only [mentions,SetDef.objects,hy,Option.elim_some,List.mem_cons,List.mem_append,List.mem_map]
        exact .inr (.inr ⟨o,ho,rfl⟩)
      | none =>
        have hp1 : Fit w (p.marked.entered (setLink i d)) :=
          hp.mark.add hd (show Linkable (t := .setDef) d from he) d.name d.location
        have hpre : p.chain.links <+: (p.chain.mark.add (setLink i d)).2.links :=
          Chain.links_prefix_add p.chain.mark _
        have hmarks : (p.chain.mark.add (setLink i d)).2.marks = p.chain.links.length::p.chain.marks := Chain.marks_add _ _
        have hsolid : [] ∉ p.chain.cycles → [] ∉ (p.chain.mark.add (setLink i d)).2.cycles :=
          (Evolves.enter (X := fun _ => False) (p := p.marked) (setLink i d)).cycles.solid
        cases hb : (p.chain.mark.add (setLink i d)).1 with
        | false =>
          obtain ⟨c,hc,hcl,hcm,hcc⟩ := Chain.rewind_ends hpre hmarks
          exact ⟨[],{p with chain := c},gives_flattenWithin.mpr
            ⟨d,hd,.inr ⟨he,.inr ⟨hf,.inr ⟨hb,rfl,c,hc,rfl⟩⟩⟩⟩,⟨rfl,rfl,.refl _,hcl,hcm,hcc ▸ hsolid⟩,hp.closed,hp.weight,nofun⟩
        | true =>
          obtain ⟨e,p1,hg1,hc1,hs1,hw1,_⟩ := ends_expand hp1 hd he
          have hq1 := hp1.next hc1 hs1 hw1 (Nat.le_refl _)
          obtain ⟨d1,hd1,_⟩ := hc1.store.rows .setDef i d hd
          have hes : ∀ x ∈ d1.elements, Known p1.store x.key := fun x hx => hs1.known (t := .setDef) hd1 (by
            simp only [mentions,List.mem_cons,List.mem_append,List.mem_map]
            exact .inr (.inl (.inr ⟨x,hx,rfl⟩)))
          have hlen : (p.chain.mark.add (setLink i d)).2.links.length = p.chain.links.length+1 := Chain.length_add hb
          have hl1 : p1.chain.links = (p.chain.mark.add (setLink i d)).2.links := hc1.links
          obtain ⟨os,p2,hg2,hc2,hs2,hw2,hos⟩ := ends_flattenElements (f := flattenWithin n) hq1 hes
            fun j q hl hq hj => ih hq hj (by rw [hl,hl1]; omega)
          obtain ⟨d2,hd2,_⟩ := hc2.store.rows .setDef i d1 hd1
          obtain ⟨c,hc,hcl,hcm,hcc⟩ := Chain.rewind_ends (c := p2.chain) (by rw [hc2.links,hc1.links]; exact hpre)
            ((hc2.marks.trans hc1.marks).trans hmarks)
          refine ⟨os,_,gives_flattenWithin.mpr ⟨d,hd,.inr ⟨he,.inr ⟨hf,.inl
            ⟨hb,e,p1,p2,d1,d2,c,hg1,hd1,hg2,hd2,hc,rfl⟩⟩⟩⟩,
            ⟨hc2.marker.trans hc1.marker,hc2.budget.trans hc1.budget,
              (hc1.store.trans hc2.store).trans (.put (t := .setDef) hd2 rfl),hcl,hcm,
              fun h => hcc ▸ hc2.cycles (hc1.cycles (hsolid h))⟩,
            hs2.put (t := .setDef) hd2 id fun k hmem => ?_,
            (Pass.weight_put_le (t := .setDef) (b := ({d2 with flattening := some ⟨os,p2.marker⟩} : SetDef)) hd2
              (Nat.le_refl _)).trans hw2,
            fun o ho => (hos o ho).put (t := .setDef) hd2⟩
          simp only [mentions,SetDef.objects,Option.elim_some,List.mem_cons,List.mem_append,List.mem_map] at hmem ⊢
          rcases hmem with h | (h | h) | ⟨o,ho,rfl⟩
          · exact .inl (.inl h)
          · exact .inl (.inr (.inl (.inl h)))
          · exact .inl (.inr (.inl (.inr h)))
          · exact .inr (hos o ho)

theorem ends_flatten (hi : Known p.store i.key) : Ends (flatten i) w p fun os s => ∀ o ∈ os, Known s o.key := by
  have := hp.ample
  exact ends_budget (ends_flattenWithin hp hi (by omega))

end Flattening

/-! Checks -/

def Goal.key : Goal → Nat
  | .objectClass i => i.key
  | .object i => i.key
  | .objectSet i => i.key

section Checks
variable {w n : Nat} {p : Pass}

theorem Fit.put {d : Nat} {t : EntityType} {i : Id t} {a b : Row t} (hp : Fit w p) (ha : p.store.get? i = some a)
    (hb : b.bare = a.bare) (hk : mentions b = mentions a) (hw : rowWeight p.marker b+d ≤ rowWeight p.marker a) :
    d ≤ w ∧ Fit (w-d) (p.put i b) ∧ Carries p (p.put i b) := by
  have hc : Carries p (p.put i b) := ⟨rfl,rfl,.put ha hb,rfl,rfl,id⟩
  have hput := Pass.weight_put (b := b) ha
  have hle := hp.weight
  refine ⟨by omega,hp.next hc (hp.closed.put ha (Whole.of_bare hb) fun k hk' => .inl (hk ▸ hk')) ?_ (Nat.sub_le _ _),hc⟩
  omega

theorem Ends.after (hc : Carries p q) (h : Ends m w q Whatever) (hg : ∀ a r, Gives m q a r → ∃ b, Gives m' p b r) :
    Ends m' w p Whatever := by
  obtain ⟨a,r,hm,hcr,hs,hw,_⟩ := h
  obtain ⟨b,hb⟩ := hg a r hm
  exact ⟨b,r,hb,hc.trans hcr,hs,hw,trivial⟩

theorem Ends.whenDue {t : EntityType} {i : Id t} {checked : Row t → Marker} {stamp : Row t → Marker → Row t}
    {rest : Row t → Checking Unit} (d : Row t → Nat) (hp : Fit w p) (hi : Known p.store i.key)
    (hb : ∀ r, (stamp r p.marker).bare = r.bare) (hk : ∀ r, mentions (stamp r p.marker) = mentions r)
    (hw : ∀ r, (checked r).before p.marker = true → rowWeight p.marker (stamp r p.marker)+d r ≤ rowWeight p.marker r)
    (hrest : ∀ r q, p.store.get? i = some r → q.store.get? i = some (stamp r p.marker) → d r ≤ w → Fit (w-d r) q →
      Carries p q → Ends (rest r) w q Whatever) : Ends (whenDue i checked stamp rest) w p Whatever := by
  obtain ⟨r,hr⟩ := hi.row
  cases hd : (checked r).before p.marker with
  | false => exact .read (a := ()) hp (gives_whenDue.mpr ⟨r,hr,.inl ⟨hd,rfl⟩⟩) trivial
  | true =>
    obtain ⟨hle,hq,hc⟩ := hp.put hr (hb r) (hk r) (hw r hd)
    exact .after hc (hrest r _ hr (Store.get?_put_self hr) hle hq hc) fun _ q hg =>
      ⟨(),gives_whenDue.mpr ⟨r,hr,.inr ⟨hd,hg⟩⟩⟩

theorem Ends.drop (h : Ends m w p Q) : Ends (do let _ ← m) w p Whatever := by
  obtain ⟨a,q,hg,hc,hs,hw,_⟩ := h
  exact ⟨(),q,gives_drop.mpr ⟨a,hg⟩,hc,hs,hw,trivial⟩

theorem ends_checkClassRef (hp : Fit w p) (hi : Known p.store i.key) : Ends (checkClassRef i) w p Whatever :=
  .whenDue (t := .classRef) (fun _ => 0) hp hi (fun _ => rfl) (fun _ => rfl) (fun _ _ => Nat.le_refl _)
    fun _ _ _ _ _ hq hc => (ends_resolveClass hq (e := .reference i) (hi.mono hc.store)).drop

theorem ends_checkObjectRef (hp : Fit w p) (hi : Known p.store i.key) : Ends (checkObjectRef i) w p Whatever :=
  .whenDue (t := .objectRef) (fun _ => 0) hp hi (fun _ => rfl) (fun _ => rfl) (fun _ _ => Nat.le_refl _)
    fun _ _ _ _ _ hq hc => (ends_resolveObject hq (o := .reference i) (hi.mono hc.store)).drop

theorem ends_checkSetRef (hp : Fit w p) (hi : Known p.store i.key) : Ends (checkSetRef i) w p Whatever :=
  .whenDue (t := .setRef) (fun _ => 0) hp hi (fun _ => rfl) (fun _ => rfl) (fun _ _ => Nat.le_refl _)
    fun _ _ _ _ _ hq hc => (ends_resolveSet hq (x := .reference i) (hi.mono hc.store)).drop

theorem ends_reportConflict (hp : Fit w p) : Ends (reportConflict c f l l') w p Whatever := by
  by_cases hc : c ∈ p.conflicts
  · exact .read (a := ()) hp (by simp [reportConflict,hc]) trivial
  · refine ⟨(),{p with conflicts := c::p.conflicts, reports := .error ⟨f,l,some l'⟩::p.reports},?_,
      ⟨rfl,rfl,.refl _,rfl,rfl,id⟩,hp.closed,hp.weight,trivial⟩
    simp [reportConflict,hc]

/-- What a setting holds is there. -/
def HeldKnown (s : Store) (v : SettingValue) : Prop := ∀ k ∈ v.key?, Known s k

def ClassKnown (s : Store) (e : ClassExpr) : Prop := Known s e.key

theorem heldKnown_type : HeldKnown s (.type t) ↔ Known s t.key := by simp [HeldKnown,SettingValue.key?]

theorem heldKnown_object : HeldKnown s (.object o) ↔ Known s o.key := by
  cases o <;> simp [HeldKnown,SettingValue.key?,ObjectExpr.key]

theorem heldKnown_set : HeldKnown s (.set x) ↔ Known s x.key := by
  cases x <;> simp [HeldKnown,SettingValue.key?,SetExpr.key]

theorem heldKnown_value : HeldKnown s (.value v) ↔ ∀ k ∈ v.key?, Known s k := by
  cases v <;> simp [HeldKnown,SettingValue.key?,ValueExpr.key?]

theorem heldKnown_element {e : Element} : HeldKnown s e.held ↔ Known s e.key := by
  cases e <;> simp [HeldKnown,SettingValue.key?,Element.held,Element.key]

theorem shape_known {x : FieldShape} (h : ∀ k ∈ x.key?, Known s k) : x.Meets HeldKnown ClassKnown s := by
  cases x <;> simp_all [FieldShape.key?,FieldShape.Meets,HeldKnown,ClassKnown,SettingValue.key?,ClassExpr.key]

/-- Checks of what is in the store come to an end, if the checks do that they call for. -/
theorem ending (w : Nat) : Checkable (fun s m Q => ∀ p, p.store = s → Fit w p → Ends m w p Q) Extends HeldKnown ClassKnown
    fun _ => True where
  refl := .refl
  trans h k := h.trans k
  held h hv k hk := (hv k hk).mono h
  ofClass h hk := Known.mono h hk
  done a p _ hp := .pure hp trivial
  bind hm hf := by
    rintro p rfl hp
    exact .bind hp (hm p rfl hp) fun a q hc hq ha => hf a _ hc.store ha q rfl hq
  restoringChain _ hm p hs hp := ends_restoringChain (hm _ hs hp.mark)
  tell _ _ _ p _ hp := (ends_reportError hp).whatever
  warn _ p _ hp := (ends_reportWarning hp).whatever
  conflict _ _ _ p _ hp := ends_reportConflict hp
  type ht _ hs hp := ends_resolveType hp (hs ▸ heldKnown_type.mp ht)
  value hv _ hs hp := ends_resolveValue hp (hs ▸ heldKnown_value.mp hv)
  objectClass he _ hs hp := (ends_resolveClass hp (hs ▸ he)).whatever
  object ho _ hs hp := (ends_resolveObject hp (hs ▸ heldKnown_object.mp ho)).mono fun _ _ _ hi => heldKnown_object.mpr hi
  objectRef hi _ hs hp := ends_checkObjectRef hp (hs ▸ heldKnown_object.mp hi)
  setRef hi _ hs hp := ends_checkSetRef hp (hs ▸ heldKnown_set.mp hi)
  flatten hi _ hs hp := (ends_flatten hp (hs ▸ heldKnown_set.mp hi)).mono fun _ _ _ hos o ho => heldKnown_object.mpr (hos o ho)
  loadClass hi _ hs hp := (ends_load hp (hs ▸ hi)).whatever
  loadObject hi p hs hp := by
    refine (ends_load hp (hs ▸ heldKnown_object.mp hi)).mono fun o q _ ⟨hq,ho⟩ => ⟨trivial,fun st hst v hv k hk => ?_⟩
    rw [hq] at ho ⊢
    exact hp.closed.known (t := .objectDef) ho
      (List.mem_cons_of_mem _ (List.mem_append_right _ (List.mem_filterMap.mpr ⟨st,hst,hv ▸ hk⟩)))
  loadSet hi _ hs hp := (ends_load hp (hs ▸ heldKnown_set.mp hi)).mono fun _ _ _ _ => trivial

theorem goal_known (h : Goal.Meets HeldKnown ClassKnown s g) : Known s g.key := by
  cases g with
  | objectClass i => exact h
  | object i => exact heldKnown_object.mp h
  | objectSet i => exact heldKnown_set.mp h

/-- Checks come to an end wherever there is less than `n` to go through. -/
structure ChecksEnd (n : Nat) (go : Goal → Checking Unit) : Prop where
  keeps : ∀ g, Keeps False (go g)
  ends : ∀ {v : Nat} {q : Pass} (g : Goal), v < n → Fit v q → Known q.store g.key → Ends (go g) v q Whatever

theorem ChecksEnd.meets (h : ChecksEnd n f) (hn : w < n) (s : Store) (g : Goal) (hg : g.Meets HeldKnown ClassKnown s) (p : Pass)
    (hs : p.store = s) (hp : Fit w p) : Ends (f g) w p Whatever := h.ends g hn hp (hs ▸ goal_known hg)

section Go
variable {go : Goal → Checking Unit} (hgo : ChecksEnd n go) (hn : w < n)

include hgo hn

/-! Classes -/

omit hgo hn in
theorem mentions_field (hf : f ∈ c.fields) (hk : k ∈ f.keys) : k ∈ mentions (t := .classDef) c :=
  List.mem_flatMap.mpr ⟨f,hf,hk⟩

omit hgo hn in
theorem ends_defaultSetting (hp : Fit w p) (hc : p.store.get? i = some c) (hf : c.fields[j]? = some f)
    (hx : f.declaredDefault = some x) : Ends (defaultSetting i j f x) w p fun st s => ∀ k ∈ st.value.key?, Known s k := by
  have hmem := List.mem_of_getElem? hf
  have hfk : ∀ k ∈ f.keys, Known p.store k := fun k hk => hp.closed.known (t := .classDef) hc (mentions_field hmem hk)
  cases hd : f.defaultSetting with
  | some st =>
    refine .read (a := st) hp (by simp [defaultSetting,hd]) fun k hk => hfk k ?_
    simp [Field.keys,hd,Option.mem_def.mp hk]
  | none =>
    obtain ⟨m,p1,hm,hext1,hs1,_,hmid⟩ := builds_scopeOf hp.closed (hfk f.scope.key (by simp [Field.keys]))
    obtain ⟨rfl,_⟩ := hm.scopeOf
    have hmk : Known p1.store m.id.key := hmid ▸ hfk f.scope.key (by simp [Field.keys])
    have hshape : ∀ k ∈ f.shape.key?, Known p1.store k := fun k hk => hfk k (by simp [Field.keys,Option.mem_def.mp hk])
    obtain ⟨st,p2,hst,hext,hs2,hw2,hk⟩ := builds_newSetting hs1 hshape hmk s!"&{f.name.display} DEFAULT" f.name x
    obtain ⟨c2,hc2,_⟩ := hext.rows .classDef i c hc
    have hplain := hst.newSetting.1
    have hgives : Gives (defaultSetting i j f x) p1 st (p2.put i (c2.withDefault j st)) := by
      unfold defaultSetting
      simp only [hd,saveDefault,gives_bind,gives_load,gives_save,gives_pure]
      exact ⟨m,p1,hm,st,p2,hst,(),_,⟨c2,p2,⟨hc2,rfl⟩,rfl⟩,rfl,rfl⟩
    have hfields : c2.fields = c.fields := hplain.parts .classDef i c c2 hc hc2
    refine ⟨st,_,hgives,(Carries.of_plain hplain).trans ⟨rfl,rfl,.put (t := .classDef) hc2 (c2.withDefault_bare j st),rfl,rfl,id⟩,
      hs2.put (t := .classDef) hc2 id fun k hmem => ?_,?_,fun k hk' => (hk k hk').put (t := .classDef) hc2⟩
    · obtain ⟨g,hg,hgk⟩ := List.mem_flatMap.mp hmem
      obtain ⟨l,hl⟩ := List.mem_iff_getElem?.mp hg
      simp only [ClassDef.withDefault,List.getElem?_modify] at hl
      obtain ⟨f2,hf2,rfl⟩ := Option.map_eq_some_iff.mp hl
      have hin := List.mem_of_getElem? hf2
      split at hgk
      · simp only [Field.keys,List.mem_cons,List.mem_append,Option.mem_toList,Option.bind_some] at hgk
        rcases hgk with h | h | h
        · exact .inl (mentions_field hin (by simp [Field.keys,h]))
        · exact .inl (mentions_field hin (by simp [Field.keys,h]))
        · exact .inr (hk k h)
      · exact .inl (mentions_field hin hgk)
    · have hput := Pass.weight_defaulted st hc2 (hfields ▸ hf) hd hx
      have hle := hp.weight
      omega

theorem ends_checkField (hp : Fit w p) (hc : p.store.get? i = some c)
    (hj : j < c.fields.length) : Ends (checkField go i j) w p Whatever := by
  rw [checkField_eq]
  have hf : c.fields[j]? = some c.fields[j] := List.getElem?_eq_getElem hj
  generalize c.fields[j] = f at hf
  have hfk : ∀ k ∈ f.shape.key?, Known p.store k := fun k hk => hp.closed.known (t := .classDef) hc
    (mentions_field (List.mem_of_getElem? hf) (by simp [Field.keys,Option.mem_def.mp hk]))
  refine .bind hp (.read (Q := fun g s => s = p.store ∧ g = f) hp (gives_loadField.mpr ⟨rfl,c,hc,hf⟩) ⟨rfl,rfl⟩) ?_
  rintro g q hcq hq ⟨hs,rfl⟩
  have hcs : q.store.get? i = some c := hs ▸ hc
  obtain ⟨u,q1,hg1,hc1,hs1,hw1,_⟩ := (ending w).checkShape (shape_known fun k hk => (hfk k hk).mono hcq.store) trivial q rfl hq
  -- resolving names builds no default, so that the field is still as it was read
  obtain ⟨c1,hc1',_⟩ := hc1.store.rows .classDef i c hcs
  have hf1 : c1.fields[j]? = some g := ((keeps_checkShape g _ _ _ hg1).quiet trivial).fields i c c1 hcs hc1' ▸ hf
  have hq1 := hq.next hc1 hs1 hw1 (Nat.le_refl _)
  suffices h : Ends (if g.isErroneous then Pure.pure () else checkDefault go i j g) w q1 Whatever by
    obtain ⟨v,q2,hg2,hc2,h⟩ := h
    exact ⟨v,q2,gives_bind.mpr ⟨u,q1,hg1,hg2⟩,hc1.trans hc2,h⟩
  split
  · exact .pure hq1 trivial
  · unfold checkDefault
    cases hx : g.declaredDefault with
    | none => exact .pure hq1 trivial
    | some x =>
      refine .bind hq1 (ends_defaultSetting hq1 hc1' hf1 hx) fun st q2 hc2 hq2 hst => ?_
      have hshape := shape_known fun k hk => (hfk k hk).mono ((hcq.trans hc1).trans hc2).store
      exact (ending w).checkSetting hgo.keeps (hgo.meets hn) (fun _ => hst) hshape trivial q2 rfl hq2

theorem ends_checkFields (hp : Fit w p) (hi : p.store.get? i = some d) (hd : d.fields = c.fields) :
    Ends (checkFields go i c) w p Whatever := by
  rw [checkFields_eq]
  refine .bind hp ((ending w).reportDuplicates _ _ (fun _ _ => ⟨trivial,trivial⟩) p rfl hp) fun _ q hc hq _ =>
    .forM hq fun j hj q1 hc1 hq1 => ?_
  obtain ⟨c1,hi1,hb⟩ := (hc.trans hc1).store.rows .classDef i d hi
  have hlen : c1.fields.length = c.fields.length := by
    simpa [hd] using congrArg List.length (ClassDef.bare_eq_iff.mp hb).2.2.2.2
  exact ends_restoringChain (ends_checkField hgo hn hq1.mark hi1 (hlen ▸ List.mem_range.mp hj))

omit hn in
theorem ends_checkClass (hp : Fit w p) (hi : Known p.store i.key) (hw : w < n+1) : Ends (checkClass go i) w p Whatever := by
  refine .whenDue (t := .classDef) (fun c => (!c.erroneous).toNat) hp hi (fun _ => rfl) (fun _ => rfl) (fun c hd => ?_)
    fun c q _ hrow hle hq _ => ?_
  · cases he : c.erroneous <;> simp only [rowWeight,classWeight,ClassDef.visited,ClassDef.reindex,he,dueWeight,hd,Marker.before_irrefl] <;> grind
  · cases he : c.erroneous with
    | true => exact .pure (by simpa [he] using hq) trivial
    | false =>
      simp only [he,Bool.not_false,Bool.toNat_true] at hle hq
      exact (ends_checkFields (c := c) hgo (by omega) hq hrow rfl).weaken (Nat.sub_le _ _)

/-! Objects -/

omit hgo hn in
theorem Fit.grow (hp : Fit v p) (hv : v ≤ w) (hw : 2*w+2 ≤ p.budget) : Fit w p :=
  ⟨hp.closed,hp.apart,hp.linked,hp.weight.trans hv,hw⟩

/-- The settings of a body count for no more than the body, which the stamp of the object took away. -/
theorem ends_checkBody (hp : Fit v p) (hi : Known p.store i.key) (hm : Known p.store m.id.key) (hc : Known p.store ci.key)
    (hv : v+(body.settings.map fun d => d.payload.weight).sum ≤ w)
    (hw : 2*w+2 ≤ p.budget) : Ends (checkBody go i m ci body) w p Whatever := by
  obtain ⟨o,ho⟩ := hi.row
  obtain ⟨c,hc⟩ := hc.row
  have hfields : ∀ f ∈ c.fields, ∀ k ∈ f.shape.key?, Known p.store k := fun f hf k hk =>
    hp.closed.known (t := .classDef) hc (mentions_field hf (by simp [Field.keys,Option.mem_def.mp hk]))
  obtain ⟨x,p1,hx,hext,hs1,hw1,hk⟩ := builds_partitionBody hp.closed hm hfields o.name (List.forall_mem_nil _) body.settings
  have hplain := hx.partitionBody.1
  obtain ⟨o',ho',_⟩ := hext.rows .objectDef i o ho
  have hc1 : Carries p (p1.put i {o' with settings := x.settings}) :=
    (Carries.of_plain hplain).trans ⟨rfl,rfl,.put (t := .objectDef) ho' rfl,rfl,rfl,id⟩
  have hclosed : Closed (p1.store.put i {o' with settings := x.settings}) := by
    refine hs1.put (t := .objectDef) ho' id fun k hmem => ?_
    simp only [mentions,List.mem_cons,List.mem_append,List.mem_filterMap] at hmem ⊢
    rcases hmem with h | h | ⟨st,hst,h⟩
    · exact .inl (.inl h)
    · exact .inl (.inr (.inl h))
    · exact .inr (hk st hst k h)
  have hweight : Pass.weight (p1.put i {o' with settings := x.settings}) ≤ w :=
    (Pass.weight_put_le (t := .objectDef) (b := ({o' with settings := x.settings} : ObjectDef)) ho'
      (Nat.le_refl _)).trans (by have := hp.weight; omega)
  have hq : Fit w (p1.put i {o' with settings := x.settings}) :=
    (hp.grow (Nat.le_trans (Nat.le_add_right _ _) hv) hw).next hc1 hclosed hweight (Nat.le_refl _)
  have hset : ∀ st ∈ x.settings, ∀ k ∈ st.value.key?, Known (p1.store.put i {o' with settings := x.settings}) k :=
    fun st hst k hk' => (hk st hst k hk').put (t := .objectDef) ho'
  have hrest : Ends (do
      x.unknown.forM (reportUnknown m c)
      x.repeated.forM (reportRepeated m)
      (firstFields c).forM (checkObjectField go o x.settings)) w
      (p1.put i {o' with settings := x.settings}) Whatever := by
    refine .bind hq (.forM hq fun _ _ _ _ hq => (ends_reportError hq).whatever) fun _ q2 hc2 hq2 _ => ?_
    refine .bind hq2 (.forM hq2 fun _ _ _ _ hq => (ends_reportError hq).whatever) fun _ q3 hc3 hq3 _ => ?_
    refine .forM hq3 fun f hf q4 hc4 hq4 => ?_
    have hall := (hc2.trans hc3).trans hc4
    refine (ending w).checkObjectField hgo.keeps (hgo.meets hn) trivial
      (fun st hst => ⟨fun k hk' => (hset st hst k hk').mono hall.store,trivial⟩) (shape_known fun k hk' => ?_) q4 rfl hq4
    have hmem : f ∈ c.fields := by
      obtain ⟨⟨g,j⟩,hy,hyf⟩ := List.mem_filterMap.mp hf
      dsimp only at hyf
      split at hyf
      · exact Option.some.inj hyf ▸ (List.mem_of_getElem? (List.mem_zipIdx_iff_getElem?.mp hy))
      · simp at hyf
    exact (hfields f hmem k hk').mono (hc1.trans hall).store
  refine .after hc1 hrest fun _ r hg => ⟨(),?_⟩
  simp only [gives_bind] at hg
  obtain ⟨_,p2,h2,_,p3,h3,h4⟩ := hg
  exact gives_checkBody.mpr ⟨o,c,x,p1,o',p2,p3,ho,hc,hx,ho',h2,h3,h4⟩

theorem ends_checkBlock (hp : Fit v p) (hi : Known p.store i.key) (hc : Known p.store c.key) (hm : o.module.isSome ∧ o.block.isSome)
    (hk : ∀ j ∈ o.module, Known p.store j.key) (hv : v+blockWeight o.block ≤ w)
    (hw : 2*w+2 ≤ p.budget) : Ends (checkBlock go i o c) w p Whatever := by
  have hpw := hp.grow (Nat.le_trans (Nat.le_add_right _ _) hv) hw
  obtain ⟨j,hj⟩ := Option.isSome_iff_exists.mp hm.1
  obtain ⟨b,hb⟩ := Option.isSome_iff_exists.mp hm.2
  obtain ⟨m,q,hg,_,hs,_,hmid⟩ := builds_scopeOf hp.closed (hk j hj)
  obtain ⟨rfl,_⟩ := hg.scopeOf
  simp only [checkBlock,hb,hj,orStuck,pure_bind]
  refine .step hg ?_
  split
  · exact (ends_reportError hpw).whatever
  · rename_i body hbody
    have hlen := Notation.parseObject_weight hbody
    rw [hb] at hv
    simp only [blockWeight,Option.elim_some] at hv
    exact ends_checkBody hgo hn hp hi (hmid ▸ hk j hj) hc (by omega) hw

omit hn in
theorem ends_checkObject (hp : Fit w p) (hi : Known p.store i.key) (hw : w < n+1) : Ends (checkObject go i) w p Whatever := by
  refine .whenDue (t := .objectDef) (fun o => if o.erroneous then 0 else 1+blockWeight o.block) hp hi (fun _ => rfl)
    (fun _ => rfl) (fun o hd => ?_) fun o q ho _ hle hq hcq => ?_
  · cases he : o.erroneous <;> simp [rowWeight,objectWeight,he,dueWeight,hd,Marker.before_irrefl]
  · cases he : o.erroneous with
    | true => exact .pure (by simpa [he] using hq) trivial
    | false =>
      simp only [he,Bool.false_eq_true,if_false] at hle hq
      obtain ⟨hwhole,hkeys⟩ := hp.closed.rows .objectDef i o ho
      have hmod : ∀ j ∈ o.module, Known p.store j.key := fun j hj => hkeys _ (by simp [mentions,Option.mem_def.mp hj])
      obtain ⟨c,p1,hg1,hc1,hs1,hw1,hk1⟩ := ends_governObject hq (hi.mono hcq.store) fun e q _ hq he => ends_resolveClass hq he
      have hq1 := hq.next hc1 hs1 hw1 (Nat.le_refl _)
      obtain ⟨b,p2,hg2,hc2,hs2,hw2,_⟩ := (ending _).checkGoverning (hgo.meets (by omega)) hk1 p1 rfl hq1
      have hq2 := hq1.next hc2 hs2 hw2 (Nat.le_refl _)
      have hall := (hcq.trans hc1).trans hc2
      have hbudget : 2*(w-1)+2 ≤ p2.budget := by
        have := hp.ample
        rw [hall.budget]
        omega
      have hrest : Ends (if b then checkBlock go i o c else Pure.pure ()) (w-1) p2 Whatever := by
        split
        · exact ends_checkBlock hgo (by omega) hq2 (hi.mono hall.store) (hk1.mono hc2.store) (hwhole he)
            (fun j hj => (hmod j hj).mono hall.store) (by omega) hbudget
        · exact .pure (hq2.grow (by omega) hbudget) trivial
      exact .after (hc1.trans hc2) (hrest.weaken (Nat.sub_le _ _)) fun _ r hg =>
        ⟨(),gives_governed.mpr ⟨c,p1,b,p2,hg1,hg2,hg⟩⟩

/-! Object sets -/

theorem ends_checkExpansion (hp : Fit w p) (hd : p.store.get? i = some d') (he : d'.erroneous = false)
    (hj : d.module = some j) (hjk : Known p.store j.key) (hc : Known p.store c.key) :
    Ends (checkExpansion go i d c) w p Whatever := by
  refine .bind hp (ends_expand hp hd he) fun e q hcq hq hes => ?_
  cases e with
  | error x =>
    obtain ⟨m,r,hg,_⟩ := builds_scopeOf hq.closed (hjk.mono hcq.store)
    obtain ⟨rfl,_⟩ := hg.scopeOf
    simp only [hj]
    exact .step hg (ends_reportError hq).whatever
  | ok x =>
    have hi : Known p.store i.key := .of_row hd
    exact (ending w).checkElements hgo.keeps (hgo.meets hn) (heldKnown_set.mpr (hi.mono hcq.store)) (Known.mono hcq.store hc)
      (fun y hy => heldKnown_element.mpr (hes y hy)) q rfl hq

omit hn in
theorem ends_checkSet (hp : Fit w p) (hi : Known p.store i.key) (hw : w < n+1) : Ends (checkSet go i) w p Whatever := by
  refine .whenDue (t := .setDef) (fun d => (!d.erroneous).toNat) hp hi (fun _ => rfl) (fun _ => rfl) (fun d hd => ?_)
    fun d q hd hrow hle hq hcq => ?_
  · cases he : d.erroneous <;> simp only [rowWeight,setWeight,he,dueWeight,hd,Marker.before_irrefl] <;> grind
  · cases he : d.erroneous with
    | true => exact .pure (by simpa [he] using hq) trivial
    | false =>
      simp only [he,Bool.not_false,Bool.toNat_true] at hle hq
      obtain ⟨hwhole,hkeys⟩ := hp.closed.rows .setDef i d hd
      obtain ⟨j,hj⟩ := Option.isSome_iff_exists.mp (hwhole he).1
      refine .weaken (.bind hq (ends_governSet hq (hi.mono hcq.store)) fun c p1 hc1 hq1 hk1 => ?_) (Nat.sub_le w 1)
      refine .bind hq1 ((ending _).checkGoverning (hgo.meets (by omega)) hk1 p1 rfl hq1) fun b p2 hc2 hq2 _ => ?_
      have hall := (hcq.trans hc1).trans hc2
      obtain ⟨d2,hd2,hb2⟩ := hall.store.rows .setDef i d hd
      split
      · exact ends_checkExpansion hgo (by omega) hq2 hd2 ((SetDef.bare_eq_iff.mp hb2).2.2.1.trans he) hj
          ((hkeys _ (by simp [mentions,hj])).mono hall.store) (hk1.mono hc2.store)
      · exact .pure hq2 trivial

end Go

theorem ends_checkWithin (n : Nat) : ∀ {w : Nat} {p : Pass} (g : Goal), w < n → Fit w p → Known p.store g.key →
    Ends (checkWithin n g) w p Whatever := by
  induction n with
  | zero => nofun
  | succ n ih =>
    intro w p g hw hp hg
    have hgo : ChecksEnd n (checkWithin n) := ⟨keeps_checkWithin n,ih⟩
    cases g with
    | objectClass i => exact ends_checkClass hgo hp hg hw
    | object i => exact ends_checkObject hgo hp hg hw
    | objectSet i => exact ends_checkSet hgo hp hg hw

theorem ends_check (hp : Fit w p) (hg : Known p.store g.key) : Ends (check g) w p Whatever := by
  have := hp.ample
  exact ends_budget (ends_checkWithin _ g (by omega) hp hg)

end Checks

/-! Modules -/

section Modules
variable {w : Nat} {p : Pass} (hp : Fit w p)
include hp

theorem ends_checkDeclared (ha : ∀ k ∈ a.declared.keys, Known p.store k) :
    Ends (checkDeclared a) w p Whatever := by
  unfold checkDeclared
  match hd : a.declared with
  | .malformed => exact (ends_reportError hp).whatever
  | .objectClass (.definition i) | .object (.definition i) | .objectSet (.definition i) =>
    exact ends_check hp (ha i.key (by simp [hd,Declared.keys,ClassExpr.key,ObjectExpr.key,SetExpr.key]))
  | .objectClass (.reference i) => exact ends_checkClassRef hp (ha _ (by simp [hd,Declared.keys,ClassExpr.key]))
  | .object (.reference i) => exact ends_checkObjectRef hp (ha _ (by simp [hd,Declared.keys,ObjectExpr.key]))
  | .objectSet (.reference i) => exact ends_checkSetRef hp (ha _ (by simp [hd,Declared.keys,SetExpr.key]))
  | .type t =>
    exact .bind hp (ends_resolveType hp (ha _ (by simp [hd,Declared.keys]))) fun _ _ _ hq _ => .pure hq trivial
  | .value t v =>
    have hv : ∀ k ∈ v.key?, Known p.store k := fun k hk => ha k (by simp [hd,Declared.keys,Option.mem_def.mp hk])
    exact (ending w).checkValue (heldKnown_value.mpr hv) (heldKnown_type.mpr (ha _ (by simp [hd,Declared.keys]))) trivial p rfl hp

/-- Nothing is under resolution, nothing is left to go back to, and every cycle that was found has a link. -/
structure Bare (p : Pass) : Prop where
  links : p.chain.links = []
  marks : p.chain.marks = []
  cycles : [] ∉ p.chain.cycles

omit hp in
theorem Bare.carries (hb : Bare p) (hc : Carries p q) : Bare q :=
  ⟨hc.links.trans hb.links,hc.marks.trans hb.marks,hc.cycles hb.cycles⟩

theorem ends_checkAssignment (hb : Bare p) (hm : p.store.get? i = some m) (hj : j < m.assignments.length) :
    Ends (checkAssignment i j) w p Whatever := by
  have ha : m.assignments[j]? = some m.assignments[j] := List.getElem?_eq_getElem hj
  generalize m.assignments[j] = a at ha
  have hbare := stampAssignment_bare m j p.marker
  obtain ⟨_,hq,hc⟩ := hp.put (t := .module) (d := 0) (b := stampAssignment m j p.marker) hm hbare
    (mentions_of_bare hbare) (Nat.le_refl _)
  obtain ⟨u,q,hg,hcq,hs,hw,_⟩ := ends_checkDeclared (a := a) hq fun k hk =>
    (hp.closed.known (t := .module) hm (List.mem_flatMap.mpr ⟨a,List.mem_of_getElem? ha,hk⟩)).mono hc.store
  have hall := hc.trans hcq
  refine ⟨(),q.finish,gives_checkAssignment.mpr ⟨m,a,q,hm,ha,hg,hall.cycles hb.cycles,rfl⟩,
    ⟨hall.marker,hall.budget,hall.store,?_,?_,fun _ => List.not_mem_nil⟩,hs,hw,trivial⟩
  · rw [hb.links]
    rfl
  · rw [hb.marks]
    rfl

theorem ends_imported? : Ends (imported? x) w p Whatever := by
  cases hn : p.store.moduleNamed? x.source with
  | none => exact .read (a := none) hp (by simp [imported?,hn]) trivial
  | some i =>
    obtain ⟨m,hm⟩ := (hp.closed.named _ i hn).row
    exact .read (a := some (m.find? x.name)) hp (by simp [imported?,hn,hm]) trivial

theorem ends_error : Ends (reportError f l o) w p Whatever :=
  (ends_reportError hp).whatever

theorem ends_warning : Ends (reportWarning c l) w p Whatever :=
  (ends_reportWarning hp).whatever

omit hp in
theorem Ends.ite [Decidable c] (h : Ends m w p Q) (h' : Ends m' w p Q) : Ends (if c then m else m') w p Q := by
  split
  · exact h
  · exact h'

theorem ends_checkName (ha : a ∈ m.assignments) : Ends (checkName m a j) w p Whatever := by
  have warn : ∀ {q : Pass}, Fit w q → Ends (if (BuiltinType.ofName? a.identifier.asnName).isSome then
      reportWarning (.shadowsBuiltin a.identifier.display) a.location else pure ()) w q Whatever :=
    fun hq => .ite (ends_warning hq) (.pure hq trivial)
  have hfound : (m.find? a.identifier).isSome := List.find?_isSome.mpr ⟨a,ha,beq_self_eq_true _⟩
  obtain ⟨first,hfirst⟩ := Option.isSome_iff_exists.mp hfound
  refine .bind hp (ends_orStuck hp hfirst) fun _ q _ hq _ => ?_
  exact .ite (.bind hq (ends_error hq) fun _ _ _ hq _ => warn hq) (warn hq)

theorem ends_checkImport : Ends (checkImport m x) w p Whatever := by
  have conflict : ∀ {q : Pass}, Fit w q → Ends (if (m.find? x.name).isSome then
      reportError (.importConflict x.name.display) (m.locate x.span) none else pure ()) w q Whatever :=
    fun hq => .ite (ends_error hq) (.pure hq trivial)
  refine .bind hp (ends_imported? hp) fun found q _ hq _ => ?_
  cases found with
  | none => exact ends_error hq
  | some found => exact .ite (.bind hq (ends_error hq) fun _ _ _ hq _ => conflict hq) (conflict hq)

theorem ends_checkUse : Ends (checkUse m x) w p Whatever := by
  refine .bind hp (ends_imported? hp) fun found q _ hq _ => ?_
  split
  · refine .bind hq (.read (Q := Whatever) hq (gives_isDue.mpr ⟨rfl,rfl⟩) trivial) fun _ q1 _ hq1 _ => ?_
    exact .ite (ends_warning hq1) (.pure hq1 trivial)
  · exact .pure hq trivial

theorem ends_checkModule (hb : Bare p) (hi : Known p.store i.key) : Ends (checkModule i) w p Whatever := by
  refine .bind hp (ends_load hp hi) fun m q hc hq hm => ?_
  refine .bind hq (.forM hq fun x hx q1 _ hq1 => ends_checkName hq1 (List.mem_of_getElem? (List.mem_zipIdx_iff_getElem?.mp hx))) fun _ q1 hc1 hq1 _ => ?_
  refine .bind hq1 (.forM hq1 fun x _ q2 _ hq2 => ends_checkImport hq2) fun _ q2 hc2 hq2 _ => ?_
  have hc12 := hc1.trans hc2
  refine .bind hq2 (.forM hq2 fun j hj q3 hc3 hq3 => ?_) fun _ q3 hc3 hq3 _ => ?_
  · obtain ⟨m3,hm3,hb3⟩ := (hc12.trans hc3).store.rows .module i m hm.2
    have hlen : m3.assignments.length = m.assignments.length := by
      simpa using congrArg List.length (Module.bare_eq_iff.mp hb3).2.2.1
    have hall := (hc.trans hc12).trans hc3
    exact ends_checkAssignment hq3 (hb.carries hall) hm3 (hlen ▸ List.mem_range.mp hj)
  · refine .bind hq3 (ends_load hq3 (hi.mono ((hc.trans hc12).trans hc3).store)) fun m4 q4 hc4 hq4 _ => ?_
    exact .forM hq4 fun x _ q5 _ hq5 => ends_checkUse hq5

end Modules

end InfoObject.Check

/-! Projects -/

namespace InfoObject.Project
open Model Check

/-- A project in whose tables every number leads to an entity, and where a module of the same name stands for every
duplicate. -/
structure Steady (p : Project) : Prop where
  closed : Closed p.store
  sane : Sane p.store
  duplicates : ∀ i ∈ p.duplicates, ∃ m, p.store.get? i = some m ∧ ∃ j, p.store.moduleNamed? m.name = some j

section Steady
variable {p : Project}

theorem Steady.kept (h : Steady p) : ∀ i ∈ p.store.kept, Known p.store i.key := fun i hi => by
  obtain ⟨m,hm⟩ := h.sane.kept i hi
  exact .of_row hm

theorem Known.keep (h : Known s k) : Known {s with kept := l} k :=
  h.mono (.keep s l)

theorem closed_keep {s : Store} {l : Shelf} (h : Closed s) (hl : Arranged s l) : Closed {s with kept := l} where
  rows t i a ha := by
    obtain ⟨hw,hk⟩ := h.rows t i a (by cases t <;> exact ha)
    exact ⟨hw,fun k hk' => Known.keep (hk k hk')⟩
  named name i hi := by
    obtain ⟨-,m,hm,-⟩ := (hl.named name i).mp hi
    exact Known.keep (.of_row hm)

theorem Steady.new (b : Bool) : Steady (.new b) :=
  ⟨⟨fun _ i a ha => absurd ha (Store.get?_empty i a),nofun⟩,.empty,nofun⟩

/-- A name that led to a module leads to one afterwards. -/
theorem Placed.named {s : Store} {l : Shelf} (h : Placed s i m file ds l ds' k) (hn : s.moduleNamed? name = some j) :
    ∃ j, l.byName.lookup name = some j := by
  have hentered : ∃ j, (s.kept.enter m.name i).lookup name = some j := by
    rw [lookup_enter]
    split
    · exact ⟨i,rfl⟩
    · exact ⟨j,hn⟩
  cases h with
  | appended => exact hentered
  | replaced _ _ _ hl =>
    obtain ⟨_,_,_,rfl⟩ := replace?_eq_some hl
    exact hentered
  | duplicate => exact ⟨j,hn⟩

theorem Steady.add (h : Steady p) (hq : p.addModule node = .ok (k,q)) : Steady q := by
  have hsane := sane_addModule h.sane hq
  obtain ⟨i,s,m,l,ds,ha⟩ := addModule_adds hq
  obtain ⟨hload,hclosed,_⟩ := Makes.newModule ha.makes
  rw [ha.result] at hsane ⊢
  have harranged : Arranged s l := ⟨hsane.shelf.rows,hsane.shelf.distinct,hsane.shelf.named⟩
  refine ⟨closed_keep (hclosed h.closed) harranged,hsane,fun j hj => ?_⟩
  have hold : ∀ j ∈ p.duplicates, ∃ m : Module, s.get? j = some m ∧ ∃ j, l.byName.lookup m.name = some j := fun j hj => by
    obtain ⟨m,hm,j',hj'⟩ := h.duplicates j hj
    refine ⟨m,hload.gained.old _ _ _ hm,ha.placed.named (j := j') ?_⟩
    rw [Store.moduleNamed?,hload.gained.kept]
    exact hj'
  cases ha.placed with
  | appended => exact hold j hj
  | replaced => exact hold j hj
  | duplicate hnamed =>
    rcases List.mem_append.mp hj with hj | hj
    · exact hold j hj
    · obtain rfl := List.mem_singleton.mp hj
      exact ⟨m,ha.row,_,hnamed⟩

theorem Steady.fit (h : Steady p) : Fit p.startPass.weight p.startPass :=
  ⟨h.closed,List.nodup_nil,nofun,Nat.le_refl _,storeWeight_le_budget _ _⟩

theorem Steady.pass (h : Steady p) :
    ∃ q, Gives (checkAll p.duplicates) p.startPass () q ∧ Extends p.store q.store ∧ Closed q.store := by
  have hp := h.fit
  have hduplicates : Ends (p.duplicates.forM reportDuplicate) p.startPass.weight p.startPass fun _ s => s = p.store := by
    refine .forM_keeping hp rfl fun i hi q hc hq hs => ?_
    obtain ⟨m,hm,j,hj⟩ := h.duplicates i hi
    obtain ⟨-,first,hfirst,-⟩ := (h.sane.shelf.named _ j).mp hj
    rw [← hs] at hm hj hfirst
    have hg : ∃ d, Gives (reportDuplicate i) q () {q with reports := d::q.reports} := by
      simp only [reportDuplicate,gives_bind,gives_load,gives_get,gives_orStuck,gives_reportError]
      exact ⟨_,m,q,⟨hm,rfl⟩,q,q,⟨rfl,rfl⟩,j,q,⟨hj,rfl⟩,first,q,⟨hfirst,rfl⟩,rfl⟩
    obtain ⟨d,hg⟩ := hg
    exact ⟨(),_,hg,⟨rfl,rfl,.refl _,rfl,rfl,id⟩,hq.closed,hq.weight,hs⟩
  obtain ⟨_,p1,hg1,hc1,hs1,hw1,hstore⟩ := hduplicates
  have hp1 := hp.next hc1 hs1 hw1 (Nat.le_refl _)
  have hmodules : Ends (p1.store.kept.modules.forM checkModule) p.startPass.weight p1 Whatever := by
    refine .forM hp1 fun i hi q hc hq => ?_
    have hall := hc1.trans hc
    exact ends_checkModule hq (.carries ⟨rfl,rfl,List.not_mem_nil⟩ hall) ((h.kept i (hstore ▸ hi)).mono hall.store)
  obtain ⟨_,q,hg,hc,hs,_⟩ := hmodules
  exact ⟨q,gives_bind.mpr ⟨_,p1,hg1,gives_bind.mpr ⟨p1,p1,gives_get.mpr ⟨rfl,rfl⟩,hg⟩⟩,(hc1.trans hc).store,hs⟩

theorem Steady.runCheck (h : Steady p) : ∃ c, p.runCheck = .ok c ∧ Steady c.project := by
  obtain ⟨q,hg,he,hs⟩ := h.pass
  have t := hg.checkAll_tour p.startPass_idle
  refine ⟨p.checkedBy q,runCheck_eq_ok.mpr ⟨q,hg,rfl⟩,hs,t.sane h.sane,fun i hi => ?_⟩
  obtain ⟨m,hm,j,hj⟩ := h.duplicates i hi
  obtain ⟨m',hm',hb⟩ := he.rows .module i m hm
  refine ⟨m',hm',j,?_⟩
  rw [(Module.bare_eq_iff.mp hb).2.1]
  exact (congrArg (fun l : Shelf => l.byName.lookup m.name) t.kept).trans hj

theorem Follows.steady (h : Follows c p r) (hs : Steady c.project) : Steady p :=
  ⟨h.store ▸ hs.closed,h.store ▸ hs.sane,h.store ▸ h.duplicates ▸ hs.duplicates⟩

theorem Steady.check (h : Steady p) (e : Option (Emitter σ)) (st : σ) : ∃ c st', p.check e st = .ok (c,st') ∧
    Steady c.project := by
  obtain ⟨c,hrun,hc⟩ := h.runCheck
  have hends : ∃ x, p.check e st = .ok x := by
    unfold Project.check
    split
    · exact ⟨_,rfl⟩
    · rw [hrun]
      cases e with
      | none | some e => exact ⟨_,rfl⟩
  obtain ⟨⟨d,st'⟩,hd⟩ := hends
  refine ⟨d,st',hd,?_⟩
  rcases check_cases hd with ⟨_,r,_,rfl⟩ | ⟨c',hrun',hf⟩
  · exact h
  · obtain rfl : c = c' := Except.ok.inj (hrun.symm.trans hrun')
    exact hf.steady hc

/-- What can be done to a project. -/
inductive Action
  | add (node : Notation.Module)
  | invalidate
  | check {σ : Type} (emitter : Option (Emitter σ)) (state : σ)

/-- A step can fail to give a project: the descent may be too deep, or something may be missing that it needs. -/
def act (p : Project) : Action → Except Check.Stuck Project
  | .add node => (p.addModule node).map Prod.snd
  | .invalidate => .ok p.invalidate
  | .check e st => (p.check e st).map fun x => x.1.project

theorem Steady.act (h : Steady p) (a : Action) : ∃ q, p.act a = .ok q ∧ Steady q := by
  cases a with
  | add node =>
    obtain ⟨k,q,hq⟩ := addModule_ok h.sane node
    exact ⟨q,by simp [Project.act,hq,Except.map],h.add hq⟩
  | invalidate => exact ⟨_,rfl,h.closed,h.sane,h.duplicates⟩
  | check e st =>
    obtain ⟨c,st',hc,hs⟩ := h.check e st
    exact ⟨c.project,by simp [Project.act,hc,Except.map],hs⟩

theorem Steady.acts (h : Steady p) (l : List Action) : ∃ q, l.foldlM Project.act p = .ok q ∧ Steady q := by
  induction l generalizing p with
  | nil => exact ⟨p,rfl,h⟩
  | cons a l ih =>
    obtain ⟨q,ha,hq⟩ := h.act a
    obtain ⟨r,hl,hr⟩ := ih hq
    exact ⟨r,by simp [List.foldlM_cons,ha,hl,bind,Except.bind],hr⟩

/-- Whatever modules are added and however often they are checked, every check comes to an end and never gets
stuck on its way. -/
theorem actions_end (warningsAsErrors : Bool) (l : List Action) : ∃ p, l.foldlM act (new warningsAsErrors) = .ok p ∧
      ∀ {σ : Type} (e : Option (Emitter σ)) (st : σ), ∃ c st', p.check e st = .ok (c,st') := by
  obtain ⟨p,hl,hp⟩ := (Steady.new warningsAsErrors).acts l
  refine ⟨p,hl,fun e st => ?_⟩
  obtain ⟨c,st',hc,_⟩ := hp.check e st
  exact ⟨c,st',hc⟩

theorem Reached.steady (h : Reached n p) : Steady p := by
  induction h with
  | new b => exact .new b
  | add _ hq ih => exact ih.add hq
  | invalidate _ ih => exact ⟨ih.closed,ih.sane,ih.duplicates⟩
  | check _ hc ih =>
    obtain ⟨c,st',heq,hs⟩ := ih.check _ _
    obtain ⟨rfl,_⟩ := Prod.mk.inj (Except.ok.inj (heq.symm.trans hc))
    exact hs

end Steady

end InfoObject.Project
