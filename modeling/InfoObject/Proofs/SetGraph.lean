import InfoObject.Proofs.Circuits

/-! The objects of sets. The list of a set is made of what its elements contribute, in their order. An element that names
a set contributes the list that this set was given before, or nothing where the two sets are on one cycle. -/
namespace InfoObject.Check
open Model

/-! Lists stay as they are -/

section Lists
variable {R : Prop} {A : Nat → Prop} {p q : Pass} {i : Id .setDef} {os : List (Id .objectDef)}

theorem Tick.lists (h : Tick R A p q) (hp : Tidy R p) (hl : p.Lists i os) : q.Lists i os := by
  have hoff := hp.apart i os hl
  obtain ⟨d,hd,hos⟩ := hl
  cases h with
  | still h =>
    obtain ⟨d',hd',_⟩ := h.onward.more.rows _ i d hd
    refine ⟨d',hd',?_⟩
    rcases h.unresolved .setDef i d' hd' with ⟨c,hc,hsame⟩ | ⟨hn,_⟩
    · cases hd.symm.trans hc
      rw [h.marker,show d'.flattening = d.flattening from hsame]
      exact hos
    · rw [show p.store.get? i = some d from hd] at hn
      contradiction
  | enter | meet => exact ⟨d,hd,hos⟩
  | close hs | leave hs => exact ⟨d,(hs.sets i).trans hd,hos⟩
  | @drop j c e l ls _ _ hc he htop hlk =>
    refine ⟨d,(Store.get?_put_ne (t := .setDef) e fun hij => hoff ⟨l,?_,hlk.trans (congrArg Id.key hij)⟩).trans hd,hos⟩
    exact htop ▸ List.mem_append_right _ List.mem_cons_self

theorem Pace.lists (h : Pace R p q) (hp : Tidy R p) (hl : p.Lists i os) : q.Lists i os := by
  cases h with
  | tick h => exact h.lists hp hl
  | stamp =>
    obtain ⟨d,hd,hos⟩ := hl
    exact ⟨d,(Store.get?_put_other (by decide) _ _ i).trans hd,hos⟩
  | finish => exact hl

theorem Paces.lists (h : Paces R p q) (hp : Tidy R p) (hl : p.Lists i os) : q.Lists i os := by
  induction h with
  | refl => exact hl
  | tail hsteps h ih => exact h.lists (Paces.tidy hsteps hp) ih

/-- What an element of a set contributed to the list of the set `i`, after the sets `ds` were listed. Of the cycles `cs` is
told. -/
inductive Part (p : Pass) (cs : List (List Link)) (ds : List (Id .setDef)) (i : Id .setDef) :
    Element → List (Id .objectDef) → Prop
  | literal (o : Id .objectDef) : Part p cs ds i (.literal o) [o]
  | object {j : Id .objectRef} {o : Id .objectDef} {row : ObjectDef} (hr : p.Rests j.key (.object o))
      (ho : p.store.get? o = some row) : Part p cs ds i (.object j) (if row.erroneous then [] else [o])
  | wrong {j : Id .setRef} {t : Id .setDef} {d : SetDef} (hr : p.Rests j.key (.objectSet t)) (hd : p.store.get? t = some d)
      (he : d.erroneous = true) : Part p cs ds i (.set j) []
  | listed {j : Id .setRef} {t : Id .setDef} {d : SetDef} {os : List (Id .objectDef)} (hr : p.Rests j.key (.objectSet t))
      (hd : p.store.get? t = some d) (he : d.erroneous = false) (ht : t ∈ ds) (hos : p.Lists t os) : Part p cs ds i (.set j) os
  | cut {j : Id .setRef} {t : Id .setDef} {d : SetDef} {c : List Link} (hr : p.Rests j.key (.objectSet t))
      (hd : p.store.get? t = some d) (he : d.erroneous = false) (hc : c ∈ cs) (hi : i.key ∈ Cycle.keys c)
      (ht : t.key ∈ Cycle.keys c) : Part p cs ds i (.set j) []

/-- Sets that were listed one after another, the latest first. -/
inductive Woven (p : Pass) (cs : List (List Link)) : List (Id .setDef) → Prop
  | nil : Woven p cs []
  | cons {i : Id .setDef} {ds : List (Id .setDef)} {d : SetDef} {x : Except Notation.SyntaxError Expansion}
      {oss : List (List (Id .objectDef))} (hrest : Woven p cs ds) (hd : p.store.get? i = some d) (hx : d.expansion = some x)
      (hos : found p.marker d.flattening = some oss.flatten) (hparts : List.Forall₂ (Part p cs ds i) d.elements oss) :
      Woven p cs (i::ds)

structure Listing (cs : List (List Link)) (ds : List (Id .setDef)) (p : Pass) : Prop where
  woven : Woven p (p.chain.cycles++cs) ds
  all : ∀ i os, p.Lists i os → i ∈ ds

end Lists

theorem forall₂_imp_of_mem (h : List.Forall₂ S as bs) (hi : ∀ a ∈ as, ∀ b, S a b → T a b) : List.Forall₂ T as bs := by
  induction h with
  | nil => exact .nil
  | @cons a b as bs hab _ ih =>
    exact .cons (hi a List.mem_cons_self b hab) (ih fun c hc => hi c (List.mem_cons_of_mem _ hc))

section Listing
variable {R : Prop} {p q : Pass} {i : Id .setDef} {os : List (Id .objectDef)} {cs cs' : List (List Link)}
  {ds : List (Id .setDef)} {e : Element}

/-- Cycles that were closed are still known, up to rotation. -/
def Recalls (cs cs' : List (List Link)) : Prop := ∀ c ∈ cs, ∃ d ∈ cs', Cycle.keys c ~r Cycle.keys d

theorem Part.pace (h : Pace R p q) (hp : Tidy R p) (hc : Recalls cs cs')
    (hobject : ∀ j, e = .object j → ∀ x, p.Rests j.key x → q.Rests j.key x) (hpart : Part p cs ds i e os) :
    Part q cs' ds i e os := by
  have named : ∀ {j : Id .setRef} {x : Target}, p.Rests j.key x → q.Rests j.key x :=
    fun {j} {_} hr => h.rests (.inl ⟨j,rfl⟩) hr
  have row : ∀ {t : Id .setDef} {d : SetDef}, p.store.get? t = some d →
      ∃ d', q.store.get? t = some d' ∧ d'.erroneous = d.erroneous := fun hd => same_wrong h.onward.more hd
  cases hpart with
  | literal o => exact .literal o
  | @object j o row hr ho =>
    obtain ⟨row',ho',hb⟩ := h.onward.more.rows _ o row ho
    rw [← (ObjectDef.bare_eq_iff.mp hb).2.2.1]
    exact .object (hobject j rfl _ hr) ho'
  | wrong hr hd he =>
    obtain ⟨d',hd',hw⟩ := row hd
    exact .wrong (named hr) hd' (hw.trans he)
  | listed hr hd he ht hos =>
    obtain ⟨d',hd',hw⟩ := row hd
    exact .listed (named hr) hd' (hw.trans he) ht (h.lists hp hos)
  | cut hr hd he hmem hi ht =>
    obtain ⟨d',hd',hw⟩ := row hd
    obtain ⟨c',hmem',hrot⟩ := hc _ hmem
    exact .cut (named hr) hd' (hw.trans he) hmem' (hrot.mem_iff.mp hi) (hrot.mem_iff.mp ht)

theorem Woven.pace (h : Pace R p q) (hp : Tidy R p) (hc : Recalls cs cs') (hw : Woven p cs ds) : Woven q cs' ds := by
  induction hw with
  | nil => exact .nil
  | @cons i ds d x oss hrest hd hx hos hparts ih =>
    obtain ⟨d',hd',hx'⟩ := h.expanded hd hx
    have hsame : d'.elements = d.elements := SetDef.elements_of_expansion (hx'.trans hx.symm)
    obtain ⟨d'',hd'',hos'⟩ := h.lists hp ⟨d,hd,hos⟩
    cases hd'.symm.trans hd''
    refine .cons ih hd' hx' hos' ?_
    rw [hsame]
    refine forall₂_imp_of_mem hparts fun e he os' hpart => hpart.pace h hp hc fun j hj x hr => ?_
    refine h.rests (.inr fun hun => ?_) hr
    exact hun i d _ hd hos j (hj ▸ he) rfl

theorem Pass.Adds.part (h : p.Adds e os) (htop : p.chain.links = ls++[l]) (hk : l.key = i.key)
    (hall : ∀ t os, p.Lists t os → t ∈ ds) : Part p (p.chain.cycles++cs) ds i e os := by
  cases h with
  | literal o => exact .literal o
  | object hr ho => exact .object hr ho
  | set hr hy =>
    cases hy with
    | wrong hd he => exact .wrong hr hd he
    | listed hd he hos => exact .listed hr hd he (hall _ _ hos) hos
    | @met d l' c hd he hon hl hc hlc htc =>
      obtain rfl : l = l' := by simpa [htop] using hl
      obtain ⟨m,hm,hmk⟩ := htc
      exact .cut hr hd he (List.mem_append_left _ hc) (hk ▸ List.mem_map_of_mem hlc) (hmk ▸ List.mem_map_of_mem hm)

section
variable (h : Listing cs ds p) (hp : Tidy R p) (hc : Recalls (p.chain.cycles++cs) (q.chain.cycles++cs'))
include h hp hc

theorem Listing.same (hk : Pace R p q) (hback : ∀ i os, q.Lists i os → ∃ os, p.Lists i os) : Listing cs' ds q := by
  refine ⟨h.woven.pace hk hp hc,fun i os hi => ?_⟩
  obtain ⟨os',hi'⟩ := hback i os hi
  exact h.all i os' hi'

theorem Listing.tick (hk : Tick R A p q) : ∃ ds, Listing cs' ds q := by
  have hpace : Pace R p q := .tick (hk.mono id fun _ _ => trivial)
  by_cases hnew : ∃ i os, q.Lists i os ∧ ∀ os, ¬ p.Lists i os
  · -- only the set on top of the chain can be listed by a step
    obtain ⟨i,os,⟨d',hd',hos⟩,hno⟩ := hnew
    rcases hk.listed_back hd' hos with ⟨d,hd,hf,_⟩ | ⟨_,d,x,oss,l,ls,hd,hx,hx',hadds,rfl,htop,hlk,hlinks⟩
    · exact absurd ⟨d,hd,hf⟩ (hno os)
    refine ⟨i::ds,.cons (h.woven.pace hpace hp hc) hd' hx' hos ?_,fun j os' hj => ?_⟩
    · refine forall₂_imp_of_mem hadds fun e _ os' hadd => ?_
      refine (hadd.part htop hlk h.all).pace hpace hp hc fun j _ x hr => hk.rests hr ?_
      exact fun ⟨m,hm,hmk⟩ => hr.2 ⟨m,htop ▸ List.mem_append_left _ (hlinks ▸ hm),hmk⟩
    · obtain ⟨b,hb,hbos⟩ := hj
      rcases hk.listed_back hb hbos with ⟨a,ha,hf,_⟩ | ⟨_,_,_,_,l',ls',_,_,_,_,_,htop',hlk',_⟩
      · exact List.mem_cons_of_mem _ (h.all j os' ⟨a,ha,hf⟩)
      · have hl : l = l' := by
          rw [htop] at htop'
          exact (List.append_inj' htop' rfl).2 |> List.singleton_inj.mp
        obtain rfl : i = j := Id.key_inj (hlk.symm.trans (hl ▸ hlk'))
        exact List.mem_cons_self
  · refine ⟨ds,h.same hp hc hpace fun i os hi => ?_⟩
    by_contra hno
    exact hnew ⟨i,os,hi,fun os' hp' => hno ⟨os',hp'⟩⟩

theorem Listing.pace (hk : Pace R p q) : ∃ ds, Listing cs' ds q := by
  have hpace := hk
  cases hk with
  | tick hk => exact h.tick hp hc hk
  | stamp =>
    refine ⟨ds,h.same hp hc hpace fun i os ⟨d,hd,hos⟩ => ⟨os,d,?_,hos⟩⟩
    exact (Store.get?_put_other (by decide) _ _ i).symm.trans hd
  | finish => exact ⟨ds,h.same hp hc hpace fun i os hi => ⟨os,hi⟩⟩

end

theorem Listing.paces (h : Listing cs ds p) (ht : Traced cs p) (hp : Tidy True p) (hk : Paces True p q) :
    ∃ cs ds, Traced cs q ∧ Listing cs ds q := by
  induction hk with
  | refl => exact ⟨cs,ds,ht,h⟩
  | tail hk hstep ih =>
    obtain ⟨cs,ds,ht,h⟩ := ih
    have hp := Paces.tidy hk hp
    obtain ⟨told,ht',hkeep⟩ := ht.pace hp hstep
    obtain ⟨ds',h'⟩ := h.pace hp hkeep hstep
    exact ⟨told++cs,ds',ht',h'⟩

end Listing

/-! Cycles of sets -/

section Sets
variable {p : Pass} {i t : Id .setDef} {c : List Link}

theorem Circuit.sets (h : Circuit p c) (ht : t.key ∈ Cycle.keys c) :
    ∃ ts : List (Id .setDef), ts.map Id.key = Cycle.keys c ∧ ts.Nodup ∧ Cycle.Chain p.Edge (ts : Cycle (Id .setDef)) := by
  have hkeys : ∀ k ∈ Cycle.keys c, ∃ t : Id .setDef, t.key = k := by
    refine handed_back (P := fun k => ∃ t : Id .setDef, t.key = k) h.joined ?_ ht ⟨t,rfl⟩
    rintro k j hkj ⟨t,rfl⟩
    obtain ⟨i,hi,_⟩ := hkj.2 t rfl
    exact ⟨i,hi⟩
  obtain ⟨ts,hts⟩ := exists_map_eq hkeys
  refine ⟨ts,hts,List.Nodup.of_map Id.key (hts ▸ h.distinct),?_⟩
  have hjoined : Cycle.Chain (fun a b : Id .setDef => p.Joins a.key b.key) (ts : Cycle (Id .setDef)) := by
    rw [← Cycle.chain_map,Cycle.map_coe,hts]
    exact h.joined
  refine hjoined.imp fun a b hab => ?_
  obtain ⟨i,hi,he⟩ := hab.2 b rfl
  exact Id.key_inj hi ▸ he

theorem Circuit.reaches (h : Circuit p c) (hi : i.key ∈ Cycle.keys c) (ht : t.key ∈ Cycle.keys c) :
    Relation.TransGen p.Edge i t := by
  obtain ⟨ts,hts,_,hchain⟩ := h.sets ht
  have mem : ∀ {j : Id .setDef}, j.key ∈ Cycle.keys c → j ∈ ts := by
    intro j hj
    rw [← hts] at hj
    obtain ⟨j',hj',hk⟩ := List.mem_map.mp hj
    exact Id.key_inj hk ▸ hj'
  exact Cycle.chain_iff_pairwise.mp (hchain.imp fun _ _ => Relation.TransGen.single) i (mem hi) t (mem ht)

end Sets

end InfoObject.Check
