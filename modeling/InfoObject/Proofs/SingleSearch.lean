import InfoObject.Proofs.Rounds
import InfoObject.Proofs.Soundness
import InfoObject.Proofs.Termination
import Mathlib.Data.List.Perm.Basic

/-! How often a name is looked for in one check. A search begins when its reference is put on the chain, and the trail of a
check keeps each such moment. -/
namespace InfoObject.Check
open Model

/-- An entity that names another one. -/
def Refers {t : EntityType} (a : Row t) : Prop := (place a).isSome = true

/-- The number is that of a reference, and the class that it expects does not depend on how some object is found. -/
def Straight (s : Store) (k : Nat) : Prop :=
  ∃ (t : EntityType) (i : Id t) (a : Row t), s.get? i = some a ∧ i.key = k ∧ Refers a ∧ ¬ Crooked s a

def ToldOf (s : Store) (k : Nat) (e : CheckError) : Prop :=
  ∃ (t : EntityType) (i : Id t) (a : Row t), s.get? i = some a ∧ i.key = k ∧ place a = some e.location

def isNameError (e : CheckError) : Bool := Fault.ofName e.fault

def nameErrors (ds : List Diagnostic) : List CheckError := (ds.filterMap Diagnostic.error?).filter isNameError

section Errors
variable {ds es : List Diagnostic}

theorem nameErrors_append : nameErrors (ds++es) = nameErrors ds++nameErrors es := by simp [nameErrors]

theorem nameErrors_untold (h : ∀ d ∈ ds, ¬ Told d) : nameErrors ds = [] := by
  simp only [nameErrors,List.filter_eq_nil_iff,List.mem_filterMap]
  rintro e ⟨d,hd,he⟩ hname
  cases d with
  | error x =>
    obtain rfl := Option.some.inj he
    exact h _ hd ⟨x,rfl,.inl hname⟩
  | warning => contradiction

theorem nameErrors_cycles {cycles : List (List Link)} :
    nameErrors ((cycles.filterMap Cycle.report?).map Diagnostic.error).reverse = [] := by
  simp only [nameErrors,List.filter_eq_nil_iff,List.mem_filterMap,List.mem_reverse,List.mem_map]
  rintro e ⟨_,⟨x,⟨cycle,_,hx⟩,rfl⟩,he⟩
  obtain rfl := Option.some.inj he
  cases cycle with
  | nil => contradiction
  | cons l ls =>
    obtain rfl := Option.some.inj hx
    simp [isNameError,Fault.ofName]

end Errors

section Numbers
variable {s s' : Store} {p q : Pass} {R : Prop} {A : Nat → Prop} {k : Nat}

theorem Straight.not_set (h : Straight s k) (i : Id .setDef) : i.key ≠ k := by
  obtain ⟨t,j,a,_,rfl,hr,_⟩ := h
  refine Id.key_ne (fun ht => ?_) i j
  subst ht
  simp [Refers,place] at hr

theorem Straight.back (ho : Onward s s') (h : Straight s' k) (hk : Known s k) : Straight s k := by
  obtain ⟨t,i,a,ha,rfl,hr,hc⟩ := h
  obtain ⟨u,j,b,hb,hkey⟩ := hk
  obtain ⟨rfl,rfl⟩ := Id.eq_of_key hkey
  obtain ⟨a',ha',hbare⟩ := ho.more.rows u j b hb
  cases ha.symm.trans ha'
  refine ⟨u,j,b,hb,rfl,?_,fun hcb => hc ((hcb.onward ho).of_bare hbare)⟩
  unfold Refers
  rw [← place_of_bare hbare]
  exact hr

theorem Straight.not_crooked {t : EntityType} {i : Id t} {a : Row t} (h : Straight s i.key) (ha : s.get? i = some a) :
    ¬ Crooked s a := by
  obtain ⟨u,j,b,hb,hkey,_,hc⟩ := h
  obtain ⟨rfl,rfl,rfl⟩ := Store.row_of_key hkey hb ha
  exact hc

theorem ToldOf.onward (ho : Onward s s') (h : ToldOf s k e) : ToldOf s' k e := by
  obtain ⟨t,i,a,ha,hk,hp⟩ := h
  obtain ⟨b,hb,hbare⟩ := ho.more.rows t i a ha
  exact ⟨t,i,b,hb,hk,(place_of_bare hbare).trans hp⟩

theorem known_onward (ho : Onward s s') (h : Known s k) : Known s' k := by
  obtain ⟨t,i,a,ha,hk⟩ := h
  obtain ⟨b,hb,_⟩ := ho.more.rows t i a ha
  exact ⟨t,i,b,hb,hk⟩

end Numbers

/-! Trails -/

/-- The numbers of what a step puts on the chain. -/
def begun (p q : Pass) : List Nat := (q.chain.links.drop p.chain.links.length).map Link.key

theorem begun_of_le {p q : Pass} (h : q.chain.links.length ≤ p.chain.links.length) : begun p q = [] := by
  rw [begun,List.drop_eq_nil_of_le h,List.map_nil]

/-- A pass goes on step by step, and in this course the numbers are put on the chain, the last one first. -/
inductive Trail (p : Pass) : List Nat → Pass → Prop
  | start : Trail p [] p
  | step {q r : Pass} {trail : List Nat} (h : Trail p trail q) (hq : Pace True q r) : Trail p (begun q r++trail) r

theorem Paces.trail {p q : Pass} (h : Paces True p q) : ∃ trail, Trail p trail q := by
  induction h with
  | refl => exact ⟨[],.start⟩
  | tail _ hq ih =>
    obtain ⟨trail,ht⟩ := ih
    exact ⟨_,.step ht hq⟩

/-- Straight references are looked for once. The numbers in `ks` are of the references that something was said of, one
for each saying, and each of them was looked for and is done with. -/
structure Single (trail ks : List Nat) (p : Pass) : Prop where
  known : ∀ k ∈ trail, Known p.store k
  settled : ∀ k ∈ trail, Straight p.store k → p.onChain k ∨ ∃ x, p.Finds k x
  looked : ∀ k x, p.Finds k x → k ∈ trail
  once : ∀ k, Straight p.store k → trail.count k ≤ 1
  said : List.Forall₂ (ToldOf p.store) ks (nameErrors p.reports)
  paid : ∀ k, ks.count k+(p.chain.links.map Link.key).count k ≤ trail.count k

section Single
variable {trail ks : List Nat} {p q : Pass} {R : Prop} {A : Nat → Prop}

theorem Single.mem_trail (h : Single trail ks p) (hk : p.Finds k x ∨ p.onChain k) : k ∈ trail := by
  rcases hk with hk | ⟨l,hl,rfl⟩
  · exact h.looked k x hk
  · have hpos := List.count_pos_iff.mpr (List.mem_map_of_mem (f := Link.key) hl)
    have := h.paid l.key
    exact List.count_pos_iff.mp (by omega)

theorem Single.same (h : Single trail ks p) (ho : Onward p.store q.store) (hf : ∀ k x, p.Finds k x → ∃ y, q.Finds k y)
    (hb : ∀ k x, q.Finds k x → p.Finds k x ∨ p.onChain k) (hl : q.chain.links = p.chain.links)
    (hr : nameErrors q.reports = nameErrors p.reports) : Single (begun p q++trail) ks q := by
  rw [begun_of_le (by rw [hl]),List.nil_append]
  have straight : ∀ k ∈ trail, Straight q.store k → Straight p.store k :=
    fun k hk hs => hs.back ho (h.known k hk)
  refine ⟨fun k hk => known_onward ho (h.known k hk),fun k hk hs => ?_,fun k x hx => h.mem_trail (hb k x hx),
    fun k hs => ?_,?_,?_⟩
  · rcases h.settled k hk (straight k hk hs) with ⟨l,hmem,hlk⟩ | ⟨x,hx⟩
    · exact .inl ⟨l,hl ▸ hmem,hlk⟩
    · exact .inr (hf k x hx)
  · by_cases hk : k ∈ trail
    · exact h.once k (straight k hk hs)
    · simp [List.count_eq_zero.mpr hk]
  · rw [hr]
    exact h.said.imp fun _ _ he => he.onward ho
  · rw [hl]
    exact h.paid

/-- A link that is taken from the chain leaves its reference settled, with at most one thing said of it. -/
theorem Single.pop {t : EntityType} {i : Id t} {a : Row t} (h : Single trail ks p) (ha : p.store.get? i = some a)
    (ho : Onward p.store q.store) (hf : ∀ k x, p.Finds k x → ∃ y, q.Finds k y) (hb : ∀ k x, q.Finds k x → p.Finds k x ∨ p.onChain k)
    (htop : p.chain.links = ls++[l]) (hk : l.key = i.key) (hl : q.chain.links = ls) (hr : q.reports = d++p.reports)
    (hdone : Straight q.store i.key → ∃ x, q.Finds i.key x)
    (hds : nameErrors d = [] ∨ ∃ e, nameErrors d = [e] ∧ place a = some e.location) : ∃ ks, Single (begun p q++trail) ks q := by
  rw [begun_of_le (by rw [hl,htop,List.length_append]; exact Nat.le_add_right _ _),List.nil_append]
  have looked : ∀ k x, q.Finds k x → k ∈ trail := fun k x hx => h.mem_trail (hb k x hx)
  have straight : ∀ k ∈ trail, Straight q.store k → Straight p.store k :=
    fun k hmem hs => hs.back ho (h.known k hmem)
  have known : ∀ k ∈ trail, Known q.store k := fun k hmem => known_onward ho (h.known k hmem)
  have settled : ∀ k ∈ trail, Straight q.store k → q.onChain k ∨ ∃ x, q.Finds k x := by
    intro k hmem hs
    rcases h.settled k hmem (straight k hmem hs) with ⟨m,hm,hmk⟩ | ⟨x,hx⟩
    · rw [htop] at hm
      rcases List.mem_append.mp hm with hm | hm
      · exact .inl ⟨m,hl ▸ hm,hmk⟩
      · obtain rfl := List.mem_singleton.mp hm
        obtain rfl : k = i.key := hmk.symm.trans hk
        exact .inr (hdone hs)
    · exact .inr (hf k x hx)
  have once : ∀ k, Straight q.store k → trail.count k ≤ 1 := by
    intro k hs
    by_cases hmem : k ∈ trail
    · exact h.once k (straight k hmem hs)
    · simp [List.count_eq_zero.mpr hmem]
  have said : List.Forall₂ (ToldOf q.store) ks (nameErrors p.reports) := h.said.imp fun _ _ he => he.onward ho
  have paid : ∀ k, ks.count k+((ls.map Link.key).count k + [i.key].count k) ≤ trail.count k := by
    intro k
    have hp := h.paid k
    rwa [htop,List.map_append,List.count_append,List.map_singleton,hk] at hp
  rcases hds with hnone | ⟨e,hone,hplace⟩
  · refine ⟨ks,known,settled,looked,once,by rw [hr,nameErrors_append,hnone]; exact said,fun k => ?_⟩
    rw [hl]
    have := paid k
    omega
  · obtain ⟨b,hrow,hbare⟩ := ho.more.rows t i a ha
    refine ⟨i.key::ks,known,settled,looked,once,?_,fun k => ?_⟩
    · rw [hr,nameErrors_append,hone]
      exact .cons ⟨t,i,b,hrow,rfl,(place_of_bare hbare).trans hplace⟩ said
    · rw [hl]
      have hcount : (i.key::ks).count k = ks.count k + [i.key].count k := by
        rw [List.count_cons,List.count_cons,List.count_nil]
        omega
      have := paid k
      omega

theorem Blames.nameErrors (h : Blames a ds) : nameErrors ds = [] ∨ ∃ e, Check.nameErrors ds = [e] ∧ place a =
    some e.location := by
  obtain ⟨l,hl,rfl | ⟨f,hf,rfl⟩⟩ := h
  · exact .inl rfl
  · exact .inr ⟨⟨f,l,none⟩,by simp [Check.nameErrors,Diagnostic.error?,isNameError,hf],hl⟩

theorem Single.tick (h : Single trail ks p) (hk : Tick R A p q) : ∃ ks, Single (begun p q++trail) ks q := by
  have ho := hk.onward
  have hf : ∀ k x, p.Finds k x → ∃ y, q.Finds k y := fun k x hx => hk.finds hx
  have met : ∀ {l : Link}, p.onChain l.key → (p.chain.add l).2.links = p.chain.links := by
    intro l hon
    rw [Pass.add_met hon]
  cases hk with
  | still hk =>
    obtain ⟨ds,hds,hun⟩ := hk.reports
    exact ⟨ks,h.same ho hf (fun k x hx => .inl (hk.finds_iff.mp hx)) hk.links
      (by rw [hds,nameErrors_append,nameErrors_untold hun,List.nil_append])⟩
  | @enter t i a n l ha hl hopen hnext hnew =>
    rw [Pass.add_new (l := ⟨i.key,n,l⟩) hnew]
    have hbegun : begun p {p with chain := {p.chain with links := p.chain.links++[⟨i.key,n,l⟩]} } = [i.key] := by
      simp [begun]
    rw [hbegun]
    -- A straight reference that was looked for is on the chain or settled, and then it is not put there again.
    have hfresh : Straight p.store i.key → i.key ∉ trail := by
      intro hs hmem
      have hpending := hopen.resolve_right (hs.not_crooked ha)
      rcases h.settled i.key hmem hs with hon | ⟨x,hx⟩
      · exact hnew hon
      · exact hpending x hx
    refine ⟨ks,fun k hk => ?_,fun k hk hs => ?_,fun k x hx => List.mem_cons_of_mem _ (h.looked k x hx),fun k hs => ?_,h.said,
      fun k => ?_⟩
    · rcases List.mem_cons.mp hk with rfl | hk
      · exact ⟨t,i,a,ha,rfl⟩
      · exact h.known k hk
    · rcases List.mem_cons.mp hk with rfl | hk
      · exact .inl ⟨⟨i.key,n,l⟩,by simp,rfl⟩
      · rcases h.settled k hk hs with ⟨m,hm,hmk⟩ | hx
        · exact .inl ⟨m,by simp [hm],hmk⟩
        · exact .inr hx
    · by_cases hki : k = i.key
      · subst hki
        simp [List.count_eq_zero.mpr (hfresh hs)]
      · rw [List.singleton_append,List.count_cons_of_ne (Ne.symm hki)]
        exact h.once k hs
    · have := h.paid k
      simp only [List.map_append,List.map_cons,List.map_nil,List.count_append,List.count_cons,List.count_nil,
        List.singleton_append] at this ⊢
      omega
  | @meet i d n l hd hcalm hon =>
    exact ⟨ks,h.same ho hf (fun k x hx => .inl hx) (met (l := ⟨i.key,n,l⟩) hon) rfl⟩
  | @close t i x a b n l hs hopen hnext hon =>
    refine ⟨ks,h.same ho hf (fun k y hy => ?_) (met (l := ⟨i.key,n,l⟩) hon) rfl⟩
    rcases hs.finds_iff.mp hy with ⟨rfl,_⟩ | ⟨_,hy⟩
    · exact .inr hon
    · exact .inl hy
  | @leave t i x a b l ls ds hs htop hlk hA hx hlodged hd =>
    refine h.pop hs.row ho hf (fun k y hy => ?_) htop hlk rfl rfl (fun _ => ⟨x,?_⟩) hd.nameErrors
    · rcases hs.finds_iff.mp hy with ⟨rfl,_⟩ | ⟨_,hy⟩
      · exact .inr ⟨l,htop ▸ List.mem_append_right _ (List.mem_singleton_self l),hlk⟩
      · exact .inl hy
    · exact hs.finds_iff.mpr (.inl ⟨rfl,rfl⟩)
  | @drop i d e l ls _ _ hd he htop hlk =>
    exact h.pop (t := .setDef) hd ho hf (fun k x hx => .inl (finds_put_set.mp hx)) htop hlk rfl (d := []) rfl
      (fun hs => absurd rfl (hs.not_set i)) (.inl rfl)

theorem Single.pace (h : Single trail ks p) (hk : Pace R p q) : ∃ ks, Single (begun p q++trail) ks q := by
  cases hk with
  | tick hk => exact h.tick hk
  | @stamp i r hl hr =>
    have ho : Onward p.store (p.store.put i {r with checked := p.marker}) := .put (t := .classRef) hr rfl
    exact ⟨ks,h.same ho (fun k x hx => ⟨x,(finds_stamp hr).mpr hx⟩) (fun k x hx => .inl ((finds_stamp hr).mp hx)) rfl rfl⟩
  | finish hl =>
    obtain ⟨told,htold⟩ := Chain.exists_tells p.chain p.chain.cycles
    refine ⟨ks,h.same (.refl _) (fun k x hx => ⟨x,hx⟩) (fun k x hx => .inl hx) hl.symm ?_⟩
    have herr : p.chain.reportAll.1 = told.filterMap Cycle.report? := htold.errors
    simp only [Pass.finish,herr,nameErrors_append,nameErrors_cycles,List.nil_append]

end Single

end InfoObject.Check

namespace InfoObject.Project
open Model Check

section Once
variable {n : Nat} {p : Project}

theorem Single.start (h : Sound n p) (hn : n+1 < 2^64) : Single [] [] p.startPass :=
  ⟨nofun,nofun,fun k x hx => absurd hx (h.not_finds hn k x),fun _ _ => Nat.zero_le _,.nil,fun _ => Nat.le_refl _⟩

end Once

end InfoObject.Project
