import InfoObject.Proofs.Answers
import Mathlib.Data.List.Cycle

/-! The cycles that a check tells of. Each was closed on the chain: its entities are distinct, each calls for the next
and the last for the first, and it is told of once, by its least rotation. -/
namespace InfoObject.Check
open Model

/-! Cycles up to rotation -/

section Chains
variable {α : Type} {r r' : α → α → Prop} {l : List α}

theorem isRotated_of_mem (ha : a ∈ l) : ∃ m, l ~r a::m := by
  obtain ⟨us,vs,rfl⟩ := List.append_of_mem ha
  exact ⟨vs++us,List.isRotated_append⟩

theorem exists_map_eq (h : ∀ b ∈ bs, ∃ a, f a = b) : ∃ as : List α, as.map f = bs := by
  have hrange : bs ∈ Set.range (List.map f) := by
    rw [Set.range_list_map]
    exact h
  exact hrange

variable (h : Cycle.Chain r (l : Cycle α))
include h

theorem chain_imp_of_mem (hi : ∀ a ∈ l, ∀ b ∈ l, r a b → r' a b) :
    Cycle.Chain r' (l : Cycle α) := by
  cases l with
  | nil => exact Cycle.Chain.nil r'
  | cons a l =>
    rw [Cycle.chain_coe_cons] at h ⊢
    refine h.imp_of_mem_imp fun b c hb hc hbc => hi b ?_ c ?_ hbc
    · simpa [or_comm] using hb
    · simpa [or_comm] using hc

theorem exists_before (hb : b ∈ l) : ∃ a ∈ l, r a b := by
  have htrans : IsTrans α fun _ b => ∃ a ∈ l, r a b := ⟨fun _ _ _ _ hbc => hbc⟩
  have hall : Cycle.Chain (fun _ b => ∃ a ∈ l, r a b) (l : Cycle α) := chain_imp_of_mem h fun a ha _ _ hab => ⟨a,ha,hab⟩
  exact Cycle.chain_iff_pairwise.mp hall b hb b hb

theorem exists_after (ha : a ∈ l) : ∃ b ∈ l, r a b := by
  have htrans : IsTrans α fun a _ => ∃ b ∈ l, r a b := ⟨fun _ _ _ hab _ => hab⟩
  have hall : Cycle.Chain (fun a _ => ∃ b ∈ l, r a b) (l : Cycle α) := chain_imp_of_mem h fun _ _ b hb hab => ⟨b,hb,hab⟩
  exact Cycle.chain_iff_pairwise.mp hall a ha a ha

/-- What is handed back along a cycle is everywhere on it. -/
theorem handed_back {P : α → Prop} (hP : ∀ a b, r a b → P b → P a) (ha : a ∈ l)
    (hPa : P a) : ∀ b ∈ l, P b := by
  have htrans : IsTrans α fun a b => P b → P a := ⟨fun _ _ _ hab hbc h => hab (hbc h)⟩
  exact fun b hb => Cycle.chain_iff_pairwise.mp (h.imp hP) b hb a ha hPa

theorem handed_on {P : α → Prop} (hP : ∀ a b, r a b → P a → P b) (ha : a ∈ l)
    (hPa : P a) : ∀ b ∈ l, P b := by
  have htrans : IsTrans α fun a b => P a → P b := ⟨fun _ _ _ hab hbc h => hbc (hab h)⟩
  exact fun b hb => Cycle.chain_iff_pairwise.mp (h.imp hP) a ha b hb hPa

end Chains

/-! Errors that tell of cycles -/

def isCycleError (e : CheckError) : Bool := Fault.ofCycle e.fault

def cycleErrors (ds : List Diagnostic) : List CheckError := (ds.filterMap Diagnostic.error?).filter isCycleError

section Errors
variable {ds es : List Diagnostic}

theorem cycleErrors_append : cycleErrors (ds++es) = cycleErrors ds++cycleErrors es := by simp [cycleErrors]

theorem cycleErrors_untold (h : ∀ d ∈ ds, ¬ Told d) : cycleErrors ds = [] := by
  simp only [cycleErrors,List.filter_eq_nil_iff,List.mem_filterMap]
  rintro e ⟨d,hd,he⟩ hcycle
  cases d with
  | error x =>
    obtain rfl := Option.some.inj he
    exact h _ hd ⟨x,rfl,.inr hcycle⟩
  | warning => contradiction

theorem Blames.cycleErrors (h : Blames a ds) : cycleErrors ds = [] := by
  obtain ⟨l,_,rfl | ⟨f,hf,rfl⟩⟩ := h
  · rfl
  · cases f <;> simp_all [Check.cycleErrors,Diagnostic.error?,isCycleError,Fault.ofCycle,Fault.ofName]

theorem cycleErrors_reported (cs : List (List Link)) :
    cycleErrors ((cs.filterMap Cycle.report?).map Diagnostic.error).reverse = cs.reverse.filterMap Cycle.report? := by
  have hall : ∀ e ∈ cs.filterMap Cycle.report?, isCycleError e = true := by
    intro e he
    obtain ⟨c,_,hc⟩ := List.mem_filterMap.mp he
    cases c with
    | nil => contradiction
    | cons l ls =>
      obtain rfl := Option.some.inj hc
      rfl
  have herr : ((cs.filterMap Cycle.report?).map Diagnostic.error).filterMap Diagnostic.error? =
      cs.filterMap Cycle.report? := by
    simp [List.filterMap_map,Function.comp_def,Diagnostic.error?]
  rw [cycleErrors,List.filterMap_reverse,herr,List.filter_reverse,List.filter_eq_self.mpr hall,List.filterMap_reverse]

end Errors

/-! What stays as it is -/

section Stay
variable {R : Prop} {A : Nat → Prop} {p q : Pass} {k : Nat} {x : Target}

theorem Tick.expanded (h : Tick R A p q) {i : Id .setDef} (hd : p.store.get? i = some d) (he : d.expansion = some e) : ∃ d',
    q.store.get? i = some d' ∧ d'.expansion = some e := by
  cases h with
  | still h =>
    obtain ⟨d',hd',_⟩ := h.onward.more.rows _ i d hd
    exact ⟨d',hd',h.expanded i d d' e hd hd' he⟩
  | enter | meet => exact ⟨d,hd,he⟩
  | close hs | leave hs => exact ⟨d,(hs.sets i).trans hd,he⟩
  | @drop j c b l ls _ _ hc hb =>
    by_cases hij : j = i
    · subst hij
      cases hc.symm.trans hd
      exact ⟨b,Store.get?_put_self (t := .setDef) hc,Eq.trans hb.parts he⟩
    · exact ⟨d,(Store.get?_put_ne (t := .setDef) b hij).trans hd,he⟩

theorem Tick.rests (h : Tick R A p q) (hr : p.Rests k x) (hnot : ¬ q.onChain k) : q.Rests k x := by
  refine ⟨?_,hnot⟩
  obtain ⟨hx,hoff⟩ := hr
  cases h with
  | still h => exact h.finds_iff.mpr hx
  | enter | meet => exact hx
  | close hs hopen hnext hon => exact hs.finds_iff.mpr (.inr ⟨fun hki => hoff (hki ▸ hon),hx⟩)
  | @leave t i y a b l ls ds hs htop hlk =>
    refine hs.finds_iff.mpr (.inr ⟨fun hki => hoff ⟨l,?_,hlk.trans hki.symm⟩,hx⟩)
    exact htop ▸ List.mem_append_right _ List.mem_cons_self
  | drop => exact finds_put_set.mpr hx

theorem Tick.off (h : Tick R A p q) (hk : (∃ j : Id .setRef, j.key = k) ∨ ¬ p.Unlisted k) (hr : p.Rests k x) :
    ¬ q.onChain k := by
  obtain ⟨hx,hoff⟩ := hr
  cases h with
  | still h => rwa [Pass.onChain_congr h.links]
  | @enter t i a n l ha hl hopen hnext hnew hhome hfree =>
    rintro ⟨m,hm,hmk⟩
    simp only [Pass.add_new (l := ⟨i.key,n,l⟩) hnew] at hm
    rcases List.mem_append.mp hm with hm | hm
    · exact hoff ⟨m,hm,hmk⟩
    · obtain rfl : m = ⟨i.key,n,l⟩ := by simpa using hm
      obtain rfl : i.key = k := hmk
      rcases hk with ⟨j,hj⟩ | hk
      · rcases hopen with hno | hc
        · exact hno x hx
        · obtain rfl : .setRef = t := Id.type_of_key hj
          exact hc
      · exact hk (hfree x hx)
  | @meet i d n l hd hcalm hon | @close t i y a b n l hs hopen hnext hon =>
    rintro ⟨m,hm,hmk⟩
    simp only [Pass.add_met (l := ⟨i.key,n,l⟩) hon] at hm
    exact hoff ⟨m,hm,hmk⟩
  | leave hs htop | drop hd he htop =>
    exact fun ⟨m,hm,hmk⟩ => hoff ⟨m,htop ▸ List.mem_append_left _ hm,hmk⟩

theorem rests_stamp {i : Id .classRef} (hr : p.store.get? i = some c)
    (h : p.Rests k x) : Pass.Rests (p.put i {c with checked := p.marker}) k x :=
  ⟨(finds_stamp hr).mpr h.1,h.2⟩

theorem Pace.rests (h : Pace R p q) (hk : (∃ j : Id .setRef, j.key = k) ∨ ¬ p.Unlisted k) (hr : p.Rests k x) : q.Rests k x := by
  cases h with
  | tick h => exact h.rests hr (h.off hk hr)
  | stamp _ hc => exact rests_stamp hc hr
  | finish => exact ⟨hr.1,not_onChain rfl⟩

theorem Pace.expanded (h : Pace R p q) {i : Id .setDef} (hd : p.store.get? i = some d) (he : d.expansion = some e) : ∃ d',
    q.store.get? i = some d' ∧ d'.expansion = some e := by
  cases h with
  | tick h => exact h.expanded hd he
  | stamp => exact ⟨d,(Store.get?_put_other (by decide) _ _ i).trans hd,he⟩
  | finish => exact ⟨d,hd,he⟩

theorem Pace.elements (h : Pace R p q) {i : Id .setDef} (hd : p.store.get? i = some d)
    (he : e ∈ d.elements) : ∃ d', q.store.get? i = some d' ∧ d'.elements = d.elements := by
  cases hx : d.expansion with
  | none => simp [SetDef.elements,hx] at he
  | some x =>
    obtain ⟨d',hd',hx'⟩ := h.expanded hd hx
    exact ⟨d',hd',SetDef.elements_of_expansion (hx'.trans hx.symm)⟩

theorem Pace.edge (h : Pace R p q) (he : p.Edge i t) : q.Edge i t := by
  obtain ⟨d,e,j,hd,hj,hr,hrow,herr⟩ := he
  obtain ⟨d',hd',hsame⟩ := h.elements hd hj
  obtain ⟨e',hrow',hb⟩ := h.onward.more.rows _ t e hrow
  exact ⟨d',e',j,hd',hsame ▸ hj,h.rests (.inl ⟨j,rfl⟩) hr,hrow',(SetDef.bare_eq_iff.mp hb).2.2.1.trans herr⟩

theorem Tick.cycles (h : Tick R A p q) : ∃ more, q.chain.cycles = p.chain.cycles++more := by
  cases h with
  | still h => exact ⟨[],by rw [h.cycles,List.append_nil]⟩
  | @enter t i a n l ha hl hopen hnext hnew =>
    exact ⟨[],by simp only [Pass.add_new (l := ⟨i.key,n,l⟩) hnew,List.append_nil]⟩
  | @meet i d n l hd hcalm hon | @close t i x a b n l hs hopen hnext hon =>
    exact ⟨_,by rw [Pass.add_met (l := ⟨i.key,n,l⟩) hon]⟩
  | leave | drop => exact ⟨[],(List.append_nil _).symm⟩

end Stay

/-! Cycles that were closed on the chain -/

/-- One entity calls for another. A set is called for only by a set that has it among its elements. -/
def Pass.Joins (p : Pass) (k j : Nat) : Prop :=
  Calls p.store k j ∧ ∀ t : Id .setDef, t.key = j → ∃ i : Id .setDef, i.key = k ∧ p.Edge i t

/-- A link has the name and the place of its entity, and a reference that is named so was written in a module in use. -/
structure Shows (s : Store) (l : Link) : Prop where
  named : ∃ (t : EntityType) (i : Id t) (a : Row t), s.get? i = some a ∧ i.key = l.key ∧ label a = some (l.name,l.location)
  housed : ∀ a : Alias, a.key = l.key → Housed s a

structure Circuit (p : Pass) (c : List Link) : Prop where
  nonempty : c ≠ []
  distinct : (Cycle.keys c).Nodup
  joined : Cycle.Chain p.Joins (Cycle.keys c : Cycle Nat)
  shown : ∀ l ∈ c, Shows p.store l

/-- All that is under resolution was called for, and all cycles that were closed are circuits. Of `cs` was told, the
latest first. -/
structure Traced (cs : List (List Link)) (p : Pass) : Prop where
  joined : p.chain.links.IsChain fun l m => p.Joins l.key m.key
  shown : ∀ l ∈ p.chain.links, Shows p.store l
  circuits : ∀ c ∈ p.chain.cycles++cs, Circuit p c
  least : ∀ c ∈ cs, ∃ d, c = Cycle.canonical d
  reported : p.chain.reported = cs.map Cycle.keys
  once : (cs.map Cycle.keys).Nodup
  told : cycleErrors p.reports = cs.filterMap Cycle.report?

section Circuit
variable {R : Prop} {A : Nat → Prop} {s s' : Store} {p q : Pass} {c d : List Link} {cs : List (List Link)} {k j : Nat}

theorem Shows.onward (h : Onward s s') (hl : Shows s l) : Shows s' l := by
  obtain ⟨⟨t,i,a,ha,hk,hlabel⟩,hh⟩ := hl
  obtain ⟨b,hb,hbare⟩ := h.more.rows t i a ha
  exact ⟨⟨t,i,b,hb,hk,(label_of_bare hbare).trans hlabel⟩,fun a ha => (hh a ha).onward h⟩

theorem Pace.joins (h : Pace R p q) (hj : p.Joins k j) : q.Joins k j := by
  refine ⟨hj.1.onward h.onward,fun t ht => ?_⟩
  obtain ⟨i,hi,he⟩ := hj.2 t ht
  exact ⟨i,hi,h.edge he⟩

theorem Circuit.pace (h : Pace R p q) (hc : Circuit p c) : Circuit q c :=
  ⟨hc.nonempty,hc.distinct,hc.joined.imp fun _ _ => h.joins,fun l hl => (hc.shown l hl).onward h.onward⟩

theorem keys_rotated (h : c ~r d) : Cycle.keys c ~r Cycle.keys d := h.map Link.key

theorem Circuit.rotated (hc : Circuit p c) (h : c ~r d) : Circuit p d where
  nonempty hd := hc.nonempty (List.isRotated_nil_iff.mp (hd ▸ h))
  distinct := (keys_rotated h).nodup_iff.mp hc.distinct
  joined := Cycle.coe_eq_coe.mpr (keys_rotated h) ▸ hc.joined
  shown l hl := hc.shown l (h.mem_iff.mpr hl)

theorem Circuit.close (hjoined : p.chain.links.IsChain fun l m => p.Joins l.key m.key)
    (hdistinct : (Cycle.keys p.chain.links).Nodup) (hshown : ∀ l ∈ p.chain.links, Shows p.store l) (hon : p.onChain k)
    (hlast : ∀ l, p.chain.links.getLast? = some l → p.Joins l.key k) : Circuit p (p.chain.links.dropWhile (·.key != k)) := by
  obtain ⟨l,ms,hdrop,rfl,hchain,hend⟩ := closing_suffix hjoined hlast hon
  have hsuffix : l::ms <:+ p.chain.links := hdrop ▸ List.dropWhile_suffix _
  rw [hdrop]
  refine ⟨List.cons_ne_nil l ms,(hsuffix.map Link.key).sublist.nodup hdistinct,?_,fun m hm => hshown m (hsuffix.subset hm)⟩
  show Cycle.Chain p.Joins ((l.key::ms.map Link.key : List Nat) : Cycle Nat)
  rw [Cycle.chain_coe_cons,← List.cons_append,← List.map_cons]
  refine List.isChain_append.mpr ⟨(List.isChain_map Link.key).mpr hchain,List.isChain_singleton _,fun k hk n hn => ?_⟩
  obtain rfl : l.key = n := by simpa using hn
  rw [List.getLast?_map] at hk
  obtain ⟨m,hm,rfl⟩ := Option.map_eq_some_iff.mp hk
  exact hend m hm

/-! What a step does to the cycles -/

theorem Traced.same (h : Traced cs p) (hk : Pace R p q) (hjoined : q.chain.links.IsChain fun l m => q.Joins l.key m.key)
    (hshown : ∀ l ∈ q.chain.links, Shows q.store l) (hcycles : q.chain.cycles = p.chain.cycles)
    (hreported : q.chain.reported = p.chain.reported) (htold : cycleErrors q.reports = cycleErrors p.reports) : Traced cs q :=
  ⟨hjoined,hshown,fun c hc => (h.circuits c (hcycles ▸ hc)).pace hk,h.least,hreported.trans h.reported,h.once,
    htold.trans h.told⟩

theorem Traced.closed (h : Traced cs p) (hk : Pace R p q) (hp : (Cycle.keys p.chain.links).Nodup) (hon : p.onChain k)
    (hlast : ∀ l, p.chain.links.getLast? = some l → p.Joins l.key k)
    (hchain : q.chain = {p.chain with cycles := p.chain.cycles++[p.chain.links.dropWhile (·.key != k)]})
    (hreports : q.reports = p.reports) : Traced cs q := by
  have hlinks : q.chain.links = p.chain.links := by rw [hchain]
  refine ⟨?_,fun l hl => ?_,fun c hc => Circuit.pace hk ?_,h.least,?_,h.once,?_⟩
  · rw [hlinks]
    exact h.joined.imp fun _ _ => hk.joins
  · exact (h.shown l (hlinks ▸ hl)).onward hk.onward
  · rw [hchain,List.append_assoc] at hc
    rcases List.mem_append.mp hc with hc | hc
    · exact h.circuits c (List.mem_append_left _ hc)
    · rcases List.mem_cons.mp hc with rfl | hc
      · exact .close h.joined hp h.shown hon hlast
      · exact h.circuits c (List.mem_append_right _ hc)
  · rw [hchain]
    exact h.reported
  · rw [hreports]
    exact h.told

theorem Traced.tick (h : Traced cs p) (hp : Tidy True p) (hk : Tick True Any p q) : Traced cs q := by
  have hpace : Pace True p q := .tick hk
  have joined : p.chain.links.IsChain fun l m => q.Joins l.key m.key := h.joined.imp fun _ _ => hpace.joins
  have shown : ∀ l ∈ p.chain.links, Shows q.store l := fun l hl => (h.shown l hl).onward hpace.onward
  have shorter : ∀ {ls : List Link} {l : Link}, p.chain.links = ls++[l] →
      (ls.IsChain fun l m => q.Joins l.key m.key) ∧ ∀ l ∈ ls, Shows q.store l := fun htop =>
    ⟨(List.isChain_append.mp (htop ▸ joined)).1,fun l hl => shown l (htop ▸ List.mem_append_left _ hl)⟩
  cases hk with
  | still hk =>
    refine h.same hpace (hk.links ▸ joined) (hk.links ▸ shown) hk.cycles hk.reported ?_
    obtain ⟨ds,hds,hno⟩ := hk.reports
    rw [hds,cycleErrors_append,cycleErrors_untold hno,List.nil_append]
  | @enter t i a n l ha hl hopen hnext hnew hhome hfree hset =>
    have hadd := Pass.add_new (l := ⟨i.key,n,l⟩) hnew
    have hlinks : (p.chain.add ⟨i.key,n,l⟩).2.links = p.chain.links++[⟨i.key,n,l⟩] := by rw [hadd]
    refine h.same hpace (hlinks ▸ ?_) (hlinks ▸ ?_) (by rw [hadd]) (by rw [hadd]) rfl
    · refine List.isChain_append.mpr ⟨joined,List.isChain_singleton _,fun m hm m' hm' => ?_⟩
      obtain rfl : (⟨i.key,n,l⟩ : Link) = m' := by simpa using hm'
      exact hpace.joins ⟨hnext m hm,fun t ht => (hset t ht).2 m hm⟩
    · intro m hm
      rcases List.mem_append.mp hm with hm | hm
      · exact shown m hm
      · obtain rfl := List.mem_singleton.mp hm
        exact ⟨⟨t,i,a,ha,rfl,hl⟩,hhome trivial⟩
  | @meet i d n l hd hcalm hon hset =>
    refine h.closed hpace hp.distinct hon (fun m hm => ⟨hcalm.next i.key m hm,fun t ht => ?_⟩)
      (Pass.add_met (l := ⟨i.key,n,l⟩) hon) rfl
    obtain rfl := Id.key_inj ht
    exact hset m hm
  | @close t i x a b n l hs hopen hnext hon =>
    refine h.closed hpace hp.distinct hon (fun m hm => ⟨hnext m hm,fun u hu => ?_⟩)
      (Pass.add_met (l := ⟨i.key,n,l⟩) hon) rfl
    obtain rfl : .setDef = t := Id.type_of_key hu
    have := hs.settled
    simp [settled] at this
  | @leave t i x a b l ls ds hs htop hlk hA hx hlodged hblames =>
    obtain ⟨hjoined,hshown⟩ := shorter htop
    refine h.same hpace hjoined hshown rfl rfl ?_
    simp only [cycleErrors_append,hblames.cycleErrors,List.nil_append]
  | drop hd he htop =>
    obtain ⟨hjoined,hshown⟩ := shorter htop
    exact h.same hpace hjoined hshown rfl rfl rfl

/-- When an assignment is done with, each cycle that was closed is told of, unless it was before. -/
theorem Traced.finish (h : Traced cs p) (hl : p.chain.links = []) : ∃ told, Traced (told++cs) p.finish ∧
    ∀ c ∈ p.chain.cycles, Cycle.keys (Cycle.canonical c) ∈ (told++cs).map Cycle.keys := by
  have hpace : Pace True p p.finish := .finish hl
  obtain ⟨told,ht⟩ := Chain.exists_tells p.chain p.chain.cycles
  have hrest : p.chain.reportAll.2.reported = (told.reverse++cs).map Cycle.keys := by
    simp only [Chain.reportAll,ht.rest]
    rw [h.reported,List.map_append,List.map_reverse]
  refine ⟨told.reverse,⟨List.IsChain.nil,fun l hl => absurd hl List.not_mem_nil,fun c hc => Circuit.pace hpace ?_,
    fun c hc => ?_,hrest,?_,?_⟩,fun c hc => ?_⟩
  · rcases List.mem_append.mp hc with hc | hc
    · exact absurd hc List.not_mem_nil
    · rcases List.mem_append.mp hc with hc | hc
      · obtain ⟨d,hd,rfl⟩ := ht.origin c (List.mem_reverse.mp hc)
        exact (h.circuits d (List.mem_append_left _ hd)).rotated (Cycle.canonical_isRotated d)
      · exact h.circuits c (List.mem_append_right _ hc)
  · rcases List.mem_append.mp hc with hc | hc
    · obtain ⟨d,_,hd⟩ := ht.origin c (List.mem_reverse.mp hc)
      exact ⟨d,hd⟩
    · exact h.least c hc
  · have := ht.fresh (h.reported ▸ h.once)
    rwa [h.reported,← List.map_reverse,← List.map_append] at this
  · have herr : p.chain.reportAll.1 = told.filterMap Cycle.report? := ht.errors
    rw [List.filterMap_append,← cycleErrors_reported,← h.told,← cycleErrors_append,Pass.finish,herr]
  · have := ht.all c hc
    rwa [h.reported,← List.map_reverse,← List.map_append] at this

theorem Traced.pace (h : Traced cs p) (hp : Tidy True p) (hk : Pace True p q) : ∃ told, Traced (told++cs) q ∧
    ∀ c ∈ p.chain.cycles++cs, ∃ d ∈ q.chain.cycles++(told++cs), Cycle.keys c ~r Cycle.keys d := by
  cases hk with
  | tick hk =>
    refine ⟨[],h.tick hp hk,fun c hc => ?_⟩
    obtain ⟨more,hmore⟩ := hk.cycles
    refine ⟨c,?_,.refl _⟩
    rw [hmore,List.append_assoc]
    rcases List.mem_append.mp hc with hc | hc
    · exact List.mem_append_left _ hc
    · exact List.mem_append_right _ (List.mem_append_right _ hc)
  | @stamp i r hl hr =>
    have hpace : Pace True p (p.put i {r with checked := p.marker}) := .stamp hl hr
    refine ⟨[],h.same hpace (h.joined.imp fun _ _ => hpace.joins) (fun l hl => (h.shown l hl).onward hpace.onward) rfl
      rfl rfl,fun c hc => ⟨c,hc,.refl _⟩⟩
  | finish hl =>
    obtain ⟨told,ht,hall⟩ := h.finish hl
    refine ⟨told,ht,fun c hc => ?_⟩
    rcases List.mem_append.mp hc with hc | hc
    · obtain ⟨d,hd,hkeys⟩ := List.mem_map.mp (hall c hc)
      exact ⟨d,List.mem_append_right _ hd,hkeys ▸ keys_rotated (Cycle.canonical_isRotated c)⟩
    · exact ⟨c,List.mem_append_right _ (List.mem_append_right _ hc),.refl _⟩

end Circuit

end InfoObject.Check

namespace InfoObject.Project
open Model Check

theorem Traced.start (p : Project) : Traced [] p.startPass :=
  ⟨List.IsChain.nil,fun _ hl => absurd hl List.not_mem_nil,fun _ hc => absurd hc List.not_mem_nil,
    fun _ hc => absurd hc List.not_mem_nil,rfl,List.nodup_nil,rfl⟩

theorem cycleErrors_perm (p : Project) (q : Pass) :
    ((p.checkedBy q).result.errors.filter isCycleError).Perm (cycleErrors q.reports) := by
  have hsorted : (p.checkedBy q).result.errors.Perm (q.reports.reverse.filterMap Diagnostic.error?) :=
    List.mergeSort_perm _ _
  refine List.Perm.filter isCycleError (hsorted.trans ?_)
  rw [List.filterMap_reverse]
  exact List.reverse_perm _

end InfoObject.Project
