import InfoObject.Proofs.Reachable
import InfoObject.Proofs.Workings

/-! A whole check as a run of the machine: between two assignments nothing is under resolution, the cycles that were
found are told of, and every reference that an assignment declares was settled when the assignment is done with. -/
namespace InfoObject.Check
open Model

/-! Steps of a whole check -/

/-- A step of a whole check. Between two assignments a reference to a class may be stamped, and the cycles that were
found are told of. -/
inductive Pace (R : Prop) : Pass → Pass → Prop
  | tick {p q : Pass} (h : Tick R Any p q) : Pace R p q
  | stamp {p : Pass} {i : Id .classRef} {r : ClassRef} (hl : p.chain.links = []) (hr : p.store.get? i = some r) :
      Pace R p {p with store := p.store.put i {r with checked := p.marker} }
  | finish {p : Pass} (hl : p.chain.links = []) : Pace R p p.finish

def Paces (R : Prop) : Pass → Pass → Prop := Relation.ReflTransGen (Pace R)

section Paces
variable {R : Prop} {A : Nat → Prop} {p q r : Pass} {k : Nat} {x y : Target}

theorem Paces.refl (p : Pass) : Paces R p p := Relation.ReflTransGen.refl

theorem Paces.trans (h : Paces R p q) (k : Paces R q r) : Paces R p r := Relation.ReflTransGen.trans h k

theorem Pace.paces (h : Pace R p q) : Paces R p q := .single h

theorem Ticks.paces (h : Ticks R A p q) : Paces R p q :=
  Relation.ReflTransGen.mono (fun _ _ h => .tick (h.mono id fun _ _ => trivial)) _ _ h

theorem Still.paces (h : Still p q) : Paces R p q := Ticks.paces (A := Any) h.ticks

theorem Pace.loose (h : Pace R p q) : Pace False p q := by
  cases h with
  | tick h => exact .tick (h.mono False.elim fun _ hk => hk)
  | stamp hl hr => exact .stamp hl hr
  | finish hl => exact .finish hl

theorem Paces.loose (h : Paces R p q) : Paces False p q := Relation.ReflTransGen.mono (fun _ _ => Pace.loose) _ _ h

theorem touched_stamp (r : ClassRef) (m : Marker) : Touched (t := .classRef) r {r with checked := m} := ⟨rfl,trivial⟩

theorem finds_stamp {i : Id .classRef} (hr : p.store.get? i = some c) :
    Pass.Finds (p.put i {c with checked := p.marker}) k x ↔ p.Finds k x := by
  have hrow : (p.store.put i {c with checked := p.marker}).get? i = some {c with checked := p.marker} :=
    Store.get?_put_self (t := .classRef) hr
  by_cases hk : k = i.key
  · subst hk
    rw [finds_iff (p := p.put i {c with checked := p.marker}) (t := .classRef) hrow,
      finds_iff (t := .classRef) hr]
    rfl
  · constructor
    · rintro ⟨t,j,a,ha,rfl,hx⟩
      exact ⟨t,j,a,(Store.get?_put_of_key (t := .classRef) _ (Ne.symm hk)).symm.trans ha,rfl,hx⟩
    · rintro ⟨t,j,a,ha,rfl,hx⟩
      exact ⟨t,j,a,(Store.get?_put_of_key (t := .classRef) _ (Ne.symm hk)).trans ha,rfl,hx⟩

theorem Pace.marker_eq (h : Pace R p q) : q.marker = p.marker := by
  cases h with
  | tick h => exact h.marker_eq
  | stamp | finish => rfl

theorem Pace.budget_eq (h : Pace R p q) : q.budget = p.budget := by
  cases h with
  | tick h => exact h.budget_eq
  | stamp | finish => rfl

theorem Pace.onward (h : Pace R p q) : Onward p.store q.store := by
  cases h with
  | tick h => exact h.onward
  | stamp _ hr => exact .put (t := .classRef) hr rfl
  | finish => exact .refl _

theorem Pace.finds (h : Pace R p q) (hk : p.Finds k x) : ∃ y, q.Finds k y := by
  cases h with
  | tick h => exact h.finds hk
  | stamp _ hr => exact ⟨x,(finds_stamp hr).mpr hk⟩
  | finish => exact ⟨x,hk⟩

theorem Tidy.stamp {i : Id .classRef} (hp : Tidy R p) (hr : p.store.get? i = some c) :
    Tidy R (p.put i {c with checked := p.marker}) := by
  have hon : Onward p.store (p.store.put i {c with checked := p.marker}) := .put (t := .classRef) hr rfl
  have same : ∀ j : Id .setDef, (p.store.put i {c with checked := p.marker}).get? j = p.store.get? j :=
    fun j => Store.get?_put_other (by decide) i _ j
  refine ⟨.put (t := .classRef) hr (touched_stamp c p.marker) hp.sane,hp.distinct,fun j os hj => ?_,
    fun j d os hd hos => ?_,fun hR k x hk => ?_,fun hR j d os hd hos o ho => ?_⟩
  · obtain ⟨d,hd,hos⟩ := hj
    exact hp.apart j os ⟨d,(same j).symm.trans hd,hos⟩
  · obtain ⟨hx,hall⟩ := hp.complete j d os ((same j).symm.trans hd) hos
    refine ⟨hx,fun k hk => ?_⟩
    obtain ⟨x,hx⟩ := hall k hk
    exact ⟨x,(finds_stamp hr).mpr hx⟩
  · exact (hp.targets hR k x ((finds_stamp hr).mp hk)).onward hon
  · exact (hp.listed hR j d os ((same j).symm.trans hd) hos o ho).onward hon

theorem Pace.tidy (h : Pace R p q) (hp : Tidy R p) : Tidy R q := by
  cases h with
  | tick h => exact h.tidy hp
  | stamp _ hr => exact hp.stamp hr
  | finish => exact ⟨hp.sane,List.nodup_nil,fun _ _ _ => not_onChain rfl,hp.complete,hp.targets,hp.listed⟩

theorem Paces.marker_eq (h : Paces R p q) : q.marker = p.marker := by
  induction h with
  | refl => rfl
  | tail _ h ih => exact h.marker_eq.trans ih

theorem Paces.budget_eq (h : Paces R p q) : q.budget = p.budget := by
  induction h with
  | refl => rfl
  | tail _ h ih => exact h.budget_eq.trans ih

theorem Paces.onward (h : Paces R p q) : Onward p.store q.store := by
  induction h with
  | refl => exact .refl _
  | tail _ h ih => exact ih.trans h.onward

theorem Paces.tidy (h : Paces R p q) (hp : Tidy R p) : Tidy R q := by
  induction h with
  | refl => exact hp
  | tail _ h ih => exact h.tidy ih

theorem Paces.finds (h : Paces R p q) (hk : p.Finds k x) : ∃ y, q.Finds k y := by
  induction h with
  | refl => exact ⟨x,hk⟩
  | tail _ h ih =>
    obtain ⟨y,hy⟩ := ih
    exact h.finds hy

end Paces

/-! From one assignment to the next -/

/-- Every reference to a class that was stamped in this generation was found, those in `E` excepted. -/
def Sealed (E : Nat → Prop) (p : Pass) : Prop := Marker.zero.before p.marker = true → ∀ (i : Id .classRef) r,
  p.store.get? i = some r → ¬ E i.key → r.checked.before p.marker = false → ∃ x, p.Finds i.key x

def Nobody (_ : Nat) : Prop := False

theorem Tick.sealed (h : Tick R A p q) (hp : Sealed E p) : Sealed E q := by
  intro hfresh i r hr hE hst
  rw [h.marker_eq] at hfresh hst
  have old : ∀ c, p.store.get? i = some c → c.checked = r.checked → ∃ x, q.Finds i.key x := by
    intro c hc hcr
    obtain ⟨x,hx⟩ := hp hfresh i c hc hE (hcr ▸ hst)
    exact h.finds hx
  have settle : ∀ {t : EntityType} {j : Id t} {x : Target} {a b : Row t}, Settles p j x a b →
      (p.store.put j b).get? i = some r → ∃ c, p.store.get? i = some c ∧ c.checked = r.checked := by
    intro t j x a b hs hr
    by_cases hk : j.key = i.key
    · obtain rfl : .classRef = t := (Id.type_of_key hk).symm
      obtain rfl := Id.key_inj hk
      cases (Store.get?_put_self hs.row).symm.trans hr
      exact ⟨a,hs.row,(Option.some.inj hs.stamp).symm⟩
    · exact ⟨r,(Store.get?_put_of_key b hk).symm.trans hr,rfl⟩
  cases h with
  | still h =>
    rcases h.stamps i r hr with hz | ⟨c,hc,hcr⟩
    · rw [hz,hfresh] at hst
      contradiction
    · exact old c hc hcr.symm
  | enter | meet => exact old r hr rfl
  | close hs | leave hs =>
    obtain ⟨c,hc,hcr⟩ := settle hs hr
    exact old c hc hcr
  | @drop j d e =>
    rw [Store.get?_put_other (by decide)] at hr
    exact old r hr rfl

theorem Ticks.sealed (h : Ticks R A p q) (hp : Sealed E p) : Sealed E q := by
  induction h with
  | refl => exact hp
  | tail _ h ih => exact h.sealed ih

/-- What is done between two points at which nothing is under resolution. -/
structure Round (p q : Pass) : Prop where
  paces : Paces True p q
  links : q.chain.links = []
  seals : Sealed Nobody p → Sealed Nobody q

section Rounds
variable {α : Type} {p q r : Pass} {u : Unit}

theorem Round.refl (h : p.chain.links = []) : Round p p := ⟨.refl p,h,id⟩

theorem Round.trans (h : Round p q) (k : Round q r) : Round p r := ⟨h.paces.trans k.paces,k.links,k.seals ∘ h.seals⟩

theorem Round.of_still (h : Still p q) (hl : p.chain.links = []) : Round p q :=
  ⟨h.paces,h.links.trans hl,Tick.sealed (R := True) (A := Any) (.still h)⟩

theorem Round.kept (h : Round p q) : q.store.kept = p.store.kept := h.paces.onward.kept

/-! Assignments -/

theorem Round.finish (h : Round p q) : Round p q.finish :=
  ⟨h.paces.trans (Pace.finish h.links).paces,rfl,fun hp => h.seals hp⟩

theorem Pass.Free.of_idle (hl : p.chain.links = []) : p.Free True :=
  ⟨fun l hlast => by simp [hl] at hlast,fun _ => hl⟩

theorem Goes.round (h : Goes True p.store m Q) (hg : Gives m p a q) (hl : p.chain.links = [])
    (hp : Tidy True p) : Round p q := by
  obtain ⟨hticks,hlinks,_⟩ := h p a q hg (.refl _) hp (.of_idle hl)
  exact ⟨hticks.paces,hlinks.trans hl,hticks.sealed⟩

theorem Gives.checkClassRef_round (h : Gives (checkClassRef i) p u q) (hl : p.chain.links = []) (hp : Tidy True p)
    (hi : HomedClass p.store (.reference i)) : Round p q ∧ (Marker.zero.before p.marker = true → Sealed Nobody p → ∃ x,
    q.Finds i.key x) := by
  obtain ⟨r,hr,⟨hd,rfl⟩ | ⟨hd,x,hx⟩⟩ := (gives_checkName (t := .classRef)).mp h
  · exact ⟨.refl hl,fun hfresh hs => hs hfresh i r hr id hd⟩
  · have hstamp : Pace True p (p.put i {r with checked := p.marker}) := .stamp hl hr
    have hcalm : Pass.Free True (p.put i {r with checked := p.marker}) := .of_idle hl
    have hlodged : LodgedClass (p.store.put i {r with checked := p.marker}) (.reference i) :=
      LodgedClass.onward (e := .reference i) hstamp.onward hi
    obtain ⟨hticks,hlinks,_⟩ := goes_resolveClass hlodged _ _ _ hx (.refl _) (hp.stamp hr) hcalm
    have hfinds : q.Finds i.key (.objectClass x) := by
      exact finds_classWithin hx.within
    refine ⟨⟨hstamp.paces.trans hticks.paces,hlinks.trans hl,fun hs hfresh j c hc _ hst => ?_⟩,fun _ _ => ⟨_,hfinds⟩⟩
    have hother : Sealed (fun k => k = i.key) (p.put i {r with checked := p.marker}) := by
      intro hfresh j c hc hij hst
      rw [Store.get?_put_ne (t := .classRef) _ fun h => hij (congrArg Id.key h.symm)] at hc
      obtain ⟨y,hy⟩ := hs hfresh j c hc id hst
      exact ⟨y,(finds_stamp hr).mpr hy⟩
    by_cases hij : j.key = i.key
    · exact hij ▸ ⟨_,hfinds⟩
    · exact hticks.sealed hother hfresh j c hc hij hst

theorem Gives.checkDeclared_round (h : Gives (checkDeclared a) p u q) (hl : p.chain.links = []) (hp : Tidy True p)
    (ha : Declares p.store a.declared) : Round p q ∧ ∀ c, a.declared.alias? = some c → Marker.zero.before p.marker = true →
    Sealed Nobody p → ∃ x, q.Finds c.key x := by
  have hh := ha.homed hp.sane
  unfold checkDeclared at h
  match hd : a.declared with
  | .malformed =>
    simp only [hd] at h
    exact ⟨(goes_reportError rfl).round h hl hp,nofun⟩
  | .objectClass (.definition i) =>
    simp only [hd] at h hh
    exact ⟨(goes_check (g := .objectClass i) (HomedClass.lodged (e := .definition i) hp.sane hh)).round h hl hp,nofun⟩
  | .objectClass (.reference i) =>
    simp only [hd] at h hh
    obtain ⟨hround,hfinds⟩ := h.checkClassRef_round hl hp hh
    refine ⟨hround,fun c hc => ?_⟩
    obtain rfl := Option.some.inj hc
    exact hfinds
  | .object (.definition i) =>
    simp only [hd] at h hh
    exact ⟨(goes_check (g := .object i) (HomedObject.lodged (o := .definition i) hp.sane hh)).round h hl hp,nofun⟩
  | .object (.reference i) =>
    simp only [hd] at h hh
    exact ⟨(goes_checkObjectRef (HomedObject.lodged hp.sane hh)).round h hl hp,nofun⟩
  | .objectSet (.definition i) =>
    simp only [hd] at h hh
    exact ⟨(goes_check (g := .objectSet i) (HomedSet.lodged (d := .definition i) hp.sane hh)).round h hl hp,nofun⟩
  | .objectSet (.reference i) =>
    simp only [hd] at h hh
    exact ⟨(goes_checkSetRef (HomedSet.lodged hp.sane hh)).round h hl hp,nofun⟩
  | .type t =>
    simp only [hd] at h hh
    obtain ⟨x,p1,hx,h⟩ := gives_bind.mp h
    obtain ⟨_,rfl⟩ := gives_pure.mp h
    refine ⟨(goes_resolveType hh).round hx hl hp,fun c hc _ _ => ?_⟩
    obtain rfl := Option.some.inj hc
    exact ⟨_,finds_typeWithin hx.within⟩
  | .value t v =>
    simp only [hd] at h hh
    have hround := (working.checkValue (v := v) (t := t) hh.2 hh.1 trivial).round h hl hp
    refine ⟨hround,fun c hc _ _ => ?_⟩
    cases v with
    | literal => contradiction
    | reference i =>
      obtain rfl := Option.some.inj hc
      obtain ⟨x,p1,_,h⟩ := gives_bind.mp h
      obtain ⟨y,p2,hy,hrest⟩ := gives_bind.mp h
      replace hy := hy.within
      have hrest : Still p2 q := by
        split at hrest
        · rcases gives_ite.mp hrest with ⟨_,h⟩ | ⟨_,h⟩
          · exact (gives_pure.mp h).2 ▸ .refl _
          · exact still_reportError rfl h
        · exact (gives_pure.mp hrest).2 ▸ .refl _
      exact ⟨_,hrest.finds_iff.mpr (finds_valueWithin hy)⟩

theorem Gives.checkDeclared_rounds (h : Gives (checkDeclared a) (p.visiting i m n) () q) (hl : p.chain.links = [])
    (hp : Tidy True p) (hi : i ∈ p.store.kept) (hm : p.store.get? i = some m) (ha : m.assignments[n]? = some a) :
    Round p q.finish ∧ ∀ c, a.declared.alias? = some c → Marker.zero.before p.marker = true → Sealed Nobody p → ∃ x,
    q.Finds c.key x := by
  have hstill := Still.of_plain (Plain.stampAssignment hm n)
  have t := Round.of_still hstill hl
  have hdecl : Declares (p.visiting i m n).store a.declared :=
    Declares.mono hstill.onward.stays ⟨i,hi,m,hm,a,List.mem_of_getElem? ha,rfl⟩
  obtain ⟨t1,hfinds⟩ := h.checkDeclared_round hl (t.paces.tidy hp) hdecl
  exact ⟨(t.trans t1).finish,fun c hc hfresh hs => hfinds c hc hfresh (t.seals hs)⟩

/-! Modules -/

theorem not_told (h : ofModule d = true) : ¬ Told d := by
  rintro ⟨⟨f,_,_⟩,rfl,hf⟩
  cases f <;> simp_all [ofModule,Fault.ofName,Fault.ofCycle]

theorem sweep_round : Sweep (fun p => p.chain.links = [] ∧ Tidy True p) Round where
  refl hp := .refl hp.1
  trans := .trans
  keeps t hp := ⟨t.links,t.paces.tidy hp.2⟩
  more t := t.paces.onward.more
  kept := Round.kept
  tell hp hd := .of_still (.report (not_told hd)) hp.1
  visit hp hi hm ha h := (h.checkDeclared_rounds hp.1 hp.2 hi hm ha).1

theorem Gives.checkAll_round (h : Gives (Project.checkAll ds) p u q) (hl : p.chain.links = []) (hp : Tidy True p) : Round p q :=
  (sweep_round.checkAll h ⟨hl,hp⟩).1

theorem Gives.checkAll_finds (h : Gives (Project.checkAll ds) p u q) (hl : p.chain.links = []) (hp : Tidy True p)
    (hfresh : Marker.zero.before p.marker = true) (hs : Sealed Nobody p) (hd : Declares p.store d)
    (hc : d.alias? = some c) : ∃ x, q.Finds c.key x := by
  obtain ⟨p',q',i,m,n,a,tp,hi,hm,ha,rfl,hg,tq⟩ := (sweep_round.checkAll h ⟨hl,hp⟩).2 d hd
  obtain ⟨_,hspec⟩ := hg.checkDeclared_rounds tp.links (tp.paces.tidy hp) hi hm ha
  obtain ⟨x,hx⟩ := hspec c hc (tp.paces.marker_eq ▸ hfresh) (tp.seals hs)
  exact tq.paces.finds (p := q'.finish) hx

end Rounds

/-! The start of a check -/

theorem NotNewer.settled_eq (hmn : m.before n = true) {a : Row t} (h : NotNewer m a) : settled n a = none := by
  cases t with
  | typeRef | valueRef => simp only [settled,found_earlier hmn h,Option.map_none]
  | classRef | objectRef | setRef => simp only [settled,found_earlier hmn h.2,Option.map_none]
  | _ => rfl

end InfoObject.Check

namespace InfoObject.Project
open Model Check

section Start
variable {n : Nat} {p : Project} (h : Sound n p) (hn : n+1 < 2^64)

include h hn

theorem Sound.before_next : p.marker.before p.marker.next = true :=
  Marker.before_next (Nat.lt_of_le_of_lt (Nat.succ_le_succ h.marker) hn)

theorem Sound.not_finds (k : Nat) (x : Target) : ¬ p.startPass.Finds k x := by
  rintro ⟨t,i,a,ha,_,hx⟩
  have hnone : settled p.marker.next a = none := (h.bounded t i a ha).settled_eq (h.before_next hn)
  rw [show p.startPass.marker = p.marker.next from rfl,hnone] at hx
  contradiction

theorem Sound.not_lists (i : Id .setDef) (os : List (Id .objectDef)) : ¬ p.startPass.Lists i os := by
  rintro ⟨d,hd,hos⟩
  have hnone : found p.marker.next d.flattening = none := found_earlier (h.before_next hn) (h.bounded .setDef i d hd).2
  rw [show p.startPass.marker = p.marker.next from rfl,hnone] at hos
  contradiction

theorem Sound.tidy (R : Prop) : Tidy R p.startPass :=
  ⟨h.sane,List.nodup_nil,fun _ _ _ => not_onChain rfl,fun i d os hd hos => absurd ⟨d,hd,hos⟩ (h.not_lists hn i os),
    fun _ k x hx => absurd hx (h.not_finds hn k x),fun _ i d os hd hos => absurd ⟨d,hd,hos⟩ (h.not_lists hn i os)⟩

theorem Sound.fresh : Marker.zero.before p.startPass.marker = true := by
  refine Marker.lt_of_not_before (a := p.marker) ?_ (h.before_next hn)
  simp [Marker.before,Marker.zero]

theorem Sound.not_stamped {t : EntityType} {i : Id t} : ¬ Stamped p.startPass.marker p.startPass.store i :=
  h.bounded.not_stamped (h.before_next hn)

theorem Sound.sealed : Sealed Nobody p.startPass := fun _ _ r hr _ hst =>
  absurd ⟨r,_,hr,rfl,hst⟩ (h.not_stamped (t := .classRef) hn)

end Start

end InfoObject.Project
