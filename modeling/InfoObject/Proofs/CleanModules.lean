import InfoObject.Proofs.CleanDefinitions
import InfoObject.Proofs.Cycles
import InfoObject.Proofs.Sweeps

/-! Modules that were checked without a fault: every assignment was checked, and every stamp stands for what it
says. -/
namespace InfoObject.Check
open Model

/-! Between two assignments -/

/-- A pass between two assignments: nothing is under resolution, and what was told of cycles are errors. -/
structure Idle (p : Pass) : Prop where
  links : p.chain.links = []
  cycles : p.chain.cycles = []
  reported : p.chain.reported ≠ [] → p.hasError

section Finish
variable {p : Pass}

theorem Pass.hasError_finish (h : p.hasError) : p.finish.hasError := by
  obtain ⟨e,he⟩ := h
  exact ⟨e,List.mem_append_right _ he⟩

/-- Where no cycle is told of, there was none, or one that was told of before. -/
theorem Pass.finish_silent (hc : ∀ x ∈ p.chain.cycles, x ≠ []) (h : ¬ p.finish.hasError) :
    p.chain.reportAll.2.reported = p.chain.reported ∧ (p.chain.reported = [] → p.chain.cycles = []) := by
  have hes : (p.chain.reportCycles p.chain.cycles).1 = [] := by
    by_contra hne
    obtain ⟨e,he⟩ := List.exists_mem_of_ne_nil _ hne
    refine h ⟨e,List.mem_append_left _ (List.mem_reverse.mpr (List.mem_map_of_mem he))⟩
  obtain ⟨hsame,hnil⟩ := Chain.reportCycles_silent hc hes
  exact ⟨by simp only [Chain.reportAll,hsame],hnil⟩

theorem Pass.finish_idle (hc : ∀ x ∈ p.chain.cycles, x ≠ []) (hr : p.chain.reported ≠ [] → p.hasError) : Idle p.finish := by
  refine ⟨rfl,rfl,fun hrep => ?_⟩
  by_contra he
  obtain ⟨hsame,_⟩ := Pass.finish_silent hc he
  exact he (Pass.hasError_finish (hr (hsame ▸ hrep)))

theorem Pass.finish_hushed (p : Pass) : p.finish.reports.filter ofRepeat = p.reports.filter ofRepeat := by
  refine (List.filter_append ..).trans ?_
  rw [List.filter_eq_nil_iff.mpr,List.nil_append]
  intro d hd
  obtain ⟨e,he,rfl⟩ := List.mem_map.mp (List.mem_reverse.mp hd)
  obtain ⟨told,ht⟩ := Chain.exists_tells p.chain p.chain.cycles
  obtain ⟨x,_,hx⟩ := List.mem_filterMap.mp (ht.errors ▸ he)
  cases x with
  | nil => contradiction
  | cons l ls =>
    obtain rfl := Option.some.inj hx
    exact Bool.false_ne_true

theorem Grows.finish (p : Pass) : Grows (fun _ => False) p p.finish where
  marker := rfl
  budget := rfl
  reports := List.suffix_append _ _
  conflicts h hc := Pass.hasError_finish (h hc)
  kept := rfl
  names := List.suffix_refl _
  rows _ _ a ha := ⟨a,ha,.refl ..,.refl ..⟩
  holds _ _ _ h := .inl h
  sane h := h
  bounded h := h

end Finish

/-! Assignments and modules -/

def Busy.none : Busy := fun _ _ => False

def DeclaredDone (m : Marker) (s : Store) : Declared → Prop
  | .malformed => False
  | .objectClass (.definition i) => Stamped m s i
  | .objectClass (.reference i) => Stamped m s i
  | .object (.definition i) => Stamped m s i
  | .object (.reference i) => Stamped m s i
  | .objectSet (.definition i) => Stamped m s i
  | .objectSet (.reference i) => Stamped m s i
  | .type t => ∃ b, typeNow m s t = some (some b)
  | .value t v => ∃ b l, typeNow m s t = some (some b) ∧ valueNow m s v = some (some l) ∧ b.accepts l = true

/-- What a check of assignments leaves; one that finds nothing wrong is a step of a course. -/
structure Tour (p q : Pass) : Prop extends Grows (fun _ => False) p q where
  visited : Visited p q
  idle : Idle q
  step : Course .none p → ¬ q.hasError → Step .none p q

section Tours
variable {p q r : Pass} {u : Unit}

theorem Tour.refl (h : Idle p) : Tour p p :=
  ⟨.refl _ p,(Unstamped.refl _).visited rfl,h,fun hc _ => .refl hc⟩

theorem Tour.trans (h : Tour p q) (k : Tour q r) : Tour p r := by
  refine ⟨h.toGrows.trans k.toGrows,h.visited.trans h.toGrows (fun _ => h.idle.links) k.visited k.toGrows fun _ => objectsOnly_false,
    k.idle,fun hp hr => ?_⟩
  have s := h.step hp fun he => hr (k.hasError he)
  exact s.trans (k.step s.course hr)

theorem from_none (p : Pass) (g : Goal) : From .none p g := fun _ _ hw => hw.elim

theorem keeps_checkDeclared (a : Assignment) : Keeps False (checkDeclared a) := by
  unfold checkDeclared
  split
  · exact keeps_check _
  · exact keeps_checkClassRef _
  · exact keeps_check _
  · exact keeps_checkObjectRef _
  · exact keeps_check _
  · exact keeps_checkSetRef _
  · exact (keeps_resolveType _).bind fun _ => .pure _
  · exact keeps_checkValue _ _ _
  · exact keeps_reportError rfl

theorem Gives.checkDeclared_step (h : Gives (checkDeclared a) p u q) (hq : q.Clean) (hp : Course .none p)
    (ha : Declares p.store a.declared) : Step .none p q ∧ DeclaredDone q.marker q.store a.declared := by
  have hh := ha.homed hp.ready.sane
  have goal : ∀ g, HomedGoal p.store g → Gives (check g) p u q → Step .none p q ∧ g.Stamped q.marker q.store :=
    fun g hg h => checksWell_check.step g .none p q h hq hp hg (from_none p g)
  unfold checkDeclared at h
  match hd : a.declared with
  | .malformed =>
    simp only [hd] at h
    exact absurd hq h.reportError_not_clean
  | .objectClass (.definition i) =>
    simp only [hd] at h ha
    exact goal (.objectClass i) ha h
  | .objectClass (.reference i) =>
    simp only [hd] at h hh
    exact h.checkClassRef_step hq hp hh
  | .object (.definition i) =>
    simp only [hd] at h hh
    exact goal (.object i) hh h
  | .object (.reference i) =>
    simp only [hd] at h hh
    exact h.checkObjectRef_step hq hp hh
  | .objectSet (.definition i) =>
    simp only [hd] at h hh
    exact goal (.objectSet i) hh h
  | .objectSet (.reference i) =>
    simp only [hd] at h hh
    exact h.checkSetRef_step hq hp hh
  | .type t =>
    simp only [hd] at h hh
    obtain ⟨x,p1,hx,h⟩ := gives_bind.mp h
    obtain ⟨_,rfl⟩ := gives_pure.mp h
    obtain ⟨s,b,_,hb⟩ := hx.resolveType_step hq hp hh
    exact ⟨s,b,hb⟩
  | .value t v =>
    simp only [hd] at h hh
    exact h.checkValue_step hq hp hh.2 hh.1

theorem Plain.stampAssignment (hm : p.store.get? i = some m) (n : Nat) : Plain p (p.visiting i m n) :=
  .put (t := .module) hm ⟨stampAssignment_bare m n _,List.forall₂_same.mpr fun _ _ => ⟨rfl,.refl ..⟩⟩ trivial trivial rfl
    trivial

/-- The chain has no say in a course that nothing is under resolution in. -/
theorem Step.finish (h : Step .none p q) : Step .none p q.finish := by
  have hc : Course .none q.finish :=
    ⟨⟨h.course.ready.sane,h.course.ready.formed,h.course.ready.fields,fun k ⟨_,hl,_⟩ => by simp [Pass.finish,Chain.reset] at hl,
      h.course.ready.targets⟩,rfl,h.course.fresh,fun hc => Pass.hasError_finish (h.course.conflicts hc),h.course.busy⟩
  exact ⟨h.grows.trans (.finish q),hc,h.settles⟩

theorem Gives.checkClass_stamped (hgo : ∀ g, Keeps False (go g)) (h : Gives (checkClass go i) p u q) :
    Stamped q.marker q.store i := by
  obtain ⟨c,hc,⟨hd,rfl⟩ | ⟨_,ds,_,h⟩⟩ := h.checkClass_cases
  · exact ⟨c,c.checked,hc,rfl,hd⟩
  · have hst : Stamped p.marker (p.visit i c ds).store i :=
      ⟨_,_,Store.get?_put_self (t := .classDef) hc,rfl,Marker.before_irrefl _⟩
    rcases h with ⟨_,rfl⟩ | ⟨_,hf⟩
    · exact hst
    · exact (Keeps.forM (fun n _ => (keeps_checkField hgo i n).restoringChain) _ _ _ hf).toGrows.stamped hst

theorem Gives.check_stamped (h : Gives (check (.objectClass i)) p u q) : Stamped q.marker q.store i := by
  simp only [check,gives_bind,gives_budget] at h
  obtain ⟨n,_,⟨_,rfl⟩,h⟩ := h
  cases n with
  | zero => exact absurd h gives_throw
  | succ n => exact Gives.checkClass_stamped (keeps_checkWithin n) h

/-- The check of an assignment that finds nothing wrong establishes what it declares. -/
theorem Gives.checkDeclared_tour (h1 : Gives (checkDeclared a) (p.visiting i m n) () p1) (hp : Idle p)
    (hi : i ∈ p.store.kept) (hm : p.store.get? i = some m) (ha : m.assignments[n]? = some a) : Tour p p1.finish ∧
    (Course .none p → ¬ p1.finish.hasError → DeclaredDone p1.marker p1.store a.declared) ∧
    (a.declared = .malformed → p1.finish.hasError) ∧ ∀ c, a.declared = .objectClass (.definition c) →
    Stamped p1.marker p1.store c := by
  have hplain := Plain.stampAssignment hm n
  have k := (Kept.of_plain hplain).trans (keeps_checkDeclared a _ _ _ h1)
  have hnot : ∀ j, ¬ p.onChain j := fun j ⟨_,hl,_⟩ => by simp [hp.links] at hl
  have e := k.toEvolves.weaken (Y := fun _ => False) fun j hj => hnot j hj
  have hcycles : ∀ x ∈ p1.chain.cycles, x ≠ [] := by
    obtain ⟨l,hl,hne⟩ := e.cycles
    rw [hl,hp.cycles]
    exact hne
  have hrep : p1.chain.reported ≠ [] → p1.hasError := by
    rw [e.reported]
    exact fun hr => e.hasError (hp.reported hr)
  have gf := Grows.finish p1
  -- a pass that told of no cycle met none
  have clean : ¬ p1.finish.hasError → p1.Clean := by
    intro hq
    have h1 : ¬ p1.hasError := fun he => hq (Pass.hasError_finish he)
    refine ⟨h1,(Pass.finish_silent hcycles hq).2 ?_⟩
    by_contra hne
    exact h1 (hrep hne)
  have hdecl : ∀ s : Store, s.kept = p.store.kept → Extends p.store s → Declares s a.declared := fun s hk he =>
    Declares.mono ⟨he,hk⟩ ⟨i,hi,m,hm,a,List.mem_of_getElem? ha,rfl⟩
  have main : Course .none p → ¬ p1.finish.hasError →
      Step .none p p1 ∧ DeclaredDone p1.marker p1.store a.declared := by
    intro hc hq
    have s0 := hc.resolving (.of_plain hplain) (hc.ready.plain hplain)
    obtain ⟨s1,hdone⟩ := h1.checkDeclared_step (clean hq) s0.course (hdecl _ hplain.kept hplain.extends)
    exact ⟨s0.trans s1,hdone⟩
  have hvis : Visited p1 p1.finish := (Unstamped.refl p1.store).visited (q := p1.finish) p1.finish_hushed
  refine ⟨⟨e.toGrows.trans gf,k.visited.trans e.toGrows k.restored.trans hvis gf fun _ => objectsOnly_false,
    Pass.finish_idle hcycles hrep,   fun hc hq => (main hc hq).1.finish⟩,fun hc hq => (main hc hq).2,fun hmal => ?_,fun c hcl => ?_⟩
  · simp only [checkDeclared,hmal] at h1
    rw [gives_reportError.mp h1]
    exact Pass.hasError_finish ⟨_,List.mem_cons_self ..⟩
  · simp only [checkDeclared,hcl] at h1
    exact h1.check_stamped

theorem ofRepeat_of_module (h : ofModule d = true) : ofRepeat d = false := by
  unfold ofRepeat
  split <;> first | rfl | contradiction

theorem Tour.report (hp : Idle p) (hd : ofModule d = true) : Tour p {p with reports := d::p.reports} := by
  have k := keeps_report (R := True) (ofRepeat_of_module hd) p () _ (gives_report.mpr rfl)
  refine ⟨k.grows hp.links,k.visited,?_,fun hc _ => ?_⟩
  · exact ⟨hp.links,hp.cycles,fun hr => k.hasError (hp.reported hr)⟩
  · exact hc.resolving k {hc.ready with}

theorem sweep_tour : Sweep Idle Tour where
  refl := .refl
  trans := .trans
  keeps t _ := t.idle
  more t := t.extends
  kept t := t.kept
  tell := .report
  visit hp hi hm ha h := (h.checkDeclared_tour hp hi hm ha).1

theorem Gives.checkAll_tour (h : Gives (Project.checkAll ds) p u q) (hp : Idle p) : Tour p q :=
  (sweep_tour.checkAll h hp).1

end Tours

/-! Whole checks -/

theorem Marker.lt_of_not_before {a b c : Marker} (h : a.before b = false) (k : a.before c = true) : b.before c = true := by
  simp only [Marker.before,decide_eq_false_iff_not,decide_eq_true_eq,UInt64.not_lt] at h k ⊢
  exact UInt64.lt_of_le_of_lt h k

theorem found_earlier {τ : Type} {m n : Marker} {r : Option (Resolution τ)} (hmn : m.before n = true)
    (h : ∀ x, r = some x → m.before x.marker = false) : found n r = none := by
  cases hr : r with
  | none => rfl
  | some x => simp [found,Marker.lt_of_not_before (h x hr) hmn]

theorem NotNewer.stampOf (hmn : m.before n = true) {a : Row t} (h : NotNewer m a) (hk : stampOf a = some k) : k.before n =
    true := by
  cases t with
  | classDef | objectDef => exact Marker.lt_of_not_before (Option.some.inj hk ▸ h) hmn
  | setDef | classRef | objectRef | setRef =>
    exact Marker.lt_of_not_before (Option.some.inj hk ▸ h.1) hmn
  | _ => simp [Check.stampOf] at hk

theorem Bounded.not_stamped {i : Model.Id t} (h : Bounded m s) (hmn : m.before n = true) : ¬ Stamped n s i := by
  rintro ⟨a,k,ha,hk,hst⟩
  rw [(h t i a ha).stampOf hmn hk] at hst
  contradiction

theorem NotNewer.good (hmn : m.before n = true) {a : Row t} (h : NotNewer m a) : RowGood n s i a := by
  cases t with
  | typeRef | valueRef => exact fun x hx => by simp [found_earlier hmn h] at hx
  | classRef | objectRef | setRef | setDef =>
    exact fun x hx => by simp [found_earlier hmn h.2] at hx
  | _ => trivial

theorem DeclaredDone.mono (g : Grows (fun _ => False) p q) (h : DeclaredDone p.marker p.store d) :
    DeclaredDone q.marker q.store d := by
  match d,h with
  | .objectClass (.definition i),h | .objectClass (.reference i),h | .object (.definition i),h
  | .object (.reference i),h | .objectSet (.definition i),h | .objectSet (.reference i),h =>
    exact g.stamped (i := i) h
  | .type t,⟨b,hb⟩ => exact ⟨b,g.typeNow objectsOnly_false hb⟩
  | .value t v,⟨b,l,hb,hl,ha⟩ => exact ⟨b,l,g.typeNow objectsOnly_false hb,g.valueNow objectsOnly_false hl,ha⟩

/-- What a check that finds nothing wrong leaves: every stamp stands for what it says, and every assignment was
checked. -/
structure Finished (p : Pass) : Prop where
  course : Course .none p
  done : ∀ (t : EntityType) (i : Id t), Stamped p.marker p.store i → Done p.marker p.store .none i
  declared : ∀ d, Declares p.store d → DeclaredDone p.marker p.store d

section Whole
variable {p q : Pass} {u : Unit} {ds : List (Id .module)} {m : Marker}

theorem Gives.checkAll_visits (h : Gives (Project.checkAll ds) p u q) (hp : Idle p) (hd : Declares p.store d) : ∃ p' q',
    Tour p p' ∧ Tour p' q' ∧ Tour q' q ∧ (Course .none p' → ¬ q'.hasError → DeclaredDone q'.marker q'.store d) ∧
    (d = .malformed → q'.hasError) ∧ ∀ c, d = .objectClass (.definition c) → Stamped q'.marker q'.store c := by
  obtain ⟨p',q',i,m,n,a,tp,hi,hm,ha,rfl,hg,tq⟩ := (sweep_tour.checkAll h hp).2 d hd
  obtain ⟨t,hspec⟩ := hg.checkDeclared_tour tp.idle hi hm ha
  exact ⟨p',q'.finish,tp,t,tq,hspec⟩

theorem Gives.checkAll_course (h : Gives (Project.checkAll ds) p u q) (hp : Idle p) (hs : Sane p.store)
    (hb : Bounded m p.store) (hm : m.before p.marker = true) (hc : p.conflicts = []) (hq : ¬ q.hasError) : Course .none p := by
  have hfresh : Marker.zero.before p.marker = true := by
    refine Marker.lt_of_not_before (a := m) ?_ hm
    simp [Marker.before,Marker.zero]
  refine ⟨⟨hs,fun hd => ?_,fun c row hd hrow => ?_,?_,fun t i a ha => (hb t i a ha).good hm⟩,hp.links,hfresh,?_,?_⟩
  · obtain ⟨p',q',_,_,tq,_,herr,_⟩ := h.checkAll_visits hp hd
    exact hq (tq.hasError (herr rfl))
  · obtain ⟨p',q',_,_,tq,_,_,hst⟩ := h.checkAll_visits hp hd
    have hstq := tq.stamped (hst c rfl)
    obtain ⟨row',hrow',hbare⟩ := (h.checkAll_tour hp).extends.rows _ c row hrow
    rw [(h.checkAll_tour hp).marker] at hstq
    rcases (h.checkAll_tour hp).visited.classes hfresh c row' hrow' hstq with hold | hformed | he
    · exact absurd hold (hb.not_stamped hm)
    · exact hformed.of_bare hbare.symm
    · exact absurd he hq
  · rintro k ⟨l,hl,_⟩
    simp [hp.links] at hl
  · simp [hc]
  · exact fun _ _ hw => hw.elim

/-- A whole check that finds nothing wrong establishes all there is. -/
theorem Gives.checkAll_finished (h : Gives (Project.checkAll ds) p u q) (hp : Idle p) (hs : Sane p.store)
    (hb : Bounded m p.store) (hm : m.before p.marker = true) (hc : p.conflicts = []) (hq : ¬ q.hasError) : Finished q := by
  have hcourse := h.checkAll_course hp hs hb hm hc hq
  have t := h.checkAll_tour hp
  have s := t.step hcourse hq
  refine ⟨s.course,fun u i hi => ?_,fun d hd => ?_⟩
  · exact (s.settles u i hi).resolve_left (hb.not_stamped hm)
  · obtain ⟨p',q',tp,tm,tq,hdone,_⟩ := h.checkAll_visits hp (hd.back t.stays hs)
    have hq' : ¬ q'.hasError := fun he => hq (tq.hasError he)
    have hp' := tp.step hcourse fun he => hq' (tm.hasError he)
    exact (hdone hp'.course hq').mono tq.toGrows

end Whole

end InfoObject.Check
