import InfoObject.Proofs.DeferredBlocks
import InfoObject.Proofs.Sorting
import InfoObject.Proofs.Termination

/-! What a project sends to its sink and to its emitter, over any additions, invalidations and checks. -/
namespace InfoObject.Model
open Check

/-! The definitions of a module are apart -/

def Definition.declared : Definition → Declared
  | .objectClass c => .objectClass (.definition c)
  | .object o => .object (.definition o)
  | .objectSet d => .objectSet (.definition d)

theorem Assignment.definition?_eq_some {a : Assignment} : a.definition? = some d ↔ a.declared = d.declared := by
  unfold definition?
  split <;> cases d <;> simp_all [Definition.declared]

theorem Definition.exists_key (d : Definition) : ∃ k, k ∈ d.declared.keys := by
  cases d <;> exact ⟨_,List.mem_cons_self⟩

theorem DeclaredApart.definitions_nodup {m : Module} (h : DeclaredApart m.assignments) : m.definitions.Nodup := by
  refine List.Pairwise.filterMap _ ?_ h
  rintro a b hab d hd _ hd' rfl
  obtain ⟨k,hk⟩ := d.exists_key
  exact hab k (Assignment.definition?_eq_some.mp hd ▸ hk) (Assignment.definition?_eq_some.mp hd' ▸ hk)

end InfoObject.Model

namespace InfoObject.Check

theorem Marker.zero_before {m : Marker} (h : m.value.toNat+1 < 2^64) : Marker.zero.before m.next = true := by
  simp only [Marker.before,Marker.zero,UInt64.lt_iff_toNat_lt,Marker.toNat_next h,decide_eq_true_eq]
  exact Nat.succ_pos _

theorem Marker.before_of_not_before {m k : Marker} (h : m.value.toNat+1 < 2^64) (hk : m.before k = false) :
    k.before m.next = true := by
  simp only [Marker.before,decide_eq_true_eq,decide_eq_false_iff_not,UInt64.lt_iff_toNat_lt,
    Marker.toNat_next h] at hk ⊢
  omega

theorem Marker.not_before_of_before {m k : Marker} (h : k.before m = true) : m.before k = false := by
  simp only [Marker.before,decide_eq_true_eq,decide_eq_false_iff_not,UInt64.lt_iff_toNat_lt] at h ⊢
  omega

end InfoObject.Check

namespace InfoObject
open Model

/-- One call of an emitter, with its answer. -/
structure Delivery where
  definition : Definition
  marker : Marker
  refusal : Option String

/-- The same emitter, which also notes its calls. -/
def Emitter.recorded {σ : Type} (e : Emitter σ) : Emitter (σ × List Delivery) where
  emit s d m st := match e.emit s d m st.1 with
    | (state,refusal) => ((state,st.2++[⟨d,m,refusal⟩]),refusal)

theorem Emitter.recorded_emit {e : Emitter σ} (h : e.emit s d m st = (st',refusal))
    (calls : List Delivery) : e.recorded.emit s d m (st,calls) = ((st',calls++[⟨d,m,refusal⟩]),refusal) := by
  simp only [recorded,h]

end InfoObject

namespace InfoObject.Project
open Model Check

/-! The definitions of a project are apart -/

/-- No module in use declares a definition twice. -/
def Apart (s : Store) : Prop := ∀ i ∈ s.kept, ∀ m, s.get? i = some m → m.definitions.Nodup

theorem definitions_of_bare {m n : Module} (h : n.bare = m.bare) : n.definitions = m.definitions := by
  have hbare : ∀ x : Module, x.definitions = (x.assignments.map Assignment.bare).filterMap Assignment.definition? := by
    intro x
    rw [List.filterMap_map]
    rfl
  rw [hbare,hbare,(Module.bare_eq_iff.mp h).2.2.1]

section Apart
variable {s s' : Store}

theorem Apart.extends (h : Apart s) (hk : ∀ i ∈ s.kept, Known s i.key) (e : Extends s s') (heq : s'.kept = s.kept) :
    Apart s' := by
  intro i hi n hn
  rw [heq] at hi
  obtain ⟨m,hm⟩ := (hk i hi).row
  obtain ⟨n',hn',hb⟩ := e.rows .module i m hm
  cases hn'.symm.trans hn
  rw [definitions_of_bare hb]
  exact h i hi m hm

theorem Apart.add (h : Apart p.store) (hp : Steady p) (hq : p.addModule node = .ok (k,q)) : Apart q.store := by
  obtain ⟨i,s,m,l,ds,ha⟩ := addModule_adds hq
  obtain ⟨hload,_,hapart⟩ := Makes.newModule ha.makes
  have hkept : s.kept = p.store.kept := hload.gained.kept
  rw [ha.result]
  intro j hj m hm
  rcases ha.placed.kept hj with hj | rfl
  · obtain ⟨n,hn⟩ := (hp.kept j (hkept ▸ hj)).row
    obtain rfl : n = m := Option.some.inj ((hload.gained.old .module j n hn).symm.trans hm)
    exact h j (hkept ▸ hj) n hn
  · exact (hapart m hm).definitions_nodup

theorem Reached.apart (h : Reached n p) : Apart p.store := by
  induction h with
  | new => exact nofun
  | add h hq ih => exact ih.add h.steady hq
  | invalidate _ ih => exact ih
  | check h hc ih =>
    rcases check_cases hc with ⟨_,r,_,rfl⟩ | ⟨c',hrun,hf⟩
    · exact ih
    · obtain ⟨q,hq,rfl⟩ := runCheck_eq_ok.mp hrun
      have t := hq.checkAll_tour (startPass_idle _)
      rw [hf.store]
      exact ih.extends h.steady.kept t.extends t.kept

theorem definition_home (h : DeclaredIn s i d.declared) : isErroneous s d = false ∧ ∀ j, DeclaredIn s j d.declared → i = j := by
  cases d
  all_goals
    obtain ⟨row,hrow,herr,hmod,_⟩ := h
    refine ⟨by simp [isErroneous,hrow,herr],?_⟩
    rintro j ⟨row',hrow',_,hmod',_⟩
    cases hrow.symm.trans hrow'
    exact Option.some.inj (hmod.symm.trans hmod')

theorem mem_definitions (hs : Sane s) (hm : s.get? i = some m) (h : d ∈ m.definitions) : DeclaredIn s i d.declared := by
  obtain ⟨a,ha,hd⟩ := List.mem_filterMap.mp h
  exact Assignment.definition?_eq_some.mp hd ▸ (hs.modules i m hm).declared a ha

theorem not_isErroneous (hs : Sane s) (h : d ∈ definitions s) : isErroneous s d = false := by
  obtain ⟨m,hm,hd⟩ := List.mem_flatMap.mp h
  obtain ⟨i,_,hm⟩ := List.mem_filterMap.mp hm
  exact (definition_home (mem_definitions hs hm hd)).1

theorem definitions_nodup (hs : Sane s) (h : Apart s) : (definitions s).Nodup := by
  refine List.nodup_flatMap.mpr ⟨fun m hm => ?_,List.Pairwise.filterMap _ ?_ hs.shelf.distinct⟩
  · obtain ⟨i,hi,hm⟩ := List.mem_filterMap.mp hm
    exact h i hi m hm
  · intro i j hij m hm n hn d hd hd'
    exact hij ((definition_home (mem_definitions hs hm hd)).2 j (mem_definitions hs hn hd'))

end Apart

/-! Handing over -/

/-- Definitions are handed over in order, up to the first that is refused. -/
inductive HandedOver (m : Marker) : List Definition → List Delivery → Option String → Prop
  | done : HandedOver m [] [] none
  | accepted {d : Definition} {ds : List Definition} {calls : List Delivery} {refusal : Option String}
      (h : HandedOver m ds calls refusal) : HandedOver m (d::ds) (⟨d,m,none⟩::calls) refusal
  | refused {d : Definition} {ds : List Definition} {reason : String} :
      HandedOver m (d::ds) [⟨d,m,some reason⟩] (some reason)

section Emission
variable {σ : Type} {e : Emitter σ} {s : Store} {m : Marker}

theorem lastEmitted_before (hm : Marker.zero.before m = true) (hl : ∀ x ∈ l, x.1 = d → x.2.before m = true) :
    (lastEmitted l d).before m = true := by
  unfold lastEmitted
  cases hd : l.lookup d with
  | none => exact hm
  | some k =>
    obtain ⟨l₁,l₂,rfl,_⟩ := List.lookup_eq_some_iff.mp hd
    exact hl (d,k) (by simp) rfl

/-- Handing over stamps a definition first, which does not keep a different one from being handed over. -/
theorem emitAll_recorded (hm : Marker.zero.before m = true) (hds : ds.Nodup) (hsound : ∀ d ∈ ds, isErroneous s d = false)
    (hl : ∀ x ∈ l, x.1 ∈ ds → x.2.before m = true) (st : σ) (calls : List Delivery) : ∃ l' st' calls' refusal,
    emitAll e.recorded s m ds l (st,calls) = (l',(st',calls++calls'),refusal) ∧ HandedOver m ds calls' refusal ∧ ∀ x ∈ l',
    x ∈ l ∨ x.2 = m := by
  induction ds generalizing l st calls with
  | nil => exact ⟨l,st,[],none,by simp [emitAll],.done,fun x hx => .inl hx⟩
  | cons d ds ih =>
    obtain ⟨hd,hds⟩ := List.nodup_cons.mp hds
    have hemit : shouldEmit s m l d = true := by
      simp only [shouldEmit,hsound d (by simp),Bool.not_false,Bool.true_and]
      exact lastEmitted_before hm fun x hx hxd => hl x hx (hxd ▸ List.mem_cons_self)
    have hstamped : ∀ x ∈ (d,m)::l.filter (·.1 ≠ d), x ∈ l ∨ x = (d,m) := by
      intro x hx
      rcases List.mem_cons.mp hx with rfl | hx
      · exact .inr rfl
      · exact .inl (List.mem_of_mem_filter hx)
    cases hanswer : e.emit s d m st with
    | mk st' refusal =>
      have hrecorded := Emitter.recorded_emit hanswer calls
      unfold emitAll
      simp only [hemit,if_true,hrecorded]
      cases refusal with
      | some reason =>
        refine ⟨_,st',_,_,rfl,.refused,fun x hx => ?_⟩
        rcases hstamped x hx with h | rfl
        · exact .inl h
        · exact .inr rfl
      | none =>
        obtain ⟨l',st'',calls',refusal,heq,hover,hl'⟩ := ih hds (fun x hx => hsound x (List.mem_cons_of_mem d hx))
          (l := (d,m)::l.filter (·.1 ≠ d)) (fun x hx hxd => by
            rcases hstamped x hx with h | rfl
            · exact hl x h (List.mem_cons_of_mem d hxd)
            · exact absurd hxd hd) st' (calls++[⟨d,m,none⟩])
        refine ⟨l',st'',_,refusal,?_,.accepted hover,fun x hx => ?_⟩
        · rw [List.append_cons calls _ calls']
          exact heq
        · rcases hl' x hx with h | h
          · rcases hstamped x h with h | rfl
            · exact .inl h
            · exact .inr rfl
          · exact .inr h

/-- What becomes of a check that was run: a failed one is kept as it is, and the definitions of any other are handed over. -/
theorem emitChecked_recorded (hr : c.project.result = some c.result) (hnone : c.result.emitError = none)
    (hm : Marker.zero.before c.result.marker = true) (hds : (definitions c.project.store).Nodup)
    (hsound : ∀ d ∈ definitions c.project.store, isErroneous c.project.store d = false)
    (hl : ∀ x ∈ c.project.emissions, x.2.before c.result.marker = true) (st : σ)
    (calls : List Delivery) : ∃ l refusal st' calls', emitChecked e.recorded c (st,calls) =
    (⟨{c.project with result := some {c.result with emitError := refusal}, emissions := l},
    {c.result with emitError := refusal},c.reports⟩,st',calls++calls') ∧
    (c.result.failed = true → st' = st ∧ calls' = [] ∧ refusal = none) ∧
    (c.result.failed = false → HandedOver c.result.marker (definitions c.project.store) calls' refusal) ∧ ∀ x ∈ l,
    x ∈ c.project.emissions ∨ x.2 = c.result.marker := by
  unfold emitChecked
  cases hfailed : c.result.failed with
  | true =>
    refine ⟨c.project.emissions,none,st,[],?_,fun _ => ⟨rfl,rfl,rfl⟩,nofun,fun x hx => .inl hx⟩
    have hsame : {c.result with emitError := none} = c.result := by rw [← hnone]
    simp only [if_true,List.append_nil,hsame,← hr]
  | false =>
    obtain ⟨l,st',calls',refusal,heq,hover,hl'⟩ := emitAll_recorded (e := e) hm hds hsound (fun x hx _ => hl x hx) st calls
    refine ⟨l,refusal,st',calls',?_,nofun,fun _ => hover,hl'⟩
    simp only [Bool.false_eq_true,if_false,heq]

end Emission

/-! Sessions -/

/-- What is asked of a project. -/
inductive Request
  | add (node : Notation.Module)
  | invalidate
  | check

def Request.isCheck : Request → Bool
  | .check => true
  | _ => false

/-- A project with what it sent to its sink and to its emitter so far, and the results of its checks. -/
structure Session (σ : Type) where
  project : Project
  sink : List Diagnostic
  state : σ
  deliveries : List Delivery
  results : List CheckResult

namespace Session
variable {σ : Type}

def start (warningsAsErrors : Bool) (state : σ) : Session σ := ⟨new warningsAsErrors,[],state,[],[]⟩

def act (e : Emitter σ) (x : Session σ) : Request → Except Check.Stuck (Session σ)
  | .add node => do
    let (_,project) ← x.project.addModule node
    pure {x with project}
  | .invalidate => .ok {x with project := x.project.invalidate}
  | .check => do
    let (c,state,deliveries) ← x.project.check (some e.recorded) (x.state,x.deliveries)
    pure ⟨c.project,x.sink++c.reports,state,deliveries,x.results++[c.result]⟩

/-- A check that starts a generation, from one session to the next. -/
structure Advances (x : Session σ) (r : CheckResult) (y : Session σ) : Prop where
  newer : ∀ r' ∈ x.results, r'.marker.before r.marker = true
  strictness : r.warningsAsErrors = x.project.warningsAsErrors
  reported : ∃ reports, y.sink = x.sink++reports ∧
    StableSort CheckError.location (reports.filterMap Diagnostic.error?) r.errors ∧
    StableSort Warning.location (reports.filterMap Diagnostic.warning?) r.warnings
  withheld : r.failed = true → y.state = x.state ∧ y.deliveries = x.deliveries ∧ r.emitError = none
  apart : (definitions y.project.store).Nodup
  handed : r.failed = false → ∃ calls, y.deliveries = x.deliveries++calls ∧
    HandedOver r.marker (definitions y.project.store) calls r.emitError

/-- A check that gives the last result again, and changes nothing. -/
structure Repeats (x : Session σ) (r : CheckResult) (y : Session σ) : Prop where
  result : x.results.getLast? = some r
  project : y.project = x.project
  sink : y.sink = x.sink
  state : y.state = x.state
  deliveries : y.deliveries = x.deliveries

/-- What holds of a session after some number of checks, of which the last may be the last that was asked for. -/
structure Runs (n : Nat) (strict checked : Bool) (x : Session σ) : Prop where
  reached : Reached n x.project
  strictness : x.project.warningsAsErrors = strict
  results : ∀ r ∈ x.results, x.project.marker.before r.marker = false
  emissions : ∀ d ∈ x.project.emissions, x.project.marker.before d.2 = false
  dirty : x.project.dirty = !checked
  last : checked = true → ∃ r, x.project.result = some r ∧ x.results.getLast? = some r

theorem Runs.start (strict : Bool) (state : σ) : Runs 0 strict false (start strict state) :=
  ⟨.new _,rfl,nofun,nofun,rfl,nofun⟩

section Step
variable {e : Emitter σ} {n : Nat} {strict checked : Bool} {x : Session σ}

theorem Runs.advance (h : Runs n strict false x) (hn : n+1 < 2^64) :
    ∃ r y, x.act e .check = .ok y ∧ y.results = x.results++[r] ∧ Advances x r y ∧ Runs (n+1) strict true y := by
  obtain ⟨c,hrun,_⟩ := h.reached.steady.runCheck
  have hsound := h.reached.sound (Nat.lt_of_succ_lt hn)
  have hm : x.project.marker.value.toNat+1 < 2^64 := Nat.lt_of_le_of_lt (Nat.succ_le_succ hsound.marker) hn
  obtain ⟨q,hq,rfl⟩ := runCheck_eq_ok.mp hrun
  have t := hq.checkAll_tour (startPass_idle _)
  have hmarker : q.marker = x.project.marker.next := t.marker
  have hcheck : x.project.check (some e.recorded) (x.state,x.deliveries) =
      .ok (emitChecked e.recorded (x.project.checkedBy q) (x.state,x.deliveries)) := by
    unfold Project.check
    rw [h.dirty,hrun]
    rfl
  have hsane : Sane q.store := (hsound.runCheck hn hrun).sane
  have hapart := definitions_nodup hsane (h.reached.apart.extends h.reached.steady.kept t.extends t.kept)
  have holder : ∀ {k : Marker}, x.project.marker.before k = false → k.before q.marker = true := fun hk =>
    hmarker ▸ Marker.before_of_not_before hm hk
  obtain ⟨l,refusal,st,calls,heq,hfailed,hover,hl⟩ := emitChecked_recorded (e := e) (c := x.project.checkedBy q) rfl rfl
    (hmarker ▸ Marker.zero_before hm : Marker.zero.before q.marker = true) hapart (fun d hd => not_isErroneous hsane hd)
    (fun d hd => holder (h.emissions d hd)) x.state x.deliveries
  rw [heq] at hcheck
  have hreached := h.reached.check hcheck
  refine ⟨{(x.project.checkedBy q).result with emitError := refusal},
    ⟨_,x.sink++(x.project.checkedBy q).reports,st,x.deliveries++calls,_⟩,by simp only [act,hcheck]; rfl,rfl,?_,?_⟩
  · exact {
      newer := fun r' hr' => holder (h.results r' hr')
      strictness := rfl
      reported := ⟨_,rfl,stableSort_sortErrors _,stableSort_sortWarnings _⟩
      withheld := fun hf => by
        obtain ⟨rfl,rfl,rfl⟩ := hfailed hf
        exact ⟨rfl,List.append_nil _,rfl⟩
      apart := hapart
      handed := fun hf => ⟨calls,rfl,hover hf⟩}
  · have hself : q.marker.before q.marker = false := by simp [Marker.before]
    refine ⟨hreached,h.strictness,fun r hr => ?_,fun d hd => ?_,rfl,fun _ => ⟨_,rfl,List.getLast?_concat⟩⟩
    · rcases List.mem_append.mp hr with hr | hr
      · exact Marker.not_before_of_before (holder (h.results r hr))
      · rw [List.mem_singleton.mp hr]
        exact hself
    · rcases hl d hd with hd | hd
      · exact Marker.not_before_of_before (holder (h.emissions d hd))
      · exact (congrArg q.marker.before hd).trans hself

theorem Runs.repeat (h : Runs n strict true x) :
    ∃ r y, x.act e .check = .ok y ∧ y.results = x.results++[r] ∧ Repeats x r y ∧ Runs (n+1) strict true y := by
  obtain ⟨r,hr,hlast⟩ := h.last rfl
  have hcheck : x.project.check (some e.recorded) (x.state,x.deliveries) =
      .ok (⟨x.project,r,[]⟩,(x.state,x.deliveries)) := by
    unfold Project.check
    rw [h.dirty,hr]
    rfl
  have hmem : r ∈ x.results := List.mem_of_getLast? hlast
  refine ⟨r,⟨x.project,x.sink++[],x.state,x.deliveries,x.results++[r]⟩,by simp only [act,hcheck]; rfl,rfl,
    ⟨hlast,rfl,List.append_nil _,rfl,rfl⟩,h.reached.check hcheck,h.strictness,fun r' hr' => ?_,h.emissions,h.dirty,
    fun _ => ⟨r,hr,List.getLast?_concat⟩⟩
  rcases List.mem_append.mp hr' with hr' | hr'
  · exact h.results r' hr'
  · exact List.mem_singleton.mp hr' ▸ h.results r hmem

theorem Runs.act (h : Runs n strict checked x) (hn : n+1 < 2^64) (a : Request) :
    ∃ y, x.act e a = .ok y ∧ Runs (n+if a.isCheck then 1 else 0) strict a.isCheck y := by
  cases a with
  | add node =>
    obtain ⟨k,q,hq⟩ := addModule_ok h.reached.sane node
    have hadded := h.reached.add hq
    obtain ⟨_,_,_,_,_,ha⟩ := addModule_adds hq
    refine ⟨{x with project := q},by simp only [Session.act,hq]; rfl,?_⟩
    rw [ha.result] at hadded ⊢
    exact ⟨hadded,h.strictness,h.results,h.emissions,rfl,nofun⟩
  | invalidate => exact ⟨_,rfl,h.reached.invalidate,h.strictness,h.results,h.emissions,rfl,nofun⟩
  | check =>
    cases checked with
    | false =>
      obtain ⟨r,y,hy,_,_,hruns⟩ := h.advance hn
      exact ⟨y,hy,hruns⟩
    | true =>
      obtain ⟨r,y,hy,_,_,hruns⟩ := h.repeat
      exact ⟨y,hy,hruns⟩

theorem Runs.acts (strict : Bool) (state : σ) (l : List Request) (hl : (l.filter Request.isCheck).length+1 < 2^64) :
    ∃ x, l.foldlM (Session.act e) (Session.start strict state) = .ok x ∧
      Runs (l.filter Request.isCheck).length strict (l.getLast?.any Request.isCheck) x := by
  induction l using List.reverseRecOn with
  | nil => exact ⟨_,rfl,.start strict state⟩
  | append_singleton l a ih =>
    have hlen : ((l++[a]).filter Request.isCheck).length = (l.filter Request.isCheck).length+if a.isCheck then 1 else 0 := by
      rw [List.filter_append,List.length_append]
      cases ha : a.isCheck <;> simp [ha]
    obtain ⟨x,hx,hruns⟩ := ih (by omega)
    obtain ⟨y,hy,hruns⟩ := hruns.act (e := e) (by omega) a
    refine ⟨y,?_,?_⟩
    · rw [List.foldlM_append,hx]
      simp only [List.foldlM_cons,List.foldlM_nil,bind,Except.bind,hy,pure,Except.pure]
    · rw [hlen,List.getLast?_concat]
      exact hruns

end Step

end Session

/-- Whatever was asked of a project with a sink and an emitter, a check is answered. If the last thing asked for was a check,
it gives that result again, and nothing is sent or changed. Otherwise it has a newer marker than all before, what it
reports is what its result lists, and unless it failed the emitter is given the definitions of the modules in use, in their
order and once each, up to the first that it refuses. -/
theorem check_once {σ : Type} (e : Emitter σ) (warningsAsErrors : Bool) (state : σ) (l : List Request)
    (hl : (l.filter Request.isCheck).length+1 < 2^64) :
    ∃ x r y, l.foldlM (Session.act e) (Session.start warningsAsErrors state) = .ok x ∧ x.act e .check = .ok y ∧
      y.results = x.results++[r] ∧ ((l.getLast?.any Request.isCheck) = true → Session.Repeats x r y) ∧
      ((l.getLast?.any Request.isCheck) = false → Session.Advances x r y ∧ r.warningsAsErrors = warningsAsErrors) := by
  obtain ⟨x,hx,hruns⟩ := Session.Runs.acts (e := e) warningsAsErrors state l hl
  cases hlast : l.getLast?.any Request.isCheck with
  | true =>
    rw [hlast] at hruns
    obtain ⟨r,y,hy,hr,hrep,_⟩ := hruns.repeat (e := e)
    exact ⟨x,r,y,hx,hy,hr,fun _ => hrep,nofun⟩
  | false =>
    rw [hlast] at hruns
    obtain ⟨r,y,hy,hr,hadv,_⟩ := hruns.advance (e := e) hl
    exact ⟨x,r,y,hx,hy,hr,nofun,fun _ => ⟨hadv,hadv.strictness.trans hruns.strictness⟩⟩

/-- Refuses its second call, and no other. -/
def narrowEmitter : Emitter Nat := ⟨fun _ _ _ taken => (taken+1,if taken = 1 then some "full" else none)⟩

def oneObject : List UInt8 :=
  Utf8.ofString "M DEFINITIONS ::= BEGIN C ::= CLASS { &n INTEGER } o C ::= { &n 1 } END"

theorem check_once_oneObject : ∃ m x r y, Notation.Module.parse oneObject "m.asn" = .ok m ∧
    [.add m,.check,.check,.invalidate].foldlM (Session.act narrowEmitter) (Session.start true 0) = .ok x ∧
    x.results.map CheckResult.emitError = [some "full",some "full"] ∧ x.act narrowEmitter .check = .ok y ∧
    y.results = x.results++[r] ∧ Session.Advances x r y ∧ y.deliveries.length = x.deliveries.length+2 := by
  have hrun : (Notation.Module.parse oneObject "m.asn").toOption.any (fun m =>
      ([.add m,.check,.check,.invalidate].foldlM (Session.act narrowEmitter) (Session.start true 0)).toOption.any fun x =>
        x.results.map CheckResult.emitError == [some "full",some "full"] &&
          (x.act narrowEmitter .check).toOption.any fun y => y.deliveries.length == x.deliveries.length+2) = true := by
    decide +kernel
  obtain ⟨m,hm,hrun⟩ := Notation.exists_of_toOption_any hrun
  obtain ⟨x,hx,hrun⟩ := Notation.exists_of_toOption_any hrun
  obtain ⟨hrefused,hrun⟩ := (Bool.and_eq_true _ _).mp hrun
  obtain ⟨y,hy,hlength⟩ := Notation.exists_of_toOption_any hrun
  obtain ⟨x',r,y',hx',hy',hr,_,hadv⟩ := check_once narrowEmitter true 0 [.add m,.check,.check,.invalidate]
    (show 2+1 < 2^64 by decide)
  obtain rfl := Except.ok.inj (hx.symm.trans hx')
  obtain rfl := Except.ok.inj (hy.symm.trans hy')
  exact ⟨m,x,r,y,hm,hx,eq_of_beq hrefused,hy,hr,(hadv rfl).1,eq_of_beq hlength⟩

end InfoObject.Project
