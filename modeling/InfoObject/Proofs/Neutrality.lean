import InfoObject.Proofs.Soundness
import InfoObject.Proofs.Termination

/-! Calls, and what they leave of the chain. -/
namespace InfoObject

/-- A chain as a call leaves it. -/
structure Chain.Restored (c d : Chain) : Prop where
  links : d.links = c.links
  marks : d.marks = c.marks
  errorMarks : d.errorMarks = c.errorMarks
  cycles : c.cycles <+: d.cycles

/-- Nothing is under resolution, and there is nothing to go back to. -/
structure Chain.Vacant (c : Chain) : Prop where
  links : c.links = []
  marks : c.marks = []
  errorMarks : c.errorMarks = []

theorem Chain.Restored.vacant {c d : Chain} (h : c.Restored d) (hc : c.Vacant) : d.Vacant :=
  ⟨h.links.trans hc.links,h.marks.trans hc.marks,h.errorMarks.trans hc.errorMarks⟩

end InfoObject

namespace InfoObject.Check
open Model

theorem Kept.restores (h : Kept R p q) : p.chain.Restored q.chain := by
  obtain ⟨l,hl,_⟩ := h.cycles
  exact ⟨h.restored,h.marks,h.errorMarks,l,hl.symm⟩

/-! Calls -/

/-- What can be asked for during a pass. -/
inductive Call
  | type (i : Id .typeRef)
  | value (v : ValueExpr)
  | objectClass (c : ClassExpr)
  | object (o : ObjectExpr)
  | set (s : SetExpr)
  | flatten (i : Id .setDef)
  | checkClassRef (i : Id .classRef)
  | checkObjectRef (i : Id .objectRef)
  | checkSetRef (i : Id .setRef)
  | checkValue (v : ValueExpr) (t : Id .typeRef) (l : Location)
  | check (g : Goal)
  | checkSetting (s : Setting) (f : Field)
  | checkFields (i : Id .classDef)
  | checkUnique (c : Id .classDef) (os : List (Id .objectDef))
  | checkDeclared (a : Assignment)

namespace Call

/-- A call that may call for others down to the depth `n`. -/
def within (n : Nat) : Call → Checking Unit
  | type i => do let _ ← typeWithin n i
  | value v => do let _ ← valueWithin n v
  | objectClass c => do let _ ← classWithin n c
  | object o => do let _ ← objectWithin n o
  | set s => do let _ ← setWithin n s
  | flatten i => do let _ ← flattenWithin n i
  | checkClassRef i => Check.checkClassRef i
  | checkObjectRef i => Check.checkObjectRef i
  | checkSetRef i => Check.checkSetRef i
  | checkValue v t l => Check.checkValue v t l
  | check g => checkWithin n g
  | checkSetting s f => Check.checkSetting (checkWithin n) s f
  | checkFields i => do Check.checkFields (checkWithin n) i (← load i)
  | checkUnique c os => Check.checkUnique (checkWithin n) c os
  | checkDeclared a => Check.checkDeclared a

def keys : Call → List Nat
  | type i => [i.key]
  | value v => v.key?.toList
  | objectClass c => [c.key]
  | object o => [o.key]
  | set s => [s.key]
  | flatten i => [i.key]
  | checkClassRef i => [i.key]
  | checkObjectRef i => [i.key]
  | checkSetRef i => [i.key]
  | checkValue v t _ => t.key::v.key?.toList
  | check g => [g.key]
  | checkSetting s f => s.value.key?.toList++f.shape.key?.toList
  | checkFields i => [i.key]
  | checkUnique c os => c.key::os.map Id.key
  | checkDeclared a => a.declared.keys

theorem restores (c : Call) (n : Nat) (h : Gives (c.within n) p () q) : p.chain.Restored q.chain := by
  have go := keeps_checkWithin n
  have kept {m : Checking Unit} (hk : Keeps False m) (h : Gives m p () q) : p.chain.Restored q.chain := (hk _ _ _ h).restores
  cases c with
  | checkFields i =>
    simp only [within,checkFields_eq,gives_bind,gives_load] at h
    obtain ⟨c,_,⟨_,rfl⟩,_,_,hdup,h⟩ := h
    obtain ⟨ds,_,rfl⟩ := hdup.reportDuplicates_all
    exact ((Keeps.forM fun j _ => (keeps_checkField go i j).restoringChain) _ _ _ h).restores
  | type i => exact kept ((keeping.typeWithin n i).weaken.bind fun _ => .pure _) h
  | value v => exact kept ((keeping.valueWithin n v).weaken.bind fun _ => .pure _) h
  | objectClass e => exact kept (((keeping.within n).1 e).weaken.bind fun _ => .pure _) h
  | object o => exact kept (((keeping.within n).2 o).weaken.bind fun _ => .pure _) h
  | set s => exact kept ((keeping.setWithin n s).weaken.bind fun _ => .pure _) h
  | flatten i => exact kept ((keeps_flattenWithin n i).weaken.bind fun _ => .pure _) h
  | checkClassRef i => exact kept (keeps_checkClassRef i) h
  | checkObjectRef i => exact kept (keeps_checkObjectRef i) h
  | checkSetRef i => exact kept (keeps_checkSetRef i) h
  | checkValue v t l => exact kept (keeps_checkValue v t l) h
  | check g => exact kept (go g) h
  | checkSetting s f => exact kept (keeps_checkSetting go s f) h
  | checkUnique e os => exact kept (keeps_checkUnique go e os) h
  | checkDeclared a => exact kept (keeps_checkDeclared a) h

theorem ends (c : Call) (hp : Fit w p) (hc : ∀ k ∈ c.keys, Known p.store k) : Ends (c.within p.budget) w p Whatever := by
  have hample := hp.ample
  have go : ChecksEnd p.budget (checkWithin p.budget) := ⟨keeps_checkWithin _,fun g => ends_checkWithin p.budget g⟩
  have hw : w < p.budget := by omega
  cases c with
  | type i => exact (ends_typeWithin hp (hc _ (by simp [keys])) (by omega)).drop
  | value v => exact (ends_valueWithin hp (fun k hk => hc k (by simpa [keys] using hk)) (by omega)).drop
  | objectClass e => exact ((ends_within _ hp).1 (hc _ (by simp [keys])) (by omega)).drop
  | object o => exact ((ends_within _ hp).2 (hc _ (by simp [keys])) (by omega)).drop
  | set s => exact (ends_setWithin hp (hc _ (by simp [keys])) (by omega)).drop
  | flatten i => exact (ends_flattenWithin hp (hc _ (by simp [keys])) (by omega)).drop
  | checkClassRef i => exact ends_checkClassRef hp (hc _ (by simp [keys]))
  | checkObjectRef i => exact ends_checkObjectRef hp (hc _ (by simp [keys]))
  | checkSetRef i => exact ends_checkSetRef hp (hc _ (by simp [keys]))
  | checkValue v t l =>
    exact (ending w).checkValue (heldKnown_value.mpr fun k hk => hc k (by simp [keys,Option.mem_def.mp hk]))
      (heldKnown_type.mpr (hc _ (by simp [keys]))) trivial p rfl hp
  | check g => exact go.ends g hw hp (hc _ (by simp [keys]))
  | checkSetting s f =>
    exact (ending w).checkSetting go.keeps (go.meets hw) (fun _ k hk => hc k (by simp [keys,Option.mem_def.mp hk]))
      (shape_known fun k hk => hc k (by simp [keys,Option.mem_def.mp hk])) trivial p rfl hp
  | checkFields i =>
    refine .bind hp (ends_load (t := .classDef) hp (hc _ (by simp [keys]))) fun c q _ hq hrow => ?_
    exact ends_checkFields go hw hq hrow.2 rfl
  | checkUnique e os =>
    exact (ending w).checkUnique (go.meets hw) (hc e.key (by simp [keys]))
      (fun o ho => heldKnown_object.mpr (hc o.key (by simp [keys]; exact .inr ⟨o,ho,rfl⟩))) p rfl hp
  | checkDeclared a => exact ends_checkDeclared hp hc

end Call

/-! Whole checks -/

theorem keeps_visitAssignment (i : Id .module) (n : Nat) : Keeps False (visitAssignment i n) := by
  intro p u q h
  obtain ⟨m,a,hm,_,h⟩ := gives_visitAssignment.mp h
  exact (Kept.of_plain (.stampAssignment hm n)).trans (keeps_checkDeclared a _ _ _ h)

theorem sweep_vacant : Sweep Idle fun p q => Tour p q ∧ (p.chain.Vacant → q.chain.Vacant) where
  refl hp := ⟨.refl hp,id⟩
  trans h k := ⟨h.1.trans k.1,k.2 ∘ h.2⟩
  keeps h _ := h.1.idle
  more h := h.1.extends
  kept h := h.1.kept
  tell hp hd := ⟨.report hp hd,id⟩
  visit hp hi hm ha h := ⟨sweep_tour.visit hp hi hm ha h,fun _ => ⟨rfl,rfl,rfl⟩⟩

/-! The moments at which an assignment is done with -/

/-- A check up to the assignment `n` of the module `i`, which follows `modules`. The chain is left as the assignment leaves it. -/
def checkUpTo (duplicates modules : List (Id .module)) (i : Id .module) (n : Nat) : Checking Unit := do
  duplicates.forM Project.reportDuplicate
  modules.forM checkModule
  let m ← load i
  m.assignments.zipIdx.forM fun (a,k) => checkName m a k
  m.imports.forM (checkImport m)
  (List.range n).forM (checkAssignment i)
  visitAssignment i n

/-- The rest of a check: the chain is emptied, and the other assignments and modules follow. -/
def checkOnFrom (i : Id .module) (n : Nat) (modules : List (Id .module)) : Checking Unit := do
  finishAssignment
  (List.range' (n+1) ((← load i).assignments.length-(n+1))).forM (checkAssignment i)
  let m ← load i
  m.imports.forM (checkUse m)
  modules.forM checkModule

section Moments
variable {α : Type} {p q r : Pass} {u : Unit}

theorem gives_forM_append {xs ys : List α} : Gives ((xs++ys).forM f) p v r ↔ ∃ q, Gives (xs.forM f) p () q ∧
    Gives (ys.forM f) q () r := by
  induction xs generalizing p with
  | nil =>
    constructor
    · exact fun h => ⟨p,gives_forM_nil.mpr rfl,h⟩
    · rintro ⟨q,hq,h⟩
      exact gives_forM_nil.mp hq ▸ h
  | cons x xs ih =>
    simp only [List.cons_append,gives_forM_cons,ih]
    constructor
    · rintro ⟨q,hx,q',hxs,hys⟩
      exact ⟨q',⟨q,hx,hxs⟩,hys⟩
    · rintro ⟨q',⟨q,hx,hxs⟩,hys⟩
      exact ⟨q,hx,q',hxs,hys⟩

theorem range_split (h : n < l) : List.range l = List.range n++n::List.range' (n+1) (l-(n+1)) := by
  obtain ⟨k,rfl⟩ := Nat.exists_eq_add_of_lt h
  rw [show n+k+1-(n+1) = k by omega,show n::List.range' (n+1) k = List.range' n (k+1) from rfl,List.range_eq_range',
    List.range_eq_range',Nat.add_assoc]
  simpa using (List.range'_append_1 (s := 0) (m := n) (n := k+1)).symm

/-- A check of modules comes through every assignment of every one of them, and leaves the chain vacant there. -/
theorem Gives.checkAll_through (h : Gives (Project.checkAll ds) p u r) (hp : Idle p) (hv : p.chain.Vacant)
    (hk : p.store.kept.modules = is++i::js) (hm : p.store.get? i = some m) (hn : n < m.assignments.length) : ∃ q,
    Gives (checkUpTo ds is i n) p () q ∧ q.chain.Vacant ∧ Gives (checkOnFrom i n js) q () r := by
  simp only [Project.checkAll,gives_bind,gives_get] at h
  obtain ⟨_,p1,h1,_,_,⟨rfl,rfl⟩,h2⟩ := h
  have hkept : ∀ {j}, j ∈ is++i::js → j ∈ p.store.kept := fun hj => show _ ∈ p.store.kept.modules from hk ▸ hj
  have w := sweep_vacant
  have t1 := w.tells (.forM tells_reportDuplicate) h1 hp
  rw [w.kept t1,hk] at h2
  obtain ⟨p2,h2,h3⟩ := gives_forM_append.mp h2
  obtain ⟨p3,h3,h4⟩ := gives_forM_cons.mp h3
  have t2 := w.trans t1 (w.forM_checkModule h2 t1.1.idle fun j hj => by
    rw [w.kept t1]
    exact hkept (List.mem_append_left _ hj)).1
  simp only [checkModule,gives_bind,gives_load] at h3
  obtain ⟨m2,_,⟨hm2,rfl⟩,_,p4,hnames,_,p5,himports,_,p6,hassignments,m6,_,⟨hm6,rfl⟩,huses⟩ := h3
  have same : ∀ {x : Pass} {b : Module}, Extends p.store x.store → x.store.get? i = some b →
      b.assignments.length = m.assignments.length := by
    intro x b he hb
    obtain ⟨b',hb',hbare⟩ := he.rows _ i m hm
    cases hb.symm.trans hb'
    simpa using congrArg List.length (Module.bare_eq_iff.mp hbare).2.2.1
  have hlen := same t2.1.extends hm2
  rw [range_split (hlen ▸ hn)] at hassignments
  obtain ⟨p7,hbefore,hafter⟩ := gives_forM_append.mp hassignments
  obtain ⟨p8,hat,hafter⟩ := gives_forM_cons.mp hafter
  have hsteps := hat
  simp only [checkAssignment,gives_bind,gives_finishAssignment] at hsteps
  obtain ⟨_,q,hvisit,hfinish⟩ := hsteps
  have hi : i ∈ p.store.kept := hkept (List.mem_append_right _ List.mem_cons_self)
  have t4 := w.trans t2 (w.tells (.forM fun (a,k) => tells_checkName m2 a k) hnames t2.1.idle)
  have t5 := w.trans t4 (w.tells (.forM (tells_checkImport m2)) himports t4.1.idle)
  have t7 := w.trans t5 (w.forM_checkAssignment hbefore t5.1.idle (w.kept t5 ▸ hi)).1
  have t8 := w.trans t7 (w.checkAssignment hat t7.1.idle (w.kept t7 ▸ hi))
  refine ⟨q,?_,(keeps_visitAssignment i n _ _ _ hvisit).restores.vacant (t7.2 hv),?_⟩
  · simp only [checkUpTo,gives_bind,gives_load]
    exact ⟨_,_,h1,_,_,h2,m2,_,⟨hm2,rfl⟩,_,p4,hnames,_,p5,himports,_,p7,hbefore,hvisit⟩
  · -- no check changes the number of assignments
    obtain ⟨m8,hm8,_⟩ := t8.1.extends.rows _ i m hm
    rw [hlen,← same t8.1.extends hm8] at hafter
    simp only [checkOnFrom,gives_bind,gives_finishAssignment,gives_load]
    exact ⟨(),p8,hfinish,m8,_,⟨hm8,rfl⟩,(),_,hafter,m6,_,⟨hm6,rfl⟩,_,p3,huses,h4⟩

end Moments

end InfoObject.Check

namespace InfoObject.Project
open Model Check

/-- Whatever is asked for in a pass, and whatever is on its chain then, the chain is restored with the answer. In a pass that
can go on, every call for known entities is answered. After any actions on a project, a check comes through all assignments of
its modules, and with each of them the chain is vacant before it is emptied. -/
theorem calls_restore_chain : (∀ (c : Call) (n : Nat) (p q : Pass), Gives (c.within n) p () q → p.chain.Restored q.chain) ∧
    (∀ (c : Call) (w : Nat) (p : Pass), Fit w p → (∀ k ∈ c.keys, Known p.store k) →
      ∃ q, Gives (c.within p.budget) p () q ∧ p.chain.Restored q.chain ∧ Fit w q) ∧
    ∀ (warningsAsErrors : Bool) (l : List Action), ∃ p r, l.foldlM act (new warningsAsErrors) = .ok p ∧
      Fit p.startPass.weight p.startPass ∧ Gives (checkAll p.duplicates) p.startPass () r ∧
      ∀ is i js, p.store.kept.modules = is++i::js → ∃ m, p.store.get? i = some m ∧ ∀ n < m.assignments.length,
        ∃ q, Gives (checkUpTo p.duplicates is i n) p.startPass () q ∧ q.chain.Vacant ∧ Gives (checkOnFrom i n js) q () r := by
  refine ⟨fun c n p q h => c.restores n h,fun c w p hp hc => ?_,fun b l => ?_⟩
  · obtain ⟨_,q,hg,hcarries,hs,hw,_⟩ := c.ends hp hc
    exact ⟨q,hg,c.restores _ hg,hp.next hcarries hs hw (Nat.le_refl _)⟩
  · obtain ⟨p,hl,hp⟩ := (Steady.new b).acts l
    obtain ⟨r,hr,_⟩ := hp.pass
    refine ⟨p,r,hl,hp.fit,hr,fun is i js hk => ?_⟩
    obtain ⟨m,hm⟩ := (hp.kept i (show i ∈ p.store.kept.modules from hk ▸ List.mem_append_right _ List.mem_cons_self)).row
    refine ⟨m,hm,fun n hn => ?_⟩
    exact hr.checkAll_through p.startPass_idle ⟨rfl,rfl,rfl⟩ hk hm hn

/-- Two sets that name each other. -/
def mutualSets : List (String × String) :=
  [("m.asn","M DEFINITIONS ::= BEGIN C ::= CLASS { &n INTEGER } L C ::= { R } R C ::= { L } END")]

theorem calls_restore_chain_mutualSets : ∃ p q, (new false).addSources mutualSets = .ok p ∧
    Fit p.startPass.weight p.startPass ∧ Known p.startPass.store (⟨0⟩ : Id .setDef).key ∧
    Gives ((Call.flatten ⟨0⟩).within p.startPass.budget) p.startPass () q ∧ q.chain.cycles.length = 1 ∧
    p.startPass.chain.Restored q.chain := by
  have hrun : ((new false).addSources mutualSets).toOption.any (fun p =>
      (p.store.get? (⟨0⟩ : Id .setDef)).isSome &&
        (((Call.flatten ⟨0⟩).within p.startPass.budget) p.startPass).toOption.any fun x => x.2.chain.cycles.length == 1) =
      true := by
    decide +kernel
  obtain ⟨p,hp,hrun⟩ := Notation.exists_of_toOption_any hrun
  rw [Bool.and_eq_true] at hrun
  obtain ⟨row,hrow⟩ := Option.isSome_iff_exists.mp hrun.1
  have hfit := (Reached.addSources (.new false) hp).steady.fit
  have hknown : Known p.startPass.store (⟨0⟩ : Id .setDef).key := .of_row (t := .setDef) hrow
  obtain ⟨q,hg,hrestored,_⟩ := calls_restore_chain.2.1 (.flatten ⟨0⟩) _ p.startPass hfit
    (List.forall_mem_singleton.mpr hknown)
  rw [show ((Call.flatten ⟨0⟩).within p.startPass.budget) p.startPass = .ok ((),q) from hg] at hrun
  exact ⟨p,q,hp,hfit,hknown,hg,by simpa [Except.toOption] using hrun.2,hrestored⟩

end InfoObject.Project
