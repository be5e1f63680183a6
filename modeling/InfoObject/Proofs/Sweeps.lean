import InfoObject.Project
import InfoObject.Proofs.Targets

/-! A check of all modules goes from assignment to assignment, and does no more than tell of modules between them. So what holds
from one end of each assignment to the other, and over such reports, holds of the whole check. -/
namespace InfoObject.Check
open Model

/-! Assignments -/

/-- A pass when an assignment is done with: the cycles found are told of, and the chain is empty. -/
def Pass.finish (p : Pass) : Pass :=
  { p with chain := p.chain.reportAll.2.reset,
           reports := (p.chain.reportAll.1.map Diagnostic.error).reverse++p.reports}

def stampAssignment (m : Module) (n : Nat) (now : Marker) : Module :=
  {m with assignments := m.assignments.modify n fun a => {a with checked := now} }

def Pass.visiting (p : Pass) (i : Id .module) (m : Module) (n : Nat) : Pass :=
  {p with store := p.store.put i (stampAssignment m n p.marker)}

section Assignments
variable {p q : Pass} {u : Unit}

theorem gives_reportErrors {es : List CheckError} : Gives (es.forM fun e => report (.error e)) p u q ↔ q =
    {p with reports := (es.map Diagnostic.error).reverse++p.reports} := by
  induction es generalizing p with
  | nil => simp [List.forM]
  | cons e es ih =>
    rw [gives_forM_cons]
    simp only [gives_report,exists_eq_left,ih,List.map_cons,List.reverse_cons,List.append_assoc,List.singleton_append]

theorem gives_finishAssignment : Gives finishAssignment p u q ↔ [] ∉ p.chain.cycles ∧ q = p.finish := by
  simp only [finishAssignment,gives_bind,gives_get,gives_orStuck,gives_reportErrors,gives_modify,Option.ite_none_left_eq_some]
  constructor
  · rintro ⟨_,_,⟨rfl,rfl⟩,_,_,⟨⟨hc,hr⟩,rfl⟩,_,_,rfl,rfl⟩
    obtain rfl := Option.some.inj hr
    exact ⟨hc,rfl⟩
  · rintro ⟨hc,rfl⟩
    exact ⟨p,p,⟨rfl,rfl⟩,_,p,⟨⟨hc,rfl⟩,rfl⟩,⟨⟩,_,rfl,rfl⟩

theorem gives_visitAssignment : Gives (visitAssignment i n) p u q ↔ ∃ m a, p.store.get? i = some m ∧ m.assignments[n]? =
    some a ∧ Gives (checkDeclared a) (p.visiting i m n) () q := by
  simp only [visitAssignment,gives_bind,gives_load]
  constructor
  · rintro ⟨m,_,⟨hm,rfl⟩,h⟩
    cases ha : m.assignments[n]? with
    | none => simp [ha] at h
    | some a =>
      simp only [ha,gives_bind,gives_marker,gives_save] at h
      obtain ⟨_,_,⟨rfl,rfl⟩,_,_,rfl,h1⟩ := h
      exact ⟨m,a,hm,ha,h1⟩
  · rintro ⟨m,a,hm,ha,h1⟩
    refine ⟨m,p,⟨hm,rfl⟩,?_⟩
    simp only [ha,gives_bind,gives_marker,gives_save]
    exact ⟨_,_,⟨rfl,rfl⟩,(),_,rfl,h1⟩

theorem gives_checkAssignment : Gives (checkAssignment i n) p u q ↔ ∃ m a p1, p.store.get? i = some m ∧ m.assignments[n]? =
    some a ∧ Gives (checkDeclared a) (p.visiting i m n) () p1 ∧ [] ∉ p1.chain.cycles ∧ q = p1.finish := by
  simp only [checkAssignment,gives_bind,gives_visitAssignment,gives_finishAssignment]
  constructor
  · rintro ⟨_,p1,⟨m,a,hm,ha,h1⟩,h⟩
    exact ⟨m,a,p1,hm,ha,h1,h⟩
  · rintro ⟨m,a,p1,hm,ha,h1,h⟩
    exact ⟨(),p1,⟨m,a,hm,ha,h1⟩,h⟩

theorem stampAssignment_bare (m : Module) (n : Nat) (now : Marker) : (stampAssignment m n now).bare = m.bare := by
  refine Module.bare_eq_iff.mpr ⟨rfl,rfl,?_,rfl⟩
  refine List.ext_getElem? fun k => ?_
  simp only [stampAssignment,List.getElem?_map,List.getElem?_modify]
  split
  · cases m.assignments[k]? <;> rfl
  · simp

end Assignments

/-! Reports between assignments -/

/-- What is told of a module besides its assignments. -/
def ofModule : Diagnostic → Bool
  | .warning w =>
    match w.concern with
    | .declaredHere _ => false
    | _ => true
  | .error e =>
    match e.fault with
    | .duplicateModule _ | .duplicateAssignment _ | .moduleNotFound _ | .importNotFound _ _ | .importConflict _ => true
    | _ => false

/-- A step that does no more than tell of a module. -/
def Tells {α : Type} (m : Checking α) : Prop :=
  ∀ p a q, Gives m p a q → ∃ ds, q = {p with reports := ds++p.reports} ∧ ∀ d ∈ ds, ofModule d = true

section Tells
variable {α β : Type}

theorem Tells.of_eq (h : ∀ p a q, Gives m p a q → q = p) : Tells m :=
  fun p a q hg => ⟨[],h p a q hg,List.forall_mem_nil _⟩

theorem Tells.pure (a : α) : Tells (pure a) := .of_eq fun _ _ _ h => (gives_pure.mp h).2

theorem Tells.bind (hm : Tells m) (hf : ∀ a, Tells (f a)) : Tells (m >>= f) := by
  intro p b r h
  obtain ⟨a,q,h,k⟩ := gives_bind.mp h
  obtain ⟨ds,rfl,hds⟩ := hm p a q h
  obtain ⟨es,rfl,hes⟩ := hf a _ b r k
  exact ⟨es++ds,by rw [List.append_assoc],List.forall_mem_append.mpr ⟨hes,hds⟩⟩

theorem Tells.ite [Decidable c] (hm : Tells m) (hn : Tells n) : Tells (if c then m else n) := by
  by_cases h : c
  · simpa only [h,if_true] using hm
  · simpa only [h,if_false] using hn

theorem Tells.forM {l : List α} (hf : ∀ x, Tells (f x)) : Tells (l.forM f) := by
  induction l with
  | nil => exact .pure ()
  | cons x l ih => exact (hf x).bind fun _ => ih

theorem tells_get : Tells (get : Checking Pass) := .of_eq fun _ _ _ h => (gives_get.mp h).2

theorem tells_orStuck {o : Option α} : Tells (orStuck o e) := .of_eq fun _ _ _ h => (gives_orStuck.mp h).2

theorem tells_module (i : Id .module) : Tells (load i) := .of_eq fun _ _ _ h => (gives_load (t := .module).mp h).2

theorem tells_report (hd : ofModule d = true) : Tells (report d) :=
  fun _ _ _ h => ⟨[d],gives_report.mp h,List.forall_mem_singleton.mpr hd⟩

theorem tells_checkName (m : Module) (a : Assignment) (n : Nat) : Tells (checkName m a n) := by
  have warn : Tells (if (BuiltinType.ofName? a.identifier.asnName).isSome then
      reportWarning (.shadowsBuiltin a.identifier.display) a.location else pure ()) := .ite (tells_report rfl) (.pure _)
  exact tells_orStuck.bind fun first => .ite ((tells_report rfl).bind fun _ => warn) warn

theorem tells_imported? (x : ImportedName) : Tells (imported? x) :=
  tells_get.bind fun _ => by
    split
    · exact .pure _
    · exact (tells_module _).bind fun _ => .pure _

theorem tells_checkImport (m : Module) (x : ImportedName) : Tells (checkImport m x) := by
  refine (tells_imported? x).bind fun o => ?_
  have conflict : Tells (if (m.find? x.name).isSome then
      reportError (.importConflict x.name.display) (m.locate x.span) none else pure ()) := .ite (tells_report rfl) (.pure _)
  cases o with
  | none => exact tells_report rfl
  | some found => exact .ite ((tells_report rfl).bind fun _ => conflict) conflict

theorem tells_checkUse (m : Module) (x : ImportedName) : Tells (checkUse m x) := by
  refine (tells_imported? x).bind fun o => ?_
  split
  · exact (Tells.of_eq fun _ _ _ h => (gives_isDue.mp h).2).bind fun _ => .ite (tells_report rfl) (.pure _)
  · exact .pure _

theorem tells_reportDuplicate (i : Id .module) : Tells (Project.reportDuplicate i) :=
  (tells_module i).bind fun _ => tells_get.bind fun _ => tells_orStuck.bind fun _ => (tells_module _).bind fun _ =>
    tells_report rfl

end Tells

/-! Sweeps -/

/-- A relation `T` between passes with `I` that every assignment and every report of a module respects. -/
structure Sweep (I : Pass → Prop) (T : Pass → Pass → Prop) : Prop where
  refl : ∀ {p}, I p → T p p
  trans : ∀ {p q r}, T p q → T q r → T p r
  keeps : ∀ {p q}, T p q → I p → I q
  more : ∀ {p q}, T p q → Extends p.store q.store
  kept : ∀ {p q}, T p q → q.store.kept = p.store.kept
  tell : ∀ {p d}, I p → ofModule d = true → T p {p with reports := d::p.reports}
  visit : ∀ {p q i m n a}, I p → i ∈ p.store.kept → p.store.get? i = some m → m.assignments[n]? = some a →
    Gives (checkDeclared a) (p.visiting i m n) () q → T p q.finish

section Sweeps
variable {I : Pass → Prop} {T : Pass → Pass → Prop} (w : Sweep I T) {α : Type} {p q : Pass} {u : Unit}
include w

theorem Sweep.tells (hm : Tells m) (h : Gives m p a q) (hp : I p) : T p q := by
  obtain ⟨ds,rfl,hds⟩ := hm p a q h
  clear h
  induction ds with
  | nil => exact w.refl hp
  | cons d ds ih =>
    have t := ih fun e he => hds e (List.mem_cons_of_mem _ he)
    exact w.trans t (w.tell (w.keeps t hp) (hds d (List.mem_cons_self ..)))

theorem Sweep.checkAssignment (h : Gives (checkAssignment i n) p u q) (hp : I p) (hi : i ∈ p.store.kept) : T p q := by
  obtain ⟨m,a,p1,hm,ha,h1,_,rfl⟩ := gives_checkAssignment.mp h
  exact w.visit hp hi hm ha h1

theorem Sweep.forM {l : List α} (hf : ∀ x ∈ l, ∀ p q, I p → p.store.kept = K → Gives (f x) p () q → T p q)
    (h : Gives (l.forM f) p u q) (hp : I p) (hk : p.store.kept = K) : T p q ∧ ∀ x ∈ l, ∃ p' q', T p p' ∧
    Gives (f x) p' () q' ∧ T q' q := by
  induction l generalizing p with
  | nil =>
    obtain rfl := gives_forM_nil.mp h
    exact ⟨w.refl hp,List.forall_mem_nil _⟩
  | cons y l ih =>
    obtain ⟨p1,hy,hl⟩ := gives_forM_cons.mp h
    have t := hf y (List.mem_cons_self ..) _ _ hp hk hy
    obtain ⟨tl,hmem⟩ := ih (fun z hz => hf z (List.mem_cons_of_mem _ hz)) hl (w.keeps t hp) ((w.kept t).trans hk)
    refine ⟨w.trans t tl,List.forall_mem_cons.mpr ⟨⟨p,p1,w.refl hp,hy,tl⟩,fun x hx => ?_⟩⟩
    obtain ⟨p',q',tp,hg,tq⟩ := hmem x hx
    exact ⟨p',q',w.trans t tp,hg,tq⟩

theorem Sweep.forM_checkAssignment {l : List Nat} (h : Gives (l.forM (Check.checkAssignment i)) p u q) (hp : I p)
    (hi : i ∈ p.store.kept) : T p q ∧ ∀ n ∈ l, ∃ p' q', T p p' ∧ Gives (Check.checkAssignment i n) p' () q' ∧ T q' q :=
  w.forM (fun _ _ _ _ hp hk hg => w.checkAssignment hg hp (hk ▸ hi)) h hp rfl

theorem Sweep.checkModule (h : Gives (checkModule i) p u q) (hp : I p) (hi : i ∈ p.store.kept) : T p q ∧ ∀ m,
    p.store.get? i = some m → ∀ n < m.assignments.length, ∃ p' q', T p p' ∧ Gives (Check.checkAssignment i n) p' () q' ∧
    T q' q := by
  simp only [Check.checkModule,gives_bind,gives_load] at h
  obtain ⟨m,p0,⟨hm,rfl⟩,_,p1,h1,_,p2,h2,_,p3,h3,m',_,⟨_,rfl⟩,h4⟩ := h
  have t1 := w.tells (.forM fun (x : Assignment × Nat) => tells_checkName m x.1 x.2) h1 hp
  have t2 := w.trans t1 (w.tells (.forM (tells_checkImport m)) h2 (w.keeps t1 hp))
  obtain ⟨t3,hmem⟩ := w.forM_checkAssignment h3 (w.keeps t2 hp) (w.kept t2 ▸ hi)
  have t4 := w.tells (.forM (tells_checkUse m')) h4 (w.keeps t3 (w.keeps t2 hp))
  refine ⟨w.trans (w.trans t2 t3) t4,fun m'' hm'' n hn => ?_⟩
  cases hm.symm.trans hm''
  obtain ⟨p',q',tp,hg,tq⟩ := hmem n (List.mem_range.mpr hn)
  exact ⟨p',q',w.trans t2 tp,hg,w.trans tq t4⟩

theorem Sweep.forM_checkModule {l : List (Id .module)} (h : Gives (l.forM Check.checkModule) p u q) (hp : I p)
    (hl : ∀ i ∈ l, i ∈ p.store.kept) : T p q ∧ ∀ i ∈ l, ∃ p' q', T p p' ∧ Gives (Check.checkModule i) p' () q' ∧ T q' q :=
  w.forM (fun i hi _ _ hp hk hg => (w.checkModule hg hp (hk ▸ hl i hi)).1) h hp rfl

theorem Sweep.checkAll (h : Gives (Project.checkAll ds) p u q) (hp : I p) : T p q ∧ ∀ d, Declares p.store d → ∃
    p' q' i m n a, T p p' ∧ i ∈ p'.store.kept ∧ p'.store.get? i = some m ∧ m.assignments[n]? = some a ∧ a.declared = d ∧
    Gives (checkDeclared a) (p'.visiting i m n) () q' ∧ T q'.finish q := by
  simp only [Project.checkAll,gives_bind,gives_get] at h
  obtain ⟨_,p1,h1,_,_,⟨rfl,rfl⟩,h2⟩ := h
  have t1 := w.tells (.forM tells_reportDuplicate) h1 hp
  obtain ⟨t2,hmem⟩ := w.forM_checkModule h2 (w.keeps t1 hp) fun _ => id
  refine ⟨w.trans t1 t2,?_⟩
  rintro d ⟨i,hi,m,hm,a,ha,rfl⟩
  obtain ⟨n,hn⟩ := List.mem_iff_getElem?.mp ha
  obtain ⟨p',q',tp,hg,tq⟩ := hmem i ((w.kept t1).symm ▸ hi)
  have t1p := w.trans t1 tp
  obtain ⟨m',hm',_⟩ := (w.more t1p).rows _ i m hm
  obtain ⟨a',hn',_⟩ := (w.more t1p).assignment hm hm' hn
  have hi' : i ∈ p'.store.kept := (w.kept t1p).symm ▸ hi
  obtain ⟨p'',q'',tp',hg',tq'⟩ := (w.checkModule hg (w.keeps t1p hp) hi').2 m' hm' n (List.getElem?_eq_some_iff.mp hn').1
  obtain ⟨m'',a'',r,hm'',hn'',hr,_,rfl⟩ := gives_checkAssignment.mp hg'
  have t := w.trans t1p tp'
  obtain ⟨b,hb,hdecl⟩ := (w.more t).assignment hm hm'' hn
  cases hn''.symm.trans hb
  exact ⟨p'',r,i,m'',n,a'',t,(w.kept tp').symm ▸ hi',hm'',hn'',hdecl,hr,w.trans tq' tq⟩

end Sweeps

end InfoObject.Check
