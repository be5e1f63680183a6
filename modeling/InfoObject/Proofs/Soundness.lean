import InfoObject.Proofs.Reachable

/-! What a check that reports no error is worth. -/
namespace InfoObject.Project
open Model Check

/-! Projects of source texts -/

/-- Adds some files, each with its text. -/
def addSources (p : Project) : List (String × String) → Except (Notation.SyntaxError ⊕ Stuck) Project
  | [] => pure p
  | (file,text)::rest => do
    let node ← (Notation.Module.parse text.toUTF8.toList file).mapError .inl
    let (_,p) ← (p.addModule node).mapError .inr
    addSources p rest

theorem Reached.addSources (h : Reached n p) (hq : p.addSources files = .ok q) : Reached n q := by
  induction files generalizing p with
  | nil => exact Except.ok.inj hq ▸ h
  | cons x rest ih =>
    obtain ⟨file,text⟩ := x
    rw [Project.addSources] at hq
    cases hx : Notation.Module.parse text.toUTF8.toList file with
    | error e =>
      rw [hx] at hq
      contradiction
    | ok node =>
      rw [hx] at hq
      cases ha : p.addModule node with
      | error e =>
        simp only [ha,bind,Except.bind,Except.mapError] at hq
        contradiction
      | ok r =>
        simp only [ha,bind,Except.bind,Except.mapError] at hq
        exact ih (h.add ha) hq

def checkSources (files : List (String × String)) : Option Checked := do
  let p ← ((new false).addSources files).toOption
  let (c,_) ← (p.check (none : Option (Emitter Unit)) ()).toOption
  pure c

theorem checkSources_of_any (files : List (String × String)) (h : (checkSources files).any f = true) : ∃ p c,
    checkSources files = some c ∧ Reached 0 p ∧ p.check (none : Option (Emitter Unit)) () = .ok (c,()) ∧ f c = true := by
  obtain ⟨c,hc,hf⟩ := (Option.any_eq_true _ _).mp h
  have hsome := hc
  unfold checkSources at hc
  cases hp : (new false).addSources files with
  | error e => simp [hp,Except.toOption] at hc
  | ok p =>
    cases hx : p.check (none : Option (Emitter Unit)) () with
    | error e => simp [hp,hx,Except.toOption] at hc
    | ok x =>
      obtain ⟨c',u⟩ := x
      obtain rfl : c' = c := by simpa [hp,hx,Except.toOption] using hc
      exact ⟨p,c',hsome,Reached.addSources (.new false) hp,hx,hf⟩

attribute [irreducible] checkSources

/-! Well-formed models -/

/-- A check that reports no error leaves a well-formed model. -/
theorem check_wellFormed {n : Nat} {p : Project} (h : Reached n p) (hn : n+1 < 2^64) {σ : Type}
    {e : Option (Emitter σ)} {st st' : σ} {c : Checked} (hc : p.check e st = .ok (c,st'))
    (hclean : c.result.errors = []) : WellFormed c.result.marker c.project.store := by
  obtain ⟨q,hq,hstore,hmarker⟩ := h.finished hn hc hclean
  rw [← hstore,← hmarker]
  exact hq.wellFormed

def linkedSources : List (String × String) :=
  [("m.asn","M DEFINITIONS ::= BEGIN C ::= CLASS { &id INTEGER UNIQUE, &Arg, &next C OPTIONAL, &n INTEGER DEFAULT two } two INTEGER ::= 2 a C ::= { &id 1, &Arg NULL } END"),
   ("n.asn","N DEFINITIONS ::= BEGIN IMPORTS C, a FROM M; b C ::= { &id 2, &Arg BOOLEAN, &next { &id 3, &Arg NULL } } S C ::= { a | b } END")]

theorem check_wellFormed_linkedSources : ∃ c, checkSources linkedSources = some c ∧ c.result.errors = [] ∧
    WellFormed c.result.marker c.project.store := by
  obtain ⟨p,c,hc,hp,hcheck,hclean⟩ := checkSources_of_any linkedSources
    (f := fun c => c.result.errors.isEmpty) (by decide +kernel)
  have he := List.isEmpty_iff.mp hclean
  exact ⟨c,hc,he,check_wellFormed hp (by decide) hcheck he⟩

/-! Unique fields -/

/-- No two objects of a list set a field to values that stand for one literal. -/
def UniqueOver (m : Marker) (s : Store) (n : Identifier) (os : List (Id .objectDef)) : Prop :=
  ∀ a ∈ os, ∀ b ∈ os, ∀ v w l, valueOf s a n = some v → valueOf s b n = some w →
    valueNow m s v = some (some l) → valueNow m s w = some (some l) → a = b

/-- After a check that reports no error, the objects of every set have values of their own for each unique field,
unless the check of the class of the set leads to that of the set. -/
theorem check_unique {n : Nat} {p : Project} (h : Reached n p) (hn : n+1 < 2^64) {σ : Type}
    {e : Option (Emitter σ)} {st st' : σ} {c : Checked} (hc : p.check e st = .ok (c,st'))
    (hclean : c.result.errors = []) {i : Id .setDef} (hi : Owned c.project.store (.objectSet (.definition i))) :
    ∃ d ci cl os, c.project.store.get? i = some d ∧ d.setClass = some ci ∧ c.project.store.get? ci = some cl ∧
      found c.result.marker d.flattening = some os ∧
      (¬ Reaches c.result.marker c.project.store .none (.objectClass ci) (.objectSet i) →
        ∀ n f, cl.field? n = some f → f.uniqueType?.isSome = true → UniqueOver c.result.marker c.project.store n os) := by
  obtain ⟨q,hq,hstore,hmarker⟩ := h.finished hn hc hclean
  rw [← hstore] at hi ⊢
  rw [← hmarker]
  obtain ⟨_,hst⟩ := Owned.done hq hi
  obtain ⟨d,ci,_,os,hd,hdc,_,hci,_,_,hos,hu⟩ := hq.set hst
  obtain ⟨cl,_,hcl,_⟩ := hci
  refine ⟨d,ci,cl,os,hd,hdc,hcl,hos,fun hr n f hf huniq => ?_⟩
  exact ((hu.resolve_left hr) cl n f hcl hf huniq).apart

theorem not_reaches_of_no_default (h : ∀ c, s.get? ci = some c → ∀ f ∈ c.fields, f.defaultSetting = none) :
    ¬ Reaches m s W (.objectClass ci) (.objectSet i) := by
  intro hr
  rcases Relation.ReflTransGen.cases_head hr with heq | ⟨y,hy,_⟩
  · contradiction
  · cases hy with
    | held hv _ =>
      cases hv with
      | default hi hf hst =>
        rw [h _ hi _ hf] at hst
        contradiction

def uniqueSources : List (String × String) :=
  [("m.asn","M DEFINITIONS ::= BEGIN C ::= CLASS { &id INTEGER UNIQUE } S C ::= { a | b } a C ::= { &id 1 } b C ::= { &id 2 } END")]

theorem check_unique_uniqueSources : ∃ c d ci cl os, checkSources uniqueSources = some c ∧ c.result.errors = [] ∧
    Owned c.project.store (.objectSet (.definition ⟨0⟩)) ∧ c.project.store.get? (⟨0⟩ : Id .setDef) = some d ∧
    d.setClass = some ci ∧ c.project.store.get? ci = some cl ∧ found c.result.marker d.flattening = some os ∧
    ¬ Reaches c.result.marker c.project.store .none (.objectClass ci) (.objectSet ⟨0⟩) ∧
    ∀ n f, cl.field? n = some f → f.uniqueType?.isSome = true → UniqueOver c.result.marker c.project.store n os := by
  obtain ⟨p,c,hc,hp,hcheck,hf⟩ := checkSources_of_any uniqueSources
    (f := fun c => c.result.errors.isEmpty &&
      (c.project.store.keptModules.any fun m =>
        m.assignments.any fun a => decide (.objectSet (.definition ⟨0⟩) ∈ a.declared.parts)) &&
      c.project.store.classes.all fun c => c.fields.all fun f => f.defaultSetting.isNone) (by decide +kernel)
  simp only [Bool.and_eq_true,List.isEmpty_iff,List.any_eq_true,decide_eq_true_eq,Array.all_eq_true_iff_forall_mem,
    List.all_eq_true,Option.isNone_iff_eq_none] at hf
  obtain ⟨⟨he,m,hm,a,ha,hx⟩,hplain⟩ := hf
  obtain ⟨k,hk,hrow⟩ := List.mem_filterMap.mp hm
  have howned : Owned c.project.store (.objectSet (.definition ⟨0⟩)) := .declared hk hrow ha hx
  obtain ⟨d,ci,cl,os,hd,hci,hcl,hos,hall⟩ := check_unique hp (by decide) hcheck he howned
  have hr : ¬ Reaches c.result.marker c.project.store .none (.objectClass ci) (.objectSet ⟨0⟩) :=
    not_reaches_of_no_default fun c' hc' f hf' => hplain c' (Array.mem_of_getElem? hc') f hf'
  exact ⟨c,d,ci,cl,os,hc,he,howned,hd,hci,hcl,hos,hr,hall hr⟩

end InfoObject.Project
