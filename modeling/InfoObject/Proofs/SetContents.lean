import InfoObject.Proofs.SetGraph

/-! What flattening a set comes to. -/
namespace InfoObject.Check
open Model

mutual

/-- The objects of a set, told without the way they are gathered: those of its elements, in the order of its body. -/
inductive Holds (p : Pass) : Id .setDef → List (Id .objectDef) → Prop
  | wrong {i : Id .setDef} {d : SetDef} (hd : p.store.get? i = some d) (he : d.erroneous = true) : Holds p i []
  | body {i : Id .setDef} {d : SetDef} {x : Except Notation.SyntaxError Expansion} {os : List (Id .objectDef)}
      (hd : p.store.get? i = some d) (he : d.erroneous = false) (hx : d.expansion = some x)
      (hb : ExpansionBuilt p.store d x) (hg : Gathers p d.elements os) : Holds p i os

inductive Gathers (p : Pass) : List Element → List (Id .objectDef) → Prop
  | nil : Gathers p [] []
  | literal {o : Id .objectDef} {es : List Element} {os : List (Id .objectDef)} (hes : Gathers p es os) :
      Gathers p (.literal o::es) (o::os)
  | object {j : Id .objectRef} {o : Id .objectDef} {row : ObjectDef} {es : List Element} {os : List (Id .objectDef)}
      (hj : p.Finds j.key (.object o)) (ho : p.store.get? o = some row) (he : row.erroneous = false)
      (hes : Gathers p es os) : Gathers p (.object j::es) (o::os)
  | missing {j : Id .objectRef} {o : Id .objectDef} {row : ObjectDef} {es : List Element} {os : List (Id .objectDef)}
      (hj : p.Finds j.key (.object o)) (ho : p.store.get? o = some row) (he : row.erroneous = true)
      (hes : Gathers p es os) : Gathers p (.object j::es) os
  | set {j : Id .setRef} {t : Id .setDef} {es : List Element} {os os' : List (Id .objectDef)}
      (hj : p.Finds j.key (.objectSet t)) (ht : Holds p t os) (hes : Gathers p es os') : Gathers p (.set j::es) (os++os')

end

/-- No cycle of the set graph is reached from a set. -/
def Pass.Acyclic (p : Pass) (i : Id .setDef) : Prop :=
  ∀ t, Relation.ReflTransGen p.Edge i t → ¬ Relation.TransGen p.Edge t t

section Contents
variable {p q : Pass} {i t : Id .setDef} {d : SetDef} {cs : List (List Link)} {ds : List (Id .setDef)}
  {es : List Element} {oss : List (List (Id .objectDef))}

mutual

theorem Holds.unique {i : Id .setDef} {os os' : List (Id .objectDef)} : Holds p i os → Holds p i os' → os = os'
  | .wrong _ _,.wrong _ _ => rfl
  | .wrong hd he,.body hd' he' _ _ _ => by
    cases hd.symm.trans hd'
    simp [he] at he'
  | .body hd he _ _ _,.wrong hd' he' => by
    cases hd.symm.trans hd'
    simp [he] at he'
  | .body hd _ _ _ hg,.body hd' _ _ _ hg' => by
    cases hd.symm.trans hd'
    exact hg.unique hg'

theorem Gathers.unique {es : List Element} {os os' : List (Id .objectDef)} : Gathers p es os → Gathers p es os' → os = os'
  | .nil,.nil => rfl
  | .literal hes,.literal hes' => congrArg _ (hes.unique hes')
  | .object hj _ _ hes,.object hj' _ _ hes' => by
    cases hj.unique hj'
    rw [hes.unique hes']
  | .object hj ho he _,.missing hj' ho' he' _ => by
    cases hj.unique hj'
    cases ho.symm.trans ho'
    simp [he] at he'
  | .missing hj ho he _,.object hj' ho' he' _ => by
    cases hj.unique hj'
    cases ho.symm.trans ho'
    simp [he] at he'
  | .missing _ _ _ hes,.missing _ _ _ hes' => hes.unique hes'
  | .set hj ht hes,.set hj' ht' hes' => by
    cases hj.unique hj'
    rw [ht.unique ht',hes.unique hes']

end

theorem Pass.Acyclic.edge (h : p.Acyclic i) (he : p.Edge i t) : p.Acyclic t := fun u hu => h u (.head he hu)

/-- What the elements of a set contributed is what they stand for, if that is so for the sets that were listed before. -/
theorem gathers_parts (hparts : List.Forall₂ (Part p cs ds i) es oss) (hd : p.store.get? i = some d)
    (hes : ∀ e ∈ es, e ∈ d.elements) (hc : ∀ c ∈ cs, Circuit p c) (ha : p.Acyclic i)
    (ih : ∀ t ∈ ds, ∀ e, p.store.get? t = some e → e.erroneous = false → p.Acyclic t → ∀ os, p.Lists t os → Holds p t os) :
    Gathers p es oss.flatten := by
  induction hparts with
  | nil => exact .nil
  | @cons e os es oss hpart _ ihes =>
    have hrest := ihes fun e he => hes e (List.mem_cons_of_mem _ he)
    have hmem := hes e List.mem_cons_self
    rw [List.flatten_cons]
    cases hpart with
    | literal o => exact .literal hrest
    | @object j o row hr ho =>
      cases hw : row.erroneous with
      | true => exact .missing hr.1 ho hw hrest
      | false => exact .object hr.1 ho hw hrest
    | wrong hr ht he => exact .set hr.1 (.wrong ht he) hrest
    | listed hr ht he hin hos =>
      have hedge : p.Edge i _ := ⟨d,_,_,hd,hmem,hr,ht,he⟩
      exact .set hr.1 (ih _ hin _ ht he (ha.edge hedge) _ hos) hrest
    | cut hr ht he hcut _ hkey =>
      have hedge : p.Edge i _ := ⟨d,_,_,hd,hmem,hr,ht,he⟩
      exact absurd ((hc _ hcut).reaches hkey hkey) (ha _ (.single hedge))

theorem Woven.holds (h : Woven p cs ds) (hc : ∀ c ∈ cs, Circuit p c) (hs : Sane p.store) : ∀ i ∈ ds, ∀ d,
    p.store.get? i = some d → d.erroneous = false → p.Acyclic i → ∀ os, p.Lists i os → Holds p i os := by
  induction h with
  | nil => exact fun i hi => absurd hi List.not_mem_nil
  | @cons i ds d x oss _ hd hx hos hparts ih =>
    intro t ht e hrow he ha os hl
    rcases List.mem_cons.mp ht with rfl | ht
    · cases hd.symm.trans hrow
      obtain ⟨d',hd',hos'⟩ := hl
      cases hd.symm.trans hd'
      cases hos.symm.trans hos'
      exact .body hd he hx (hs.expansions t d x hd hx) (gathers_parts hparts hd (fun _ h => h) hc ha ih)
    · exact ih t ht e hrow he ha os hl

end Contents

end InfoObject.Check

namespace InfoObject.Project
open Model Check

/-- A pass between two steps of a check: assignments of modules in use and what belongs to such modules were checked, and
sets were flattened, in any order. -/
inductive Underway (p : Project) : Pass → Prop
  | start : Underway p p.startPass
  | assignment {r q : Pass} {i : Id .module} {j : Nat} (h : Underway p r) (hi : i ∈ r.store.kept)
      (hg : Gives (checkAssignment i j) r () q) : Underway p q
  | goal {r q : Pass} {g : Goal} (h : Underway p r) (hl : LodgedGoal r.store g) (hg : Gives (Check.check g) r () q) : Underway p q
  | set {r q : Pass} {i : Id .setDef} {os : List (Id .objectDef)} (h : Underway p r)
      (hl : LodgedSet r.store (.definition i)) (hg : Gives (flatten i) r os q) : Underway p q

structure Paused (p : Project) (r : Pass) : Prop where
  paces : Paces True p.startPass r
  bare : Bare r
  fit : Fit p.startPass.weight r

section Paused
variable {n : Nat} {p : Project} {r q : Pass}

theorem Paused.tidy (h : Sound n p) (hn : n+1 < 2^64) (hr : Paused p r) : Tidy True r := hr.paces.tidy (h.tidy hn True)

theorem Paused.next {α : Type} {m : Checking α} {a : α} {Q : α → Store → Prop} (hr : Paused p r) (hg : Gives m r a q)
    (hround : Round r q) (hends : Ends m p.startPass.weight r Q) : Paused p q := by
  obtain ⟨b,q',hg',hc,hs,hw,_⟩ := hends
  have hsame : (a,q) = (b,q') := Except.ok.inj (hg.symm.trans hg')
  obtain ⟨rfl,rfl⟩ := Prod.mk.inj hsame
  exact ⟨hr.paces.trans hround.paces,hr.bare.carries hc,hr.fit.next hc hs hw (Nat.le_refl _)⟩

theorem LodgedGoal.known {s : Store} {g : Goal} (h : LodgedGoal s g) : Known s g.key := by
  cases g with
  | objectClass i | object i | objectSet i =>
    obtain ⟨row,hrow,_⟩ := h
    exact .of_row (i := i) hrow

theorem Underway.paused (hp : Steady p) (h : Sound n p) (hn : n+1 < 2^64) (hr : Underway p r) : Paused p r := by
  induction hr with
  | start => exact ⟨.refl _,⟨rfl,rfl,List.not_mem_nil⟩,hp.fit⟩
  | assignment _ hi hg ih =>
    obtain ⟨m,a,_,hm,ha,_⟩ := gives_checkAssignment.mp hg
    have hj := (List.getElem?_eq_some_iff.mp ha).1
    exact ih.next hg (sweep_round.checkAssignment hg ⟨ih.bare.1,ih.tidy h hn⟩ hi) (ends_checkAssignment ih.fit ih.bare hm hj)
  | goal _ hl hg ih =>
    exact ih.next hg ((goes_check hl).round hg ih.bare.1 (ih.tidy h hn)) (ends_check ih.fit (LodgedGoal.known hl))
  | @set r q i os _ hl hg ih =>
    have hknown : Known r.store i.key := LodgedGoal.known (g := .objectSet i) hl
    exact ih.next hg ((goes_flatten hl).round hg ih.bare.1 (ih.tidy h hn)) (ends_flatten ih.fit hknown)

theorem Paused.flatten (hp : Paused p r) (h : Sound n p) (hn : n+1 < 2^64) {i : Id .setDef} {d : SetDef}
    (hl : LodgedSet r.store (.definition i)) (hd : r.store.get? i = some d) (he : d.erroneous = false) :
    ∃ os q, Gives (flatten i) r os q ∧ Round r q ∧ q.Lists i os := by
  obtain ⟨os,q,hg,hc,_⟩ := ends_flatten hp.fit (Known.of_row (t := .setDef) hd)
  have htidy := hp.tidy h hn
  have hround := (goes_flatten hl).round hg hp.bare.1 htidy
  refine ⟨os,q,hg,hround,?_⟩
  have hw := hg
  replace hw := hw.within
  have hyields := (flattens_flattenWithin _ i _ os q hw hl htidy (by simp [Pass.Flat,hp.bare.1])
    fun _ _ _ => by simp [Pass.Summons,hp.bare.1]).yields
  cases hyields with
  | wrong hd' he' =>
    obtain ⟨d'',hd'',hsame⟩ := same_wrong hround.paces.onward.more hd
    cases hd'.symm.trans hd''
    rw [hsame,he] at he'
    contradiction
  | listed _ _ hos => exact hos
  | met _ _ hon => exact absurd hon (not_onChain hround.links)

theorem flatten_again {i : Id .setDef} {d : SetDef} {os : List (Id .objectDef)} (hb : 0 < q.budget) (hl : q.Lists i os)
    (hd : q.store.get? i = some d) (he : d.erroneous = false) : Gives (flatten i) q os q := by
  obtain ⟨m,hm⟩ : ∃ m, q.budget = m+1 := ⟨q.budget-1,by omega⟩
  obtain ⟨d',hd',hos⟩ := hl
  cases hd.symm.trans hd'
  refine gives_bind.mpr ⟨m+1,q,gives_budget.mpr ⟨hm.symm,rfl⟩,?_⟩
  exact gives_flattenWithin.mpr ⟨d,hd,.inr ⟨he,.inl ⟨hos,rfl⟩⟩⟩

theorem Listing.start (h : Sound n p) (hn : n+1 < 2^64) : Listing [] [] p.startPass :=
  ⟨.nil,fun i os hl => absurd hl (h.not_lists hn i os)⟩

theorem listed_holds (h : Sound n p) (hn : n+1 < 2^64) (hr : Paces True p.startPass r) {i : Id .setDef} {d : SetDef}
    {os : List (Id .objectDef)} (hd : r.store.get? i = some d) (he : d.erroneous = false) (hl : r.Lists i os)
    (ha : r.Acyclic i) : Holds r i os := by
  have htidy := h.tidy hn True
  obtain ⟨cs,ds,ht,hlisting⟩ := (Listing.start h hn).paces (Traced.start p) htidy hr
  exact hlisting.woven.holds ht.circuits (hr.tidy htidy).sane i (hlisting.all i os hl) d hd he ha os hl

/-- Whenever a set of the modules in use is flattened while a project is checked, its list is the concatenation of what its
elements stand for, in their order and with repetitions kept, if no cycle of sets is reached from it: whatever was
flattened before. To flatten it again later gives the same list and changes nothing. -/
theorem flatten_concatenates (h : Reached n p) (hn : n+1 < 2^64) :
    (∀ r, Underway p r → ∀ i d, r.store.get? i = some d → d.erroneous = false → LodgedSet r.store (.definition i) →
      ∃ os q, Gives (flatten i) r os q ∧ Underway p q ∧ (q.Acyclic i → ∀ os', Holds q i os' ↔ os' = os) ∧
        ∀ q', Paces True q q' → Gives (flatten i) q' os q') ∧
    ∀ r, Paces True p.startPass r → ∀ i d os, r.store.get? i = some d → d.erroneous = false → r.Lists i os →
      r.Acyclic i → ∀ os', Holds r i os' ↔ os' = os := by
  have hsound := h.sound (Nat.lt_of_succ_lt hn)
  have exact : ∀ r, Paces True p.startPass r → ∀ i d os, r.store.get? i = some d → d.erroneous = false → r.Lists i os →
      r.Acyclic i → ∀ os', Holds r i os' ↔ os' = os := by
    intro r hr i d os hd he hl ha os'
    have hholds := listed_holds hsound hn hr hd he hl ha
    exact ⟨fun h' => h'.unique hholds,fun heq => heq ▸ hholds⟩
  refine ⟨fun r hr i d hd he hl => ?_,exact⟩
  have hpaused := hr.paused h.steady hsound hn
  obtain ⟨os,q,hg,hround,hlists⟩ := hpaused.flatten hsound hn hl hd he
  obtain ⟨d',hd',hsame⟩ := same_wrong hround.paces.onward.more hd
  refine ⟨os,q,hg,.set hr hl hg,fun ha => exact q (hpaused.paces.trans hround.paces) i d' os hd' (hsame.trans he) hlists ha,
    fun q' hq' => ?_⟩
  have hlater := hround.paces.trans hq'
  obtain ⟨d'',hd'',hsame'⟩ := same_wrong hlater.onward.more hd
  have hbudget : 0 < q'.budget := by
    rw [hlater.budget_eq]
    exact Nat.lt_of_lt_of_le (Nat.succ_pos _) hpaused.fit.ample
  exact flatten_again hbudget (hq'.lists (hround.paces.tidy (hpaused.tidy hsound hn)) hlists) hd'' (hsame'.trans he)

end Paused

def nestedSources : List (String × String) :=
  [("m.asn","M DEFINITIONS ::= BEGIN C ::= CLASS { &id INTEGER } a C ::= { &id 1 } Inner C ::= { a | { &id 2 } } Outer C ::= { Inner | a | Inner } Left C ::= { Right } Right C ::= { Left | Inner } END")]

theorem exists_setRef {q : Pass} {j : Id .setRef} {t : Id .setDef} (h : q.Finds j.key (.objectSet t)) :
    ∃ r x, q.store.get? j = some r ∧ r.resolution = some x ∧ x.target = t := by
  obtain ⟨u,k,r,hr,hk,hx⟩ := h
  obtain rfl : u = .setRef := Id.type_of_key hk
  obtain rfl := Id.key_inj hk
  obtain ⟨y,hy,ht⟩ := Option.map_eq_some_iff.mp (show (found q.marker (SetRef.toNameRef r).resolution).map Target.objectSet =
    some (.objectSet t) from hx)
  obtain ⟨x,hres,_,hxy⟩ := found_eq_some.mp hy
  exact ⟨r,x,hr,hres,hxy.trans (Target.objectSet.inj ht)⟩

theorem acyclic_of_descending {q : Pass} {n : Nat} (h : ∀ i t : Id .setDef, i.index < n → q.Edge i t → t.index < i.index)
    {i : Id .setDef} (hi : i.index < n) : q.Acyclic i := by
  have falls : ∀ {s t : Id .setDef}, s.index < n → Relation.TransGen q.Edge s t → t.index < s.index := by
    intro s t hs hst
    induction hst with
    | single he => exact h s _ hs he
    | tail _ he ih => exact (h _ _ (ih.trans hs) he).trans ih
  intro t hit htt
  rcases Relation.reflTransGen_iff_eq_or_transGen.mp hit with rfl | hit
  · exact Nat.lt_irrefl _ (falls hi htt)
  · exact Nat.lt_irrefl _ (falls ((falls hi hit).trans hi) htt)

theorem flatten_concatenates_nestedSources : ∃ p d os q, (new false).addSources nestedSources = .ok p ∧ Reached 0 p ∧
    0+1 < 2^64 ∧ p.startPass.store.get? (⟨1⟩ : Id .setDef) = some d ∧ d.erroneous = false ∧
    LodgedSet p.startPass.store (.definition ⟨1⟩) ∧ Gives (flatten ⟨1⟩) p.startPass os q ∧ os.length = 5 ∧ q.Acyclic ⟨1⟩ ∧
    Holds q ⟨1⟩ os := by
  -- the sets are numbered in the order of the text, and the first two name only sets before them
  have hrun : ((new false).addSources nestedSources).toOption.any (fun p =>
      (p.store.get? (⟨1⟩ : Id .setDef)).any (!·.erroneous) &&
      p.store.kept.modules.any (fun m => (p.store.get? m).any fun row =>
        row.assignments.any fun a => a.declared = .objectSet (.definition ⟨1⟩)) &&
      match flatten ⟨1⟩ p.startPass with
      | .ok (os,q) => os.length = 5 && (List.range 2).all fun n => (q.store.get? (⟨n⟩ : Id .setDef)).all fun d =>
          d.elements.all fun e => match e with
            | .set j => (q.store.get? j).all fun r => r.resolution.all fun x => x.target.index < n
            | _ => true
      | .error _ => false) = true := by
    decide +kernel
  obtain ⟨p,hp,hrun⟩ := Notation.exists_of_toOption_any hrun
  simp only [Bool.and_eq_true] at hrun
  obtain ⟨⟨hrow,hdeclared⟩,hflat⟩ := hrun
  have hreached := Reached.addSources (.new false) hp
  obtain ⟨d,hd,he⟩ : ∃ d, p.store.get? (⟨1⟩ : Id .setDef) = some d ∧ d.erroneous = false := by
    simpa using (Option.any_eq_true _ _).mp hrow
  have hlodged : LodgedSet p.startPass.store (.definition ⟨1⟩) := by
    have hsane := (hreached.sound (by decide)).sane
    obtain ⟨m,hm,hany⟩ := List.any_eq_true.mp hdeclared
    obtain ⟨row,hrow,hany⟩ := (Option.any_eq_true _ _).mp hany
    obtain ⟨a,ha,hdecl⟩ := List.any_eq_true.mp hany
    have hdecl : Declares p.store (.objectSet (.definition ⟨1⟩)) := ⟨m,hm,row,hrow,a,ha,by simpa using hdecl⟩
    exact HomedSet.lodged (d := .definition ⟨1⟩) hsane (hdecl.homed hsane)
  obtain ⟨os,q,hg,_,hholds,_⟩ := (flatten_concatenates hreached (by decide)).1 p.startPass .start ⟨1⟩ d hd he hlodged
  rw [show flatten ⟨1⟩ p.startPass = .ok (os,q) from hg] at hflat
  simp only [Bool.and_eq_true,decide_eq_true_eq] at hflat
  obtain ⟨hlength,hdescends⟩ := hflat
  have hacyclic : q.Acyclic ⟨1⟩ := by
    refine acyclic_of_descending (n := 2) (fun i t hi hedge => ?_) (by decide)
    obtain ⟨d',_,j,hd',hj,⟨hfinds,_⟩,_⟩ := hedge
    obtain ⟨r,x,hr,hx,rfl⟩ := exists_setRef hfinds
    have hset := (Option.all_eq_true _ _).mp (List.all_eq_true.mp hdescends i.index (List.mem_range.mpr hi)) d' hd'
    have hname := (Option.all_eq_true _ _).mp (List.all_eq_true.mp hset (.set j) hj) r hr
    simpa using (Option.all_eq_true _ _).mp hname x hx
  exact ⟨p,d,os,q,hp,hreached,by decide,hd,he,hlodged,hg,hlength,hacyclic,(hholds hacyclic os).mpr rfl⟩

end InfoObject.Project
