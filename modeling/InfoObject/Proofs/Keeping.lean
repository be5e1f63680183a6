import InfoObject.Proofs.FieldTables
import InfoObject.Proofs.Places
import Mathlib.Data.List.TakeWhile

/-! Every step of a check keeps what was found in the generation, except for entities on the chain. -/
namespace InfoObject.Check
open Model

/-- An entity is under resolution. -/
def Pass.onChain (p : Pass) (k : Nat) : Prop := ∃ l ∈ p.chain.links, l.key = k

/-- No field of a class lacks a kind, unless the class is a stand-in. -/
def Formed (c : ClassDef) : Prop := c.erroneous = false → ∀ f ∈ c.fields, f.shape ≠ .malformed

/-- What comes of a set that is checked. -/
inductive Surveyed (p : Pass) (d : SetDef) : Prop
  | wrong (he : d.erroneous = true) : Surveyed p d
  | classless {c : Id .classDef} {row : ClassDef} (hc : classNow p.marker p.store d.governor = some c)
      (hrow : p.store.get? c = some row) (he : row.erroneous = true) : Surveyed p d
  | unread {e : Notation.SyntaxError} (hx : d.expansion = some (.error e)) : Surveyed p d
  | listed {os : List (Id .objectDef)} (hos : found p.marker d.flattening = some os) : Surveyed p d

/-- A row was stamped in the generation. -/
def Stamped (m : Marker) (s : Store) {t : EntityType} (i : Id t) : Prop :=
  ∃ a k, s.get? i = some a ∧ stampOf a = some k ∧ k.before m = false

/-- A set is stamped only by a check that surveys it. -/
def SetsSurveyed (p q : Pass) : Prop :=
  Marker.zero.before p.marker = true → ∀ (i : Id .setDef) d, q.store.get? i = some d →
    Stamped p.marker q.store i → Stamped p.marker p.store i ∨ Surveyed q d

/-- What is told of fields of one name is what is to be told of each class that is stamped. -/
def Charges (p q : Pass) : Prop :=
  ∃ is : List (Id .classDef), is.Nodup ∧ (∀ i, i ∈ is ↔ Stamped p.marker q.store i ∧ ¬ Stamped p.marker p.store i) ∧
    (q.reports.filter ofRepeat).Perm (is.flatMap (classShare q.store)++p.reports.filter ofRepeat)

/-- A class is stamped only by a check that tells of each malformed field, and a set by one that surveys it. -/
structure Visited (p q : Pass) : Prop where
  classes : Marker.zero.before p.marker = true → ∀ (i : Id .classDef) c, q.store.get? i = some c →
    Stamped p.marker q.store i → Stamped p.marker p.store i ∨ Formed c ∨ q.hasError
  sets : p.chain.links = [] → SetsSurveyed p q
  told : Marker.zero.before p.marker = true → Charges p q

/-- What a step leaves of a pass; one that only resolves names checks no definition. -/
structure Kept (resolving : Prop) (p q : Pass) : Prop extends Evolves p.onChain p q where
  restored : q.chain.links = p.chain.links
  quiet : resolving → Quiet p.store q.store
  hushed : resolving → q.reports.filter ofRepeat = p.reports.filter ofRepeat
  visited : Visited p q

/-- Wherever a step comes to an end, it keeps what was found. -/
def Keeps {α : Type} (resolving : Prop) (m : Checking α) : Prop := ∀ p a q, Gives m p a q → Kept resolving p q

variable {R : Prop} {p q : Pass}

section Parts
variable {α β : Type} {r : Pass}

theorem Pass.onChain_congr (h : q.chain.links = p.chain.links) : q.onChain = p.onChain := by
  funext k
  simp only [Pass.onChain,h]

theorem Formed.of_bare (hb : d.bare = c.bare) (h : Formed c) : Formed d := by
  intro he g hg
  obtain ⟨f,hf,hfg⟩ := mem_fields_of_bare hb hg
  rw [(Field.bare_eq_iff.mp hfg).2.2.1]
  exact h ((ClassDef.bare_eq_iff.mp hb).2.2.1 ▸ he) f hf

theorem Surveyed.mono (hX : ObjectsOnly X) (g : Grows X p q) {i : Id .setDef} (hd : p.store.get? i = some d)
    (he : q.store.get? i = some e) (h : Surveyed p d) : Surveyed q e := by
  obtain ⟨e',he',hm,_⟩ := g.rows .setDef i d hd
  cases he.symm.trans he'
  obtain ⟨_,_,herr,_,hgov,_⟩ := SetDef.bare_eq_iff.mp (SetMoves.bare hm)
  cases h with
  | wrong hw => exact .wrong (herr.trans hw)
  | classless hc hrow hw =>
    obtain ⟨row',hrow',hbare⟩ := g.extends.rows _ _ _ hrow
    refine .classless ?_ hrow' ((ClassDef.bare_eq_iff.mp hbare).2.2.1.trans hw)
    rw [hgov]
    exact g.classNow hX hc
  | unread hx => exact .unread (SetMoves.expansion hm _ hx)
  | @listed os hos =>
    have hlist : found q.marker e.flattening = some os := by
      rw [g.marker]
      rcases SetMoves.flattening hm with hsame | ⟨_,hnone | hx⟩
      · rwa [hsame]
      · rw [hos] at hnone
        contradiction
      · exact absurd hx (hX.not_of (by decide) i)
    exact .listed hlist

theorem Unstamped.stamped {t : EntityType} {i : Id t} (h : Unstamped s s') (hfresh : Marker.zero.before m = true)
    (hi : Stamped m s' i) : Stamped m s i := by
  obtain ⟨b,k,hb,hk,hd⟩ := hi
  rcases h t i b k hb hk with rfl | ⟨a,ha,hak⟩
  · rw [hfresh] at hd
    contradiction
  · exact ⟨a,k,ha,hak,hd⟩

theorem stamped_put_other {t u : EntityType} {i : Id t} {b : Row t} (ht : t ≠ u) {j : Id u} :
    Stamped m (s.put i b) j ↔ Stamped m s j := by
  simp only [Stamped,Store.get?_put_other ht]

theorem stamped_put_ne {t : EntityType} {i j : Id t} {b : Row t} (hij : i ≠ j) : Stamped m (s.put i b) j ↔ Stamped m s j := by
  simp only [Stamped,Store.get?_put_ne b hij]

theorem Moves.stampOf {a b : Row t} (h : Moves m x a b) (hk : stampOf a = some k) (hd : k.before m = false) : ∃ n,
    stampOf b = some n ∧ n.before m = false := by
  have stamped : ∀ {c d : Marker}, Stamps m c d → some c = some k → ∃ n, some d = some n ∧ n.before m = false := by
    intro c d hs hc
    obtain rfl := Option.some.inj hc
    exact ⟨d,rfl,hs.not_due hd⟩
  cases t with
  | classDef | objectDef | setDef | classRef | objectRef | setRef => exact stamped h.checked hk
  | _ => simp [Check.stampOf] at hk

theorem Grows.stamped (g : Grows X p q) {t : EntityType} {i : Id t} (h : Stamped p.marker p.store i) :
    Stamped q.marker q.store i := by
  obtain ⟨a,k,ha,hk,hd⟩ := h
  obtain ⟨b,hb,hm,_⟩ := g.rows t i a ha
  obtain ⟨n,hn,hnd⟩ := hm.stampOf hk hd
  exact ⟨b,n,hb,hn,g.marker.symm ▸ hnd⟩
theorem Charges.same (hs : ∀ i : Id .classDef, Stamped p.marker q.store i → Stamped p.marker p.store i)
    (hr : q.reports.filter ofRepeat = p.reports.filter ofRepeat) : Charges p q := by
  refine ⟨[],.nil,fun i => ?_,by rw [hr]; rfl⟩
  simpa using hs i

theorem Charges.trans (h : Charges p q) (hg : Grows X p q) (k : Charges q r) (kg : Grows Y q r) : Charges p r := by
  obtain ⟨is,his,hmem,hperm⟩ := h
  obtain ⟨js,hjs,hmem',hperm'⟩ := k
  rw [hg.marker] at hmem'
  have hshares : is.flatMap (classShare r.store) = is.flatMap (classShare q.store) := List.flatMap_congr fun i hi => by
    obtain ⟨c,_,hc,_⟩ := ((hmem i).mp hi).1
    obtain ⟨d,hd,hb⟩ := kg.extends.rows _ i c hc
    exact classShare_congr hc hd hb
  refine ⟨js++is,List.nodup_append'.mpr ⟨hjs,his,fun i hj hi => ((hmem' i).mp hj).2 ((hmem i).mp hi).1⟩,fun i => ?_,?_⟩
  · rw [List.mem_append,hmem,hmem']
    have hp := hg.stamped (i := i)
    have hq := kg.stamped (i := i)
    rw [hg.marker] at hp hq
    rw [kg.marker,hg.marker] at hq
    tauto
  · rw [List.flatMap_append,hshares,List.append_assoc]
    exact hperm'.trans (hperm.append_left _)

theorem Unstamped.visited (h : Unstamped p.store q.store) (hr : q.reports.filter ofRepeat = p.reports.filter ofRepeat) :
    Visited p q :=
  ⟨fun hf _ _ _ hi => .inl (h.stamped hf hi),fun _ hf _ _ _ hi => .inl (h.stamped hf hi),
    fun hf => .same (fun _ => h.stamped hf) hr⟩

theorem Unstamped.visited_put {t : EntityType} {i : Id t} {b : Row t} (h : Unstamped p.store q.store)
    (ht : t ≠ .classDef ∧ t ≠ .setDef) (hr : q.reports.filter ofRepeat = p.reports.filter ofRepeat) : Visited p (q.put i b) := by
  have hclass : ∀ j : Id .classDef, Stamped p.marker (q.put i b).store j → Stamped p.marker q.store j := fun _ =>
    (stamped_put_other ht.1).mp
  exact ⟨fun hf j _ _ hj => .inl (h.stamped hf (hclass j hj)),
    fun _ hf _ _ _ hj => .inl (h.stamped hf ((stamped_put_other ht.2).mp hj)),fun hf => .same (fun j hj => h.stamped hf (hclass j hj)) hr⟩

theorem Visited.trans (h : Visited p q) (hg : Grows X p q) (hl : p.chain.links = [] → q.chain.links = [])
    (k : Visited q r) (kg : Grows Y q r) (hY : q.chain.links = [] → ObjectsOnly Y) : Visited p r := by
  refine ⟨fun hfresh i c hc hst => ?_,fun hp hfresh i d hd hst => ?_,
    fun hfresh => (h.told hfresh).trans hg (k.told (hg.marker ▸ hfresh)) kg⟩
  · rcases hg.marker ▸ k.classes (hg.marker ▸ hfresh) i c hc (hg.marker ▸ hst) with hs | hf | he
    · obtain ⟨b,_,hb,_⟩ := id hs
      rcases h.classes hfresh i b hb hs with hp | hf | he
      · exact .inl hp
      · obtain ⟨c',hc',hbare⟩ := kg.extends.rows _ i b hb
        cases hc.symm.trans hc'
        exact .inr (.inl (hf.of_bare hbare))
      · obtain ⟨e,he⟩ := he
        exact .inr (.inr ⟨e,kg.reports.subset he⟩)
    · exact .inr (.inl hf)
    · exact .inr (.inr he)
  · rcases hg.marker ▸ k.sets (hl hp) (hg.marker ▸ hfresh) i d hd (hg.marker ▸ hst) with hs | hs
    · obtain ⟨b,_,hb,_⟩ := id hs
      exact (h.sets hp hfresh i b hb hs).imp id fun hs => hs.mono (hY (hl hp)) kg hb hd
    · exact .inr hs

theorem Kept.of_quiet (e : Evolves p.onChain p q) (hl : q.chain.links = p.chain.links) (hq : Quiet p.store q.store)
    (hr : q.reports.filter ofRepeat = p.reports.filter ofRepeat) : Kept R p q :=
  ⟨e,hl,fun _ => hq,fun _ => hr,hq.stamps.visited hr⟩

theorem not_onChain (h : p.chain.links = []) : ¬ p.onChain k := by
  simp [Pass.onChain,h]

theorem Kept.grows (h : Kept R p q) (hl : p.chain.links = []) : Grows (fun _ => False) p q :=
  (h.toEvolves.weaken fun _ hk => absurd hk (not_onChain hl)).toGrows

theorem Kept.refl (R : Prop) (p : Pass) : Kept R p p := .of_quiet (.refl _ p) rfl (.refl _) rfl

theorem Kept.trans (h : Kept R p q) (k : Kept R q r) : Kept R p r :=
  ⟨h.toEvolves.trans (Pass.onChain_congr h.restored ▸ k.toEvolves),k.restored.trans h.restored,
    fun hR => (h.quiet hR).trans h.extends (k.quiet hR),fun hR => (k.hushed hR).trans (h.hushed hR),
    h.visited.trans h.toGrows h.restored.trans k.visited k.toGrows fun hl _ hk => absurd hk (not_onChain hl)⟩

theorem Kept.weaken (h : Kept True p q) : Kept R p q :=
  .of_quiet h.toEvolves h.restored (h.quiet trivial) (h.hushed trivial)

theorem Keeps.weaken (h : Keeps True m) : Keeps R m := fun p a q hg => (h p a q hg).weaken

theorem Kept.of_plain (h : Plain p q) : Kept R p q :=
  .of_quiet (h.toEvolves.weaken fun _ hf => hf.elim) (by rw [h.chain]) h.quiet (by rw [h.silent])

theorem Keeps.pure (a : α) : Keeps R (pure a) := by
  intro p b q h
  obtain ⟨_,rfl⟩ := gives_pure.mp h
  exact .refl R q

theorem Keeps.throw (e : Stuck) : Keeps R (throw e : Checking α) := fun _ _ _ h => absurd h gives_throw

theorem Keeps.bind (hm : Keeps R m) (hf : ∀ a, Keeps R (f a)) : Keeps R (m >>= f) := by
  intro p b r h
  obtain ⟨a,q,h,k⟩ := gives_bind.mp h
  exact (hm p a q h).trans (hf a q b r k)

theorem Keeps.ite [Decidable c] (hm : Keeps R m) (hn : Keeps R n) : Keeps R (if c then m else n) := by
  by_cases h : c
  · simpa only [h,if_true] using hm
  · simpa only [h,if_false] using hn

theorem Keeps.forM {l : List α} (hf : ∀ x ∈ l, Keeps R (f x)) : Keeps R (l.forM f) := by
  induction l with
  | nil => exact .pure ()
  | cons x l ih =>
    exact .bind (hf x (by simp)) fun _ => ih fun y hy => hf y (by simp [hy])

theorem Keeps.forM_mem {l : List α} (hf : ∀ x ∈ l, Keeps R (f x)) (h : Gives (l.forM f) p u q)
    (hx : x ∈ l) : ∃ p' q', Kept R p p' ∧ Gives (f x) p' () q' ∧ Kept R q' q := by
  induction l generalizing p with
  | nil => simp at hx
  | cons y l ih =>
    obtain ⟨p1,hy,hl⟩ := gives_forM_cons.mp h
    have hrest : ∀ z ∈ l, Keeps R (f z) := fun z hz => hf z (List.mem_cons_of_mem _ hz)
    rcases List.mem_cons.mp hx with rfl | hx
    · exact ⟨p,p1,.refl _ _,hy,Keeps.forM hrest _ _ _ hl⟩
    · obtain ⟨p',q',hp,hg,hq⟩ := ih hrest hl hx
      exact ⟨p',q',(hf y List.mem_cons_self _ _ _ hy).trans hp,hg,hq⟩

theorem keeps_load {t : EntityType} {i : Id t} : Keeps R (load i : Checking (Row t)) := by
  intro p a q h
  obtain ⟨_,rfl⟩ := gives_load.mp h
  exact .refl R q

theorem keeps_budget : Keeps R budget := by
  intro p a q h
  obtain ⟨_,rfl⟩ := gives_budget.mp h
  exact .refl R q

theorem keeps_build (h : ∀ s a s', Makes b s a s' → Built s s') : Keeps R (build b) := by
  intro p a q hg
  obtain ⟨s,hs,rfl⟩ := gives_build.mp hg
  exact .of_plain (.of_built (h _ _ _ hs))

theorem keeps_standInClass : Keeps R (build (standInClass n l)) :=
  keeps_build fun _ _ _ h => (Makes.alloc (t := .classDef) h ⟨rfl,fun _ hf => by simp at hf⟩ (by decide)).built id

theorem keeps_standInObject : Keeps R (build (standInObject n c l)) :=
  keeps_build fun _ _ _ h => (Makes.alloc (t := .objectDef) h ⟨rfl,rfl⟩ (by decide)).built id

theorem keeps_standInSet : Keeps R (build (standInSet n c l)) :=
  keeps_build fun _ _ _ h => (Makes.alloc (t := .setDef) h ⟨rfl,rfl,.inr ⟨rfl,rfl⟩⟩ (by decide)).built id

theorem keeps_lookup : Keeps R (lookup m n) := by
  intro p a q h
  obtain ⟨_,ha,rfl⟩ := gives_lookup.mp h
  exact .of_plain (.lookup ha)

theorem keeps_report (hd : ofRepeat d = false) : Keeps R (report d) := by
  intro p a q h
  rw [gives_report.mp h]
  exact .of_quiet (.report [d]) rfl (.refl _) (List.filter_cons_of_neg (by simp [hd]))

theorem keeps_reportError (hf : ofRepeat (.error ⟨f,l,o⟩) = false) : Keeps R (reportError f l o) := keeps_report hf

theorem keeps_reportWarning (hc : ofRepeat (.warning ⟨c,l⟩) = false) : Keeps R (reportWarning c l) := keeps_report hc

end Parts

/-! Marks on the chain -/

section Chains
variable {α : Type} {X : Nat → Prop} {r : Pass}

theorem gives_restoringChain : Gives (restoringChain m) p a q ↔ ∃ r c, Gives m p.marked a r ∧
    r.chain.rewind = some c ∧ q = {r with chain := c} := by
  simp only [restoringChain,rewindChain,gives_bind,gives_modify,gives_get,gives_orStuck,gives_pure]
  constructor
  · rintro ⟨_,_,rfl,b,r,hm,_,_,⟨_,_,⟨rfl,rfl⟩,c,_,⟨hc,rfl⟩,rfl⟩,rfl,rfl⟩
    exact ⟨_,c,hm,hc,rfl⟩
  · rintro ⟨r,c,hm,hc,rfl⟩
    exact ⟨(),_,rfl,a,r,hm,(),_,⟨r,r,⟨rfl,rfl⟩,c,r,⟨hc,rfl⟩,rfl⟩,rfl,rfl⟩

theorem Evolves.restore (h : Evolves X p.marked r) (hc : r.chain.rewind = some c) :
    Evolves X p {r with chain := c} ∧ c.links = p.chain.links := by
  have hmarks : r.chain.marks = p.chain.links.length::p.chain.marks := h.marks
  simp only [Chain.rewind,hmarks,Option.some.injEq] at hc
  subst hc
  have hlinks : r.chain.links.take p.chain.links.length = p.chain.links :=
    (List.prefix_iff_eq_take.mp h.links).symm
  refine ⟨{h with links := ?_, marks := rfl},hlinks⟩
  simp only [hlinks]
  exact List.prefix_refl _

theorem Keeps.restoringChain (h : Keeps R m) : Keeps R (restoringChain m) := by
  intro p a q hg
  obtain ⟨r,c,hm,hc,rfl⟩ := gives_restoringChain.mp hg
  have hk := h _ _ _ hm
  obtain ⟨he,hl⟩ := hk.toEvolves.restore hc
  refine ⟨he,hl,hk.quiet,hk.hushed,hk.visited.classes,
    fun hp hf i d hd hst => (hk.visited.sets hp hf i d hd hst).imp id fun h => ?_,hk.visited.told⟩
  cases h with
  | wrong h => exact .wrong h
  | classless hc hrow he => exact .classless hc hrow he
  | unread h => exact .unread h
  | listed h => exact .listed h

theorem Evolves.enter (l : Link) : Evolves X p (p.entered l) := by
  by_cases h : p.chain.holds l
  · simp only [Pass.entered,Chain.add,h,if_true]
    refine {Evolves.refl X p with cycles := ⟨_,rfl,?_⟩}
    intro c hc
    obtain ⟨x,hx,hk⟩ := List.any_eq_true.mp h
    rw [List.mem_singleton.mp hc]
    intro hnil
    have := List.dropWhile_eq_nil_iff.mp hnil x hx
    simp_all
  · simp only [Pass.entered,Chain.add,h]
    exact {Evolves.refl X p with links := List.prefix_append _ _}

theorem onChain_add (h : Pass.onChain (p.entered l) k) : p.onChain k ∨ k = l.key := by
  obtain ⟨x,hx,rfl⟩ := h
  by_cases hl : p.chain.holds l
  · simp only [Chain.add,hl,if_true] at hx
    exact .inl ⟨x,hx,rfl⟩
  · simp only [Chain.add,hl,Bool.false_eq_true,if_false,List.mem_append,List.mem_singleton] at hx
    rcases hx with hx | rfl
    · exact .inl ⟨x,hx,rfl⟩
    · exact .inr rfl

end Chains

/-! References, which are resolved once in a generation -/

/-- Rows that carry what a name was found to mean. -/
class Referring (t : EntityType) (τ : outParam Type) where
  name : Row t → String
  location : Row t → Location
  resolution : Row t → Option (Resolution τ)
  resolve : Row t → Resolution τ → Row t
  resolution_resolve : ∀ a x, resolution (resolve a x) = some x := by intros; rfl
  moves : ∀ m a x, Moves m True a (resolve a ⟨x,m⟩)
  resolves : ∀ m y a b, Moves m y a b → Resolves m y (resolution a) (resolution b) := by
    intro _ _ _ _ h
    exact h.resolution
  pending : ∀ m a, Pending m a ↔ found m (resolution a) = none := by intros; rfl
  parts : ∀ a x, SameParts a (resolve a x) := by intros; trivial
  stamp : ∀ a x, stampOf (resolve a x) = stampOf a := by intros; rfl
  classKept : ∀ X m s a x, ClassKept X m s a (resolve a x) := by intros; trivial

instance : Referring .typeRef TypeTarget where
  name := NameRef.name
  location := NameRef.location
  resolution := NameRef.resolution
  resolve r x := {r with resolution := some x}
  moves _ _ x := ⟨rfl,.inr ⟨⟨x,rfl⟩,.inr trivial⟩⟩

instance : Referring .valueRef ValueTarget where
  name := NameRef.name
  location := NameRef.location
  resolution := NameRef.resolution
  resolve r x := {r with resolution := some x}
  moves _ _ x := ⟨rfl,.inr ⟨⟨x,rfl⟩,.inr trivial⟩⟩

instance : Referring .classRef (Id .classDef) where
  name r := r.name
  location r := r.location
  resolution r := r.resolution
  resolve r x := {r with resolution := some x}
  moves _ _ x := ⟨rfl,.refl ..,.inr ⟨⟨x,rfl⟩,.inr trivial⟩⟩

instance : Referring .objectRef (Id .objectDef) where
  name r := r.name
  location r := r.location
  resolution r := r.resolution
  resolve r x := {r with resolution := some x}
  moves _ _ x := ⟨rfl,.refl ..,.inr ⟨⟨x,rfl⟩,.inr trivial⟩⟩

instance : Referring .setRef (Id .setDef) where
  name r := r.name
  location r := r.location
  resolution r := r.resolution
  resolve r x := {r with resolution := some x}
  moves _ _ x := ⟨rfl,.refl ..,.inr ⟨⟨x,rfl⟩,.inr trivial⟩⟩

section Once
variable {t : EntityType} {τ ε : Type} [Referring t τ]

/-- Resolves a name unless that was done in the generation. It is looked for with what `before` gives; `search`
is told whether the name is new on the chain, or is met during its own resolution. -/
def once (id : Id t) (before : Row t → Checking ε) (search : Bool → Row t → ε → Checking τ) : Checking τ := do
  let r ← load id
  match ← current? (Referring.resolution r) with
  | some target => pure target
  | none => restoringChain do
    let e ← before r
    let target ← search (← enter id (Referring.name r) (Referring.location r)) r e
    save id (Referring.resolve (← load id) ⟨target,← marker⟩)
    pure target

def linkOf (id : Id t) (r : Row t) : Link := ⟨id.key,Referring.name r,Referring.location r⟩

variable {id : Id t} {before : Row t → Checking ε} {search : Bool → Row t → ε → Checking τ} {x : τ}

/-- The steps of a resolution that was not made in the generation. -/
structure Attempt (id : Id t) (before : Row t → Checking ε) (search : Bool → Row t → ε → Checking τ)
    (p : Pass) (r : Row t) (x : τ) (q : Pass) (e : ε) (p1 p2 : Pass) (r2 : Row t) (c : Chain) : Prop where
  prepared : Gives (before r) {p with chain := p.chain.mark} e p1
  searched : Gives (search (p1.chain.add (linkOf id r)).1 r e)
    {p1 with chain := (p1.chain.add (linkOf id r)).2} x p2
  row : p2.store.get? id = some r2
  rewound : p2.chain.rewind = some c
  result : q = {p2 with store := p2.store.put id (Referring.resolve r2 ⟨x,p2.marker⟩), chain := c}

/-- A resolution gives what was found before, or goes through its steps. -/
theorem gives_once : Gives (once id before search) p x q ↔ ∃ r, p.store.get? id = some r ∧
    (found p.marker (Referring.resolution r) = some x ∧ q = p ∨ found p.marker (Referring.resolution r) = none ∧
        ∃ e p1 p2 r2 c, Attempt id before search p r x q e p1 p2 r2 c) := by
  simp only [once,gives_bind,gives_load,gives_current?]
  constructor
  · rintro ⟨r,_,⟨hr,rfl⟩,o,_,⟨rfl,ho⟩,h⟩
    refine ⟨r,hr,?_⟩
    cases o with
    | some y =>
      obtain ⟨rfl,rfl⟩ := gives_pure.mp h
      exact .inl ⟨ho.symm,rfl⟩
    | none =>
      obtain ⟨p3,c,hm,hc,hq⟩ := gives_restoringChain.mp h
      simp only [gives_bind,gives_enter,gives_load,gives_marker,gives_save,gives_pure] at hm
      obtain ⟨e,p1,he,b,_,⟨rfl,rfl⟩,y,p2,hs,r2,p2',⟨hr2,hp2⟩,k,p2'',⟨hk,hp2'⟩,_,_,rfl,rfl,rfl⟩ := hm
      subst hp2 hp2' hk
      exact .inr ⟨ho.symm,e,p1,_,r2,c,he,hs,hr2,hc,hq⟩
  · rintro ⟨r,hr,⟨hx,rfl⟩ | ⟨hn,e,p1,p2,r2,c,h⟩⟩
    · exact ⟨r,q,⟨hr,rfl⟩,some x,q,⟨rfl,hx.symm⟩,gives_pure.mpr ⟨rfl,rfl⟩⟩
    · refine ⟨r,p,⟨hr,rfl⟩,none,p,⟨rfl,hn.symm⟩,?_⟩
      refine gives_restoringChain.mpr
        ⟨p2.put id (Referring.resolve r2 ⟨x,p2.marker⟩),c,?_,h.rewound,h.result⟩
      simp only [gives_bind,gives_enter,gives_load,gives_marker,gives_save,gives_pure]
      exact ⟨e,p1,h.prepared,_,_,⟨rfl,rfl⟩,x,p2,h.searched,r2,p2,⟨h.row,rfl⟩,_,_,⟨rfl,rfl⟩,(),_,rfl,rfl,rfl⟩

theorem Attempt.evolves (h : Attempt id before search p r x q e p1 p2 r2 c) (hb : Keeps True (before r))
    (hs : ∀ b, Keeps True (search b r e)) : Evolves (fun k => p.onChain k ∨ k = id.key) p q ∧
    q.chain.links = p.chain.links ∧ Quiet p.store q.store ∧ q.reports.filter ofRepeat = p.reports.filter ofRepeat := by
  have k1 := hb _ _ _ h.prepared
  have k2 := hs _ _ _ _ h.searched
  have e1 : Evolves (fun k => p.onChain k ∨ k = id.key) p.marked p1 :=
    k1.toEvolves.weaken fun _ hk => .inl hk
  have e2 : Evolves (fun k => p.onChain k ∨ k = id.key) p1 (p1.entered (linkOf id r)) :=
    .enter _
  have e3 : Evolves (fun k => p.onChain k ∨ k = id.key)
      (p1.entered (linkOf id r)) p2 := by
    refine k2.toEvolves.weaken fun k hk => ?_
    refine (onChain_add hk).imp ?_ fun h => h
    exact fun hk => Pass.onChain_congr (p := p.marked) k1.restored ▸ hk
  have e4 : Evolves (fun k => p.onChain k ∨ k = id.key) p2
      (p2.put id (Referring.resolve r2 ⟨x,p2.marker⟩)) :=
    .put h.row ((Referring.moves _ _ _).imp fun _ => .inl (.inr rfl)) (Referring.parts _ _)
      (Referring.classKept _ _ _ _ _)
  have hall := ((e1.trans e2).trans e3).trans e4
  obtain ⟨he,hl⟩ := hall.restore h.rewound
  rw [h.result]
  have hput : Quiet p2.store (p2.store.put id (Referring.resolve r2 ⟨x,p2.marker⟩)) :=
    .put h.row (Referring.parts _ _) (Referring.stamp _ _)
  have f1 : Quiet p.store p1.store := k1.quiet trivial
  have f2 : Quiet p1.store p2.store := k2.quiet trivial
  exact ⟨he,hl,(f1.trans k1.extends f2).trans ((e1.trans e2).trans e3).extends hput,
    (k2.hushed trivial).trans (k1.hushed trivial)⟩

theorem Keeps.once (hb : ∀ r, Keeps True (before r)) (hs : ∀ b r e, Keeps True (search b r e)) :
    Keeps True (once id before search) := by
  intro p x q hg
  obtain ⟨r,hr,⟨_,rfl⟩ | ⟨hn,e,p1,p2,r2,c,h⟩⟩ := gives_once.mp hg
  · exact .refl True q
  · obtain ⟨he,hl,hq,hs⟩ := h.evolves (hb r) fun b => hs b r e
    exact .of_quiet (he.drop hr ((Referring.pending _ _).mpr hn).free) hl hq hs

theorem Gives.once_found (hg : Gives (once id before search) p x q) :
    ∃ r, q.store.get? id = some r ∧ found q.marker (Referring.resolution r) = some x := by
  obtain ⟨r,hr,⟨hx,rfl⟩ | ⟨hn,e,p1,p2,r2,c,h⟩⟩ := gives_once.mp hg
  · exact ⟨r,hr,hx⟩
  · rw [h.result]
    exact ⟨_,Store.get?_put_self h.row,by rw [Referring.resolution_resolve]; exact found_now ..⟩

theorem Gives.once_now (hg : Gives (once id before search) p x q) :
    ((q.store.get? id).bind fun r => found q.marker (Referring.resolution r)) = some x := by
  obtain ⟨r,hr,hf⟩ := hg.once_found
  rw [hr]
  exact hf

theorem typeWithin_succ (n : Nat) (id : Id .typeRef) : typeWithin (n+1) id =
    once id (fun _ => pure ()) fun fresh r _ => if fresh then findType (typeWithin n) r else pure none := by
  rw [typeWithin,once]
  refine bind_congr fun r => bind_congr fun o => ?_
  cases o with
  | some x => rfl
  | none =>
    rw [pure_bind]
    exact congrArg Check.restoringChain (bind_congr fun b => by cases b <;> rfl)

theorem valueWithin_succ (n : Nat) (id : Id .valueRef) : valueWithin (n+1) (.reference id) =
    once id (fun _ => pure ()) fun fresh r _ => if fresh then findValue (valueWithin n) r else pure none := by
  rw [valueWithin,once]
  refine bind_congr fun r => bind_congr fun o => ?_
  cases o with
  | some x => rfl
  | none =>
    rw [pure_bind]
    exact congrArg Check.restoringChain (bind_congr fun b => by cases b <;> rfl)

theorem classWithin_succ (n : Nat) (id : Id .classRef) : classWithin (n+1) (.reference id) =
    once id (fun _ => pure ()) fun fresh r _ =>
      if fresh then findClass (classWithin n) (objectWithin n) r else build (standInClass r.name r.location) := by
  rw [classWithin,once]
  refine bind_congr fun r => bind_congr fun o => ?_
  cases o with
  | some x => rfl
  | none =>
    rw [pure_bind]
    exact congrArg Check.restoringChain (bind_congr fun b => by cases b <;> rfl)

theorem objectWithin_succ (n : Nat) (id : Id .objectRef) : objectWithin (n+1) (.reference id) =
    once id (fun r => classWithin n r.governor) fun fresh r expected =>
      if fresh then findObject (classWithin n) (objectWithin n) r expected
      else build (standInObject r.name expected r.location) := by
  rw [objectWithin,once]
  refine bind_congr fun r => bind_congr fun o => ?_
  cases o with
  | some x => rfl
  | none => exact congrArg Check.restoringChain (bind_congr fun c => bind_congr fun b => by cases b <;> rfl)

theorem setWithin_succ (n : Nat) (id : Id .setRef) : setWithin (n+1) (.reference id) =
    once id (fun r => resolveClass r.governor) fun fresh r expected =>
      if fresh then findSet (setWithin n) r expected else build (standInSet r.name expected r.location) := by
  rw [setWithin,once]
  refine bind_congr fun r => bind_congr fun o => ?_
  cases o with
  | some x => rfl
  | none => exact congrArg Check.restoringChain (bind_congr fun c => bind_congr fun b => by cases b <;> rfl)

end Once

/-! Resolving names -/

theorem gives_valueWithin_literal : Gives (valueWithin n (.literal name l v)) p x q ↔ x = some v ∧ q = p := by
  cases n <;> exact gives_pure

theorem gives_classWithin_definition : Gives (classWithin n (.definition d)) p c q ↔ c = d ∧ q = p := by
  cases n <;> exact gives_pure

theorem gives_objectWithin_definition : Gives (objectWithin n (.definition d)) p c q ↔ c = d ∧ q = p := by
  cases n <;> exact gives_pure

theorem gives_setWithin_definition : Gives (setWithin n (.definition d)) p c q ↔ c = d ∧ q = p := by
  cases n <;> exact gives_pure

/-- What follows a class leaves it found. -/
def Follows (f : ClassExpr → Checking (Id .classDef)) : Prop :=
  ∀ e p c q, Gives (f e) p c q → classNow q.marker q.store e = some c

theorem follows_classWithin (n : Nat) : Follows (classWithin n) := by
  intro e p c q h
  cases e with
  | definition d =>
    obtain ⟨rfl,_⟩ := gives_classWithin_definition.mp h
    rfl
  | reference i =>
    cases n with
    | zero => exact absurd h gives_throw
    | succ n =>
      rw [classWithin_succ] at h
      exact h.once_now

theorem follows_resolveClass : Follows resolveClass := by
  intro e p c q h
  exact follows_classWithin _ e _ c q h.within

/-- The last part of finding an object or a set: what a name leads to has the expected class. -/
def settle {t : EntityType} {τ : Type} (r : NameRef τ) (expected : Id .classDef) (erroneous : Bool)
    (govern : Checking (Id .classDef)) (standIn : Checking (Id t)) (y : Id t) : Checking (Id t) := do
  if erroneous then standIn
  else
    let got ← govern
    if ← classesDiffer got expected then
      reportClassMismatch r got expected
      standIn
    else pure y

/-- A name is looked up, and what is declared under it is followed if it is of the kind that is wanted. -/
def seek {τ ε β : Type} (r : NameRef τ) (want : Kind) (sel : Declared → Option ε) (absent wrong : Checking β)
    (follow : ε → Checking β) : Checking β := do
  match ← lookup r.scope r.reference with
  | none => absent
  | some a =>
    match sel a.declared with
    | some e => follow e
    | none =>
      reportKind r want a.declared.kind
      wrong

/-- What is absent is told of, and stood in for like what is of another kind. -/
abbrev seekOr {τ ε β : Type} (r : NameRef τ) (want : Kind) (sel : Declared → Option ε) (standIn : Checking β)
    (follow : ε → Checking β) : Checking β :=
  seek r want sel (do reportMissing r; standIn) standIn follow

/-- An object or a set is followed to its definition, which has to have the expected class. -/
def member {t : EntityType} {τ ε : Type} (r : NameRef τ) (expected : Id .classDef) (follow : ε → Checking (Id t))
    (erroneous : Row t → Bool) (govern : Id t → Checking (Id .classDef)) (standIn : Checking (Id t)) (e : ε) :
    Checking (Id t) := do
  let y ← follow e
  settle r expected (erroneous (← load y)) (govern y) standIn y

def typeIn : Declared → Option (Id .typeRef)
  | .type i => some i
  | _ => none

def valueIn : Declared → Option ValueExpr
  | .value _ v => some v
  | _ => none

def classIn : Declared → Option ClassExpr
  | .objectClass e => some e
  | _ => none

def objectIn : Declared → Option ObjectExpr
  | .object o => some o
  | _ => none

def setIn : Declared → Option SetExpr
  | .objectSet d => some d
  | _ => none

variable {followClass : ClassExpr → Checking (Id .classDef)} {followObject : ObjectExpr → Checking (Id .objectDef)}

theorem findType_eq : findType follow r = seek r .type typeIn (missingType r) (pure none) follow :=
  bind_congr fun
    | none => rfl
    | some ⟨_,_,_,_,d,_⟩ => by cases d <;> rfl

theorem findValue_eq : findValue follow r = seekOr r .value valueIn (pure none) follow :=
  bind_congr fun
    | none => rfl
    | some ⟨_,_,_,_,d,_⟩ => by cases d <;> rfl

theorem findClass_eq : findClass followClass followObject r = if r.ofObject then
      seekOr r.toNameRef .object objectIn (build (standInClass r.name r.location)) fun o => do
        governObject followClass (← followObject o)
    else seekOr r.toNameRef .objectClass classIn (build (standInClass r.name r.location)) followClass := by
  cases h : r.ofObject <;> refine bind_congr fun
    | none => rfl
    | some ⟨_,_,_,_,d,_⟩ => by
      rw [h]
      cases d <;> rfl

theorem findObject_eq : findObject followClass followObject r expected =
    seekOr r.toNameRef .object objectIn (build (standInObject r.name expected r.location))
      (member r.toNameRef expected followObject ObjectDef.erroneous (governObject followClass)
        (build (standInObject r.name expected r.location))) :=
  bind_congr fun
    | none => rfl
    | some ⟨_,_,_,_,d,_⟩ => by cases d <;> rfl

theorem findSet_eq : findSet follow r expected =
    seekOr r.toNameRef .objectSet setIn (build (standInSet r.name expected r.location))
      (member r.toNameRef expected follow SetDef.erroneous governSet (build (standInSet r.name expected r.location))) :=
  bind_congr fun
    | none => rfl
    | some ⟨_,_,_,_,d,_⟩ => by cases d <;> rfl

theorem gives_seek (h : Gives (seek r want sel absent wrong follow) p x q) : ∃ a s p',
    p.store.lookup? r.scope r.reference p.marker = some (a,s) ∧ Plain p p' ∧ (a = none ∧ Gives absent p' x q ∨
    (∃ b p'', a = some b ∧ sel b.declared = none ∧ Gives (reportKind r want b.declared.kind) p' () p'' ∧ Gives wrong p'' x q) ∨
    ∃ b e, a = some b ∧ sel b.declared = some e ∧ Gives (follow e) p' x q) := by
  obtain ⟨a,p',hlook,h⟩ := gives_bind.mp h
  obtain ⟨s,ha,hp'⟩ := gives_lookup.mp hlook
  refine ⟨a,s,p',ha,hp' ▸ .lookup ha,?_⟩
  cases a with
  | none => exact .inl ⟨rfl,h⟩
  | some b =>
    dsimp only at h
    split at h
    · exact .inr (.inr ⟨b,_,rfl,‹_›,h⟩)
    · obtain ⟨_,p'',hk,h⟩ := gives_bind.mp h
      exact .inr (.inl ⟨b,p'',rfl,‹_›,hk,h⟩)

/-- Faults of a name in a reference. -/
def Fault.ofName : Fault → Bool
  | .assignmentNotFound _ => true
  | .kindMismatch _ _ _ => true
  | .classMismatch _ _ _ => true
  | _ => false

section Resolving
variable {K : ∀ {α : Type}, Checking α → Prop} {Good : ∀ {τ : Type}, NameRef τ → Prop}

/-- A property of steps that the resolution of a name has if its parts have it. -/
def OnceClosed (K : ∀ {α : Type}, Checking α → Prop) (Good : ∀ {τ : Type}, NameRef τ → Prop) {t : EntityType} {τ : Type}
    [Referring t τ] (ref : Row t → NameRef τ) : Prop :=
  ∀ {ε : Type} {id : Id t} {before : Row t → Checking ε} {search : Bool → Row t → ε → Checking τ},
    (∀ r, K (before r)) → (∀ b r e, Good (ref r) → K (search b r e)) → K (once id before search)

/-- A property of steps that everything has which names are resolved with, given something `Good` of each name. -/
structure Resolvable (K : ∀ {α : Type}, Checking α → Prop) (Good : ∀ {τ : Type}, NameRef τ → Prop) : Prop where
  pure : ∀ {α} (a : α), K (pure a)
  throw : ∀ {α} (e : Stuck), K (throw e : Checking α)
  bind : ∀ {α β} {m : Checking α} {f : α → Checking β}, K m → (∀ a, K (f a)) → K (m >>= f)
  ite : ∀ {α c} [Decidable c] {m n : Checking α}, K m → K n → K (if c then m else n)
  load : ∀ {t : EntityType} {i : Id t}, K (load i : Checking (Row t))
  budget : K budget
  lookup : ∀ {i n}, K (lookup i n)
  tell : ∀ {τ f} {r : NameRef τ}, Good r → Fault.ofName f = true → K (reportError f r.referenceLocation none)
  standInClass : ∀ {τ} {r : NameRef τ}, Good r → K (build (standInClass r.name r.location))
  standInObject : ∀ {τ c} {r : NameRef τ}, Good r → K (build (standInObject r.name c r.location))
  standInSet : ∀ {τ c} {r : NameRef τ}, Good r → K (build (standInSet r.name c r.location))
  onceType : OnceClosed K Good (t := .typeRef) fun r => r
  onceValue : OnceClosed K Good (t := .valueRef) fun r => r
  onceClass : OnceClosed K Good (t := .classRef) ClassRef.toNameRef
  onceObject : OnceClosed K Good (t := .objectRef) ObjectRef.toNameRef
  onceSet : OnceClosed K Good (t := .setRef) SetRef.toNameRef
  governObject : ∀ {f}, (∀ e, K (f e)) → Follows f → ∀ i, K (governObject f i)
  governSet : (∀ e, K (resolveClass e)) → ∀ i, K (governSet i)

variable (w : Resolvable K Good)
include w

theorem Resolvable.reportMissing {r : NameRef τ} (hr : Good r) : K (reportMissing r) := w.tell hr rfl

theorem Resolvable.reportKind {r : NameRef τ} (hr : Good r) : K (reportKind r want got) :=
  w.ite (w.pure _) (w.tell hr rfl)

theorem Resolvable.seek {r : NameRef τ} (hr : Good r) (ha : K absent) (hw : K wrong) (hf : ∀ e, K (follow e)) :
    K (seek r want sel absent wrong follow) := by
  refine w.bind w.lookup fun a => ?_
  split
  · exact ha
  · split
    · exact hf _
    · exact w.bind (w.reportKind hr) fun _ => hw

theorem Resolvable.seekOr {r : NameRef τ} (hr : Good r) (hs : K standIn) (hf : ∀ e, K (follow e)) :
    K (seekOr r want sel standIn follow) :=
  w.seek hr (w.bind (w.reportMissing hr) fun _ => hs) hs hf

theorem Resolvable.findType {r : TypeRef} (hf : ∀ i, K (follow i)) (hr : Good r) : K (findType follow r) := by
  rw [findType_eq]
  refine w.seek hr ?_ (w.pure _) hf
  unfold missingType
  split
  · exact w.pure _
  · exact w.bind (w.reportMissing hr) fun _ => w.pure _

theorem Resolvable.typeWithin (n : Nat) (i : Id .typeRef) : K (typeWithin n i) := by
  induction n generalizing i with
  | zero => exact w.throw _
  | succ n ih =>
    rw [typeWithin_succ]
    exact w.onceType (fun _ => w.pure _) fun _ r _ hr => w.ite (w.findType ih hr) (w.pure _)

theorem Resolvable.findValue {r : ValueRef} (hf : ∀ v, K (follow v)) (hr : Good r) : K (findValue follow r) :=
  findValue_eq ▸ w.seekOr hr (w.pure _) hf

theorem Resolvable.valueWithin (n : Nat) (v : ValueExpr) : K (valueWithin n v) := by
  induction n generalizing v with
  | zero =>
    cases v with
    | literal => exact w.pure _
    | reference => exact w.throw _
  | succ n ih =>
    cases v with
    | literal => exact w.pure _
    | reference i =>
      rw [valueWithin_succ]
      exact w.onceValue (fun _ => w.pure _) fun _ r _ hr => w.ite (w.findValue ih hr) (w.pure _)

theorem Resolvable.classesDiffer : K (classesDiffer a b) :=
  w.bind (w.load (t := .classDef)) fun _ => w.bind (w.load (t := .classDef)) fun _ => w.pure _

theorem Resolvable.settle {r : NameRef τ} {y : Model.Id t} (hr : Good r) (hg : K govern) (hs : K standIn) :
    K (settle r e erroneous govern standIn y) := by
  refine w.ite hs (w.bind hg fun c => w.bind w.classesDiffer fun b => w.ite (w.bind ?_ fun _ => hs) (w.pure _))
  exact w.bind (w.load (t := .classDef)) fun _ => w.bind (w.load (t := .classDef)) fun _ => w.tell hr rfl

theorem Resolvable.member {r : NameRef τ} {follow : ε → Checking (Model.Id t)} {wrong : Row t → Bool} (hr : Good r)
    (hf : ∀ e, K (follow e)) (hg : ∀ y, K (govern y)) (hs : K standIn) (e : ε) : K (member r c follow wrong govern standIn e) :=
  w.bind (hf e) fun y => w.bind w.load fun _ => w.settle hr (hg y) hs

section Objects
variable (hc : ∀ e, K (followClass e)) (hn : Follows followClass) (ho : ∀ o, K (followObject o))

include hc hn ho

theorem Resolvable.findClass {r : ClassRef} (hr : Good r.toNameRef) : K (findClass followClass followObject r) := by
  rw [findClass_eq]
  refine w.ite (w.seekOr hr (w.standInClass hr) fun o => ?_) (w.seekOr hr (w.standInClass hr) hc)
  exact w.bind (ho o) fun i => w.governObject hc hn i

theorem Resolvable.findObject {r : ObjectRef} (hr : Good r.toNameRef) (e : Id .classDef) :
    K (findObject followClass followObject r e) :=
  findObject_eq ▸ w.seekOr hr (w.standInObject hr) (w.member hr ho (w.governObject hc hn) (w.standInObject hr))

end Objects

theorem Resolvable.within (n : Nat) : (∀ e, K (classWithin n e)) ∧ ∀ o, K (objectWithin n o) := by
  induction n with
  | zero =>
    constructor
    · intro e
      cases e with
      | definition => exact w.pure _
      | reference => exact w.throw _
    · intro o
      cases o with
      | definition => exact w.pure _
      | reference => exact w.throw _
  | succ n ih =>
    obtain ⟨ihc,iho⟩ := ih
    constructor
    · intro e
      cases e with
      | definition => exact w.pure _
      | reference i =>
        rw [classWithin_succ]
        exact w.onceClass (fun _ => w.pure _) fun _ r _ hr =>
          w.ite (w.findClass ihc (follows_classWithin n) iho hr) (w.standInClass hr)
    · intro o
      cases o with
      | definition => exact w.pure _
      | reference i =>
        rw [objectWithin_succ]
        exact w.onceObject (fun r => ihc r.governor) fun _ r e hr =>
          w.ite (w.findObject ihc (follows_classWithin n) iho hr e) (w.standInObject hr)

theorem Resolvable.resolveType (i : Id .typeRef) : K (resolveType i) := w.bind w.budget fun n => w.typeWithin n i

theorem Resolvable.resolveValue (v : ValueExpr) : K (resolveValue v) := w.bind w.budget fun n => w.valueWithin n v

theorem Resolvable.resolveClass (e : ClassExpr) : K (resolveClass e) := w.bind w.budget fun n => (w.within n).1 e

theorem Resolvable.resolveObject (o : ObjectExpr) : K (resolveObject o) := w.bind w.budget fun n => (w.within n).2 o

theorem Resolvable.findSet {r : SetRef} (hf : ∀ s, K (follow s)) (hr : Good r.toNameRef) (e : Id .classDef) :
    K (findSet follow r e) :=
  findSet_eq ▸ w.seekOr hr (w.standInSet hr) (w.member hr hf (w.governSet w.resolveClass) (w.standInSet hr))

theorem Resolvable.setWithin (n : Nat) (s : SetExpr) : K (setWithin n s) := by
  induction n generalizing s with
  | zero =>
    cases s with
    | definition => exact w.pure _
    | reference => exact w.throw _
  | succ n ih =>
    cases s with
    | definition => exact w.pure _
    | reference i =>
      rw [setWithin_succ]
      exact w.onceSet (fun r => w.resolveClass r.governor) fun _ r e hr => w.ite (w.findSet ih hr e) (w.standInSet hr)

theorem Resolvable.resolveSet (s : SetExpr) : K (resolveSet s) := w.bind w.budget fun n => w.setWithin n s

end Resolving

/-- Definitions that a class governs, which is noted in them. -/
class HasGovernor (t : EntityType) where
  governor : Row t → ClassExpr
  note : Row t → Id .classDef → Row t
  bare : ∀ {a b : Row t}, b.bare = a.bare → governor b = governor a
  moves : ∀ m a c, Moves m False a (note a c)
  parts : ∀ a c, SameParts a (note a c)
  stamp : ∀ a c, stampOf (note a c) = stampOf a
  results : ∀ a c, SameResults a (note a c)
  classKept : ∀ X m s a c, classNow m s (governor a) = some c → ClassKept X m s a (note a c)

instance : HasGovernor .objectDef where
  governor := ObjectDef.governor
  note o c := {o with objectClass := some c}
  bare h := (ObjectDef.bare_eq_iff.mp h).2.2.2.2.1
  moves _ _ _ := ⟨rfl,.refl ..,fun _ => rfl,fun _ _ => rfl⟩
  parts _ _ := rfl
  stamp _ _ := rfl
  results _ _ := trivial
  classKept _ _ _ _ _ hc _ _ hs := hc.symm.trans hs.now

instance : HasGovernor .setDef where
  governor := SetDef.governor
  note d c := {d with setClass := some c}
  bare h := (SetDef.bare_eq_iff.mp h).2.2.2.2.1
  moves _ _ _ := ⟨rfl,.refl ..,fun _ h => h,.refl ..⟩
  parts _ _ := rfl
  stamp _ _ := rfl
  results _ _ := rfl
  classKept _ _ _ _ _ hc _ _ hs := hc.symm.trans hs.now

/-- The class that governs a definition is found, and noted. -/
def noteGovernor {t : EntityType} [HasGovernor t] (f : ClassExpr → Checking (Id .classDef)) (i : Id t) :
    Checking (Id .classDef) := do
  let c ← f (HasGovernor.governor (← load i))
  save i (HasGovernor.note (← load i) c)
  pure c

variable {t : EntityType} [HasGovernor t] {i : Id t}

theorem gives_govern (hf : ∀ e, Keeps R (f e)) (hn : Follows f)
    (h : Gives (noteGovernor f i) p c q) : ∃ a b p1, p.store.get? i = some a ∧ Gives (f (HasGovernor.governor a)) p c p1 ∧
    p1.store.get? i = some b ∧ HasGovernor.governor b = HasGovernor.governor a ∧
    q = p1.put i (HasGovernor.note b c) ∧ Plain p1 q := by
  simp only [noteGovernor,gives_bind,gives_load,gives_save,gives_pure] at h
  obtain ⟨a,_,⟨ha,rfl⟩,_,p1,hc,b,_,⟨hb,rfl⟩,_,_,rfl,rfl,rfl⟩ := h
  obtain ⟨b',hb',hbare⟩ := (hf _ _ _ _ hc).extends.rows t i a ha
  cases hb.symm.trans hb'
  have hgov := HasGovernor.bare hbare
  have hnow := hn _ _ _ _ hc
  rw [← hgov] at hnow
  exact ⟨a,b,_,ha,hc,hb,hgov,rfl,.put hb (HasGovernor.moves ..) (HasGovernor.classKept _ _ _ _ _ hnow)
    (HasGovernor.parts ..) (HasGovernor.stamp ..) (HasGovernor.results ..)⟩

theorem keeps_govern (hf : ∀ e, Keeps R (f e)) (hn : Follows f) (i : Id t) :
    Keeps R (noteGovernor f i) := by
  intro p c q h
  obtain ⟨a,b,p1,_,hc,_,_,_,hplain⟩ := gives_govern hf hn h
  exact (hf _ _ _ _ hc).trans (.of_plain hplain)

theorem Gives.govern_now {a : Row t} (h : Gives (noteGovernor f i) p c q)
    (hf : ∀ e, Keeps True (f e)) (hn : Follows f) (ha : p.store.get? i = some a) : classNow q.marker q.store (HasGovernor.governor a) = some c := by
  obtain ⟨_,_,p1,ha',hc,_,_,_,hplain⟩ := gives_govern hf hn h
  cases ha.symm.trans ha'
  exact hplain.toGrows.classNow objectsOnly_false (hn _ _ _ _ hc)

theorem keeps_governObject (hf : ∀ e, Keeps R (f e)) (hn : Follows f) (i : Id .objectDef) : Keeps R (governObject f i) :=
  keeps_govern hf hn i

theorem ofRepeat_of_name (h : Fault.ofName f = true) : ofRepeat (.error ⟨f,l,o⟩) = false := by
  cases f <;> first | rfl | contradiction

theorem keeping : Resolvable (fun m => Keeps True m) fun _ => True where
  pure := .pure
  throw := .throw
  bind := .bind
  ite := .ite
  load := keeps_load
  budget := keeps_budget
  lookup := keeps_lookup
  tell _ h := keeps_reportError (ofRepeat_of_name h)
  standInClass _ := keeps_standInClass
  standInObject _ := keeps_standInObject
  standInSet _ := keeps_standInSet
  onceType hb hs := .once hb fun b r e => hs b r e trivial
  onceValue hb hs := .once hb fun b r e => hs b r e trivial
  onceClass hb hs := .once hb fun b r e => hs b r e trivial
  onceObject hb hs := .once hb fun b r e => hs b r e trivial
  onceSet hb hs := .once hb fun b r e => hs b r e trivial
  governObject := keeps_governObject
  governSet hf i := keeps_govern hf follows_resolveClass i

theorem keeps_resolveType (i : Id .typeRef) : Keeps R (resolveType i) := Keeps.weaken <| keeping.resolveType i

theorem keeps_resolveValue (v : ValueExpr) : Keeps R (resolveValue v) := Keeps.weaken <| keeping.resolveValue v

theorem keeps_resolveClass (e : ClassExpr) : Keeps R (resolveClass e) := Keeps.weaken <| keeping.resolveClass e

theorem keeps_resolveObject (o : ObjectExpr) : Keeps R (resolveObject o) := Keeps.weaken <| keeping.resolveObject o

theorem keeps_resolveSet (s : SetExpr) : Keeps R (resolveSet s) := Keeps.weaken <| keeping.resolveSet s

theorem keeps_governSet (i : Id .setDef) : Keeps R (governSet i) := keeps_govern keeps_resolveClass follows_resolveClass i

end InfoObject.Check
