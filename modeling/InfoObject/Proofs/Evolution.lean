import InfoObject.Proofs.Shape
import Mathlib.Data.List.Forall2

/-! What a step of a check may change in a pass. What was found in the generation stays, except for entities
that are free to change because they are under resolution or being checked. -/
namespace InfoObject.Check
open Model

/-- A stamp stays, or becomes that of the generation. -/
def Stamps (m a b : Marker) : Prop := b = a ∨ b = m

/-- What was found in the generation stays, unless it is free to change. -/
def Resolves {τ : Type} (m : Marker) (x : Prop) (r r' : Option (Resolution τ)) : Prop :=
  r' = r ∨ (∃ t, r' = some ⟨t,m⟩) ∧ (found m r = none ∨ x)

structure NameMoves {τ : Type} (m : Marker) (x : Prop) (r r' : NameRef τ) : Prop where
  bare : r'.bare = r.bare
  resolution : Resolves m x r.resolution r'.resolution

structure ClassRefMoves (m : Marker) (x : Prop) (r r' : ClassRef) : Prop where
  bare : r'.bare = r.bare
  checked : Stamps m r.checked r'.checked
  resolution : Resolves m x r.resolution r'.resolution

structure ObjectRefMoves (m : Marker) (x : Prop) (r r' : ObjectRef) : Prop where
  bare : r'.bare = r.bare
  checked : Stamps m r.checked r'.checked
  resolution : Resolves m x r.resolution r'.resolution

structure SetRefMoves (m : Marker) (x : Prop) (r r' : SetRef) : Prop where
  bare : r'.bare = r.bare
  checked : Stamps m r.checked r'.checked
  resolution : Resolves m x r.resolution r'.resolution

/-- The settings of an object change only while it is checked: not before its stamp, and not after it unless
the object is free. -/
structure ObjectMoves (m : Marker) (x : Prop) (o o' : ObjectDef) : Prop where
  bare : o'.bare = o.bare
  checked : Stamps m o.checked o'.checked
  early : o'.checked.before m = true → o'.settings = o.settings
  late : o.checked.before m = false → ¬ x → o'.settings = o.settings

structure SetMoves (m : Marker) (x : Prop) (d d' : SetDef) : Prop where
  bare : d'.bare = d.bare
  checked : Stamps m d.checked d'.checked
  expansion : ∀ e, d.expansion = some e → d'.expansion = some e
  flattening : Resolves m x d.flattening d'.flattening

structure FieldMoves (f f' : Field) : Prop where
  bare : f'.bare = f.bare
  default : ∀ st, f.defaultSetting = some st → f'.defaultSetting = some st

structure ClassMoves (m : Marker) (c c' : ClassDef) : Prop where
  bare : c'.bare = c.bare
  checked : Stamps m c.checked c'.checked
  fields : List.Forall₂ FieldMoves c.fields c'.fields

structure ImportMoves (m : Marker) (i i' : ImportedName) : Prop where
  bare : i'.bare = i.bare
  used : Stamps m i.used i'.used

structure ModuleMoves (m : Marker) (a a' : Module) : Prop where
  bare : a'.bare = a.bare
  imports : List.Forall₂ (ImportMoves m) a.imports a'.imports

/-- How a row may change within a generation. -/
def Moves (m : Marker) (x : Prop) : {t : EntityType} → Row t → Row t → Prop
  | .module => ModuleMoves m
  | .classDef => ClassMoves m
  | .classRef => ClassRefMoves m x
  | .typeRef => NameMoves m x
  | .valueRef => NameMoves m x
  | .objectDef => ObjectMoves m x
  | .objectRef => ObjectRefMoves m x
  | .setDef => SetMoves m x
  | .setRef => SetRefMoves m x

/-- Nothing of the generation is in a row that a change could undo. -/
def Free (m : Marker) : {t : EntityType} → Row t → Prop
  | .module,_ => True
  | .classDef,_ => True
  | .classRef,r => found m (ClassRef.toNameRef r).resolution = none
  | .typeRef,r => found m (NameRef.resolution r) = none
  | .valueRef,r => found m (NameRef.resolution r) = none
  | .objectDef,o => (ObjectDef.checked o).before m = true
  | .objectRef,r => found m (ObjectRef.toNameRef r).resolution = none
  | .setDef,d => found m (SetDef.flattening d) = none
  | .setRef,r => found m (SetRef.toNameRef r).resolution = none

/-- An entity that may be on the chain: nothing was found for it in the generation. -/
def Pending (m : Marker) : {t : EntityType} → Row t → Prop
  | .typeRef,r => found m (NameRef.resolution r) = none
  | .valueRef,r => found m (NameRef.resolution r) = none
  | .classRef,r => found m (ClassRef.toNameRef r).resolution = none
  | .objectRef,r => found m (ObjectRef.toNameRef r).resolution = none
  | .setRef,r => found m (SetRef.toNameRef r).resolution = none
  | .setDef,d => found m (SetDef.flattening d) = none
  | .module,_ => False
  | .classDef,_ => False
  | .objectDef,_ => False

/-- No result in a row is newer than a marker. -/
def NotNewer (m : Marker) : {t : EntityType} → Row t → Prop
  | .module,a => ∀ x ∈ Module.imports a, m.before x.used = false
  | .classDef,c => m.before (ClassDef.checked c) = false
  | .classRef,r => m.before (ClassRef.checked r) = false ∧
      ∀ x, (ClassRef.toNameRef r).resolution = some x → m.before x.marker = false
  | .typeRef,r => ∀ x, NameRef.resolution r = some x → m.before x.marker = false
  | .valueRef,r => ∀ x, NameRef.resolution r = some x → m.before x.marker = false
  | .objectDef,o => m.before (ObjectDef.checked o) = false
  | .objectRef,r => m.before (ObjectRef.checked r) = false ∧
      ∀ x, (ObjectRef.toNameRef r).resolution = some x → m.before x.marker = false
  | .setDef,d => m.before (SetDef.checked d) = false ∧
      ∀ x, SetDef.flattening d = some x → m.before x.marker = false
  | .setRef,r => m.before (SetRef.checked r) = false ∧
      ∀ x, (SetRef.toNameRef r).resolution = some x → m.before x.marker = false

def Bounded (m : Marker) (s : Store) : Prop := ∀ (t : EntityType) (i : Id t) a, s.get? i = some a → NotNewer m a

/-- The class that an expression stands for in the generation. -/
def classNow (m : Marker) (s : Store) : ClassExpr → Option (Id .classDef)
  | .definition c => some c
  | .reference i => (s.get? i).bind fun r => found m r.resolution

/-- The class of an expression that is not free to change any more. -/
structure Settled (X : Nat → Prop) (m : Marker) (s : Store) (e : ClassExpr) (c : Id .classDef) : Prop where
  now : classNow m s e = some c
  bound : ∀ i, e = .reference i → ¬ X i.key

/-- A class that was written into a row stays there while its governor stands for it. -/
def ClassKept (X : Nat → Prop) (m : Marker) (s : Store) : {t : EntityType} → Row t → Row t → Prop
  | .objectDef,o,o' => ∀ c, ObjectDef.objectClass o = some c → Settled X m s (ObjectDef.governor o) c →
      ObjectDef.objectClass o' = some c
  | .setDef,d,d' => ∀ c, SetDef.setClass d = some c → Settled X m s (SetDef.governor d) c →
      SetDef.setClass d' = some c
  | .module,_,_ => True
  | .classDef,_,_ => True
  | .classRef,_,_ => True
  | .typeRef,_,_ => True
  | .valueRef,_,_ => True
  | .objectRef,_,_ => True
  | .setRef,_,_ => True

def Pass.hasError (p : Pass) : Prop := ∃ e, Diagnostic.error e ∈ p.reports

/-- What a step leaves of a pass but for the chain, where the entities with numbers in `X` are free. -/
structure Grows (X : Nat → Prop) (p q : Pass) : Prop where
  marker : q.marker = p.marker
  budget : q.budget = p.budget
  reports : p.reports <:+ q.reports
  conflicts : (p.conflicts ≠ [] → p.hasError) → q.conflicts ≠ [] → q.hasError
  kept : q.store.kept = p.store.kept
  names : p.store.registry.entries <:+ q.store.registry.entries
  rows : ∀ (t : EntityType) (i : Id t) a, p.store.get? i = some a →
    ∃ b, q.store.get? i = some b ∧ Moves p.marker (X i.key) a b ∧ ClassKept X p.marker p.store a b
  holds : ∀ i n k, Holds q.store i n k → Holds p.store i n k ∨ ¬ Known p.store k
  sane : Sane p.store → Sane q.store
  bounded : Bounded p.marker p.store → Bounded p.marker q.store

/-- Cycles were found, each with some link. -/
def Captures (a b : List (List Link)) : Prop := ∃ l, b = a++l ∧ ∀ c ∈ l, c ≠ []

/-- What a step leaves of a pass, where it may add to the chain. -/
structure Evolves (X : Nat → Prop) (p q : Pass) : Prop extends Grows X p q where
  links : p.chain.links <+: q.chain.links
  marks : q.chain.marks = p.chain.marks
  cycles : Captures p.chain.cycles q.chain.cycles
  reported : q.chain.reported = p.chain.reported
  errorMarks : q.chain.errorMarks = p.chain.errorMarks

/-! Reflexivity and transitivity -/

theorem Pending.free {a : Row t} (h : Pending m a) : Free m a := by
  cases t <;> first | exact h | exact h.elim

theorem Stamps.refl (m a : Marker) : Stamps m a a := .inl rfl

theorem Stamps.trans (h : Stamps m a b) (k : Stamps m b c) : Stamps m a c := by
  rcases k with rfl | rfl
  · exact h
  · exact .inr rfl

theorem Stamps.not_due (h : Stamps m a b) (ha : a.before m = false) : b.before m = false := by
  rcases h with rfl | rfl
  · exact ha
  · exact Marker.before_irrefl _

theorem Resolves.refl (m : Marker) (x : Prop) (r : Option (Resolution τ)) : Resolves m x r r := .inl rfl

theorem Resolves.trans (h : Resolves m x a b) (k : Resolves m x b c) : Resolves m x a c := by
  rcases k with rfl | ⟨hc,hk⟩
  · exact h
  · rcases h with rfl | ⟨_,hf⟩
    · exact .inr ⟨hc,hk⟩
    · exact .inr ⟨hc,hf⟩

theorem Resolves.imp (hxy : x → y ∨ found m a = none) (h : Resolves m x a b) : Resolves m y a b := by
  rcases h with rfl | ⟨ht,hf | hx⟩
  · exact .refl ..
  · exact .inr ⟨ht,.inl hf⟩
  · exact .inr ⟨ht,(hxy hx).symm⟩

theorem Resolves.eq_of_found (h : Resolves m x a b) (hx : ¬ x) (ht : found m a = some t) : b = a := by
  rcases h with rfl | ⟨_,hn | hx'⟩
  · rfl
  · rw [ht] at hn
    contradiction
  · exact absurd hx' hx

theorem ObjectMoves.refl (m : Marker) (x : Prop) (o : ObjectDef) : ObjectMoves m x o o :=
  ⟨rfl,.refl ..,fun _ => rfl,fun _ _ => rfl⟩

theorem ObjectMoves.trans (h : ObjectMoves m x a b) (k : ObjectMoves m x b c) : ObjectMoves m x a c := by
  refine ⟨k.bare.trans h.bare,h.checked.trans k.checked,?_,?_⟩
  · intro hc
    have hb : b.checked.before m = true := by
      by_contra hb
      have := k.checked.not_due (by simpa using hb)
      simp [hc] at this
    exact (k.early hc).trans (h.early hb)
  · intro ha hx
    exact (k.late (h.checked.not_due ha) hx).trans (h.late ha hx)

theorem FieldMoves.refl (f : Field) : FieldMoves f f := ⟨rfl,fun _ h => h⟩

theorem FieldMoves.trans (h : FieldMoves a b) (k : FieldMoves b c) : FieldMoves a c :=
  ⟨k.bare.trans h.bare,fun st hst => k.default st (h.default st hst)⟩

theorem forall₂_trans (h : ∀ a b c, R a b → R b c → R a c) (hl : List.Forall₂ R l m)
    (hm : List.Forall₂ R m n) : List.Forall₂ R l n := by
  induction hl generalizing n with
  | nil =>
    cases hm
    exact .nil
  | cons hr _ ih =>
    cases hm with
    | cons hs ht => exact .cons (h _ _ _ hr hs) (ih ht)

theorem getElem?_of_forall₂ (h : List.Forall₂ R l m) {n : Nat} (ha : l[n]? = some a) : ∃ b, m[n]? = some b ∧ R a b := by
  induction h generalizing n with
  | nil => simp at ha
  | cons hr _ ih =>
    cases n with
    | zero =>
      obtain rfl : _ = a := by simpa using ha
      exact ⟨_,rfl,hr⟩
    | succ n => exact ih (by simpa using ha)

theorem getElem?_of_forall₂_flip (h : List.Forall₂ R l m) {n : Nat} (hb : m[n]? = some b) : ∃ a, l[n]? = some a ∧ R a b :=
  getElem?_of_forall₂ (R := fun b a => R a b) h.flip hb

theorem Moves.refl (m : Marker) (x : Prop) (a : Row t) : Moves m x a a := by
  cases t with
  | module => exact ⟨rfl,List.forall₂_same.mpr fun _ _ => ⟨rfl,.refl ..⟩⟩
  | classDef => exact ⟨rfl,.refl ..,List.forall₂_same.mpr fun f _ => FieldMoves.refl f⟩
  | classRef | objectRef | setRef => exact ⟨rfl,.refl ..,.refl ..⟩
  | typeRef | valueRef => exact ⟨rfl,.refl ..⟩
  | objectDef => exact ObjectMoves.refl m x a
  | setDef => exact ⟨rfl,.refl ..,fun _ h => h,.refl ..⟩

theorem Moves.trans {a b c : Row t} (h : Moves m x a b) (k : Moves m x b c) : Moves m x a c := by
  cases t with
  | module =>
    exact ⟨k.bare.trans h.bare,
      forall₂_trans (fun _ _ _ x y => ⟨y.bare.trans x.bare,x.used.trans y.used⟩) h.imports k.imports⟩
  | classDef =>
    exact ⟨k.bare.trans h.bare,h.checked.trans k.checked,forall₂_trans (R := FieldMoves) (fun _ _ _ => .trans) h.fields k.fields⟩
  | classRef | objectRef | setRef =>
    exact ⟨k.bare.trans h.bare,h.checked.trans k.checked,h.resolution.trans k.resolution⟩
  | typeRef | valueRef => exact ⟨k.bare.trans h.bare,h.resolution.trans k.resolution⟩
  | objectDef => exact ObjectMoves.trans h k
  | setDef =>
    exact ⟨k.bare.trans h.bare,h.checked.trans k.checked,fun e he => k.expansion e (h.expansion e he),
      h.flattening.trans k.flattening⟩

theorem Moves.bare_eq {a b : Row t} (h : Moves m x a b) : b.bare = a.bare := by
  cases t <;> exact h.bare

theorem ObjectMoves.governor (h : ObjectMoves m x o o') : o'.governor = o.governor := congrArg (·.governor) h.bare

theorem SetMoves.governor (h : SetMoves m x d d') : d'.governor = d.governor := congrArg (·.governor) h.bare

/-- What is free to change need not be called so if there is nothing to lose. -/
theorem Moves.imp {a b : Row t} (hxy : x → y ∨ Free m a) (h : Moves m x a b) : Moves m y a b := by
  cases t with
  | module | classDef => exact h
  | classRef | objectRef | setRef => exact ⟨h.bare,h.checked,h.resolution.imp hxy⟩
  | typeRef | valueRef => exact ⟨h.bare,h.resolution.imp hxy⟩
  | objectDef =>
    refine ⟨h.bare,h.checked,h.early,fun hc hy => h.late hc fun hx => ?_⟩
    rcases hxy hx with hy' | hf
    · exact hy hy'
    · simp only [Free] at hf
      simp [hf] at hc
  | setDef => exact ⟨h.bare,h.checked,h.expansion,h.flattening.imp hxy⟩

theorem ClassKept.refl (X : Nat → Prop) (m : Marker) (s : Store) (a : Row t) : ClassKept X m s a a := by
  cases t <;> first | trivial | exact fun _ h _ => h

section Evolution
variable {X : Nat → Prop} {p q r : Pass}

theorem Grows.refl (X : Nat → Prop) (p : Pass) : Grows X p p where
  marker := rfl
  budget := rfl
  reports := List.suffix_refl _
  conflicts h := h
  kept := rfl
  names := List.suffix_refl _
  rows _ _ a ha := ⟨a,ha,.refl ..,.refl ..⟩
  holds _ _ _ h := .inl h
  sane h := h
  bounded h := h

theorem Grows.settled (h : Grows X p q) (hs : Settled X p.marker p.store e c) : Settled X q.marker q.store e c := by
  refine ⟨?_,hs.bound⟩
  cases e with
  | definition d => exact hs.now
  | reference i =>
    have hn := hs.now
    simp only [classNow,Option.bind_eq_some_iff] at hn ⊢
    obtain ⟨a,ha,hf⟩ := hn
    obtain ⟨b,hb,hab,_⟩ := h.rows .classRef i a ha
    refine ⟨b,hb,?_⟩
    rw [hab.resolution.eq_of_found (hs.bound i rfl) hf,h.marker]
    exact hf

/-- Only objects are free to change. -/
def ObjectsOnly (X : Nat → Prop) : Prop := ∀ k, X k → ∃ o : Id .objectDef, k = o.key

theorem ObjectsOnly.not_of (h : ObjectsOnly X) {t : EntityType} (ht : t ≠ .objectDef) (i : Id t) : ¬ X i.key := by
  intro hx
  obtain ⟨o,ho⟩ := h _ hx
  exact Id.key_ne ht i o ho

theorem objectsOnly_false : ObjectsOnly (fun _ => False) := fun _ hf => hf.elim

theorem Grows.classNow (hX : ObjectsOnly X) (g : Grows X p q) (h : classNow p.marker p.store e = some c) :
    classNow q.marker q.store e = some c :=
  (g.settled ⟨h,fun _ _ => hX.not_of (by decide) _⟩).now

theorem ClassKept.trans (h : Grows X p q) {a b c : Row t} (hm : Moves p.marker x a b)
    (hab : ClassKept X p.marker p.store a b) (hbc : ClassKept X q.marker q.store b c) : ClassKept X p.marker p.store a c := by
  cases t with
  | objectDef | setDef =>
    intro d hd hs
    have hg : b.governor = a.governor := congrArg (·.governor) hm.bare_eq
    refine hbc d (hab d hd hs) ?_
    rw [hg]
    exact h.settled hs
  | _ => trivial

theorem Grows.known (h : Grows X p q) (hk : Known p.store k) : Known q.store k := by
  obtain ⟨t,i,a,ha,rfl⟩ := hk
  obtain ⟨b,hb,_⟩ := h.rows t i a ha
  exact ⟨t,i,b,hb,rfl⟩

theorem Grows.trans (h : Grows X p q) (k : Grows X q r) : Grows X p r where
  marker := k.marker.trans h.marker
  budget := k.budget.trans h.budget
  reports := h.reports.trans k.reports
  conflicts hp := k.conflicts (h.conflicts hp)
  kept := k.kept.trans h.kept
  names := h.names.trans k.names
  rows := by
    intro t i a ha
    obtain ⟨b,hb,hab,hcb⟩ := h.rows t i a ha
    obtain ⟨c,hc,hbc,hcc⟩ := k.rows t i b hb
    rw [h.marker] at hbc
    exact ⟨c,hc,hab.trans hbc,hcb.trans h hab hcc⟩
  holds := by
    intro i n j hj
    rcases k.holds i n j hj with hq | hn
    · exact h.holds i n j hq
    · exact .inr fun hp => hn (h.known hp)
  sane hp := k.sane (h.sane hp)
  bounded hp := h.marker ▸ k.bounded (h.marker.symm ▸ h.bounded hp)

theorem Grows.extends (h : Grows X p q) : Extends p.store q.store where
  names := h.names
  rows t i a ha := by
    obtain ⟨b,hb,hm,_⟩ := h.rows t i a ha
    exact ⟨b,hb,hm.bare_eq⟩

theorem Grows.imp (h : Grows X p q) (hXY : ∀ (t : EntityType) (i : Id t) a, p.store.get? i = some a → X i.key → Y i.key ∨
    Free p.marker a) : Grows Y p q := by
  refine {h with rows := ?_}
  intro t i a ha
  obtain ⟨b,hb,hm,hc⟩ := h.rows t i a ha
  have hs : ∀ e c, Settled Y p.marker p.store e c → Settled X p.marker p.store e c := by
    intro e c hs
    refine ⟨hs.now,?_⟩
    rintro j rfl hx
    have hn := hs.now
    simp only [Check.classNow,Option.bind_eq_some_iff] at hn
    obtain ⟨b,hb,hf⟩ := hn
    rcases hXY .classRef j b hb hx with hy | hfree
    · exact hs.bound j rfl hy
    · simp only [Free] at hfree
      simp [hfree] at hf
  refine ⟨b,hb,hm.imp (hXY t i a ha),?_⟩
  cases t with
  | objectDef | setDef => exact fun d hd hset => hc d hd (hs _ _ hset)
  | _ => trivial

theorem Captures.refl (a : List (List Link)) : Captures a a := ⟨[],by simp⟩

theorem Captures.solid (h : Captures a b) (ha : [] ∉ a) : [] ∉ b := by
  obtain ⟨l,rfl,hl⟩ := h
  exact fun hb => (List.mem_append.mp hb).elim ha fun hb => hl [] hb rfl

theorem Captures.trans (h : Captures a b) (k : Captures b c) : Captures a c := by
  obtain ⟨l,rfl,hl⟩ := h
  obtain ⟨m,rfl,hm⟩ := k
  refine ⟨l++m,by simp,fun x hx => ?_⟩
  exact (List.mem_append.mp hx).elim (hl x) (hm x)

theorem Evolves.refl (X : Nat → Prop) (p : Pass) : Evolves X p p :=
  ⟨.refl X p,List.prefix_refl _,rfl,.refl _,rfl,rfl⟩

theorem Evolves.trans (h : Evolves X p q) (k : Evolves X q r) : Evolves X p r :=
  ⟨h.toGrows.trans k.toGrows,h.links.trans k.links,k.marks.trans h.marks,h.cycles.trans k.cycles,
    k.reported.trans h.reported,k.errorMarks.trans h.errorMarks⟩

theorem Evolves.imp (h : Evolves X p q) (hXY : ∀ (t : EntityType) (i : Id t) a, p.store.get? i = some a → X i.key →
    Y i.key ∨ Free p.marker a) : Evolves Y p q :=
  {h with toGrows := h.toGrows.imp hXY}

theorem Evolves.weaken (h : Evolves X p q) (hXY : ∀ k, X k → Y k) : Evolves Y p q :=
  h.imp fun _ i _ _ hx => .inl (hXY i.key hx)

/-- An entity that has nothing to lose need not be free. -/
theorem Evolves.drop {t : EntityType} {i : Id t} {a : Row t} (h : Evolves (fun k => X k ∨ k = i.key) p q)
    (ha : p.store.get? i = some a) (hf : Free p.marker a) : Evolves X p q := by
  refine h.imp ?_
  intro u j b hb hx
  rcases hx with hx | hk
  · exact .inl hx
  · right
    obtain ⟨rfl,rfl,rfl⟩ := Store.row_of_key hk hb ha
    exact hf

end Evolution

end InfoObject.Check
