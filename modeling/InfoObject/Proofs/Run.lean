import InfoObject.Check.Module

/-! Runs of a check that come to an end, and what the parts of a step do to the pass. -/
namespace InfoObject.Model

/-- The rows of the table of a type. -/
abbrev Row : EntityType → Type
  | .module => Module
  | .classDef => ClassDef
  | .classRef => ClassRef
  | .typeRef => TypeRef
  | .valueRef => ValueRef
  | .objectDef => ObjectDef
  | .objectRef => ObjectRef
  | .setDef => SetDef
  | .setRef => SetRef

instance (priority := low) storedRow : (t : EntityType) → Stored t (Row t)
  | .module => inferInstanceAs (Stored .module Module)
  | .classDef => inferInstanceAs (Stored .classDef ClassDef)
  | .classRef => inferInstanceAs (Stored .classRef ClassRef)
  | .typeRef => inferInstanceAs (Stored .typeRef TypeRef)
  | .valueRef => inferInstanceAs (Stored .valueRef ValueRef)
  | .objectDef => inferInstanceAs (Stored .objectDef ObjectDef)
  | .objectRef => inferInstanceAs (Stored .objectRef ObjectRef)
  | .setDef => inferInstanceAs (Stored .setDef SetDef)
  | .setRef => inferInstanceAs (Stored .setRef SetRef)

theorem rows_withRows (t : EntityType) (s : Store) (r : Array (Row t)) : Stored.rows t (Stored.withRows t s r) = r := by
  cases t <;> rfl

theorem rows_withRows_ne (h : t ≠ u) (s : Store) (r : Array (Row t)) : Stored.rows u (Stored.withRows t s r) =
    Stored.rows u s := by
  cases t <;> cases u <;> first | rfl | contradiction

namespace Store
variable {t u : EntityType} {s : Store}

theorem get?_put_self {i : Id t} (h : s.get? i = some a) : (s.put i b).get? i = some b := by
  obtain ⟨hi,_⟩ := Array.getElem?_eq_some_iff.mp h
  simp [get?,put,rows_withRows,hi]

theorem get?_put_ne {i j : Id t} (b : Row t) (h : i ≠ j) : (s.put i b).get? j = s.get? j := by
  have hij : i.index ≠ j.index := fun he => h (by cases i; cases j; simpa using he)
  simp [get?,put,rows_withRows,hij]

theorem get?_put_other (h : t ≠ u) (i : Id t) (b : Row t) (j : Id u) : (s.put i b).get? j = s.get? j := by
  simp only [get?,put,rows_withRows_ne h]

theorem get?_add_new (s : Store) (a : Row t) : (s.add (t := t) a).2.get? (s.add (t := t) a).1 = some a := by
  simp [get?,add,rows_withRows]

theorem get?_add_old {i : Id t} (b : Row t) (h : s.get? i = some a) : (s.add (t := t) b).2.get? i = some a := by
  obtain ⟨hi,he⟩ := Array.getElem?_eq_some_iff.mp h
  simp [get?,add,rows_withRows,Array.getElem?_push,Nat.ne_of_lt hi,hi,he]

theorem get?_add_other (h : t ≠ u) (b : Row t) (j : Id u) : (s.add (t := t) b).2.get? j = s.get? j := by
  simp only [get?,add,rows_withRows_ne h]

theorem get?_add_fresh (s : Store) (a : Row t) : s.get? (s.add (t := t) a).1 = none := by
  simp [get?,add]

theorem get?_add_cases (h : (s.add (t := t) b).2.get? i = some a) : s.get? i = some a ∨ i = (s.add (t := t) b).1 ∧ a = b := by
  by_cases hi : i = (s.add (t := t) b).1
  · subst hi
    rw [get?_add_new] at h
    exact .inr ⟨rfl,(Option.some.inj h).symm⟩
  · left
    have hne : i.index ≠ (Stored.rows t s).size := fun he => hi (by cases i; simpa [add] using he)
    simpa [get?,add,rows_withRows,Array.getElem?_push,hne] using h

end Store

/-- Some entity of a store has a number. -/
def Known (s : Store) (k : Nat) : Prop := ∃ (t : EntityType) (i : Id t) (a : Row t), s.get? i = some a ∧ i.key = k

theorem Id.key_ne (h : t ≠ u) (i : Id t) (j : Id u) : i.key ≠ j.key := by
  have ht := t.tag_lt
  have hu := u.tag_lt
  have htag : t.tag ≠ u.tag := by
    cases t <;> cases u <;> first | exact absurd rfl h | decide
  simp only [Id.key]
  omega

theorem Id.type_of_key {i : Id t} {j : Id u} (h : i.key = j.key) : t = u := by
  by_cases htu : t = u
  · exact htu
  · exact absurd h (key_ne htu i j)

theorem Id.eq_of_key {i : Id t} {j : Id u} (h : i.key = j.key) : t = u ∧ HEq i j := by
  obtain rfl := type_of_key h
  exact ⟨rfl,heq_of_eq (key_inj h)⟩

namespace Store
variable {s : Store}

theorem row_of_key {i : Id t} {j : Id u} {a : Row t} {b : Row u} (h : i.key = j.key) (ha : s.get? i = some a)
    (hb : s.get? j = some b) : t = u ∧ HEq i j ∧ HEq a b := by
  obtain ⟨rfl,rfl⟩ := Id.eq_of_key h
  exact ⟨rfl,.rfl,heq_of_eq (Option.some.inj (ha.symm.trans hb))⟩

theorem get?_put_of_key {i : Id t} {j : Id u} (b : Row t) (h : i.key ≠ j.key) : (s.put i b).get? j = s.get? j := by
  by_cases htu : t = u
  · subst htu
    exact get?_put_ne b fun he => h (congrArg Id.key he)
  · exact get?_put_other htu i b j

theorem get?_put_cases {i j : Id t} (ha : s.get? i = some a) (h : (s.put i b).get? j = some c) :
    i = j ∧ c = b ∨ i ≠ j ∧ s.get? j = some c := by
  by_cases hij : i = j
  · subst hij
    exact .inl ⟨rfl,Option.some.inj (h.symm.trans (get?_put_self ha))⟩
  · exact .inr ⟨hij,(get?_put_ne b hij).symm.trans h⟩

end Store

/-- The target of a resolution that is not older than a generation. -/
def found {τ : Type} (m : Marker) (r : Option (Resolution τ)) : Option τ :=
  r.bind fun x => if x.marker.before m then none else some x.target

@[simp] theorem found_none (m : Marker) : found m (none : Option (Resolution τ)) = none := rfl

@[simp] theorem found_now (m : Marker) (t : τ) : found m (some ⟨t,m⟩) = some t := by
  simp [found,Marker.before_irrefl]

theorem found_eq_some : found m r = some t ↔ ∃ x, r = some x ∧ x.marker.before m = false ∧ x.target = t := by
  cases r with
  | none => simp
  | some x => by_cases h : x.marker.before m <;> simp [found,h]

/-- A builder makes something, and leaves a store. -/
def Makes {α : Type} (b : Build α) (s : Store) (a : α) (s' : Store) : Prop := b s = (a,s')

section Makes
variable {α β : Type} {s s' : Store}

@[simp] theorem makes_pure : Makes (pure a) s b s' ↔ b = a ∧ s' = s := by
  constructor
  · exact fun h => ⟨(congrArg Prod.fst h).symm,(congrArg Prod.snd h).symm⟩
  · rintro ⟨rfl,rfl⟩
    rfl

@[simp] theorem makes_bind : Makes (b >>= f) s c s'' ↔ ∃ a s', Makes b s a s' ∧ Makes (f a) s' c s'' := by
  constructor
  · exact fun h => ⟨_,_,rfl,h⟩
  · rintro ⟨a,s',hb,hf⟩
    simp only [Makes] at hb hf ⊢
    change f (b s).1 (b s).2 = _
    rw [hb]
    exact hf

@[simp] theorem makes_map : Makes (f <$> b) s c s' ↔ ∃ a, Makes b s a s' ∧ c = f a := by
  rw [← bind_pure_comp,makes_bind]
  constructor
  · rintro ⟨a,_,hb,hp⟩
    obtain ⟨rfl,rfl⟩ := makes_pure.mp hp
    exact ⟨a,hb,rfl⟩
  · rintro ⟨a,hb,rfl⟩
    exact ⟨a,s',hb,makes_pure.mpr ⟨rfl,rfl⟩⟩

end Makes

end InfoObject.Model

namespace InfoObject.Check
open Model

/-- A step that comes to an end on a pass, with what it answers and the pass that it leaves. -/
def Gives {α : Type} (m : Checking α) (p : Pass) (a : α) (q : Pass) : Prop := m p = .ok (a,q)

/-- A row is written. -/
abbrev Pass.put {t : EntityType} {α : Type} [Stored t α] (p : Pass) (i : Id t) (a : α) : Pass :=
  {p with store := p.store.put i a}

/-- What is put on the chain from here on may be taken off. -/
abbrev Pass.marked (p : Pass) : Pass := {p with chain := p.chain.mark}

abbrev Pass.entered (p : Pass) (l : Link) : Pass := {p with chain := (p.chain.add l).2}

section Parts
variable {α β : Type} {p q r : Pass}

@[simp] theorem gives_pure : Gives (pure a) p b q ↔ b = a ∧ q = p := by
  have hpure : Gives (pure a) p b q ↔ (Except.ok (a,p) : Except Stuck _) = .ok (b,q) := .rfl
  rw [hpure,Except.ok.injEq,Prod.mk.injEq]
  exact ⟨fun h => ⟨h.1.symm,h.2.symm⟩,fun h => ⟨h.1.symm,h.2.symm⟩⟩

@[simp] theorem gives_bind : Gives (m >>= f) p b r ↔ ∃ a q, Gives m p a q ∧ Gives (f a) q b r := by
  simp only [Gives,bind,StateT.bind]
  cases h : m p with
  | error e => simp [Except.bind]
  | ok x =>
    obtain ⟨a,q⟩ := x
    simp only [Except.bind,Except.ok.injEq,Prod.mk.injEq]
    constructor
    · exact fun hr => ⟨a,q,⟨rfl,rfl⟩,hr⟩
    · rintro ⟨_,_,⟨rfl,rfl⟩,hr⟩
      exact hr

@[simp] theorem gives_map : Gives (f <$> m) p b q ↔ ∃ a, Gives m p a q ∧ b = f a := by
  rw [← bind_pure_comp,gives_bind]
  constructor
  · rintro ⟨a,_,hm,hb⟩
    obtain ⟨rfl,rfl⟩ := gives_pure.mp hb
    exact ⟨a,hm,rfl⟩
  · rintro ⟨a,hm,rfl⟩
    exact ⟨a,q,hm,gives_pure.mpr ⟨rfl,rfl⟩⟩

@[simp] theorem gives_throw : ¬ Gives (throw e) p a q := by
  simp [Gives,throw,throwThe,MonadExceptOf.throw,StateT.lift,bind,Except.bind]

@[simp] theorem gives_get : Gives get p a q ↔ a = p ∧ q = p := by
  simp only [Gives,get,getThe,MonadStateOf.get,StateT.get,pure,Except.pure,Except.ok.injEq,Prod.mk.injEq]
  exact ⟨fun h => ⟨h.1.symm,h.2.symm⟩,fun h => ⟨h.1.symm,h.2.symm⟩⟩

@[simp] theorem gives_modifyGet : Gives (modifyGet f) p a q ↔ a = (f p).1 ∧ q = (f p).2 := by
  simp only [Gives,modifyGet,MonadStateOf.modifyGet,StateT.modifyGet,pure,Except.pure,
    Except.ok.injEq,Prod.ext_iff]
  exact ⟨fun h => ⟨h.1.symm,h.2.symm⟩,fun h => ⟨h.1.symm,h.2.symm⟩⟩

@[simp] theorem gives_modify : Gives (modify f) p u q ↔ q = f p :=
  (gives_modifyGet (f := fun p => ((),f p))).trans (by simp)

@[simp] theorem gives_ite [Decidable c] : Gives (if c then m else n) p a q ↔ (c ∧ Gives m p a q) ∨ (¬ c ∧ Gives n p a q) := by
  by_cases h : c <;> simp [h]

@[simp] theorem gives_orStuck {o : Option α} : Gives (orStuck o e) p a q ↔ o = some a ∧ q = p := by
  cases o <;> simp [orStuck,eq_comm]

@[simp] theorem gives_marker : Gives marker p m q ↔ m = p.marker ∧ q = p := by
  simp [marker,and_comm]

@[simp] theorem gives_budget : Gives budget p n q ↔ n = p.budget ∧ q = p := by
  simp [budget,and_comm]

theorem Gives.within {f : Nat → Checking α} (h : Gives (do f (← budget)) p a q) : Gives (f p.budget) p a q := by
  obtain ⟨_,_,hb,h⟩ := gives_bind.mp h
  obtain ⟨rfl,rfl⟩ := gives_budget.mp hb
  exact h

theorem gives_forM_nil : Gives (List.forM [] f) p u q ↔ q = p := by
  simp [List.forM]

theorem gives_forM_cons : Gives (List.forM (x::xs) f) p u r ↔ ∃ q, Gives (f x) p () q ∧ Gives (xs.forM f) q () r := by
  simp only [List.forM,gives_bind]
  exact ⟨fun ⟨_,q,h⟩ => ⟨q,h⟩,fun ⟨q,h⟩ => ⟨(),q,h⟩⟩

end Parts

section Entities
variable {t : EntityType} {α : Type} [Stored t α] {p q : Pass}

@[simp] theorem gives_load {i : Id t} : Gives (load i) p a q ↔ p.store.get? i = some a ∧ q = p := by
  simp [load,and_assoc]

@[simp] theorem gives_save {i : Id t} : Gives (save i a) p u q ↔ q = p.put i a := by
  simp [save]

@[simp] theorem gives_build : Gives (build b) p a q ↔ ∃ s, Makes b p.store a s ∧ q = {p with store := s} := by
  simp only [build,gives_modifyGet]
  constructor
  · rintro ⟨rfl,rfl⟩
    exact ⟨_,rfl,rfl⟩
  · rintro ⟨s,hs,rfl⟩
    have hs' : b.run p.store = (a,s) := hs
    simp [hs']

end Entities

section Reports
variable {p q : Pass} {u : Unit}

@[simp] theorem gives_report : Gives (report d) p u q ↔ q = {p with reports := d::p.reports} := by
  simp [report]

@[simp] theorem gives_reportError : Gives (reportError f l o) p u q ↔ q = {p with reports := .error ⟨f,l,o⟩::p.reports} := by
  simp [reportError]

theorem gives_reportConflict : Gives (reportConflict c f l o) p u q ↔ c ∈ p.conflicts ∧ q = p ∨ c ∉ p.conflicts ∧
    q = {p with conflicts := c::p.conflicts, reports := .error ⟨f,l,some o⟩::p.reports} := by
  simp [reportConflict,and_assoc]

@[simp] theorem gives_reportWarning : Gives (reportWarning c l) p u q ↔ q =
    {p with reports := .warning ⟨c,l⟩::p.reports} := by
  simp [reportWarning]

end Reports

section Names
variable {p q : Pass}

@[simp] theorem gives_lookup : Gives (lookup m r) p a q ↔ ∃ s, p.store.lookup? m r p.marker = some (a,s) ∧ q =
    {p with store := s} := by
  simp only [lookup,gives_bind,gives_get,gives_orStuck,gives_modify,gives_pure]
  constructor
  · rintro ⟨_,_,⟨rfl,rfl⟩,⟨_,s⟩,_,⟨h,rfl⟩,_,_,rfl,rfl,rfl⟩
    exact ⟨s,h,rfl⟩
  · rintro ⟨s,h,rfl⟩
    exact ⟨p,p,⟨rfl,rfl⟩,(a,s),p,⟨h,rfl⟩,(),_,rfl,rfl,rfl⟩

@[simp] theorem gives_enter : Gives (enter i n l) p b q ↔ b = (p.chain.add ⟨i.key,n,l⟩).1 ∧ q =
    (p.entered ⟨i.key,n,l⟩) := by
  simp [enter]

@[simp] theorem gives_current? : Gives (current? r) p o q ↔ q = p ∧ o = found p.marker r := by
  unfold found
  cases r with
  | none => simp [current?]
  | some x =>
    simp only [current?,gives_bind,gives_marker,gives_pure,Option.bind_some]
    constructor
    · rintro ⟨_,_,⟨rfl,rfl⟩,rfl,rfl⟩
      exact ⟨rfl,rfl⟩
    · rintro ⟨rfl,rfl⟩
      exact ⟨_,_,⟨rfl,rfl⟩,rfl,rfl⟩

end Names

end InfoObject.Check
