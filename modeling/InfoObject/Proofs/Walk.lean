import InfoObject.Proofs.Naming
import Mathlib.Logic.Function.Iterate
import Mathlib.Logic.Relation

/-! Where a name leads in the end. A reference to a type, a value or a class means what the name in it denotes;
if that is a reference again, the search goes on from there. -/
namespace InfoObject.Model

/-- References that mean what the references they point to mean. -/
inductive Alias where
  | type (i : Id .typeRef)
  | value (i : Id .valueRef)
  | objectClass (i : Id .classRef)
deriving DecidableEq

/-- What a search can come to. -/
inductive Answer where
  | type (b : BuiltinType)
  | value (l : Literal)
  | objectClass (c : Id .classDef)

/-- What becomes of a search at one reference. -/
inductive Turn where
  | on (a : Alias)
  | done (x : Answer)
  | lost

/-- The reference that a declaration introduces. -/
def Declared.alias? : Declared → Option Alias
  | .type i => some (.type i)
  | .value _ (.reference i) => some (.value i)
  | .objectClass (.reference i) => some (.objectClass i)
  | _ => none

def Alias.key : Alias → Nat
  | type i => i.key
  | value i => i.key
  | objectClass i => i.key

def Alias.Present (s : Store) : Alias → Prop
  | type i => ∃ r, s.get? i = some r
  | value i => ∃ r, s.get? i = some r
  | objectClass i => ∃ r, s.get? i = some r

/-- A reference is in the store, and so is the module that it is written in. -/
def Alias.Seated (s : Store) : Alias → Prop
  | type i => ∃ r m, s.get? i = some r ∧ s.get? r.scope = some m
  | value i => ∃ r m, s.get? i = some r ∧ s.get? r.scope = some m
  | objectClass i => ∃ r m, s.get? i = some r ∧ s.get? r.scope = some m

/-- A name denotes this, or nothing. -/
def Means (s : Store) (scope : Id .module) (r : Notation.Reference) (o : Option Declared) : Prop :=
  ∀ d, o = some d ↔ Denotes s scope r d

/-- A type name that denotes nothing may be a builtin one. -/
def typeTurn (r : Notation.Reference) : Option Declared → Turn
  | some (.type j) => .on (.type j)
  | some _ => .lost
  | none =>
    match r.qualifier,BuiltinType.ofName? r.name.name with
    | none,some b => .done (.type b)
    | _,_ => .lost

def valueTurn : Option Declared → Turn
  | some (.value _ (.reference j)) => .on (.value j)
  | some (.value _ (.literal _ _ l)) => .done (.value l)
  | _ => .lost

def classTurn : Option Declared → Turn
  | some (.objectClass (.reference j)) => .on (.objectClass j)
  | some (.objectClass (.definition c)) => .done (.objectClass c)
  | _ => .lost

/-- One step of a search. There is none from the class of an object: that depends on how the object is found. -/
inductive Turns (s : Store) : Alias → Turn → Prop
  | type {i : Id .typeRef} {r : TypeRef} {o : Option Declared} (hr : s.get? i = some r)
      (ho : Means s r.scope r.reference o) : Turns s (.type i) (typeTurn r.reference o)
  | value {i : Id .valueRef} {r : ValueRef} {o : Option Declared} (hr : s.get? i = some r)
      (ho : Means s r.scope r.reference o) : Turns s (.value i) (valueTurn o)
  | objectClass {i : Id .classRef} {r : ClassRef} {o : Option Declared} (hr : s.get? i = some r)
      (hn : r.ofObject = false) (ho : Means s r.scope r.reference o) : Turns s (.objectClass i) (classTurn o)

/-- The successor graph of references. -/
def Points (s : Store) (a b : Alias) : Prop := Turns s a (.on b)

def Leads (s : Store) : Alias → Alias → Prop := Relation.ReflTransGen (Points s)

/-- A search comes to an answer. -/
inductive StandsFor (s : Store) : Alias → Answer → Prop
  | here {a : Alias} {x : Answer} (h : Turns s a (.done x)) : StandsFor s a x
  | on {a b : Alias} {x : Answer} (h : Points s a b) (k : StandsFor s b x) : StandsFor s a x

/-- A search meets a name that is missing, or that has the wrong kind. -/
inductive Strays (s : Store) : Alias → Prop
  | here {a : Alias} (h : Turns s a .lost) : Strays s a
  | on {a b : Alias} (h : Points s a b) (k : Strays s b) : Strays s a

/-- A search never ends. -/
def Endless (s : Store) (a : Alias) : Prop := ∃ f : Nat → Alias, f 0 = a ∧ ∀ n, Points s (f n) (f (n+1))

/-- A reference is on a cycle of the successor graph. -/
def OnRing (s : Store) (a : Alias) : Prop := Relation.TransGen (Points s) a a

/-- A search comes to the class of an object. -/
def Bends (s : Store) (a : Alias) : Prop :=
  ∃ i r, Leads s a (.objectClass i) ∧ s.get? i = some r ∧ r.ofObject = true

section Walk
variable {s s' : Store} {a b c : Alias} {x y : Answer} {t u : Turn}

theorem Alias.key_inj (h : a.key = b.key) : a = b := by
  cases a with
  | type i =>
    cases b with
    | type j => exact congrArg _ (Id.key_inj h)
    | value j | objectClass j => exact absurd h (Id.key_ne (by decide) i j)
  | value i =>
    cases b with
    | type j | objectClass j => exact absurd h (Id.key_ne (by decide) i j)
    | value j => exact congrArg _ (Id.key_inj h)
  | objectClass i =>
    cases b with
    | type j | value j => exact absurd h (Id.key_ne (by decide) i j)
    | objectClass j => exact congrArg _ (Id.key_inj h)

/-! One step -/

theorem Means.unique (h : Means s scope r o) (k : Means s scope r o') : o = o' :=
  Option.ext fun d => (h d).trans (k d).symm

theorem exists_means (s : Store) (scope : Id .module) (r : Notation.Reference) : ∃ o, Means s scope r o := by
  by_cases h : ∃ d, Denotes s scope r d
  · obtain ⟨d,hd⟩ := h
    exact ⟨some d,fun e => ⟨fun he => Option.some.inj he ▸ hd,fun he => congrArg some (hd.unique he)⟩⟩
  · exact ⟨none,fun d => ⟨nofun,fun hd => absurd ⟨d,hd⟩ h⟩⟩

theorem Turns.unique (h : Turns s a t) (k : Turns s a u) : t = u := by
  cases h with
  | type hr ho | value hr ho =>
    cases k with
    | _ hr' ho' =>
      cases hr.symm.trans hr'
      rw [ho.unique ho']
  | objectClass hr _ ho =>
    cases k with
    | objectClass hr' _ ho' =>
      cases hr.symm.trans hr'
      rw [ho.unique ho']

theorem Points.unique (h : Points s a b) (k : Points s a c) : b = c := by
  injection Turns.unique h k

theorem turn_or_ofObject (hp : a.Present s) :
    (∃ t, Turns s a t) ∨ ∃ i r, a = .objectClass i ∧ s.get? i = some r ∧ r.ofObject = true := by
  cases a with
  | type i =>
    obtain ⟨r,hr⟩ := hp
    obtain ⟨o,ho⟩ := exists_means s r.scope r.reference
    exact .inl ⟨_,.type hr ho⟩
  | value i =>
    obtain ⟨r,hr⟩ := hp
    obtain ⟨o,ho⟩ := exists_means s r.scope r.reference
    exact .inl ⟨_,.value hr ho⟩
  | objectClass i =>
    obtain ⟨r,hr⟩ := hp
    obtain ⟨o,ho⟩ := exists_means s r.scope r.reference
    cases hn : r.ofObject with
    | true => exact .inr ⟨i,r,rfl,hr,hn⟩
    | false => exact .inl ⟨_,.objectClass hr hn ho⟩

theorem exists_turn (hp : a.Present s) (hb : ¬ Bends s a) : ∃ t, Turns s a t :=
  (turn_or_ofObject hp).resolve_right fun ⟨i,r,ha,hr,hof⟩ => hb ⟨i,r,ha ▸ .refl,hr,hof⟩

theorem Denotes.declared (hs : Sane s) (h : Denotes s scope r d) : ∃ i m, s.get? i = some m ∧ DeclaredIn s i d := by
  have assigned : ∀ {i : Id .module} {name : String}, Assigns s i name d → ∃ i m, s.get? i = some m ∧ DeclaredIn s i d := by
    rintro i name ⟨m,e,hm,he,rfl⟩
    exact ⟨i,m,hm,(hs.modules i m hm).declared e he.mem⟩
  cases h with
  | qualified _ _ ha | own _ ha | imported _ _ _ _ _ ha => exact assigned ha

theorem typeTurn_on (h : typeTurn r o = .on b) : ∃ d, o = some d ∧ d.alias? = some b := by
  unfold typeTurn at h
  split at h
  · injection h with h
    exact ⟨_,rfl,h ▸ rfl⟩
  · contradiction
  · split at h <;> contradiction

theorem valueTurn_on (h : valueTurn o = .on b) : ∃ d, o = some d ∧ d.alias? = some b := by
  unfold valueTurn at h
  split at h
  · injection h with h
    exact ⟨_,rfl,h ▸ rfl⟩
  all_goals contradiction

theorem classTurn_on (h : classTurn o = .on b) : ∃ d, o = some d ∧ d.alias? = some b := by
  unfold classTurn at h
  split at h
  · injection h with h
    exact ⟨_,rfl,h ▸ rfl⟩
  all_goals contradiction

theorem Denotes.present (hs : Sane s) (h : Denotes s scope r d) (hb : d.alias? = some b) : b.Present s := by
  obtain ⟨_,_,_,hin⟩ := h.declared hs
  unfold Declared.alias? at hb
  split at hb
  · obtain rfl := Option.some.inj hb
    exact hin.imp fun _ h => h.1
  · obtain rfl := Option.some.inj hb
    exact hin.2.imp fun _ h => h.1
  · obtain rfl := Option.some.inj hb
    exact hin.imp fun _ h => h.1
  · contradiction

theorem Points.present (hs : Sane s) (h : Points s a b) : b.Present s := by
  unfold Points at h
  generalize ht : Turn.on b = t at h
  cases h with
  | type _ ho =>
    obtain ⟨d,rfl,hd⟩ := typeTurn_on ht.symm
    exact ((ho d).mp rfl).present hs hd
  | value _ ho =>
    obtain ⟨d,rfl,hd⟩ := valueTurn_on ht.symm
    exact ((ho d).mp rfl).present hs hd
  | objectClass _ _ ho =>
    obtain ⟨d,rfl,hd⟩ := classTurn_on ht.symm
    exact ((ho d).mp rfl).present hs hd

theorem Bends.back (h : Points s a b) (k : Bends s b) : Bends s a := by
  obtain ⟨i,r,hl,hr⟩ := k
  exact ⟨i,r,.head h hl,hr⟩

/-! Whole searches -/

theorem StandsFor.unique (h : StandsFor s a x) (k : StandsFor s a y) : x = y := by
  induction h with
  | here h =>
    cases k with
    | here k => injection h.unique k
    | on k => cases Turns.unique h k
  | on h _ ih =>
    cases k with
    | here k => cases Turns.unique h k
    | on k hk => exact ih (h.unique k ▸ hk)

theorem StandsFor.not_strays (h : StandsFor s a x) : ¬ Strays s a := by
  induction h with
  | here h =>
    intro k
    cases k with
    | here k => cases h.unique k
    | on k => cases Turns.unique h k
  | on h _ ih =>
    intro k
    cases k with
    | here k => cases Turns.unique h k
    | on k hk => exact ih (h.unique k ▸ hk)

theorem Endless.next (h : Endless s a) : ∃ b, Points s a b ∧ Endless s b := by
  obtain ⟨f,rfl,hf⟩ := h
  exact ⟨f 1,hf 0,fun n => f (n+1),rfl,fun n => hf (n+1)⟩

theorem StandsFor.not_endless (h : StandsFor s a x) : ¬ Endless s a := by
  induction h with
  | here h =>
    intro k
    obtain ⟨b,hb,_⟩ := k.next
    cases Turns.unique h hb
  | on h _ ih =>
    intro k
    obtain ⟨b,hb,hk⟩ := k.next
    exact ih (h.unique hb ▸ hk)

theorem endless_of {P : Alias → Prop} (hP : ∀ a, P a → ∃ b, Points s a b ∧ P b) (ha : P a) : Endless s a := by
  choose! f hf using hP
  have hn : ∀ n, P (f^[n] a) := by
    intro n
    induction n with
    | zero => exact ha
    | succ n ih =>
      rw [Function.iterate_succ_apply']
      exact (hf _ ih).2
  refine ⟨fun n => f^[n] a,rfl,fun n => ?_⟩
  show Points s (f^[n] a) (f^[n+1] a)
  rw [Function.iterate_succ_apply']
  exact (hf _ (hn n)).1

theorem search_cases (hs : Sane s) (hp : a.Present s) (hb : ¬ Bends s a) :
    (∃ x, StandsFor s a x) ∨ Strays s a ∨ Endless s a := by
  by_cases hx : ∃ x, StandsFor s a x
  · exact .inl hx
  by_cases hl : Strays s a
  · exact .inr (.inl hl)
  refine .inr (.inr (endless_of (P := fun a => a.Present s ∧ ¬ Bends s a ∧ (¬ ∃ x, StandsFor s a x) ∧ ¬ Strays s a) ?_
    ⟨hp,hb,hx,hl⟩))
  rintro a ⟨hp,hb,hx,hl⟩
  obtain ⟨t,ht⟩ := exists_turn hp hb
  cases t with
  | on b =>
    exact ⟨b,ht,Points.present hs ht,fun hn => hb (.back ht hn),fun ⟨x,hn⟩ => hx ⟨x,.on ht hn⟩,fun hn => hl (.on ht hn)⟩
  | done x => exact absurd ⟨x,.here ht⟩ hx
  | lost => exact absurd (.here ht) hl

theorem OnRing.next (h : OnRing s a) : ∃ b, Points s a b ∧ OnRing s b := by
  obtain ⟨b,hab,hba⟩ := Relation.TransGen.head'_iff.mp h
  exact ⟨b,hab,Relation.TransGen.tail' hba hab⟩

theorem OnRing.endless (h : OnRing s a) : Endless s a := endless_of (fun _ => OnRing.next) h

/-! Searches in a store and in one that came from it -/

section
variable (h : Onward s s')
include h

theorem Means.onward (hm : Means s scope r o) : Means s' scope r o :=
  fun d => (hm d).trans h.denotes_iff.symm

theorem Turns.onward (k : Turns s a t) : Turns s' a t := by
  cases k with
  | @type i r o hr ho =>
    obtain ⟨r',hr',hb⟩ := h.more.rows _ i r hr
    obtain ⟨_,_,href,hscope⟩ := NameRef.bare_eq_iff.mp hb
    rw [← href]
    exact .type hr' (by rw [href,hscope]; exact ho.onward h)
  | @value i r o hr ho =>
    obtain ⟨r',hr',hb⟩ := h.more.rows _ i r hr
    obtain ⟨_,_,href,hscope⟩ := NameRef.bare_eq_iff.mp hb
    exact .value hr' (by rw [href,hscope]; exact ho.onward h)
  | @objectClass i r o hr hn ho =>
    obtain ⟨r',hr',hb⟩ := h.more.rows _ i r hr
    obtain ⟨hname,hof⟩ := ClassRef.bare_eq_iff.mp hb
    obtain ⟨_,_,href,hscope⟩ := NameRef.bare_eq_iff.mp hname
    exact .objectClass hr' (hof.trans hn) (by rw [href,hscope]; exact ho.onward h)

theorem Points.onward (k : Points s a b) : Points s' a b := Turns.onward h k

theorem Leads.onward (k : Leads s a b) : Leads s' a b :=
  Relation.ReflTransGen.mono (fun _ _ k => Points.onward h k) _ _ k

theorem StandsFor.onward (k : StandsFor s a x) : StandsFor s' a x := by
  induction k with
  | here k => exact .here (k.onward h)
  | on k _ ih => exact .on (k.onward h) ih

theorem Strays.onward (k : Strays s a) : Strays s' a := by
  induction k with
  | here k => exact .here (k.onward h)
  | on k _ ih => exact .on (k.onward h) ih

theorem Endless.onward (k : Endless s a) : Endless s' a := by
  obtain ⟨f,hf,hp⟩ := k
  exact ⟨f,hf,fun n => (hp n).onward h⟩

theorem Bends.onward (k : Bends s a) : Bends s' a := by
  obtain ⟨i,r,hl,hr,hof⟩ := k
  obtain ⟨r',hr',hb⟩ := h.more.rows _ i r hr
  exact ⟨i,r',hl.onward h,hr',(ClassRef.bare_eq_iff.mp hb).2.trans hof⟩

end

end Walk

end InfoObject.Model
