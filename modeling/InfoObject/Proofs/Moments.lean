import InfoObject.Proofs.Checkable
import InfoObject.Proofs.Targets
import InfoObject.Proofs.Walk

/-! A pass as a machine. Of all that a pass does, few kinds of steps have to do with names and with the objects of
sets: an entity is put on the chain, it closes a cycle there, or it is settled and taken from the chain. All else
leaves the chain, what names were found to mean and what sets were found to hold as they are. -/
namespace InfoObject.Model

/-! Changes of one row -/

theorem Onward.put {i : Id t} (ha : s.get? i = some a) (hb : b.bare = a.bare) : Onward s (s.put i b) := by
  refine ⟨.put ha hb,Store.kept_put,fun t _ j hj => ?_⟩
  by_contra hs
  obtain ⟨m,hm⟩ := Option.ne_none_iff_exists'.mp hs
  obtain ⟨n,hn,_⟩ := Store.get?_put_back (R := fun _ a b => b.bare = a.bare) (fun _ _ => rfl) ha hb hm
  rw [hn] at hj
  contradiction

theorem Onward.stays (h : Onward s s') : Stays s s' := ⟨h.more,h.kept⟩

theorem Onward.of_built (h : Built s s') : Onward s s' :=
  ⟨h.toGained.extends,h.kept,fun _ ht _ => h.written ht⟩

theorem Sane.put {i : Id t} (ha : s.get? i = some a) (hab : Touched a b) (hs : Sane s) : Sane (s.put i b) :=
  hs.of_touched (fun _ _ _ hc => Store.get?_put_forth (R := fun _ => Touched) (fun _ => Touched.refl) ha hab hc)
    (fun _ _ _ hc => Store.get?_put_back (R := fun _ => Touched) (fun _ => Touched.refl) ha hab hc)
    Store.registry_put Store.kept_put

end InfoObject.Model

namespace InfoObject.Check
open Model

/-! What the machine sees of a pass -/

/-- What a reference was settled with. -/
inductive Target where
  | type (t : TypeTarget)
  | value (v : ValueTarget)
  | objectClass (c : Id .classDef)
  | object (o : Id .objectDef)
  | objectSet (d : Id .setDef)

def settled (m : Marker) : {t : EntityType} → Row t → Option Target
  | .typeRef,r => (found m (NameRef.resolution r)).map .type
  | .valueRef,r => (found m (NameRef.resolution r)).map .value
  | .classRef,r => (found m (ClassRef.toNameRef r).resolution).map .objectClass
  | .objectRef,r => (found m (ObjectRef.toNameRef r).resolution).map .object
  | .setRef,r => (found m (SetRef.toNameRef r).resolution).map .objectSet
  | .module,_ => none
  | .classDef,_ => none
  | .objectDef,_ => none
  | .setDef,_ => none

/-- The name and the place that an entity has on the chain. -/
def label : {t : EntityType} → Row t → Option (String × Location)
  | .typeRef,r => some (NameRef.name r,NameRef.location r)
  | .valueRef,r => some (NameRef.name r,NameRef.location r)
  | .classRef,r => some ((ClassRef.toNameRef r).name,(ClassRef.toNameRef r).location)
  | .objectRef,r => some ((ObjectRef.toNameRef r).name,(ObjectRef.toNameRef r).location)
  | .setRef,r => some ((SetRef.toNameRef r).name,(SetRef.toNameRef r).location)
  | .setDef,d => some (SetDef.name d,SetDef.location d)
  | .module,_ => none
  | .classDef,_ => none
  | .objectDef,_ => none

/-- Where the name in a reference stands. -/
def place : {t : EntityType} → Row t → Option Location
  | .typeRef,r => some (NameRef.referenceLocation r)
  | .valueRef,r => some (NameRef.referenceLocation r)
  | .classRef,r => some (ClassRef.toNameRef r).referenceLocation
  | .objectRef,r => some (ObjectRef.toNameRef r).referenceLocation
  | .setRef,r => some (SetRef.toNameRef r).referenceLocation
  | .module,_ => none
  | .classDef,_ => none
  | .objectDef,_ => none
  | .setDef,_ => none

/-- The reference of a number was settled in this generation. -/
def Pass.Finds (p : Pass) (k : Nat) (x : Target) : Prop :=
  ∃ (t : EntityType) (i : Id t) (a : Row t), p.store.get? i = some a ∧ i.key = k ∧ settled p.marker a = some x

/-- What stands for a name that could not be found. -/
def Target.Wrong (s : Store) : Target → Prop
  | type t => t = none
  | value v => v = none
  | objectClass c => ∃ row, s.get? c = some row ∧ row.erroneous = true
  | object _ => False
  | objectSet _ => False

def Answer.target : Answer → Target
  | .type b => .type (some b)
  | .value l => .value (some l)
  | .objectClass c => .objectClass c

/-! What belongs to the modules in use, stand-ins included -/

/-- A reference was written in a module in use. -/
def Housed (s : Store) : Alias → Prop
  | .type i => HomedType s i
  | .value i => HomedValue s (.reference i)
  | .objectClass i => HomedClass s (.reference i)

def LodgedClass (s : Store) : ClassExpr → Prop
  | .definition c => ∃ row, s.get? c = some row ∧ ∀ f ∈ row.fields, HomedField s f
  | .reference i => HomedClass s (.reference i)

def LodgedObject (s : Store) : ObjectExpr → Prop
  | .definition o => ∃ row, s.get? o = some row ∧ (∀ m, row.module = some m → m ∈ s.kept) ∧ LodgedClass s row.governor
  | .reference i => ∃ row, s.get? i = some row ∧ row.scope ∈ s.kept ∧ LodgedClass s row.governor

def LodgedSet (s : Store) : SetExpr → Prop
  | .definition d => ∃ row, s.get? d = some row ∧ (∀ m, row.module = some m → m ∈ s.kept) ∧ LodgedClass s row.governor
  | .reference i => ∃ row, s.get? i = some row ∧ row.scope ∈ s.kept ∧ LodgedClass s row.governor

def LodgedHeld (s : Store) : SettingValue → Prop
  | .type t => HomedType s t
  | .value v => HomedValue s v
  | .object o => LodgedObject s o
  | .set d => LodgedSet s d

/-- A set that a name may lead to: one that a module in use declares, or a stand-in. -/
def NamedSet (s : Store) (d : Id .setDef) : Prop := LodgedSet s (.definition d) ∧
  ∀ row, s.get? d = some row → row.erroneous = false → Declares s (.objectSet (.definition d))

def Target.Lodged (s : Store) : Target → Prop
  | type _ => True
  | value _ => True
  | objectClass c => LodgedClass s (.definition c)
  | object o => LodgedObject s (.definition o)
  | objectSet d => NamedSet s d

/-- Entities whose resolution may call for others than the one that they name. -/
inductive Solid (s : Store) : Nat → Prop
  | object (i : Id .objectRef) : Solid s i.key
  | set (i : Id .setRef) : Solid s i.key
  | elements (i : Id .setDef) : Solid s i.key
  | classOf {i : Id .classRef} {r : ClassRef} (hr : s.get? i = some r) (ho : r.ofObject = true) : Solid s i.key

/-- Nothing is under resolution, or something that may call for anything. -/
def Pass.Calm (p : Pass) : Prop := ∀ l, p.chain.links.getLast? = some l → Solid p.store l.key

/-- An entity may be called for: what is under resolution may call for anything, or for just this. -/
def Pass.Next (p : Pass) (k : Nat) : Prop := ∀ l, p.chain.links.getLast? = some l →
  Solid p.store l.key ∨ ∃ a b, Points p.store a b ∧ a.key = l.key ∧ b.key = k

/-- What a class stands for depends on how some object is found. -/
def Bent (s : Store) (e : ClassExpr) : Prop := ∃ i, e = .reference i ∧ Bends s (.objectClass i)

/-- The class that a reference expects depends on how some object is found. -/
def Crooked (s : Store) : {t : EntityType} → Row t → Prop
  | .objectRef,r => Bent s (ObjectRef.governor r)
  | .module,_ => False
  | .classDef,_ => False
  | .classRef,_ => False
  | .typeRef,_ => False
  | .valueRef,_ => False
  | .objectDef,_ => False
  | .setDef,_ => False
  | .setRef,_ => False

/-- A diagnostic that tells of a name or of a cycle. -/
def Told (d : Diagnostic) : Prop := ∃ e, d = .error e ∧ (Fault.ofName e.fault = true ∨ Fault.ofCycle e.fault = true)

/-- What may be said of a name that stands at a place. -/
def Says (l : Location) (ds : List Diagnostic) : Prop :=
  ds = [] ∨ ∃ f, Fault.ofName f = true ∧ ds = [.error ⟨f,l,none⟩]

/-- What may be said of the name in a reference. -/
def Blames {t : EntityType} (a : Row t) (ds : List Diagnostic) : Prop := ∃ l, place a = some l ∧ Says l ds

/-! The objects of sets -/

/-- A reference was settled in this generation, and is not under resolution. -/
def Pass.Rests (p : Pass) (k : Nat) (x : Target) : Prop := p.Finds k x ∧ ¬ p.onChain k

/-- The set graph: one of the elements of a set is a name that was found to mean the other. -/
def Pass.Edge (p : Pass) (i t : Id .setDef) : Prop := ∃ d e j, p.store.get? i = some d ∧ Element.set j ∈ d.elements ∧
  p.Rests j.key (.objectSet t) ∧ p.store.get? t = some e ∧ e.erroneous = false

/-- A set may be flattened: nothing is under resolution, or a set that has this one among its elements. -/
def Pass.Summons (p : Pass) (t : Id .setDef) : Prop :=
  ∀ l, p.chain.links.getLast? = some l → ∃ i : Id .setDef, i.key = l.key ∧ p.Edge i t

/-- The objects of a set were listed in this generation. -/
def Pass.Lists (p : Pass) (i : Id .setDef) (os : List (Id .objectDef)) : Prop :=
  ∃ d, p.store.get? i = some d ∧ found p.marker d.flattening = some os

/-- What a set gives when it is flattened: its list, or nothing if it is wrong, or if it is flattened already and so
closes a cycle with what is under resolution. -/
inductive Pass.Yields (p : Pass) (t : Id .setDef) : List (Id .objectDef) → Prop
  | wrong {d : SetDef} (hd : p.store.get? t = some d) (he : d.erroneous = true) : Yields p t []
  | listed {d : SetDef} {os : List (Id .objectDef)} (hd : p.store.get? t = some d) (he : d.erroneous = false)
      (hos : p.Lists t os) : Yields p t os
  | met {d : SetDef} {l : Link} {c : List Link} (hd : p.store.get? t = some d) (he : d.erroneous = false)
      (hon : p.onChain t.key) (hl : p.chain.links.getLast? = some l) (hc : c ∈ p.chain.cycles) (hlc : l ∈ c)
      (htc : ∃ m ∈ c, m.key = t.key) : Yields p t []

/-- What an element adds to the list of the set that is flattened. -/
inductive Pass.Adds (p : Pass) : Element → List (Id .objectDef) → Prop
  | literal (o : Id .objectDef) : Adds p (.literal o) [o]
  | object {j : Id .objectRef} {o : Id .objectDef} {row : ObjectDef} (hr : p.Rests j.key (.object o))
      (ho : p.store.get? o = some row) : Adds p (.object j) (if row.erroneous then [] else [o])
  | set {j : Id .setRef} {t : Id .setDef} {os : List (Id .objectDef)} (hr : p.Rests j.key (.objectSet t))
      (hy : p.Yields t os) : Adds p (.set j) os

/-- No set whose objects were listed has an object of this number among its elements. -/
def Pass.Unlisted (p : Pass) (k : Nat) : Prop := ∀ (i : Id .setDef) d os, p.store.get? i = some d →
  found p.marker d.flattening = some os → ∀ j : Id .objectRef, Element.object j ∈ d.elements → j.key ≠ k

/-! Ticks -/

/-- A step that has nothing to do with names. -/
structure Still (p q : Pass) : Prop where
  marker : q.marker = p.marker
  budget : q.budget = p.budget
  onward : Onward p.store q.store
  sane : Sane p.store → Sane q.store
  unresolved : Unresolved p.store q.store
  expanded : ∀ (i : Id .setDef) d d' e, p.store.get? i = some d → q.store.get? i = some d' → d.expansion = some e →
    d'.expansion = some e
  stamps : ∀ (i : Id .classRef) b, q.store.get? i = some b →
    b.checked = Marker.zero ∨ ∃ a, p.store.get? i = some a ∧ b.checked = a.checked
  links : q.chain.links = p.chain.links
  cycles : q.chain.cycles = p.chain.cycles
  reported : q.chain.reported = p.chain.reported
  reports : ∃ ds, q.reports = ds++p.reports ∧ ∀ d ∈ ds, ¬ Told d

/-- A reference is settled, and changed in nothing else. -/
structure Settles (p : Pass) {t : EntityType} (i : Id t) (x : Target) (a b : Row t) : Prop where
  row : p.store.get? i = some a
  bare : b.bare = a.bare
  parts : SameParts a b
  stamp : stampOf b = stampOf a
  settled : settled p.marker b = some x

/-- What a reference is settled with comes from one step of the search. -/
def Suits (p : Pass) (x : Target) : Turn → Prop
  | .on b => p.Finds b.key x
  | .done y => x = Answer.target y
  | .lost => x.Wrong p.store

/-- The steps of the machine. References are settled only if their numbers are in `A`. If `R` holds, nothing but what
belongs to the modules in use is called for. -/
inductive Tick (R : Prop) (A : Nat → Prop) : Pass → Pass → Prop
  | still {p q : Pass} (h : Still p q) : Tick R A p q
  | enter {p : Pass} {t : EntityType} {i : Id t} {a : Row t} {n : String} {l : Location}
      (ha : p.store.get? i = some a) (hl : label a = some (n,l))
      (hopen : (∀ x, ¬ p.Finds i.key x) ∨ Crooked p.store a) (hnext : p.Next i.key) (hnew : ¬ p.onChain i.key)
      (hhome : R → ∀ c : Alias, c.key = i.key → Housed p.store c) (hfree : ∀ x, p.Finds i.key x → p.Unlisted i.key)
      (hset : ∀ t : Id .setDef, t.key = i.key → (∀ os, ¬ p.Lists t os) ∧ p.Summons t) :
      Tick R A p {p with chain := (p.chain.add ⟨i.key,n,l⟩).2}
  | meet {p : Pass} {i : Id .setDef} {d : SetDef} {n : String} {l : Location} (hd : p.store.get? i = some d)
      (hcalm : p.Calm) (hon : p.onChain i.key) (hset : p.Summons i) :
      Tick R A p {p with chain := (p.chain.add ⟨i.key,n,l⟩).2}
  | close {p : Pass} {t : EntityType} {i : Id t} {x : Target} {a b : Row t} {n : String} {l : Location}
      (hs : Settles p i x a b) (hopen : (∀ x, ¬ p.Finds i.key x) ∨ Crooked p.store a) (hnext : p.Next i.key)
      (hon : p.onChain i.key) (hA : A i.key) (hx : ∀ c : Alias, c.key = i.key → x.Wrong p.store)
      (hlodged : R → x.Lodged p.store) :
      Tick R A p {p with chain := (p.chain.add ⟨i.key,n,l⟩).2, store := p.store.put i b}
  | leave {p : Pass} {t : EntityType} {i : Id t} {x : Target} {a b : Row t} {l : Link} {ls : List Link}
      {ds : List Diagnostic} (hs : Settles p i x a b) (htop : p.chain.links = ls++[l]) (hk : l.key = i.key)
      (hA : A i.key) (hx : ∀ (c : Alias) u, c.key = i.key → Turns p.store c u → Suits p x u)
      (hlodged : R → x.Lodged p.store) (hd : Blames a ds) :
      Tick R A p {p with chain := {p.chain with links := ls}, store := p.store.put i b, reports := ds++p.reports}
  | drop {p : Pass} {i : Id .setDef} {d e : SetDef} {l : Link} {ls : List Link} {x : Except Notation.SyntaxError Expansion}
      {oss : List (List (Id .objectDef))} (hd : p.store.get? i = some d) (he : Touched (t := .setDef) d e)
      (htop : p.chain.links = ls++[l]) (hk : l.key = i.key) (hA : A i.key) (hx : d.expansion = some x)
      (hos : List.Forall₂ p.Adds d.elements oss) (hf : e.flattening = some ⟨oss.flatten,p.marker⟩)
      (hlodged : R → ∀ os, found p.marker e.flattening = some os → ∀ o ∈ os, LodgedObject p.store (.definition o)) :
      Tick R A p {p with chain := {p.chain with links := ls}, store := p.store.put i e}

def Ticks (R : Prop) (A : Nat → Prop) : Pass → Pass → Prop := Relation.ReflTransGen (Tick R A)

section Machine
variable {R R' : Prop} {A B : Nat → Prop} {p q r : Pass} {k : Nat} {x y : Target}

theorem Ticks.refl (p : Pass) : Ticks R A p p := Relation.ReflTransGen.refl

theorem Ticks.trans (h : Ticks R A p q) (k : Ticks R A q r) : Ticks R A p r := Relation.ReflTransGen.trans h k

theorem Tick.ticks (h : Tick R A p q) : Ticks R A p q := .single h

theorem Still.ticks (h : Still p q) : Ticks R A p q := .single (.still h)

theorem Tick.mono (hR : R' → R) (hAB : ∀ k, A k → B k) (h : Tick R A p q) : Tick R' B p q := by
  cases h with
  | still h => exact .still h
  | enter ha hl hopen hnext hnew hhome hfree hset => exact .enter ha hl hopen hnext hnew (hhome ∘ hR) hfree hset
  | meet hd hcalm hon hset => exact .meet hd hcalm hon hset
  | close hs hopen hnext hon hA hx hlodged => exact .close hs hopen hnext hon (hAB _ hA) hx (hlodged ∘ hR)
  | leave hs htop hk hA hx hlodged hd => exact .leave hs htop hk (hAB _ hA) hx (hlodged ∘ hR) hd
  | drop hd he htop hk hA hx hos hf hlodged => exact .drop hd he htop hk (hAB _ hA) hx hos hf (hlodged ∘ hR)

theorem Ticks.mono (hAB : ∀ k, A k → B k) (h : Ticks R A p q) : Ticks R B p q :=
  Relation.ReflTransGen.mono (fun _ _ => Tick.mono id hAB) _ _ h

/-! Ticks that have nothing to do with names -/

theorem Still.refl (p : Pass) : Still p p :=
  ⟨rfl,rfl,.refl _,id,.refl _,fun _ _ _ _ hd hd' he => Option.some.inj (hd.symm.trans hd') ▸ he,
    fun _ b hb => .inr ⟨b,hb,rfl⟩,rfl,rfl,rfl,[],rfl,fun _ hd => absurd hd List.not_mem_nil⟩

theorem Still.of_plain (h : Plain p q) : Still p q where
  marker := h.marker
  budget := h.budget
  onward := ⟨h.extends,h.kept,h.written⟩
  sane := h.sane
  unresolved := h.unresolved
  expanded i d d' e hd hd' he := Eq.trans (h.parts .setDef i d d' hd hd') he
  stamps i b hb := by
    rcases h.quiet.stamps .classRef i b _ hb rfl with hz | ⟨a,ha,hab⟩
    · exact .inl hz
    · exact .inr ⟨a,ha,(Option.some.inj hab).symm⟩
  links := by rw [h.chain]
  cycles := by rw [h.chain]
  reported := by rw [h.chain]
  reports := ⟨[],h.silent,fun _ hd => absurd hd List.not_mem_nil⟩

theorem Still.marks (c : Chain) (hl : c.links = p.chain.links) (hc : c.cycles = p.chain.cycles)
    (hr : c.reported = p.chain.reported) : Still p {p with chain := c} :=
  {Still.refl p with links := hl, cycles := hc, reported := hr}

theorem Still.marked (p : Pass) : Still p p.marked := .marks _ rfl rfl rfl

theorem Still.report (hd : ¬ Told d) : Still p {p with reports := d::p.reports} :=
  {Still.refl p with reports := ⟨[d],rfl,fun _ he => List.mem_singleton.mp he ▸ hd⟩}

theorem Still.put {t : EntityType} {i : Id t} {a b : Row t} (ha : p.store.get? i = some a) (hab : Touched a b)
    (hr : SameResults a b) (ht : t ≠ .classRef) : Still p (p.put i b) := by
  refine { Still.refl p with
    onward := .put ha hab.bare, sane := .put ha hab, unresolved := .put ha hr, expanded := fun j d d' e hd hd' he => ?_,
    stamps := fun j c hc => ?_}
  · obtain ⟨c,hc,hcd⟩ := Store.get?_put_back (R := fun _ => SameParts) (fun _ => SameParts.refl) ha hab.parts hd'
    cases hd.symm.trans hc
    exact Eq.trans hcd he
  · rw [Store.get?_put_other ht] at hc
    exact .inr ⟨c,hc,rfl⟩

/-! Links on the chain -/

theorem holds_iff : p.chain.holds l = true ↔ p.onChain l.key := by
  simp [Chain.holds,Pass.onChain]

theorem Pass.add_new (h : ¬ p.onChain l.key) : (p.chain.add l).2 =
    {p.chain with links := p.chain.links++[l]} := by
  simp only [Chain.add]
  rw [if_neg fun hh => h (holds_iff.mp hh)]

theorem Pass.add_met (h : p.onChain l.key) : (p.chain.add l).2 =
    {p.chain with cycles := p.chain.cycles++[p.chain.links.dropWhile (·.key != l.key)]} := by
  simp only [Chain.add]
  rw [if_pos (holds_iff.mpr h)]

/-! What was found -/

theorem Pass.Finds.unique (h : p.Finds k x) (h' : p.Finds k y) : x = y := by
  obtain ⟨t,i,a,ha,rfl,hx⟩ := h
  obtain ⟨u,j,b,hb,hk,hy⟩ := h'
  obtain ⟨rfl,rfl,rfl⟩ := Store.row_of_key hk hb ha
  exact Option.some.inj (hx.symm.trans hy)

theorem finds_iff {t : EntityType} {i : Id t} {a : Row t} (ha : p.store.get? i = some a) :
    p.Finds i.key x ↔ settled p.marker a = some x := by
  refine ⟨?_,fun hx => ⟨t,i,a,ha,rfl,hx⟩⟩
  rintro ⟨u,j,b,hb,hk,hx⟩
  obtain ⟨rfl,rfl,rfl⟩ := Store.row_of_key hk hb ha
  exact hx

theorem SameResults.settled_eq {a b : Row t} (h : SameResults a b) : settled m b = settled m a := by
  cases t with
  | typeRef | valueRef | classRef | objectRef | setRef => exact congrArg (fun r => (found m r).map _) h
  | _ => rfl

theorem Unfound.settled_eq {a : Row t} (h : Unfound a) : settled m a = none := by
  cases t with
  | typeRef | valueRef | classRef | objectRef | setRef => exact congrArg (fun r => (found m r).map _) h
  | _ => rfl

theorem Still.finds_iff (h : Still p q) : q.Finds k x ↔ p.Finds k x := by
  constructor
  · rintro ⟨t,i,b,hb,rfl,hx⟩
    rw [h.marker] at hx
    rcases h.unresolved t i b hb with ⟨a,ha,hab⟩ | ⟨_,hu⟩
    · exact ⟨t,i,a,ha,rfl,hab.settled_eq ▸ hx⟩
    · simp [hu.settled_eq] at hx
  · rintro ⟨t,i,a,ha,rfl,hx⟩
    obtain ⟨b,hb,_⟩ := h.onward.more.rows t i a ha
    refine ⟨t,i,b,hb,rfl,?_⟩
    rw [h.marker]
    rcases h.unresolved t i b hb with ⟨a',ha',hab⟩ | ⟨hn,_⟩
    · cases ha.symm.trans ha'
      rw [hab.settled_eq,hx]
    · rw [ha] at hn
      contradiction

theorem Settles.finds_iff {a b : Row t} (h : Settles p i y a b) :
    Pass.Finds {p with chain := c, store := p.store.put i b, reports := ds} k x ↔ k = i.key ∧ x = y ∨ k ≠ i.key ∧
    p.Finds k x := by
  constructor
  · rintro ⟨u,j,d,hd,rfl,hx⟩
    by_cases hk : i.key = j.key
    · obtain ⟨rfl,rfl,rfl⟩ := Store.row_of_key hk (Store.get?_put_self h.row) hd
      exact .inl ⟨rfl,Option.some.inj (hx.symm.trans h.settled)⟩
    · exact .inr ⟨Ne.symm hk,u,j,d,(Store.get?_put_of_key b hk).symm.trans hd,rfl,hx⟩
  · rintro (⟨rfl,rfl⟩ | ⟨hk,u,j,d,hd,rfl,hx⟩)
    · exact ⟨t,i,b,Store.get?_put_self h.row,rfl,h.settled⟩
    · exact ⟨u,j,d,(Store.get?_put_of_key b (Ne.symm hk)).trans hd,rfl,hx⟩

theorem finds_put_set {i : Id .setDef} {d : SetDef} :
    Pass.Finds {p with chain := c, store := p.store.put i d, reports := ds} k x ↔ p.Finds k x := by
  have other : ∀ {t : EntityType} {j : Id t} {a : Row t}, settled p.marker a = some x →
      ((p.store.put i d).get? j = some a ↔ p.store.get? j = some a) := by
    intro t j a hx
    have ht : EntityType.setDef ≠ t := by
      rintro rfl
      simp [settled] at hx
    rw [Store.get?_put_other ht]
  constructor
  · exact fun ⟨t,j,a,ha,hk,hx⟩ => ⟨t,j,a,(other hx).mp ha,hk,hx⟩
  · exact fun ⟨t,j,a,ha,hk,hx⟩ => ⟨t,j,a,(other hx).mpr ha,hk,hx⟩

theorem Settles.sets {a b : Row t} (h : Settles p i y a b) (j : Id .setDef) : (p.store.put i b).get? j = p.store.get? j := by
  refine Store.get?_put_other ?_ i b j
  rintro rfl
  have := h.settled
  simp [Check.settled] at this

/-! What all steps have in common -/

theorem Tick.marker_eq (h : Tick R A p q) : q.marker = p.marker := by
  cases h with
  | still h => exact h.marker
  | _ => rfl

theorem Tick.budget_eq (h : Tick R A p q) : q.budget = p.budget := by
  cases h with
  | still h => exact h.budget
  | _ => rfl

theorem Tick.onward (h : Tick R A p q) : Onward p.store q.store := by
  cases h with
  | still h => exact h.onward
  | enter | meet => exact .refl _
  | close hs | leave hs => exact .put hs.row hs.bare
  | drop hd he => exact .put (t := .setDef) hd he.bare

theorem Tick.sane (h : Tick R A p q) (hp : Sane p.store) : Sane q.store := by
  cases h with
  | still h => exact h.sane hp
  | enter | meet => exact hp
  | close hs | leave hs => exact .put hs.row ⟨hs.bare,hs.parts⟩ hp
  | drop hd he => exact .put (t := .setDef) hd he hp

/-- What was found in a generation is found as long as it lasts, maybe with another result. -/
theorem Tick.finds (h : Tick R A p q) (hk : p.Finds k x) : ∃ y, q.Finds k y := by
  cases h with
  | still h => exact ⟨x,h.finds_iff.mpr hk⟩
  | enter | meet => exact ⟨x,hk⟩
  | @close t i y a b n l hs | @leave t i y a b l ls ds hs =>
    by_cases hki : k = i.key
    · exact ⟨y,hs.finds_iff.mpr (.inl ⟨hki,rfl⟩)⟩
    · exact ⟨x,hs.finds_iff.mpr (.inr ⟨hki,hk⟩)⟩
  | drop => exact ⟨x,finds_put_set.mpr hk⟩

theorem Ticks.onward (h : Ticks R A p q) : Onward p.store q.store := by
  induction h with
  | refl => exact .refl _
  | tail _ h ih => exact ih.trans h.onward

theorem Solid.onward (h : Onward s s') (hk : Solid s k) : Solid s' k := by
  cases hk with
  | object i => exact .object i
  | set i => exact .set i
  | elements i => exact .elements i
  | classOf hr ho =>
    obtain ⟨r',hr',hb⟩ := h.more.rows _ _ _ hr
    exact .classOf hr' ((ClassRef.bare_eq_iff.mp hb).2.trans ho)

theorem Solid.no_turn (h : Solid s a.key) (ht : Turns s a t) : False := by
  generalize hk : a.key = k at h
  cases h with
  | object i | set i | elements i => cases a <;> exact Id.key_ne (by decide) _ i hk
  | @classOf i r hr ho =>
    cases ht with
    | type | value => exact Id.key_ne (by decide) _ i hk
    | objectClass hr' hn =>
      obtain rfl := Id.key_inj hk
      cases hr.symm.trans hr'
      simp [ho] at hn

theorem Pass.Calm.next (h : p.Calm) (k : Nat) : p.Next k := fun l hl => .inl (h l hl)

theorem Pass.Calm.onward (h : p.Calm) (ho : Onward p.store q.store) (hl : q.chain.links = p.chain.links) : q.Calm :=
  fun l hq => (h l (hl ▸ hq)).onward ho

theorem Pass.Next.onward (h : p.Next k) (ho : Onward p.store q.store) (hl : q.chain.links = p.chain.links) : q.Next k := by
  intro l hq
  rcases h l (hl ▸ hq) with hs | ⟨a,b,hab,ha,hb⟩
  · exact .inl (hs.onward ho)
  · exact .inr ⟨a,b,hab.onward ho,ha,hb⟩

theorem Ticks.finds_iff (h : Ticks R A p q) (hk : ¬ A k) : q.Finds k x ↔ p.Finds k x := by
  induction h with
  | refl => exact .rfl
  | @tail q r _ h ih =>
    refine Iff.trans ?_ ih
    cases h with
    | still h => exact h.finds_iff
    | enter | meet => exact .rfl
    | @close t i y a b n l hs hopen hnext hon hA | @leave t i y a b l ls ds hs htop hlk hA =>
      refine hs.finds_iff.trans ⟨?_,fun hx => .inr ⟨fun hki => hk (hki ▸ hA),hx⟩⟩
      rintro (⟨rfl,_⟩ | ⟨_,hx⟩)
      · exact absurd hA hk
      · exact hx
    | drop => exact finds_put_set

/-! What belongs to the modules in use stays there -/

section
variable (h : Onward s s')
include h

theorem LodgedClass.onward (hl : LodgedClass s e) : LodgedClass s' e := by
  cases e with
  | definition c =>
    obtain ⟨row,hrow,hf⟩ := hl
    obtain ⟨row',hrow',hb⟩ := h.more.rows _ c row hrow
    refine ⟨row',hrow',fun g hg => ?_⟩
    obtain ⟨f,hmem,hfg⟩ := mem_fields_of_bare hb hg
    obtain ⟨_,_,hshape,_,_,_,hscope⟩ := Field.bare_eq_iff.mp hfg
    obtain ⟨hs,hrest⟩ := hf f hmem
    refine ⟨by rw [hscope,h.kept]; exact hs,?_⟩
    rw [hshape]
    cases hsh : f.shape with
    | value t u =>
      simp only [hsh] at hrest ⊢
      exact HomedType.mono h.stays hrest
    | object c | objectSet c =>
      simp only [hsh] at hrest ⊢
      exact HomedClass.mono h.stays hrest
    | _ => trivial
  | reference i => exact HomedClass.mono (g := .reference i) h.stays hl

theorem LodgedHeld.onward (hv : LodgedHeld s v) : LodgedHeld s' v := by
  match v,hv with
  | .type t,hv => exact HomedType.mono h.stays hv
  | .value v,hv => exact HomedValue.mono h.stays hv
  | .object (.definition o),⟨row,hrow,hm,hg⟩ | .set (.definition o),⟨row,hrow,hm,hg⟩ =>
    obtain ⟨row',hrow',hb⟩ := h.more.rows _ o row hrow
    have hmod : row'.module = row.module := congrArg (·.module) hb
    have hgov : row'.governor = row.governor := congrArg (·.governor) hb
    exact ⟨row',hrow',fun m hm' => h.kept ▸ hm m (hmod ▸ hm'),hgov ▸ hg.onward h⟩
  | .object (.reference i),⟨row,hrow,hs,hg⟩ | .set (.reference i),⟨row,hrow,hs,hg⟩ =>
    obtain ⟨row',hrow',hb⟩ := h.more.rows _ i row hrow
    have hscope : row'.scope = row.scope := congrArg (·.scope) hb
    have hgov : row'.governor = row.governor := congrArg (·.governor) hb
    exact ⟨row',hrow',by rw [h.kept,hscope]; exact hs,hgov ▸ hg.onward h⟩

theorem LodgedObject.onward (hl : LodgedObject s o) : LodgedObject s' o := LodgedHeld.onward (v := .object o) h hl

theorem LodgedSet.onward (hl : LodgedSet s d) : LodgedSet s' d := LodgedHeld.onward (v := .set d) h hl

theorem NamedSet.onward (hd : NamedSet s d) : NamedSet s' d := by
  obtain ⟨hl,hdecl⟩ := hd
  refine ⟨hl.onward h,fun row' hrow' he => ?_⟩
  obtain ⟨row,hrow,_⟩ := hl
  obtain ⟨row'',hrow'',hb⟩ := h.more.rows _ d row hrow
  cases hrow'.symm.trans hrow''
  exact (hdecl row hrow ((SetDef.bare_eq_iff.mp hb).2.2.1.symm.trans he)).mono h.stays

theorem Target.Lodged.onward (hx : x.Lodged s) : x.Lodged s' := by
  cases x with
  | objectClass c => exact LodgedClass.onward (e := .definition c) h hx
  | object o => exact LodgedObject.onward (o := .definition o) h hx
  | objectSet d => exact NamedSet.onward h hx
  | _ => trivial

theorem Housed.onward (ha : Housed s a) : Housed s' a := by
  cases a with
  | type i => exact HomedType.mono h.stays ha
  | value i => exact HomedValue.mono (v := .reference i) h.stays ha
  | objectClass i => exact HomedClass.mono (g := .reference i) h.stays ha

end

/-! Sets that were listed -/

/-- A set that is listed after a step was listed before with the same elements, or the step has listed it. -/
theorem Tick.listed_back (h : Tick R A p q) {i : Id .setDef} (hd' : q.store.get? i = some d')
    (hos : found q.marker d'.flattening = some os) : (∃ d, p.store.get? i = some d ∧ found p.marker d.flattening = some os ∧
    ∀ x, d.expansion = some x → d'.expansion = some x) ∨ A i.key ∧ ∃ d x oss l ls, p.store.get? i = some d ∧ d.expansion =
    some x ∧ d'.expansion = some x ∧ List.Forall₂ p.Adds d'.elements oss ∧ os = oss.flatten ∧ p.chain.links = ls++[l] ∧
    l.key = i.key ∧ q.chain.links = ls := by
  have same : p.store.get? i = some d' → found p.marker d'.flattening = some os → ∃ d, p.store.get? i = some d ∧
      found p.marker d.flattening = some os ∧ ∀ x, d.expansion = some x → d'.expansion = some x :=
    fun hd hf => ⟨d',hd,hf,fun _ hx => hx⟩
  cases h with
  | still h =>
    rw [h.marker] at hos
    rcases h.unresolved .setDef i d' hd' with ⟨d,hd,hsame⟩ | ⟨_,hu⟩
    · exact .inl ⟨d,hd,hsame ▸ hos,fun x hx => h.expanded i d d' x hd hd' hx⟩
    · simp [show SetDef.flattening d' = none from hu] at hos
  | enter | meet => exact .inl (same hd' hos)
  | close hs | leave hs => exact .inl (same ((hs.sets i).symm.trans hd') hos)
  | @drop j d e l ls x oss hd he htop hlk hA hx hadds hf =>
    rcases Store.get?_put_cases (t := .setDef) hd hd' with ⟨rfl,rfl⟩ | ⟨_,hd'⟩
    · have hexp : d'.expansion = some x := Eq.trans he.parts hx
      have hos' : some oss.flatten = some os := by simpa [hf,found,Marker.before_irrefl] using hos
      refine .inr ⟨hA,d,x,oss,l,ls,hd,hx,hexp,?_,(Option.some.inj hos').symm,htop,hlk,rfl⟩
      rwa [SetDef.elements_of_expansion he.parts]
    · exact .inl (same hd' hos)

theorem forall₂_mem (h : List.Forall₂ S as bs) (ha : a ∈ as) : ∃ b ∈ bs, S a b := by
  induction h with
  | nil => simp at ha
  | @cons a' b' as bs hab _ ih =>
    rcases List.mem_cons.mp ha with rfl | ha
    · exact ⟨b',List.mem_cons_self,hab⟩
    · obtain ⟨b,hb,hab⟩ := ih ha
      exact ⟨b,List.mem_cons_of_mem _ hb,hab⟩

/-- A pass in which no entity is on the chain twice, no set that was listed is on it, and all names of objects in such
sets were found; if `R` holds, all that was found belongs to the modules in use. -/
structure Tidy (R : Prop) (p : Pass) : Prop where
  sane : Sane p.store
  distinct : (Cycle.keys p.chain.links).Nodup
  apart : ∀ i os, p.Lists i os → ¬ p.onChain i.key
  complete : ∀ (i : Id .setDef) d os, p.store.get? i = some d → found p.marker d.flattening = some os →
    (∃ x, d.expansion = some x) ∧ ∀ j : Id .objectRef, Element.object j ∈ d.elements → ∃ x, p.Finds j.key x
  targets : R → ∀ k x, p.Finds k x → x.Lodged p.store
  listed : R → ∀ (i : Id .setDef) d os, p.store.get? i = some d → found p.marker d.flattening = some os →
    ∀ o ∈ os, LodgedObject p.store (.definition o)

theorem Tick.complete (h : Tick R A p q) (hp : Tidy R p) {i : Id .setDef} (hd' : q.store.get? i = some d')
    (hos : found q.marker d'.flattening = some os) : (∃ x, d'.expansion = some x) ∧ ∀ j : Id .objectRef,
    Element.object j ∈ d'.elements → ∃ x, q.Finds j.key x := by
  rcases h.listed_back hd' hos with ⟨d,hd,hf,hexp⟩ | ⟨_,d,x,oss,_,_,_,_,hx,hadds,_⟩
  · obtain ⟨⟨x,hx⟩,hfound⟩ := hp.complete i d os hd hf
    refine ⟨⟨x,hexp x hx⟩,fun j hj => ?_⟩
    obtain ⟨y,hy⟩ := hfound j (SetDef.elements_of_expansion ((hexp x hx).trans hx.symm) ▸ hj)
    exact h.finds hy
  · refine ⟨⟨x,hx⟩,fun j hj => ?_⟩
    obtain ⟨_,_,hadd⟩ := forall₂_mem hadds hj
    cases hadd with
    | object hr => exact h.finds hr.1

theorem nodup_of_top (h : (Cycle.keys p.chain.links).Nodup) (htop : p.chain.links = ls++[l]) : (Cycle.keys ls).Nodup ∧ ∀
    m ∈ ls, m.key ≠ l.key := by
  rw [htop,Cycle.keys,List.map_append,List.nodup_append] at h
  exact ⟨h.1,fun m hm => h.2.2 m.key (List.mem_map_of_mem hm) l.key (by simp)⟩

theorem Tick.distinct (h : Tick R A p q) (hp : Tidy R p) : (Cycle.keys q.chain.links).Nodup := by
  cases h with
  | still h => exact h.links ▸ hp.distinct
  | @enter t i a n l ha hl hopen hnext hnew =>
    simp only [Pass.add_new (l := ⟨i.key,n,l⟩) hnew,Cycle.keys,List.map_append,List.nodup_append]
    refine ⟨hp.distinct,by simp,fun k hk j hj => ?_⟩
    obtain ⟨m,hm,rfl⟩ := List.mem_map.mp hk
    obtain rfl : j = i.key := by simpa using hj
    exact fun he => hnew ⟨m,hm,he⟩
  | @meet i d n l hd hcalm hon | @close t i x a b n l hs hopen hnext hon =>
    simpa only [Pass.add_met (l := ⟨i.key,n,l⟩) hon] using hp.distinct
  | leave hs htop | drop hd he htop => exact (nodup_of_top hp.distinct htop).1

theorem Tick.onChain_back (h : Tick R A p q) (hk : q.onChain k) :
    p.onChain k ∨ ∀ t : Id .setDef, t.key = k → ∀ os, ¬ q.Lists t os := by
  cases h with
  | still h => exact .inl (Pass.onChain_congr h.links ▸ hk)
  | @enter t j a n l ha hl hopen hnext hnew hhome hfree hset =>
    obtain ⟨m,hm,hmk⟩ := hk
    simp only [Pass.add_new (l := ⟨j.key,n,l⟩) hnew] at hm
    rcases List.mem_append.mp hm with hm | hm
    · exact .inl ⟨m,hm,hmk⟩
    · obtain rfl : m = ⟨j.key,n,l⟩ := by simpa using hm
      exact .inr fun t ht => (hset t (ht.trans hmk.symm)).1
  | @meet j d n l hd hcalm hon | @close t j x a b n l hs hopen hnext hon =>
    obtain ⟨m,hm,hmk⟩ := hk
    simp only [Pass.add_met (l := ⟨j.key,n,l⟩) hon] at hm
    exact .inl ⟨m,hm,hmk⟩
  | leave hs htop | drop hd he htop =>
    obtain ⟨m,hm,hmk⟩ := hk
    exact .inl ⟨m,by simp [htop,show m ∈ _ from hm],hmk⟩

theorem Tick.apart (h : Tick R A p q) (hp : Tidy R p) (hi : q.Lists i os) : ¬ q.onChain i.key := by
  intro hon
  obtain ⟨d',hd',hos⟩ := hi
  rcases h.listed_back hd' hos with ⟨d,hd,hf,_⟩ | ⟨_,d,x,oss,l,ls,_,_,_,_,_,htop,hlk,hls⟩
  · rcases h.onChain_back hon with hon | hno
    · exact hp.apart i os ⟨d,hd,hf⟩ hon
    · exact hno i rfl os ⟨d',hd',hos⟩
  · obtain ⟨m,hm,hmk⟩ := hon
    exact (nodup_of_top hp.distinct htop).2 m (hls ▸ hm) (hmk.trans hlk.symm)

theorem Tick.tidy (h : Tick R A p q) (hp : Tidy R p) : Tidy R q := by
  have hon := h.onward
  refine ⟨h.sane hp.sane,h.distinct hp,fun i os hi => h.apart hp hi,fun i d os hd hos => h.complete hp hd hos,fun hR => ?_,
    fun hR => ?_⟩
  · have old : ∀ k x, p.Finds k x → x.Lodged q.store := fun k x hx => (hp.targets hR k x hx).onward hon
    cases h with
    | still h => exact fun k x hx => old k x (h.finds_iff.mp hx)
    | enter | meet => exact old
    | close hs hopen hnext hmet hA hx hlodged | leave hs htop hlk hA hx hlodged =>
      intro k x hk
      rcases hs.finds_iff.mp hk with ⟨_,rfl⟩ | ⟨_,hk⟩
      · exact (hlodged hR).onward hon
      · exact old k x hk
    | drop => exact fun k x hk => old k x (finds_put_set.mp hk)
  · have old : ∀ (i : Id .setDef) d os, p.store.get? i = some d → found p.marker d.flattening = some os →
        ∀ o ∈ os, LodgedObject q.store (.definition o) :=
      fun i d os hd hos o ho => (hp.listed hR i d os hd hos o ho).onward hon
    cases h with
    | still h =>
      intro i d os hd hos o ho
      rw [h.marker] at hos
      rcases h.unresolved .setDef i d hd with ⟨d0,hd0,hsame⟩ | ⟨_,hu⟩
      · exact old i d0 os hd0 (hsame ▸ hos) o ho
      · simp [show SetDef.flattening d = none from hu] at hos
    | enter | meet => exact old
    | close hs | leave hs => exact fun i d os hd => old i d os ((hs.sets i).symm.trans hd)
    | @drop i d e l ls _ _ hd he htop hlk hA hx hos hf hlodged =>
      intro j d' os hd' hos o ho
      rcases Store.get?_put_cases (t := .setDef) hd hd' with ⟨rfl,rfl⟩ | ⟨_,hd'⟩
      · exact (hlodged hR os hos o ho).onward hon
      · exact old j d' os hd' hos o ho

theorem Tidy.of_links (hp : Tidy R p) (hl : c.links = p.chain.links) : Tidy R {p with chain := c} := by
  refine ⟨hp.sane,hl ▸ hp.distinct,fun i os hi => ?_,hp.complete,hp.targets,hp.listed⟩
  rw [Pass.onChain_congr (p := p) hl]
  exact hp.apart i os hi

theorem Ticks.tidy (h : Ticks R A p q) (hp : Tidy R p) : Tidy R q := by
  induction h with
  | refl => exact hp
  | tail _ h ih => exact h.tidy ih

theorem Still.tidy (h : Still p q) (hp : Tidy R p) : Tidy R q := Tick.tidy (A := fun _ => True) (.still h) hp

/-- As long as no set is listed, what was not found at the start is no element of a set that was listed. -/
theorem Ticks.unlisted (h : Ticks R A p q) (hp : Tidy R p) (hA : ∀ i : Id .setDef, ¬ A i.key) (hk : ∀ x, ¬ p.Finds k x) :
    q.Unlisted k := by
  induction h with
  | refl =>
    rintro i d os hd hos j hj rfl
    obtain ⟨x,hx⟩ := (hp.complete i d os hd hos).2 j hj
    exact hk x hx
  | tail hticks h ih =>
    intro i d' os hd' hos j hj
    rcases h.listed_back hd' hos with ⟨d,hd,hf,hexp⟩ | ⟨hi,_⟩
    · obtain ⟨⟨x,hx⟩,_⟩ := (Ticks.tidy hticks hp).complete i d os hd hf
      exact ih i d os hd hf j (SetDef.elements_of_expansion ((hexp x hx).trans hx.symm) ▸ hj)
    · exact absurd hi (hA i)

end Machine

end InfoObject.Check
