import InfoObject.Proofs.CleanResolution
import InfoObject.Proofs.Moments

/-! Finding what a name means takes the steps of the machine. -/
namespace InfoObject.Model

section Back
variable {s s' : Store} {a b : Alias} {t : Turn}

/-- From a reference that was there before, a search goes as it went before. -/
theorem Turns.back (h : Onward s s') (hp : a.Present s) (k : Turns s' a t) : Turns s a t := by
  rcases turn_or_ofObject hp with ⟨u,hu⟩ | ⟨i,r,rfl,hr,hof⟩
  · exact (hu.onward h).unique k ▸ hu
  · obtain ⟨r',hr',hb⟩ := h.more.rows _ i r hr
    cases k with
    | objectClass hr'' hn =>
      cases hr'.symm.trans hr''
      exact absurd (hn.symm.trans ((congrArg (·.ofObject) hb).trans hof)) (by decide)

theorem Leads.back (hs : Sane s) (h : Onward s s') (hp : a.Present s) (k : Leads s' a b) : Leads s a b ∧ b.Present s := by
  induction k with
  | refl => exact ⟨.refl,hp⟩
  | tail _ hbc ih =>
    have hstep : Points s _ _ := Turns.back h ih.2 hbc
    exact ⟨ih.1.tail hstep,hstep.present hs⟩

theorem Bends.of_onward (hs : Sane s) (h : Onward s s') (hp : a.Present s) (k : Bends s' a) : Bends s a := by
  obtain ⟨i,r,hl,hr,hof⟩ := k
  obtain ⟨hlead,r0,hr0⟩ := hl.back hs h hp
  obtain ⟨r',hr',hb⟩ := h.more.rows _ i r0 hr0
  cases hr.symm.trans hr'
  exact ⟨i,r0,hlead,hr0,(ClassRef.bare_eq_iff.mp hb).2 ▸ hof⟩

end Back

end InfoObject.Model

namespace InfoObject.Check
open Model

/-- References that the machine can settle. -/
class Settling (t : EntityType) (τ : outParam Type) [Referring t τ] where
  target : τ → Target
  settled_eq : ∀ m (a : Row t), settled m a = (found m (Referring.resolution a)).map target := by intros; rfl
  label_eq : ∀ a : Row t, label a = some (Referring.name a,Referring.location a) := by intros; rfl
  no_set : t ≠ .setDef := by decide

instance : Settling .typeRef TypeTarget where
  target := .type

instance : Settling .valueRef ValueTarget where
  target := .value

instance : Settling .classRef (Id .classDef) where
  target := .objectClass

instance : Settling .objectRef (Id .objectDef) where
  target := .object

instance : Settling .setRef (Id .setDef) where
  target := .objectSet

/-- A search comes to an end: by steps of the machine, with what the reference says of its name in the end. -/
def Ended (R : Prop) (A : Nat → Prop) {t : EntityType} (i : Id t) (a : Row t) (x : Target) (p q : Pass) : Prop :=
  ∃ r ds, Ticks R A p r ∧ Blames a ds ∧ q = {r with reports := ds++r.reports} ∧ (R → x.Lodged r.store) ∧
    ∀ (c : Alias) u, c.key = i.key → Turns r.store c u → Suits r x u

/-- What stands in for something is built, and nothing else is changed. -/
def StandsIn (R : Prop) (k : Nat) (x : Target) (p q : Pass) : Prop :=
  ∃ s, q = {p with store := s} ∧ Built p.store s ∧ (R → x.Lodged s) ∧ ∀ a : Alias, a.key = k → x.Wrong s

section Rows
variable {t : EntityType} {a b : Row t}

theorem place_of_bare (h : b.bare = a.bare) : place b = place a := by
  cases t <;> exact (congrArg place h :)

theorem label_of_bare (h : b.bare = a.bare) : label b = label a := by
  cases t <;> exact (congrArg label h :)

theorem Crooked.of_bare (h : b.bare = a.bare) (hc : Crooked s a) : Crooked s b := by
  cases t <;> exact (congrArg (Crooked s) h).mpr hc

theorem Bent.onward (h : Onward s s') (hb : Bent s e) : Bent s' e := by
  obtain ⟨i,hi,hb⟩ := hb
  exact ⟨i,hi,hb.onward h⟩

theorem Crooked.onward (h : Onward s s') (hc : Crooked s a) : Crooked s' a := by
  cases t with
  | objectRef => exact Bent.onward h hc
  | _ => exact hc.elim

theorem Blames.of_bare (h : b.bare = a.bare) (hd : Blames a ds) : Blames b ds := by
  obtain ⟨l,hl,hd⟩ := hd
  exact ⟨l,(place_of_bare h).trans hl,hd⟩

end Rows

section Chains
variable {c d : Chain} {l : Link}

theorem rewind_rest (h : c.rewind = some d) : d.cycles = c.cycles ∧ d.reported = c.reported := by
  unfold Chain.rewind at h
  split at h
  · contradiction
  · obtain rfl := Option.some.inj h
    exact ⟨rfl,rfl⟩

theorem add_fresh (h : (c.add l).1 = true) : c.holds l = false ∧
    (c.add l).2 = {c with links := c.links++[l]} := by
  cases hh : c.holds l with
  | true => simp [Chain.add,hh] at h
  | false => exact ⟨rfl,by simp [Chain.add,hh]⟩

theorem add_met (h : (c.add l).1 = false) : c.holds l = true ∧
    (c.add l).2 = {c with cycles := c.cycles++[c.links.dropWhile (·.key != l.key)]} := by
  cases hh : c.holds l with
  | false => simp [Chain.add,hh] at h
  | true => exact ⟨rfl,by simp [Chain.add,hh]⟩

end Chains

variable {R : Prop} {A : Nat → Prop} {p q : Pass}

section Once
variable {t : EntityType} {τ ε : Type} [Referring t τ] [Settling t τ] {id : Id t}
  {before : Row t → Checking ε} {search : Bool → Row t → ε → Checking τ} {x : τ}

theorem settles_resolve (hr : p.store.get? id = some r) :
    Settles p id (Settling.target (t := t) x) r (Referring.resolve r ⟨x,p.marker⟩) where
  row := hr
  bare := (Referring.moves p.marker r x).bare_eq
  parts := Referring.parts _ _
  stamp := Referring.stamp _ _
  settled := by rw [Settling.settled_eq,Referring.resolution_resolve,found_now,Option.map_some]

theorem finds_resolution (hr : p.store.get? id = some r) (hx : found p.marker (Referring.resolution r) = some x) :
    p.Finds id.key (Settling.target (t := t) x) :=
  ⟨t,id,r,hr,rfl,by rw [Settling.settled_eq,hx,Option.map_some]⟩

theorem finds_now (h : ((p.store.get? id).bind fun r => found p.marker (Referring.resolution r)) = some x) :
    p.Finds id.key (Settling.target (t := t) x) := by
  obtain ⟨r,hr,hx⟩ := Option.bind_eq_some_iff.mp h
  exact finds_resolution hr hx

theorem not_finds_of_pending (hr : p.store.get? id = some r) (hn : found p.marker (Referring.resolution r) = none)
    (y : Target) : ¬ p.Finds id.key y := by
  rw [finds_iff hr,Settling.settled_eq,hn,Option.map_none]
  simp

theorem tick_enter (hr : p1.store.get? id = some r) (hopen : (∀ y, ¬ p1.Finds id.key y) ∨ Crooked p1.store r)
    (hnext : p1.Next id.key) (hhome : R → ∀ a : Alias, a.key = id.key → Housed p1.store a)
    (hfree : ∀ y, p1.Finds id.key y → p1.Unlisted id.key) (hfresh : (p1.chain.add (linkOf id r)).1 = true) :
    Tick R A p1 (p1.entered (linkOf id r)) :=
  .enter hr (Settling.label_eq r) hopen hnext
    (fun hon => absurd ((holds_iff (l := linkOf id r)).mpr hon) (by simp [(add_fresh hfresh).1])) hhome hfree
    fun d hd => absurd hd.symm (Id.key_ne (Settling.no_set (t := t)) id d)

theorem ticks_fresh (h1 : Tick R A p1 (p1.entered (linkOf id r))) (hA : A id.key)
    (hend : Ended R A id r (Settling.target (t := t) x) (p1.entered (linkOf id r)) p2)
    (hlinks : p2.chain.links = p1.chain.links++[linkOf id r]) (hr2 : p2.store.get? id = some r2)
    (hbare : r2.bare = r.bare) (hc : p2.chain.rewind = some c) (hl : c.links = p1.chain.links) :
    Ticks R A p1 {p2 with store := p2.store.put id (Referring.resolve r2 ⟨x,p2.marker⟩), chain := c} := by
  obtain ⟨p3,ds,hticks,hblames,rfl,hlodged,hsuits⟩ := hend
  have h2 := Tick.leave (R := R) (A := A) (p := p3) (settles_resolve (x := x) hr2) hlinks
    (show (linkOf id r).key = id.key from rfl) hA hsuits hlodged (hblames.of_bare hbare)
  obtain ⟨hcy,hre⟩ := rewind_rest hc
  refine (h1.ticks.trans hticks).trans (h2.ticks.trans (Still.ticks ?_))
  exact Still.marks c hl hcy hre

theorem ticks_met (hr : p1.store.get? id = some r) (hopen : (∀ y, ¬ p1.Finds id.key y) ∨ Crooked p1.store r)
    (hnext : p1.Next id.key) (hA : A id.key) (hmet : (p1.chain.add (linkOf id r)).1 = false) (hs : Built p1.store s)
    (hx : ∀ a : Alias, a.key = id.key → (Settling.target (t := t) x).Wrong s)
    (hlodged : R → (Settling.target (t := t) x).Lodged s) (hr2 : s.get? id = some r2)
    (hc : (p1.chain.add (linkOf id r)).2.rewind = some c) (hl : c.links = p1.chain.links) :
    Ticks R A p1 {p1 with store := s.put id (Referring.resolve r2 ⟨x,p1.marker⟩), chain := c} := by
  obtain ⟨hon,heq⟩ := add_met hmet
  have h1 : Still p1 {p1 with store := s} := .of_plain (.of_built hs)
  have hbare : r2.bare = r.bare := by
    cases (hs.old t id r hr).symm.trans hr2
    rfl
  have hopen' : (∀ y, ¬ Pass.Finds {p1 with store := s} id.key y) ∨ Crooked s r2 := by
    refine hopen.imp (fun hn y hy => hn y (h1.finds_iff.mp hy)) fun hk => ?_
    exact (hk.onward h1.onward).of_bare hbare
  have h2 := Tick.close (R := R) (A := A) (p := {p1 with store := s}) (n := (linkOf id r).name)
    (l := (linkOf id r).location) (settles_resolve (x := x) hr2) hopen' (hnext.onward h1.onward rfl) (holds_iff.mp hon)
    hA hx hlodged
  obtain ⟨hcy,hre⟩ := rewind_rest hc
  refine (h1.ticks.trans h2.ticks).trans (Still.marks c ?_ hcy hre).ticks
  rw [hl]
  exact (congrArg Chain.links heq).symm

theorem Ticks.once {P : ε → Store → Prop} (hg : Gives (once id before search) p x q) (hp : Tidy R p)
    (hnext : p.Next id.key) (hA : A id.key) (hhome : R → ∀ a : Alias, a.key = id.key → Housed p.store a)
    (hkb : ∀ r, Keeps True (before r)) (hks : ∀ b r e, Keeps True (search b r e))
    (hb : ∀ r e p1, p.store.get? id = some r → (∀ y, ¬ p.Finds id.key y) →
      Gives (before r) p.marked e p1 →
      Ticks R A p.marked p1 ∧ ((∀ y, ¬ p1.Finds id.key y) ∨ Crooked p1.store r) ∧
        (∀ y, p1.Finds id.key y → p1.Unlisted id.key) ∧ P e p1.store)
    (hf : ∀ r e p1 p2, p.store.get? id = some r → Onward p.store p1.store → Tidy R p1 → P e p1.store →
      p1.chain.links.getLast? = some (linkOf id r) → Gives (search true r e) p1 x p2 →
      Ended R A id r (Settling.target (t := t) x) p1 p2)
    (hm : ∀ r e p1 p2, P e p1.store → Gives (search false r e) p1 x p2 →
      StandsIn R id.key (Settling.target (t := t) x) p1 p2) : Ticks R A p q := by
  obtain ⟨r,hr,⟨_,rfl⟩ | ⟨hn,e,p1,p2,r2,c,h⟩⟩ := gives_once.mp hg
  · exact .refl q
  obtain ⟨hs1,hopen,hfree,hP⟩ := hb r e p1 hr (not_finds_of_pending hr hn) h.prepared
  have h0 := Still.marked p
  have hp1 : Tidy R p1 := (h0.ticks.trans hs1).tidy hp
  have k1 := hkb r _ _ _ h.prepared
  have k2 := hks _ r e _ _ _ h.searched
  have hl1 : p1.chain.links = p.chain.links := k1.restored
  have hl : c.links = p.chain.links := by
    have := (h.evolves (hkb r) fun b => hks b r e).2.1
    rwa [h.result] at this
  obtain ⟨r1,hr1,hb1⟩ := hs1.onward.more.rows t id r hr
  have hopen1 : (∀ y, ¬ p1.Finds id.key y) ∨ Crooked p1.store r1 := hopen.imp_right fun hk => hk.of_bare hb1
  have hlink : linkOf id r1 = linkOf id r := by
    have heq := (Settling.label_eq r1).symm.trans ((label_of_bare hb1).trans (Settling.label_eq r))
    simp only [Option.some.injEq,Prod.mk.injEq] at heq
    simp only [linkOf,heq.1,heq.2]
  have hnext1 : p1.Next id.key := hnext.onward hs1.onward hl1
  refine (h0.ticks.trans hs1).trans ?_
  rw [h.result]
  cases hfresh : (p1.chain.add (linkOf id r)).1 with
  | true =>
    have hadd := (add_fresh hfresh).2
    have hs := h.searched
    rw [hfresh] at hs
    have henter : Tick R A p1 (p1.entered (linkOf id r1)) := tick_enter hr1 hopen1 hnext1
      (fun hR a ha => (hhome hR a ha).onward hs1.onward) hfree (hlink ▸ hfresh)
    have hend := hf r e (p1.entered (linkOf id r)) p2 hr hs1.onward (hlink ▸ henter.tidy hp1) hP
      (by simp [hadd]) hs
    obtain ⟨r2',hr2',hb2⟩ := k2.extends.rows t id r1 hr1
    cases h.row.symm.trans hr2'
    obtain ⟨p3,ds,hticks,hblames,hp2,hrest⟩ := hend
    refine ticks_fresh henter hA ?_ ?_ h.row hb2 h.rewound (hl.trans hl1.symm)
    · exact ⟨p3,ds,hlink ▸ hticks,hblames.of_bare hb1,hp2,hrest⟩
    · rw [k2.restored,hadd,hlink]
  | false =>
    have hs := h.searched
    rw [hfresh] at hs
    obtain ⟨s,rfl,hgrown,hlodged,hwrong⟩ := hm r e (p1.entered (linkOf id r)) _ hP hs
    exact ticks_met hr1 hopen1 hnext1 hA (hlink ▸ hfresh) hgrown hwrong hlodged h.row (hlink ▸ h.rewound)
      (hl.trans hl1.symm)

theorem ticks_once {search : Bool → Row t → Unit → Checking τ} (hg : Gives (once id (fun _ => pure ()) search) p x q)
    (hp : Tidy R p) (hnext : p.Next id.key) (hA : A id.key) (hhome : R → ∀ a : Alias, a.key = id.key → Housed p.store a)
    (hks : ∀ b r e, Keeps True (search b r e)) (hf : ∀ r p1 p2, p.store.get? id = some r → Onward p.store p1.store → Tidy R p1 →
      p1.chain.links.getLast? = some (linkOf id r) → Gives (search true r ()) p1 x p2 →
      Ended R A id r (Settling.target (t := t) x) p1 p2)
    (hm : ∀ r p1 p2, Gives (search false r ()) p1 x p2 → StandsIn R id.key (Settling.target (t := t) x) p1 p2) : Ticks R A p q := by
  refine .once (P := fun _ _ => True) hg hp hnext hA hhome (fun _ => .pure _) hks (fun r e p1 _ hopen hb => ?_)
    (fun r e p1 p2 hr ho hp1 _ => hf r p1 p2 hr ho hp1) fun r e p1 p2 _ => hm r p1 p2
  obtain ⟨_,rfl⟩ := gives_pure.mp hb
  exact ⟨.refl _,.inl hopen,fun y hy => absurd hy (hopen y),trivial⟩

end Once

/-! What is said of names -/

section Says
variable {τ : Type} {r : NameRef τ} {u : Unit}

theorem gives_reportMissing (h : Gives (reportMissing r) p u q) :
    ∃ ds, Says r.referenceLocation ds ∧ q = {p with reports := ds++p.reports} :=
  ⟨_,.inr ⟨_,rfl,rfl⟩,gives_reportError.mp h⟩

theorem gives_reportKind (h : Gives (reportKind r want got) p u q) : ∃ ds, Says r.referenceLocation ds ∧ q =
    {p with reports := ds++p.reports} := by
  rcases gives_ite.mp h with ⟨_,h⟩ | ⟨_,h⟩
  · exact ⟨[],.inl rfl,(gives_pure.mp h).2⟩
  · exact ⟨_,.inr ⟨_,rfl,rfl⟩,gives_reportError.mp h⟩

theorem gives_reportClassMismatch (h : Gives (reportClassMismatch r a b) p u q) : ∃ ds, Says r.referenceLocation ds ∧ q =
    {p with reports := ds++p.reports} := by
  simp only [reportClassMismatch,gives_bind,gives_load,gives_reportError] at h
  obtain ⟨_,_,⟨_,rfl⟩,_,_,⟨_,rfl⟩,rfl⟩ := h
  exact ⟨_,.inr ⟨_,rfl,rfl⟩,rfl⟩

end Says

/-! Ends of searches -/

section Homes
variable {s : Store} (hs : Sane s)

include hs

theorem HomedClass.lodged (h : HomedClass s e) : LodgedClass s e := by
  cases e with
  | definition c =>
    obtain ⟨row,hrow,_,hf⟩ := Declares.class_homed h hs
    exact ⟨row,hrow,hf⟩
  | reference i => exact h

theorem HomedHeld.lodged (h : HomedHeld s v) : LodgedHeld s v := by
  match v,h with
  | .type _,h | .value _,h => exact h
  | .object (.definition _),⟨row,m,hrow,_,hm,hk,_,hg⟩ | .set (.definition _),⟨row,m,hrow,_,hm,hk,_,hg⟩ =>
    refine ⟨row,hrow,fun m' hm' => ?_,HomedClass.lodged hs hg⟩
    cases hm.symm.trans hm'
    exact hk
  | .object (.reference _),⟨row,hrow,hk,hg⟩ | .set (.reference _),⟨row,hrow,hk,hg⟩ =>
    exact ⟨row,hrow,hk,HomedClass.lodged hs hg⟩

theorem HomedObject.lodged (h : HomedObject s o) : LodgedObject s o := HomedHeld.lodged (v := .object o) hs h

theorem HomedSet.lodged (h : HomedSet s d) : LodgedSet s d := HomedHeld.lodged (v := .set d) hs h

end Homes

section Ends
variable {t : EntityType} {i : Id t} {a : Row t} {x : Target} {l : Location} {r : Pass} {s : Store} {k : Nat}

/-- If a search takes a step from an entity, now or later, it is this one. -/
def Fated (s : Store) (k : Nat) (t : Turn) : Prop := ∀ s', Onward s s' → ∀ (c : Alias) u, c.key = k → Turns s' c u → u = t

theorem Fated.of_turns (hk : c.key = k) (ht : Turns s c u) : Fated s k u := by
  intro s' ho c' u' hk' ht'
  obtain rfl := Alias.key_inj (hk.trans hk'.symm)
  exact ht'.unique (ht.onward ho)

theorem Fated.of_solid (h : Solid s k) (u : Turn) : Fated s k u :=
  fun _ ho _ _ hk ht => (Solid.no_turn (hk ▸ h.onward ho) ht).elim

theorem Fated.suits (h : Fated s k u) (ho : Onward s r.store) (hf : Suits r x u) (c : Alias) (u' : Turn) (hk : c.key = k)
    (ht : Turns r.store c u') : Suits r x u' := by
  rw [h r.store ho c u' hk ht]
  exact hf

theorem suits_of_solid (h : Solid r.store i.key) (c : Alias) (u : Turn) (hk : c.key = i.key) (ht : Turns r.store c u) :
    Suits r x u :=
  (Solid.no_turn (hk ▸ h) ht).elim

theorem Ended.of_ticks (hl : place a = some l) (h : Ticks R A p q) (hx : R → x.Lodged q.store)
    (hf : ∀ (c : Alias) u, c.key = i.key → Turns q.store c u → Suits q x u) : Ended R A i a x p q :=
  ⟨q,[],h,⟨l,hl,.inl rfl⟩,rfl,hx,hf⟩

/-- What is said before a stand-in is built can be said after it. -/
theorem Ended.standIn (hl : place a = some l) (h : Ticks R A p r) (hs : Says l ds)
    (hg : StandsIn R i.key x {r with reports := ds++r.reports} q)
    (ho : Onward s r.store) (hf : Fated s i.key .lost) : Ended R A i a x p q := by
  obtain ⟨s',rfl,hb,hx,hw⟩ := hg
  have hstill : Still r {r with store := s'} := .of_plain (.of_built hb)
  refine ⟨{r with store := s'},ds,h.trans hstill.ticks,⟨l,hl,hs⟩,rfl,hx,fun c u hk => ?_⟩
  exact hf.suits (ho.trans hstill.onward) (hw c hk) c u hk

theorem Ended.after (h : Ended R A i a x r q) (ht : Ticks R A p r) : Ended R A i a x p q := by
  obtain ⟨r',ds,hticks,h⟩ := h
  exact ⟨r',ds,ht.trans hticks,h⟩

end Ends

theorem standInClass_made (h : Makes (standInClass n l) s c s') : Built s s' ∧ Target.Wrong s' (.objectClass c) ∧
    LodgedClass s' (.definition c) := by
  have hadded := Makes.alloc (t := .classDef) h ⟨rfl,fun _ hf => by simp at hf⟩ (by decide)
  exact ⟨(hadded.built id),⟨_,hadded.row,rfl⟩,_,hadded.row,fun _ hf => by simp at hf⟩

theorem standInObject_made (h : Makes (standInObject n c l) s o s') : Built s s' ∧
    (LodgedClass s' (.definition c) → LodgedObject s' (.definition o)) := by
  have hadded := Makes.alloc (t := .objectDef) h ⟨rfl,rfl⟩ (by decide)
  exact ⟨(hadded.built id),fun hc => ⟨_,hadded.row,nofun,hc⟩⟩

theorem standInSet_made (h : Makes (standInSet n c l) s d s') : Built s s' ∧
    (LodgedClass s' (.definition c) → NamedSet s' d) := by
  have hadded := Makes.alloc (t := .setDef) h ⟨rfl,rfl,.inr ⟨rfl,rfl⟩⟩ (by decide)
  refine ⟨(hadded.built id),fun hc => ⟨⟨_,hadded.row,nofun,hc⟩,fun row hrow he => ?_⟩⟩
  cases hadded.row.symm.trans hrow
  contradiction

theorem StandsIn.refl (hl : R → x.Lodged p.store) (hw : x.Wrong p.store) : StandsIn R k x p p :=
  ⟨p.store,rfl,.refl _,hl,fun _ _ => hw⟩

theorem standsIn_type (h : Gives (pure none) p x q) : StandsIn R k (.type x) p q := by
  obtain ⟨rfl,rfl⟩ := gives_pure.mp h
  exact .refl (fun _ => trivial) rfl

theorem standsIn_value (h : Gives (pure none) p x q) : StandsIn R k (.value x) p q := by
  obtain ⟨rfl,rfl⟩ := gives_pure.mp h
  exact .refl (fun _ => trivial) rfl

theorem standsIn_class (h : Gives (build (standInClass n l)) p c q) : StandsIn R k (.objectClass c) p q := by
  obtain ⟨s,hm,rfl⟩ := gives_build.mp h
  obtain ⟨hb,hw,hl⟩ := standInClass_made hm
  exact ⟨s,rfl,hb,fun _ => hl,fun _ _ => hw⟩

theorem standsIn_object {i : Id .objectRef} (h : Gives (build (standInObject n e l)) p o q)
    (he : R → LodgedClass p.store (.definition e)) : StandsIn R i.key (.object o) p q := by
  obtain ⟨s,hm,rfl⟩ := gives_build.mp h
  obtain ⟨hb,hl⟩ := standInObject_made hm
  refine ⟨s,rfl,hb,fun hR => hl ((he hR).onward (.of_built hb)),fun a ha => ?_⟩
  cases a <;> exact absurd ha (Id.key_ne (by decide) _ i)

theorem standsIn_set {i : Id .setRef} (h : Gives (build (standInSet n e l)) p d q)
    (he : R → LodgedClass p.store (.definition e)) : StandsIn R i.key (.objectSet d) p q := by
  obtain ⟨s,hm,rfl⟩ := gives_build.mp h
  obtain ⟨hb,hl⟩ := standInSet_made hm
  refine ⟨s,rfl,hb,fun hR => hl ((he hR).onward (.of_built hb)),fun a ha => ?_⟩
  cases a <;> exact absurd ha (Id.key_ne (by decide) _ i)

theorem means_of_lookup (ho : Onward s s') (hs : Sane s') (h : s'.lookup? scope r m = some (a,s'')) :
    Means s scope r (a.map Assignment.declared) :=
  fun _ => (lookup_denotes hs h).trans ho.denotes_iff

section Seeking
variable {t : EntityType} {i : Id t} {a : Row t} {p1 p2 : Pass} {τ ε β : Type} {nr : NameRef τ}
  {sel : Declared → Option ε} {absent standIn : Checking β} {follow : ε → Checking β} {g : β → Target} {s : Store}
  {turn : Option Declared → Turn}

section
variable {x : β} (hl : place a = some nr.referenceLocation) (ho : Onward s p1.store) (hp : Tidy R p1)
  (hk : R → nr.scope ∈ p1.store.kept) (hfate : ∀ o, Means s nr.scope nr.reference o → Fated s i.key (turn o))
  (hstand : ∀ p y q, Onward p1.store p.store → Gives standIn p y q → StandsIn R i.key (g y) p q)
  (hfollow : ∀ d e p', sel d = some e → Still p1 p' → Means s nr.scope nr.reference (some d) →
    (R → Declares p'.store d) → Gives (follow e) p' x p2 → Ended R A i a (g x) p' p2)
include hl ho hp hk hfate hstand hfollow

theorem ended_seek (hlost : ∀ d, sel d = none → turn (some d) = .lost)
    (habsent : ∀ p', Still p1 p' → Means s nr.scope nr.reference none → Gives absent p' x p2 → Ended R A i a (g x) p' p2)
    (hg : Gives (seek nr want sel absent standIn follow) p1 x p2) : Ended R A i a (g x) p1 p2 := by
  obtain ⟨o,_,p',hlook,hplain,h⟩ := gives_seek hg
  have hstill : Still p1 p' := .of_plain hplain
  have hmeans : Means s nr.scope nr.reference (o.map Assignment.declared) := means_of_lookup ho hp.sane hlook
  rcases h with ⟨rfl,h⟩ | ⟨b,p'',rfl,hsel,hrep,h⟩ | ⟨b,e,rfl,hsel,h⟩
  · exact (habsent p' hstill hmeans h).after hstill.ticks
  · obtain ⟨ds,hsaid,rfl⟩ := gives_reportKind hrep
    refine .standIn hl hstill.ticks hsaid (hstand _ _ _ hstill.onward h) (ho.trans hstill.onward) ?_
    exact hlost _ hsel ▸ hfate _ hmeans
  · refine (hfollow b.declared e p' hsel hstill hmeans (fun hR => ?_) h).after hstill.ticks
    exact (lookup_declares hp.sane (hk hR) hlook).mono hstill.onward.stays

theorem ended_seekOr (hlost : ∀ o, o.bind sel = none → turn o = .lost)
    (hg : Gives (seekOr nr want sel standIn follow) p1 x p2) : Ended R A i a (g x) p1 p2 := by
  refine ended_seek hl ho hp hk hfate hstand hfollow (fun d => hlost (some d)) (fun p' hstill hmeans h => ?_) hg
  obtain ⟨_,_,hrep,h⟩ := gives_bind.mp h
  obtain ⟨ds,hsaid,rfl⟩ := gives_reportMissing hrep
  exact .standIn hl (.refl p') hsaid (hstand _ _ _ hstill.onward h) (ho.trans hstill.onward)
    (hlost none rfl ▸ hfate _ hmeans)

end

theorem ended_member {u : EntityType} {follow : ε → Checking (Id u)} {standIn : Checking (Id u)} {g : Id u → Target}
    {erroneous : Row u → Bool} {govern : Id u → Checking (Id .classDef)} {z : Id u}
    (hl : place a = some nr.referenceLocation) (hsolid : ∀ s, Solid s i.key)
    (hstand : ∀ p y q, Onward p1.store p.store → Gives standIn p y q → StandsIn R i.key (g y) p q)
    (hfollow : ∀ y q, Gives (follow e) p1 y q → Ticks R A p1 q ∧
      ∀ c q', Gives (govern y) q c q' → Ticks R A q q' ∧ (R → (g y).Lodged q'.store))
    (hg : Gives (member nr expected follow erroneous govern standIn e) p1 z p2) : Ended R A i a (g z) p1 p2 := by
  simp only [member,gives_bind,gives_load] at hg
  obtain ⟨y,_,hy,_,_,⟨_,rfl⟩,hg⟩ := hg
  obtain ⟨hticks,hgov⟩ := hfollow y _ hy
  rcases gives_ite.mp hg with ⟨_,hg⟩ | ⟨_,hg⟩
  · exact .standIn hl hticks (.inl rfl) (hstand _ _ _ hticks.onward hg) (.refl _) (.of_solid (hsolid _) _)
  · simp only [classesDiffer,gives_bind,gives_load,gives_pure] at hg
    obtain ⟨c,_,hc,_,_,⟨_,_,⟨_,rfl⟩,_,_,⟨_,rfl⟩,rfl,rfl⟩,hg⟩ := hg
    obtain ⟨hrest,hlodged⟩ := hgov c _ hc
    have hticks := hticks.trans hrest
    rcases gives_ite.mp hg with ⟨_,hg⟩ | ⟨_,hg⟩
    · obtain ⟨_,_,hrep,hbuild⟩ := gives_bind.mp hg
      obtain ⟨ds,hsaid,rfl⟩ := gives_reportClassMismatch hrep
      exact .standIn hl hticks hsaid (hstand _ _ _ hticks.onward hbuild) (.refl _) (.of_solid (hsolid _) _)
    · obtain ⟨rfl,rfl⟩ := gives_pure.mp hg
      exact .of_ticks hl hticks hlodged (suits_of_solid (hsolid _))

end Seeking

/-! Types and values -/

theorem Pass.Next.of_points (hl : p.chain.links.getLast? = some l) (ha : a.key = l.key)
    (h : Points p.store a b) : p.Next b.key := by
  intro l' hl'
  cases hl.symm.trans hl'
  exact .inr ⟨a,b,h,ha,rfl⟩

theorem Pass.Calm.of_solid (hl : p.chain.links.getLast? = some l) (h : Solid p.store l.key) : p.Calm := by
  intro l' hl'
  cases hl.symm.trans hl'
  exact h

theorem finds_typeWithin (h : Gives (typeWithin n i) p x q) : q.Finds i.key (.type x) :=
  finds_now (t := .typeRef) h.typeWithin_found

theorem scope_kept {s s' : Store} {t : EntityType} {f : Row t → Id .module} {i : Id t} {r : Row t}
    (ho : Onward s s') (hr : s.get? i = some r) (hh : ∃ row, s.get? i = some row ∧ f row ∈ s.kept) : f r ∈ s'.kept := by
  obtain ⟨row,hrow,hk⟩ := hh
  cases hr.symm.trans hrow
  rw [ho.kept]
  exact hk

theorem ended_findType (ih : ∀ j p x q, Gives (typeWithin n j) p x q → Tidy R p → p.Next j.key → (R → HomedType p.store j) →
    Ticks R (fun _ => True) p q) (hr : p.store.get? i = some r) (ho : Onward p.store p1.store) (hp : Tidy R p1)
    (hh : R → HomedType p.store i) (hlast : p1.chain.links.getLast? = some (linkOf i r))
    (hg : Gives (findType (typeWithin n) r) p1 x p2) : Ended R (fun _ => True) i (t := .typeRef) r (.type x) p1 p2 := by
  rw [findType_eq] at hg
  have hkept : R → r.scope ∈ p1.store.kept := fun hR =>
    scope_kept (t := .typeRef) (f := fun r => NameRef.scope r) ho hr (hh hR)
  refine ended_seek (g := .type) rfl ho hp hkept (fun o hm => .of_turns (c := .type i) rfl (.type hr hm))
    (fun _ _ _ _ => standsIn_type) (fun d next p' hd hstill hmeans hdecl hg => ?_) (fun d hd => ?_)
    (fun p' hstill hmeans hg => ?_) hg
  · cases d <;> cases hd
    have hpoints : Points p.store (.type i) (.type next) := .type hr hmeans
    have hon := ho.trans hstill.onward
    have htidy := hstill.tidy hp
    have hnext : p'.Next next.key :=
      .of_points (a := .type i) (b := .type next) (hstill.links ▸ hlast) rfl (hpoints.onward hon)
    have hrest := ih next p' x p2 hg htidy hnext fun hR => (hdecl hR).homed htidy.sane
    exact .of_ticks rfl hrest (fun _ => trivial)
      ((Fated.of_turns (c := .type i) rfl hpoints).suits (hon.trans hrest.onward) (finds_typeWithin hg))
  · cases d <;> first | rfl | cases hd
  · have hfate : Fated p.store i.key _ := .of_turns (c := .type i) rfl (.type hr hmeans)
    simp only [missingType] at hg
    split at hg
    · rename_i b hq hb
      obtain ⟨rfl,rfl⟩ := gives_pure.mp hg
      refine .of_ticks rfl (.refl _) (fun _ => trivial) (hfate.suits (ho.trans hstill.onward) ?_)
      simp only [typeTurn,hq,hb]
      rfl
    · rename_i hno
      obtain ⟨_,_,hrep,hg⟩ := gives_bind.mp hg
      obtain ⟨ds,hsaid,rfl⟩ := gives_reportMissing hrep
      have hlost : typeTurn r.reference none = .lost := by simp only [typeTurn]
      exact .standIn rfl (.refl p') hsaid (standsIn_type hg) (ho.trans hstill.onward) (hlost ▸ hfate)

theorem housed_of_key {a : Alias} (h : Housed s a) (b : Alias) (hb : b.key = a.key) : Housed s b := Alias.key_inj hb ▸ h

theorem ticks_typeWithin (hg : Gives (typeWithin n i) p x q) (hp : Tidy R p) (hn : p.Next i.key)
    (hh : R → HomedType p.store i) : Ticks R (fun _ => True) p q := by
  induction n generalizing i p x q with
  | zero => exact absurd hg gives_throw
  | succ n ih =>
    rw [typeWithin_succ] at hg
    exact ticks_once hg hp hn trivial (fun hR => housed_of_key (a := .type i) (hh hR))
      (fun _ r _ => .ite (keeping.findType (keeping.typeWithin n) ⟨⟩) (.pure _))
      (fun r p1 p2 hr ho hp1 => ended_findType (fun j p x q => ih) hr ho hp1 hh) fun r p1 p2 => standsIn_type

theorem finds_valueWithin (h : Gives (valueWithin n (.reference i)) p x q) : q.Finds i.key (.value x) :=
  finds_now (t := .valueRef) h.valueWithin_found

theorem ended_findValue (ih : ∀ v p x q, Gives (valueWithin n v) p x q → Tidy R p → (∀ j, v = .reference j → p.Next j.key) →
    (R → HomedValue p.store v) → Ticks R (fun _ => True) p q) (hr : p.store.get? i = some r) (ho : Onward p.store p1.store)
    (hp : Tidy R p1) (hh : R → HomedValue p.store (.reference i)) (hlast : p1.chain.links.getLast? = some (linkOf i r))
    (hg : Gives (findValue (valueWithin n) r) p1 x p2) : Ended R (fun _ => True) i (t := .valueRef) r (.value x) p1 p2 := by
  rw [findValue_eq] at hg
  have hkept : R → r.scope ∈ p1.store.kept := fun hR =>
    scope_kept (t := .valueRef) (f := fun r => NameRef.scope r) ho hr (hh hR)
  refine ended_seekOr (g := .value) rfl ho hp hkept (fun o hm => .of_turns (c := .value i) rfl (.value hr hm))
    (fun _ _ _ _ => standsIn_value) (fun d v p' hd hstill hmeans hdecl hg => ?_) (fun o hd => ?_) hg
  · cases d <;> cases hd
    have hon := ho.trans hstill.onward
    have hfate : Fated p.store i.key _ := .of_turns (c := .value i) rfl (.value hr hmeans)
    have htidy := hstill.tidy hp
    cases v with
    | reference next =>
      have hpoints : Points p.store (.value i) (.value next) := .value hr hmeans
      have hnext : ∀ j, ValueExpr.reference next = .reference j → p'.Next j.key := by
        rintro _ ⟨⟩
        exact .of_points (a := .value i) (b := .value next) (hstill.links ▸ hlast) rfl (hpoints.onward hon)
      have hrest := ih (.reference next) p' x p2 hg htidy hnext fun hR => ((hdecl hR).homed htidy.sane).2
      exact .of_ticks rfl hrest (fun _ => trivial) (hfate.suits (hon.trans hrest.onward) (finds_valueWithin hg))
    | literal name l v =>
      obtain ⟨rfl,rfl⟩ := gives_valueWithin_literal.mp hg
      exact .of_ticks rfl (.refl _) (fun _ => trivial) (hfate.suits hon rfl)
  · rcases o with _ | d
    · rfl
    · cases d <;> first | rfl | cases hd

theorem ticks_valueWithin (hg : Gives (valueWithin n v) p x q) (hp : Tidy R p) (hn : ∀ i, v = .reference i → p.Next i.key)
    (hh : R → HomedValue p.store v) : Ticks R (fun _ => True) p q := by
  induction n generalizing v p x q with
  | zero =>
    cases v with
    | literal => exact (gives_valueWithin_literal.mp hg).2 ▸ .refl _
    | reference => exact absurd hg gives_throw
  | succ n ih =>
    cases v with
    | literal => exact (gives_valueWithin_literal.mp hg).2 ▸ .refl _
    | reference i =>
      rw [valueWithin_succ] at hg
      exact ticks_once hg hp (hn i rfl) trivial (fun hR => housed_of_key (a := .value i) (hh hR))
        (fun _ r _ => .ite (keeping.findValue (keeping.valueWithin n) ⟨⟩) (.pure _))
        (fun r p1 p2 hr ho hp1 => ended_findValue (fun v p x q => ih) hr ho hp1 hh) fun r p1 p2 => standsIn_value

/-! Classes and objects -/

def OfClass (s : Store) (e : ClassExpr) (k : Nat) : Prop :=
  (∃ i : Id .classRef, i.key = k) ∨ (∃ i : Id .objectRef, i.key = k) ∧ Bent s e

def OfObject (k : Nat) : Prop := (∃ i : Id .classRef, i.key = k) ∨ ∃ i : Id .objectRef, i.key = k

/-- Finding a class takes steps wherever the class may be called for. -/
def ClassTicks (R : Prop) (n : Nat) : Prop := ∀ e p c q, Gives (classWithin n e) p c q → Tidy R p →
  (∀ j, e = .reference j → p.Next j.key) → (R → LodgedClass p.store e) → Ticks R (OfClass p.store e) p q

def ObjectTicks (R : Prop) (n : Nat) : Prop := ∀ o p d q, Gives (objectWithin n o) p d q → Tidy R p → p.Calm →
  (R → LodgedObject p.store o) → Ticks R OfObject p q

section Objects
variable {e : ClassExpr}

theorem OfClass.ofObject (h : OfClass s e k) : OfObject k := h.imp_right And.left

theorem OfObject.ofClass (hb : Bent s e) (h : OfObject k) : OfClass s e k :=
  h.imp_right fun h => ⟨h,hb⟩

theorem finds_classWithin (h : Gives (classWithin n (.reference i)) p c q) : q.Finds i.key (.objectClass c) :=
  finds_now (t := .classRef) (follows_classWithin n _ _ _ _ h)

theorem finds_objectWithin (h : Gives (objectWithin n (.reference i)) p o q) : q.Finds i.key (.object o) :=
  finds_now (t := .objectRef) h.objectWithin_found

theorem lodged_classWithin (hg : Gives (classWithin n e) p c q) (hq : Tidy R q) (hl : R → LodgedClass p.store e)
    (hR : R) : LodgedClass q.store (.definition c) := by
  cases e with
  | definition d =>
    obtain ⟨rfl,rfl⟩ := gives_classWithin_definition.mp hg
    exact hl hR
  | reference i => exact hq.targets hR _ _ (finds_classWithin hg)

theorem lodged_objectWithin (hg : Gives (objectWithin n x) p o q) (hq : Tidy R q) (hl : R → LodgedObject p.store x)
    (hR : R) : LodgedObject q.store (.definition o) := by
  cases x with
  | definition d =>
    obtain ⟨rfl,rfl⟩ := gives_objectWithin_definition.mp hg
    exact hl hR
  | reference i => exact hq.targets hR _ _ (finds_objectWithin hg)

/-- Following a class takes steps of the machine, and leads to a class of the modules in use. -/
def FollowsClass (R : Prop) (A : Nat → Prop) (f : ClassExpr → Checking (Id .classDef)) : Prop :=
  ∀ e p c q, Gives (f e) p c q → Tidy R p → p.Calm → (R → LodgedClass p.store e) →
    Ticks R A p q ∧ (R → LodgedClass q.store (.definition c))

theorem ClassTicks.follows (h : ClassTicks R n) : FollowsClass R OfObject (classWithin n) := by
  intro e p c q hg hp hc hl
  have hticks := h e p c q hg hp (fun j _ => hc.next j.key) hl
  exact ⟨hticks.mono fun _ => OfClass.ofObject,lodged_classWithin hg (hticks.tidy hp) hl⟩

theorem ticks_governObject (hf : FollowsClass R A f) (hg : Gives (governObject f i) p c q) (hp : Tidy R p) (hc : p.Calm)
    (hl : R → LodgedObject p.store (.definition i)) : Ticks R A p q ∧ (R → LodgedClass q.store (.definition c)) := by
  simp only [governObject,gives_bind,gives_load,gives_save,gives_pure] at hg
  obtain ⟨o,p0,⟨ho,hp0⟩,d,p1,hd,o',_,⟨ho',rfl⟩,_,_,rfl,rfl,rfl⟩ := hg
  subst hp0
  have hgov : R → LodgedClass p0.store o.governor := fun hR => by
    obtain ⟨row,hrow,_,hgov⟩ := hl hR
    cases ho.symm.trans hrow
    exact hgov
  obtain ⟨hticks,hlodged⟩ := hf _ _ _ _ hd hp hc hgov
  have hput := Still.put (t := .objectDef) (b := {o' with objectClass := some c}) ho' ⟨rfl,rfl⟩ trivial (by decide)
  exact ⟨hticks.trans hput.ticks,fun hR => (hlodged hR).onward hput.onward⟩

section
variable (hcs : ClassTicks R n) (hos : ObjectTicks R n)
include hcs hos

/-- The class of an object depends on how the object is found. -/
theorem ended_classOfObject (hr : p.store.get? i = some r)
    (hof : r.ofObject = true) (ho : Onward p.store p1.store) (hp : Tidy R p1) (hx : R → LodgedObject p1.store o)
    (hlast : p1.chain.links.getLast? = some (linkOf i r))
    (hg : Gives (do governObject (classWithin n) (← objectWithin n o)) p1 c p2) :
    Ended R (OfClass p.store (.reference i)) i (t := .classRef) r (.objectClass c) p1 p2 := by
  have hsolid : Solid p.store i.key := .classOf hr hof
  have hbent : Bent p.store (.reference i) := ⟨i,rfl,i,r,.refl,hr,hof⟩
  have hcalm : p1.Calm := .of_solid hlast (hsolid.onward ho)
  obtain ⟨o,p3,hobj,hgov⟩ := gives_bind.mp hg
  have h1 : Ticks R OfObject p1 p3 := hos _ _ _ _ hobj hp hcalm hx
  have hl : p3.chain.links = p1.chain.links := ((keeping.within n).2 _ _ _ _ hobj).restored
  obtain ⟨h2,hlodged⟩ := ticks_governObject hcs.follows hgov (h1.tidy hp) (hcalm.onward h1.onward hl)
    (lodged_objectWithin hobj (h1.tidy hp) hx)
  exact .of_ticks rfl ((h1.trans h2).mono fun k => OfObject.ofClass hbent) hlodged
    (suits_of_solid (hsolid.onward (ho.trans (h1.trans h2).onward)))

theorem ended_findClass (hs : Sane p.store) (hr : p.store.get? i = some r)
    (ho : Onward p.store p1.store) (hp : Tidy R p1) (hh : R → LodgedClass p.store (.reference i))
    (hlast : p1.chain.links.getLast? = some (linkOf i r)) (hg : Gives (findClass (classWithin n) (objectWithin n) r) p1 c
    p2) : Ended R (OfClass p.store (.reference i)) i (t := .classRef) r (.objectClass c) p1 p2 := by
  rw [findClass_eq] at hg
  have hkept : R → r.scope ∈ p1.store.kept := fun hR =>
    scope_kept (t := .classRef) (f := fun r => ClassRef.toNameRef r |>.scope) ho hr (hh hR)
  rcases gives_ite.mp hg with ⟨hof,hg⟩ | ⟨hof,hg⟩
  · refine ended_seekOr (g := .objectClass) rfl ho hp hkept (fun _ _ => .of_solid (.classOf hr hof) .lost)
      (fun _ _ _ _ => standsIn_class) (fun d o p' hd hstill _ hdecl hg => ?_) (fun _ _ => rfl) hg
    cases d <;> cases hd
    have htidy := hstill.tidy hp
    exact ended_classOfObject hcs hos hr hof (ho.trans hstill.onward) htidy
      (fun hR => HomedObject.lodged htidy.sane ((hdecl hR).homed htidy.sane)) (hstill.links ▸ hlast) hg
  have hof : r.ofObject = false := by simpa using hof
  refine ended_seekOr (g := .objectClass) rfl ho hp hkept
    (fun o hm => .of_turns (c := .objectClass i) rfl (.objectClass hr hof hm))
    (fun _ _ _ _ => standsIn_class) (fun d e p' hd hstill hmeans hdecl hg => ?_) (fun o hd => ?_) hg
  · cases d <;> cases hd
    have hon := ho.trans hstill.onward
    have hfate : Fated p.store i.key _ := .of_turns (c := .objectClass i) rfl (.objectClass hr hof hmeans)
    have htidy := hstill.tidy hp
    have hl : R → LodgedClass p'.store e := fun hR => HomedClass.lodged htidy.sane ((hdecl hR).homed htidy.sane)
    cases e with
    | reference next =>
      have hpoints : Points p.store (.objectClass i) (.objectClass next) := .objectClass hr hof hmeans
      have hnext : ∀ j, ClassExpr.reference next = .reference j → p'.Next j.key := by
        rintro _ ⟨⟩
        exact .of_points (a := .objectClass i) (b := .objectClass next) (hstill.links ▸ hlast) rfl (hpoints.onward hon)
      have hrest := hcs (.reference next) p' c p2 hg htidy hnext hl
      have hA : ∀ k, OfClass p'.store (.reference next) k → OfClass p.store (.reference i) k := by
        refine fun k hk => hk.imp_right fun ⟨hobj,j,hj,hbends⟩ => ⟨hobj,i,rfl,?_⟩
        injection hj with hj
        subst hj
        exact .of_onward hs hon ⟨r,hr⟩ (.back (hpoints.onward hon) hbends)
      exact .of_ticks rfl (hrest.mono hA) (lodged_classWithin hg (hrest.tidy htidy) hl)
        (hfate.suits (hon.trans hrest.onward) (finds_classWithin hg))
    | definition d =>
      obtain ⟨rfl,rfl⟩ := gives_classWithin_definition.mp hg
      exact .of_ticks rfl (.refl _) hl (hfate.suits hon rfl)
  · rcases o with _ | d
    · rfl
    · cases d <;> first | rfl | cases hd

theorem ended_findObject (hp : Tidy R p1) (hk : R → r.scope ∈ p1.store.kept)
    (he : R → LodgedClass p1.store (.definition expected)) (hlast : p1.chain.links.getLast? = some (linkOf i r))
    (hg : Gives (findObject (classWithin n) (objectWithin n) r expected) p1 x p2) :
    Ended R OfObject i (t := .objectRef) r (.object x) p1 p2 := by
  rw [findObject_eq] at hg
  have hstand : ∀ p y q, Onward p1.store p.store → Gives (build (standInObject r.name expected r.location)) p y q →
      StandsIn R i.key (.object y) p q := fun _ _ _ ho h => standsIn_object h fun hR => (he hR).onward ho
  refine ended_seekOr (g := .object) rfl (.refl _) hp hk (fun _ _ => .of_solid (.object i) .lost) hstand
    (fun d o p' hd hstill _ hdecl hg => ?_) (fun _ _ => rfl) hg
  cases d <;> cases hd
  have htidy := hstill.tidy hp
  have hcalm : p'.Calm := .of_solid (hstill.links ▸ hlast) (.object i)
  have ho : R → LodgedObject p'.store o := fun hR => HomedObject.lodged htidy.sane ((hdecl hR).homed htidy.sane)
  refine ended_member (g := .object) rfl (fun _ => .object i) (fun p y q h => hstand p y q (hstill.onward.trans h))
    (fun y q hy => ?_) hg
  have h1 := hos _ _ _ _ hy htidy hcalm ho
  have hl := ((keeping.within n).2 _ _ _ _ hy).restored
  have hy' := lodged_objectWithin hy (h1.tidy htidy) ho
  refine ⟨h1,fun c q' hc => ?_⟩
  have h2 := (ticks_governObject hcs.follows hc (h1.tidy htidy) (hcalm.onward h1.onward hl) hy').1
  exact ⟨h2,fun hR => (hy' hR).onward h2.onward⟩

theorem ticks_class : ClassTicks R (n+1) := by
  intro e p c q hg hp hn hl
  cases e with
  | definition d => exact (gives_classWithin_definition.mp hg).2 ▸ .refl _
  | reference i =>
    rw [classWithin_succ] at hg
    exact ticks_once hg hp (hn i rfl) (.inl ⟨i,rfl⟩) (fun hR => housed_of_key (a := .objectClass i) (hl hR))
      (fun _ r _ => .ite (keeping.findClass (keeping.within n).1 (follows_classWithin n) (keeping.within n).2 ⟨⟩)
        keeps_standInClass)
      (fun r p1 p2 hr ho hp1 => ended_findClass hcs hos hp.sane hr ho hp1 hl) fun r p1 p2 => standsIn_class

end

theorem unlisted_after {i : Id .objectRef} (hcs : ClassTicks R n) (hp : Tidy R p) (hc : p.Calm)
    (hl : R → LodgedClass p.store e) (hopen : ∀ y, ¬ p.Finds i.key y) (hg : Gives (classWithin n e) p c q) :
    q.Unlisted i.key := by
  refine (hcs e p c q hg hp (fun j _ => hc.next j.key) hl).unlisted hp (fun d => ?_) hopen
  rintro (⟨j,hj⟩ | ⟨⟨j,hj⟩,_⟩) <;> exact Id.key_ne (by decide) j d hj

theorem open_after {i : Id .objectRef} (hcs : ClassTicks R n) (hp : Tidy R p) (hc : p.Calm)
    (hl : R → LodgedClass p.store r.governor) (hopen : ∀ y, ¬ p.Finds i.key y)
    (hg : Gives (classWithin n r.governor) p c q) : (∀ y, ¬ q.Finds i.key y) ∨ Crooked (t := .objectRef) q.store r := by
  have hticks := hcs r.governor p c q hg hp (fun j _ => hc.next j.key) hl
  by_cases hb : Bent p.store r.governor
  · exact .inr (hb.onward hticks.onward)
  · refine .inl fun y hy => hopen y ((hticks.finds_iff ?_).mp hy)
    rintro (⟨j,hj⟩ | ⟨_,hbent⟩)
    · exact Id.key_ne (by decide) j i hj
    · exact hb hbent

theorem ticks_object (hcs : ClassTicks R n) (hos : ObjectTicks R n) : ObjectTicks R (n+1) := by
  intro o p d q hg hp hc hl
  cases o with
  | definition d => exact (gives_objectWithin_definition.mp hg).2 ▸ .refl _
  | reference i =>
    rw [objectWithin_succ] at hg
    have row : ∀ r, p.store.get? i = some r → R → r.scope ∈ p.store.kept ∧ LodgedClass p.store r.governor := by
      intro r hr hR
      obtain ⟨row,hrow,hrest⟩ := hl hR
      cases hr.symm.trans hrow
      exact hrest
    refine .once (P := fun c s => R → LodgedClass s (.definition c)) hg hp (hc.next _) (.inr ⟨i,rfl⟩) ?_
      (fun r => (keeping.within n).1 r.governor) (fun _ r e => .ite
        (keeping.findObject (keeping.within n).1 (follows_classWithin n) (keeping.within n).2 ⟨⟩ e) keeps_standInObject)
      ?_ ?_ ?_
    · intro _ a ha
      cases a <;> exact absurd ha (Id.key_ne (by decide) _ i)
    · intro r e p1 hr hopen hb
      have hp' : Tidy R p.marked := hp.of_links rfl
      have hgov : R → LodgedClass p.store r.governor := fun hR => (row r hr hR).2
      obtain ⟨hticks,hlodged⟩ := hcs.follows _ p.marked _ _ hb hp' hc hgov
      exact ⟨hticks,open_after (p := p.marked) hcs hp' hc hgov hopen hb,
        fun _ _ => unlisted_after (p := p.marked) hcs hp' hc hgov hopen hb,hlodged⟩
    · intro r e p1 p2 hr ho hp1 he hlast hf
      exact ended_findObject hcs hos hp1 (fun hR => ho.kept ▸ (row r hr hR).1) he hlast hf
    · exact fun r e p1 p2 he hm => standsIn_object hm he

theorem ticks_within (R : Prop) (n : Nat) : ClassTicks R n ∧ ObjectTicks R n := by
  induction n with
  | zero =>
    constructor
    · intro e p c q hg hp hn hl
      cases e with
      | definition d => exact (gives_classWithin_definition.mp hg).2 ▸ .refl _
      | reference => exact absurd hg gives_throw
    · intro o p d q hg hp hc hl
      cases o with
      | definition d => exact (gives_objectWithin_definition.mp hg).2 ▸ .refl _
      | reference => exact absurd hg gives_throw
  | succ n ih => exact ⟨ticks_class ih.1 ih.2,ticks_object ih.1 ih.2⟩

end Objects

/-! Steps between calm passes -/

def Any (_ : Nat) : Prop := True

/-- Anything may be called for, and if `F` holds, nothing is under resolution. -/
structure Pass.Free (F : Prop) (p : Pass) : Prop where
  calm : p.Calm
  idle : F → p.chain.links = []

/-- Wherever a step comes to an end in a store that came from `s`, it took steps of the machine, left the chain as
it was, and gives what `Q` says. -/
def Goes {α : Type} (F : Prop) (s : Store) (m : Checking α) (Q : α → Store → Prop) : Prop :=
  ∀ p a q, Gives m p a q → Onward s p.store → Tidy True p → p.Free F →
    Ticks True Any p q ∧ q.chain.links = p.chain.links ∧ Q a q.store

section Goes
variable {α β : Type} {F : Prop} {s : Store} {Q : α → Store → Prop} {Q' : β → Store → Prop}

theorem Pass.Free.onward (h : p.Free F) (ho : Onward p.store q.store) (hl : q.chain.links = p.chain.links) : q.Free F :=
  ⟨h.calm.onward ho hl,fun hF => hl.trans (h.idle hF)⟩

theorem Pass.Calm.free (h : p.Calm) : p.Free False := ⟨h,False.elim⟩

theorem Goes.calm (h : Goes F s m Q) (hg : Gives m p a q) (ho : Onward s p.store) (hp : Tidy True p)
    (hc : p.Free F) : Ticks True Any p q ∧ Onward s q.store ∧ Tidy True q ∧ q.Free F ∧ Q a q.store := by
  obtain ⟨hticks,hl,hQ⟩ := h p a q hg ho hp hc
  exact ⟨hticks,ho.trans hticks.onward,hticks.tidy hp,hc.onward hticks.onward hl,hQ⟩

theorem Goes.imp {Q' : α → Store → Prop} (h : Goes F s m Q) (hQ : ∀ a s', Onward s s' → Q a s' → Q' a s') : Goes F s m Q' := by
  intro p a q hg ho hp hc
  obtain ⟨hticks,hl,hq⟩ := h p a q hg ho hp hc
  exact ⟨hticks,hl,hQ a _ (ho.trans hticks.onward) hq⟩

theorem Goes.whatever (h : Goes F s m Q) : Goes F s m Whatever := h.imp fun _ _ _ _ => trivial

theorem Goes.pure (h : ∀ s', Onward s s' → Q a s') : Goes F s (pure a) Q := by
  intro p b q hg ho _ _
  obtain ⟨rfl,rfl⟩ := gives_pure.mp hg
  exact ⟨.refl q,rfl,h _ ho⟩

theorem Goes.done (a : α) : Goes F s (Pure.pure a) Whatever := .pure fun _ _ => trivial

theorem Goes.throw (e : Stuck) : Goes F s (throw e : Checking α) Q := fun _ _ _ h => absurd h gives_throw

theorem Goes.bind (hm : Goes F s m Q) (hf : ∀ a s', Onward s s' → Sane s' → Q a s' → Goes F s' (f a) Q') :
    Goes F s (m >>= f) Q' := by
  intro p b r h ho hp hc
  obtain ⟨a,q,h,k⟩ := gives_bind.mp h
  obtain ⟨hticks,hl,hQ⟩ := hm p a q h ho hp hc
  have hq := hticks.tidy hp
  obtain ⟨hticks',hl',hQ'⟩ := hf a q.store (ho.trans hticks.onward) hq.sane hQ q b r k (.refl _) hq
    (hc.onward hticks.onward hl)
  exact ⟨hticks.trans hticks',hl'.trans hl,hQ'⟩

theorem Goes.andThen (hm : Goes F s m Q) (hf : ∀ a s', Onward s s' → Goes F s' (f a) Q') : Goes F s (m >>= f) Q' :=
  hm.bind fun a s' ho _ _ => hf a s' ho

theorem Goes.ite [Decidable c] (hm : c → Goes F s m Q) (hn : ¬ c → Goes F s n Q) : Goes F s (if c then m else n) Q := by
  by_cases h : c
  · simpa only [h,if_true] using hm h
  · simpa only [h,if_false] using hn h

theorem Goes.forM {l : List α} (hf : ∀ x ∈ l, ∀ s', Onward s s' → Goes F s' (f x) Whatever) : Goes F s (l.forM f) Whatever := by
  induction l generalizing s with
  | nil => exact .done ()
  | cons x l ih =>
    refine (hf x (by simp) s (.refl s)).andThen fun _ s' ho => ih fun y hy s'' ho' => ?_
    exact hf y (by simp [hy]) s'' (ho.trans ho')

theorem Goes.of_still (h : ∀ p a q, Gives m p a q → Still p q ∧ Q a q.store) : Goes F s m Q := by
  intro p a q hg _ _ _
  obtain ⟨hstill,hQ⟩ := h p a q hg
  exact ⟨hstill.ticks,hstill.links,hQ⟩

theorem Goes.restoringChain (hk : Keeps False m) (h : Goes F s m Q) : Goes F s (restoringChain m) Q := by
  intro p a q hg ho hp hc
  have hl := (hk.restoringChain p a q hg).restored
  obtain ⟨r,c,hm,hrew,rfl⟩ := gives_restoringChain.mp hg
  have h0 := Still.marked p
  obtain ⟨h1,hlinks,hQ⟩ := h p.marked a r hm ho (hp.of_links rfl)
    ⟨hc.calm,hc.idle⟩
  obtain ⟨hcy,hre⟩ := rewind_rest hrew
  exact ⟨(h0.ticks.trans h1).trans (Still.marks c (Eq.trans hl hlinks.symm) hcy hre).ticks,hl,hQ⟩

theorem goes_load {t : EntityType} {i : Id t} : Goes F s (load i : Checking (Row t)) fun a s' => s'.get? i = some a :=
  .of_still fun p _ _ h => by
    obtain ⟨ha,rfl⟩ := gives_load.mp h
    exact ⟨.refl _,ha⟩

theorem goes_budget : Goes F s budget Whatever :=
  .of_still fun p _ _ h => ⟨(gives_budget.mp h).2 ▸ .refl p,trivial⟩

theorem not_told_ordinary (hf : Fault.ordinary f) : ¬ Told (.error ⟨f,l,o⟩) := by
  rintro ⟨_,⟨⟩,h⟩
  cases f <;> simp_all [Fault.ordinary,Fault.ofName,Fault.ofCycle]

theorem still_reportError (hf : Fault.ordinary f) (h : Gives (reportError f l o) p u q) : Still p q :=
  gives_reportError.mp h ▸ .report (not_told_ordinary hf)

theorem still_reportWarning (h : Gives (reportWarning c l) p u q) : Still p q := by
  refine gives_reportWarning.mp h ▸ .report ?_
  rintro ⟨e,he,_⟩
  cases he

theorem goes_reportError (hf : Fault.ordinary f) : Goes F s (reportError f l o) Whatever :=
  .of_still fun _ _ _ h => ⟨still_reportError hf h,trivial⟩

theorem goes_reportWarning : Goes F s (reportWarning c l) Whatever :=
  .of_still fun _ _ _ h => ⟨still_reportWarning h,trivial⟩

theorem goes_resolveType (h : HomedType s i) : Goes F s (resolveType i) Whatever := by
  refine goes_budget.andThen fun n s' ho p a q hg ho' hp hc => ?_
  refine ⟨ticks_typeWithin hg hp (hc.calm.next _) fun _ => ?_,(keeping.typeWithin n i _ _ _ hg).restored,trivial⟩
  exact HomedType.mono (ho.trans ho').stays h

theorem goes_resolveValue (h : HomedValue s v) : Goes F s (resolveValue v) Whatever := by
  refine goes_budget.andThen fun n s' ho p a q hg ho' hp hc => ?_
  refine ⟨ticks_valueWithin hg hp (fun i _ => hc.calm.next _) fun _ => ?_,
    (keeping.valueWithin n v _ _ _ hg).restored,trivial⟩
  exact HomedValue.mono (ho.trans ho').stays h

theorem followsClass_resolveClass : FollowsClass True OfObject resolveClass := by
  intro e p c q hg hp hc hl
  exact (ticks_within True _).1.follows e _ c q hg.within hp hc hl

theorem goes_resolveClass (h : LodgedClass s e) : Goes F s (resolveClass e) fun c s' => LodgedClass s' (.definition c) := by
  intro p c q hg ho hp hc
  obtain ⟨hticks,hl⟩ := followsClass_resolveClass e p c q hg hp hc.calm fun _ => h.onward ho
  exact ⟨hticks.mono fun _ _ => trivial,(keeps_resolveClass (R := False) e _ _ _ hg).restored,hl trivial⟩

theorem goes_resolveObject (h : LodgedObject s o) : Goes F s (resolveObject o) fun x s' => LodgedObject s' (.definition x) := by
  refine goes_budget.andThen fun n s' ho p a q hg ho' hp hc => ?_
  have hl : True → LodgedObject p.store o := fun _ => h.onward (ho.trans ho')
  have hticks := (ticks_within True n).2 o p a q hg hp hc.calm hl
  exact ⟨hticks.mono fun _ _ => trivial,((keeping.within n).2 o _ _ _ hg).restored,
    lodged_objectWithin hg (hticks.tidy hp) hl trivial⟩

theorem goes_governObject (h : LodgedObject s (.definition i)) :
    Goes F s (governObject resolveClass i) fun c s' => LodgedClass s' (.definition c) := by
  intro p c q hg ho hp hc
  obtain ⟨hticks,hl⟩ := ticks_governObject followsClass_resolveClass hg hp hc.calm fun _ => h.onward ho
  have hk := keeps_governObject (R := False) keeps_resolveClass follows_resolveClass i p c q hg
  exact ⟨hticks.mono fun _ _ => trivial,hk.restored,hl trivial⟩

end Goes

/-! Object sets -/

section Sets
variable {F : Prop} {s : Store}

theorem goes_governSet (h : LodgedSet s (.definition i)) :
    Goes F s (governSet i) fun c s' => LodgedClass s' (.definition c) := by
  intro p c r hg ho hp hc
  have hk := keeps_governSet (R := False) i p c r hg
  simp only [governSet,gives_bind,gives_load,gives_save,gives_pure] at hg
  obtain ⟨d,p0,⟨hd,hp0⟩,e,q,he,d',_,⟨hd',rfl⟩,_,_,rfl,rfl,rfl⟩ := hg
  subst hp0
  obtain ⟨row,hrow,_,hgov⟩ := h.onward ho
  cases hd.symm.trans hrow
  obtain ⟨hticks,_,hl⟩ := goes_resolveClass hgov _ _ _ he (.refl _) hp hc
  have hput := Still.put (t := .setDef) (b := {d' with setClass := some c}) hd' ⟨rfl,rfl⟩ rfl (by decide)
  exact ⟨hticks.trans hput.ticks,hk.restored,hl.onward hput.onward⟩

theorem finds_setWithin (h : Gives (setWithin n (.reference i)) p d q) : q.Finds i.key (.objectSet d) :=
  finds_now (t := .setRef) h.setWithin_found

theorem named_of_setWithin (h : Gives (setWithin n e) p d q) (hq : Tidy True q) (ho : Onward p.store q.store)
    (he : Declares p.store (.objectSet e)) : NamedSet q.store d := by
  cases e with
  | definition c =>
    obtain ⟨rfl,_⟩ := gives_setWithin_definition.mp h
    have hdecl := he.mono ho.stays
    exact ⟨HomedSet.lodged (d := .definition d) hq.sane (hdecl.homed hq.sane),fun _ _ _ => hdecl⟩
  | reference i => exact hq.targets trivial _ _ (finds_setWithin h)

theorem ended_findSet (ih : ∀ {s : Store} {e : SetExpr}, LodgedSet s e →
    Goes False s (setWithin n e) fun d s' => LodgedSet s' (.definition d)) (hp : Tidy True p1)
    (hk : r.scope ∈ p1.store.kept) (he : LodgedClass p1.store (.definition expected))
    (hlast : p1.chain.links.getLast? = some (linkOf i r)) (hg : Gives (findSet (setWithin n) r expected) p1 x p2) :
    Ended True Any i (t := .setRef) r (.objectSet x) p1 p2 := by
  rw [findSet_eq] at hg
  have hstand : ∀ p y q, Onward p1.store p.store → Gives (build (standInSet r.name expected r.location)) p y q →
      StandsIn True i.key (.objectSet y) p q := fun _ _ _ ho h => standsIn_set h fun _ => he.onward ho
  refine ended_seekOr (g := .objectSet) rfl (.refl _) hp (fun _ => hk) (fun _ _ => .of_solid (.set i) .lost) hstand
    (fun d e p' hd hstill _ hdecl hg => ?_) (fun _ _ => rfl) hg
  cases d <;> cases hd
  have htidy := hstill.tidy hp
  have hcalm : p'.Free False := (Pass.Calm.of_solid (hstill.links ▸ hlast) (.set i)).free
  refine ended_member (g := .objectSet) rfl (fun _ => .set i) (fun p y q h => hstand p y q (hstill.onward.trans h))
    (fun y q hy => ?_) hg
  have hlodged := HomedSet.lodged htidy.sane ((hdecl trivial).homed htidy.sane)
  obtain ⟨h1,_,htidy3,hcalm3,hy'⟩ := (ih hlodged).calm hy (.refl _) htidy hcalm
  have hnamed := named_of_setWithin hy htidy3 h1.onward (hdecl trivial)
  refine ⟨h1,fun c q' hc => ?_⟩
  have h2 := ((goes_governSet hy').calm hc (.refl _) htidy3 hcalm3).1
  exact ⟨h2,fun _ => hnamed.onward h2.onward⟩

theorem goes_setWithin (n : Nat) (h : LodgedSet s e) : Goes F s (setWithin n e) fun d s' => LodgedSet s' (.definition d) := by
  induction n generalizing F s e with
  | zero =>
    cases e with
    | definition => exact .pure fun _ ho => h.onward ho
    | reference => exact .throw _
  | succ n ih =>
    cases e with
    | definition => exact .pure fun _ ho => h.onward ho
    | reference i =>
      intro p d q hg ho hp hc
      have hl := (keeping.setWithin (n+1) (.reference i) p d q hg).restored
      rw [setWithin_succ] at hg
      obtain ⟨row,hrow,hk,hgov⟩ := h.onward ho
      have hticks : Ticks True Any p q := by
        refine .once (P := fun c s => LodgedClass s (.definition c)) hg hp (hc.calm.next _) trivial ?_
          (fun r => keeps_resolveClass r.governor)
          (fun _ r e => .ite (keeping.findSet (keeping.setWithin n) ⟨⟩ e) keeps_standInSet) ?_ ?_ ?_
        · intro _ a ha
          cases a <;> exact absurd ha (Id.key_ne (by decide) _ i)
        · intro r e p1 hr hopen hb
          cases hr.symm.trans hrow
          obtain ⟨hticks,hlodged⟩ := followsClass_resolveClass _ p.marked _ _ hb
            (hp.of_links rfl) hc.calm fun _ => hgov
          have hopen1 : ∀ y, ¬ p1.Finds i.key y := by
            refine fun y hy => hopen y ((hticks.finds_iff ?_).mp hy)
            rintro (⟨j,hj⟩ | ⟨j,hj⟩) <;> exact Id.key_ne (by decide) j i hj
          exact ⟨hticks.mono fun _ _ => trivial,.inl hopen1,fun y hy => absurd hy (hopen1 y),hlodged trivial⟩
        · intro r e p1 p2 hr hon hp1 he hlast hf
          cases hr.symm.trans hrow
          exact ended_findSet ih hp1 (hon.kept ▸ hk) he hlast hf
        · exact fun r e p1 p2 he hm => standsIn_set hm fun _ => he
      obtain ⟨r,hr,hf⟩ := hg.once_found
      exact ⟨hticks,hl,((hticks.tidy hp).targets trivial _ _ (finds_resolution hr hf)).1⟩

theorem goes_resolveSet (h : LodgedSet s e) : Goes F s (resolveSet e) fun d s' => LodgedSet s' (.definition d) :=
  goes_budget.andThen fun n _ ho => goes_setWithin n (h.onward ho)

end Sets

end InfoObject.Check
