import InfoObject.Proofs.Rounds
import InfoObject.Proofs.Soundness
import InfoObject.Proofs.Termination
import Mathlib.Data.List.Chain

/-! What names are found to mean is what they stand for, whenever in a pass they are asked for. -/
namespace InfoObject.Model

section Kinds
variable {s s' : Store} {a b : Alias}

def Alias.ofClass : Alias → Bool
  | objectClass _ => true
  | _ => false

theorem Points.ofClass (h : Points s a b) : b.ofClass = a.ofClass := by
  unfold Points at h
  generalize ht : Turn.on b = t at h
  cases h with
  | type =>
    unfold typeTurn at ht
    split at ht
    · cases ht
      rfl
    · contradiction
    · split at ht <;> contradiction
  | value =>
    unfold valueTurn at ht
    split at ht <;> cases ht
    rfl
  | objectClass =>
    unfold classTurn at ht
    split at ht <;> cases ht
    rfl

theorem Bends.ofClass (h : Bends s a) : a.ofClass = true := by
  obtain ⟨c,r,hl,_⟩ := h
  induction hl using Relation.ReflTransGen.head_induction_on with
  | refl => rfl
  | head h _ ih => exact h.ofClass.symm.trans ih

theorem not_bends_type (i : Id .typeRef) : ¬ Bends s (.type i) := fun h => nomatch h.ofClass

theorem not_bends_value (i : Id .valueRef) : ¬ Bends s (.value i) := fun h => nomatch h.ofClass

/-! A reference means the same as long as the modules stay the same -/

section
variable (hs : Sane s) (h : Onward s s') (hp : a.Present s)
include hs h hp

theorem standsFor_iff : StandsFor s' a x ↔ StandsFor s a x := by
  refine ⟨fun k => ?_,StandsFor.onward h⟩
  induction k with
  | here k => exact .here (k.back h hp)
  | on k _ ih =>
    have hback : Points s _ _ := Turns.back h hp k
    exact .on hback (ih (hback.present hs))

theorem strays_iff : Strays s' a ↔ Strays s a := by
  refine ⟨fun k => ?_,Strays.onward h⟩
  induction k with
  | here k => exact .here (k.back h hp)
  | on k _ ih =>
    have hback : Points s _ _ := Turns.back h hp k
    exact .on hback (ih (hback.present hs))

theorem endless_iff : Endless s' a ↔ Endless s a := by
  refine ⟨fun k => ?_,Endless.onward h⟩
  refine endless_of (P := fun a => a.Present s ∧ Endless s' a) ?_ ⟨hp,k⟩
  rintro a ⟨hp,k⟩
  obtain ⟨b,hb,k⟩ := k.next
  have hback : Points s a b := Turns.back h hp hb
  exact ⟨b,hback,hback.present hs,k⟩

end

end Kinds

end InfoObject.Model

namespace InfoObject.Check
open Model

/-! What was found is right -/

/-- A reference was settled with what it stands for, or with nothing if it stands for nothing. -/
def Right (s : Store) (a : Alias) (x : Target) : Prop :=
  (∃ y, StandsFor s a y ∧ x = Answer.target y) ∨ (Strays s a ∨ Endless s a) ∧ x.Wrong s

/-- The reference of one number points to that of another. -/
def Hands (s : Store) (k j : Nat) : Prop := ∃ a b, Points s a b ∧ a.key = k ∧ b.key = j

/-- What is under resolution may call for this next. -/
def Calls (s : Store) (k j : Nat) : Prop := Solid s k ∨ Hands s k j

/-- A pass in which all that was found is right, and what is under resolution was called for. -/
structure Faithful (p : Pass) : Prop where
  right : ∀ a x, ¬ Bends p.store a → p.Finds a.key x → Right p.store a x
  called : p.chain.links.IsChain fun l m => Calls p.store l.key m.key

section Faithful
variable {R : Prop} {A : Nat → Prop} {s s' : Store} {p q : Pass} {a : Alias} {x : Target} {k j : Nat}

theorem Calls.onward (h : Onward s s') (hk : Calls s k j) : Calls s' k j := by
  rcases hk with hs | ⟨a,b,hab,ha,hb⟩
  · exact .inl (hs.onward h)
  · exact .inr ⟨a,b,hab.onward h,ha,hb⟩

theorem Target.Wrong.onward (h : Onward s s') (hx : x.Wrong s) : x.Wrong s' := by
  cases x with
  | objectClass c =>
    obtain ⟨row,hrow,he⟩ := hx
    obtain ⟨row',hrow',hb⟩ := h.more.rows _ c row hrow
    exact ⟨row',hrow',(ClassDef.bare_eq_iff.mp hb).2.2.1.trans he⟩
  | _ => exact hx

theorem Right.onward (h : Onward s s') (hx : Right s a x) : Right s' a x := by
  rcases hx with ⟨y,hy,hxy⟩ | ⟨hno,hw⟩
  · exact .inl ⟨y,hy.onward h,hxy⟩
  · exact .inr ⟨hno.imp (Strays.onward h) (Endless.onward h),hw.onward h⟩

theorem Solid.bends (h : Solid s a.key) : Bends s a := by
  generalize hk : a.key = k at h
  cases h with
  | object i | set i | elements i => cases a <;> exact absurd hk (Id.key_ne (by decide) _ i)
  | @classOf i r hr ho =>
    obtain rfl : a = .objectClass i := Alias.key_inj hk
    exact ⟨i,r,.refl,hr,ho⟩

theorem Hands.points (h : Hands s a.key k) : ∃ b, Points s a b ∧ b.key = k := by
  obtain ⟨c,d,hcd,hc,hd⟩ := h
  obtain rfl := Alias.key_inj hc
  exact ⟨d,hcd,hd⟩

/-- A reference that depends on no object calls for what it points to, and so on up to the end of the chain. -/
theorem hands_of_called {l : Link} (hc : (l::ls).IsChain fun l m => Calls s l.key m.key)
    (hlast : ∀ m, (l::ls).getLast? = some m → Calls s m.key k) (ha : a.key = l.key)
    (hn : ¬ Bends s a) : ((l::ls).IsChain fun l m => Hands s l.key m.key) ∧
    (∀ m, (l::ls).getLast? = some m → Hands s m.key k) ∧ (∀ m ∈ l::ls, ∃ b, b.key = m.key ∧ ¬ Bends s b) ∧ ∃ b, b.key = k ∧
    ¬ Bends s b := by
  have next : ∀ {j : Nat}, Calls s l.key j → ∃ b, Points s a b ∧ b.key = j := by
    intro j hj
    rcases ha ▸ hj with hs | hh
    · exact absurd hs.bends hn
    · exact hh.points
  induction ls generalizing l a with
  | nil =>
    obtain ⟨b,hab,hb⟩ := next (hlast l rfl)
    refine ⟨List.isChain_singleton _,fun m hm => ?_,fun m hm => ?_,b,hb,fun hbend => hn (.back hab hbend)⟩
    · obtain rfl : l = m := by simpa using hm
      exact ⟨a,b,hab,ha,hb⟩
    · obtain rfl := List.mem_singleton.mp hm
      exact ⟨a,ha,hn⟩
  | cons m ls ih =>
    obtain ⟨hlm,hrest⟩ := List.isChain_cons_cons.mp hc
    obtain ⟨b,hab,hb⟩ := next hlm
    have hnb : ¬ Bends s b := fun hbend => hn (.back hab hbend)
    have hlast' : ∀ n, (m::ls).getLast? = some n → Calls s n.key k := fun n hn => hlast n (by
      rw [List.getLast?_cons_cons]
      exact hn)
    obtain ⟨hchain,hend,hmem,hk⟩ := ih hrest hlast' hb hnb fun hj => by
      rcases hb ▸ hj with hs | hh
      · exact absurd hs.bends hnb
      · exact hh.points
    refine ⟨List.isChain_cons_cons.mpr ⟨⟨a,b,hab,ha,hb⟩,hchain⟩,fun n hn => hend n ?_,fun n hn => ?_,hk⟩
    · rwa [List.getLast?_cons_cons] at hn
    · rcases List.mem_cons.mp hn with rfl | hmem'
      · exact ⟨a,ha,‹¬ Bends s a›⟩
      · exact hmem n hmem'

theorem leads_of_hands {l : Link} (hc : (l::ls).IsChain fun l m => Hands s l.key m.key) (ha : a.key = l.key) : ∀ m ∈ l::ls,
    ∃ b, b.key = m.key ∧ Model.Leads s a b := by
  induction ls generalizing l a with
  | nil =>
    intro m hm
    obtain rfl := List.mem_singleton.mp hm
    exact ⟨a,ha,.refl⟩
  | cons n ls ih =>
    obtain ⟨hlm,hrest⟩ := List.isChain_cons_cons.mp hc
    obtain ⟨b,hab,hb⟩ := (ha ▸ hlm : Hands s a.key n.key).points
    intro m hm
    rcases List.mem_cons.mp hm with rfl | hm
    · exact ⟨a,ha,.refl⟩
    · obtain ⟨c,hc,hbc⟩ := ih hrest hb m hm
      exact ⟨c,hc,.head hab hbc⟩

theorem onRing_of_hands {l : Link} (hc : (l::ls).IsChain fun l m => Hands s l.key m.key)
    (hlast : ∀ m, (l::ls).getLast? = some m → Hands s m.key l.key) (hm : m ∈ l::ls) (ha : a.key = m.key) : OnRing s a := by
  obtain ⟨us,vs,hsplit⟩ := List.append_of_mem hm
  have hsuffix : (m::vs).IsChain fun l m => Hands s l.key m.key := (List.isChain_append.mp (hsplit ▸ hc)).2.1
  obtain ⟨n,hn⟩ : ∃ n, (m::vs).getLast? = some n := ⟨_,List.getLast?_eq_some_getLast (List.cons_ne_nil m vs)⟩
  obtain ⟨b,hb,hab⟩ := leads_of_hands hsuffix ha n (List.mem_of_getLast? hn)
  have hend : Hands s b.key l.key := hb ▸ hlast n (by rw [hsplit,List.getLast?_append,hn]; rfl)
  obtain ⟨d,hbd,hd⟩ := hend.points
  obtain ⟨e,he,hde⟩ := leads_of_hands hc hd m hm
  obtain rfl := Alias.key_inj (he.trans ha.symm)
  exact (Relation.TransGen.tail' hab hbd).trans_left hde

theorem closing_suffix {S : Nat → Nat → Prop} {ls : List Link} (hc : ls.IsChain fun l m => S l.key m.key)
    (hnext : ∀ l, ls.getLast? = some l → S l.key k) (hon : ∃ l ∈ ls, l.key = k) :
    ∃ l ms, ls.dropWhile (·.key != k) = l::ms ∧ l.key = k ∧ ((l::ms).IsChain fun l m => S l.key m.key) ∧
      ∀ m, (l::ms).getLast? = some m → S m.key k := by
  obtain ⟨l,ms,hdrop⟩ : ∃ l ms, ls.dropWhile (·.key != k) = l::ms := by
    refine List.exists_cons_of_ne_nil fun hnil => ?_
    obtain ⟨l,hl,hk⟩ := hon
    have := List.dropWhile_eq_nil_iff.mp hnil l hl
    simp [hk] at this
  have hkey : l.key = k := by
    have := List.head?_dropWhile_not (fun l : Link => l.key != k) ls
    rw [hdrop] at this
    simpa using this
  have hsplit : ls = ls.takeWhile (·.key != k)++l::ms := by rw [← hdrop,List.takeWhile_append_dropWhile]
  refine ⟨l,ms,hdrop,hkey,(List.isChain_append.mp (hsplit ▸ hc)).2.1,fun m hm => hnext m ?_⟩
  rw [hsplit,List.getLast?_append,hm]
  rfl

theorem Faithful.onRing (h : Faithful p) (hn : ¬ Bends p.store a) (hnext : p.Next a.key) (hon : p.onChain a.key) :
    OnRing p.store a := by
  obtain ⟨l,ms,_,hk,hc,hlast⟩ := closing_suffix h.called hnext hon
  obtain ⟨hhands,hend,_⟩ := hands_of_called hc hlast hk.symm hn
  exact onRing_of_hands hhands (fun m hm => hk.symm ▸ hend m hm) List.mem_cons_self hk.symm

theorem Faithful.leave {a b : Row t} (h : Faithful p) (hs : Settles p i x a b) (hc : c.key = i.key) (hn : ¬ Bends p.store c)
    (hx : ∀ u, Turns p.store c u → Suits p x u) : Right p.store c x := by
  have hpresent : c.Present p.store := by
    cases c <;> exact Id.of_key hc.symm (P := fun j => ∃ r, p.store.get? j = some r) ⟨a,hs.row⟩
  obtain ⟨u,hu⟩ := exists_turn hpresent hn
  have hsuits := hx u hu
  cases u with
  | on d =>
    rcases h.right d x (fun hb => hn (.back hu hb)) hsuits with ⟨y,hy,hxy⟩ | ⟨hno,hw⟩
    · exact .inl ⟨y,.on hu hy,hxy⟩
    · refine .inr ⟨?_,hw⟩
      rcases hno with hst | hend
      · exact .inl (.on hu hst)
      · refine .inr (endless_of (P := fun e => e = c ∨ Endless p.store e) ?_ (.inl rfl))
        rintro e (rfl | he)
        · exact ⟨d,hu,.inr hend⟩
        · obtain ⟨f,hf,hend⟩ := he.next
          exact ⟨f,hf,.inr hend⟩
  | done y => exact .inl ⟨y,.here hu,hsuits⟩
  | lost => exact .inr ⟨.inl (.here hu),hsuits⟩

theorem Faithful.tick (h : Faithful p) (hk : Tick R A p q) : Faithful q := by
  have hon := hk.onward
  have good : ∀ {a}, ¬ Bends q.store a → ¬ Bends p.store a := fun hn hb => hn (hb.onward hon)
  have old : ∀ a x, ¬ Bends q.store a → p.Finds a.key x → Right q.store a x := fun a x hn hx =>
    (h.right a x (good hn) hx).onward hon
  have calls : p.chain.links.IsChain fun l m => Calls q.store l.key m.key :=
    h.called.imp fun _ _ hc => hc.onward hon
  have shorter : ∀ {ls : List Link} {l : Link}, p.chain.links = ls++[l] →
      ls.IsChain fun l m => Calls q.store l.key m.key := fun htop =>
    (List.isChain_append.mp (htop ▸ calls)).1
  cases hk with
  | still hk => exact ⟨fun a x hn hx => old a x hn (hk.finds_iff.mp hx),hk.links ▸ calls⟩
  | @enter t i a n l ha hl hopen hnext hnew =>
    refine ⟨old,?_⟩
    show List.IsChain _ (p.chain.add ⟨i.key,n,l⟩).2.links
    rw [Pass.add_new (l := ⟨i.key,n,l⟩) hnew]
    refine List.isChain_append.mpr ⟨calls,by simp,fun x hx y hy => ?_⟩
    obtain rfl : _ = y := by simpa using hy
    exact hnext x hx
  | @meet i d n l hd hcalm hmet =>
    refine ⟨old,?_⟩
    show List.IsChain _ (p.chain.add ⟨i.key,n,l⟩).2.links
    rw [Pass.add_met (l := ⟨i.key,n,l⟩) hmet]
    exact calls
  | @close t i y a b n l hs hopen hnext hmet hA hwrong =>
    refine ⟨fun c x hn hx => ?_,?_⟩
    · rcases hs.finds_iff.mp hx with ⟨hc,rfl⟩ | ⟨_,hx⟩
      · have hring := h.onRing (good hn) (hc ▸ hnext) (hc ▸ hmet)
        exact Right.onward hon (.inr ⟨.inr hring.endless,hwrong c hc⟩)
      · exact old c x hn hx
    · show List.IsChain _ (p.chain.add ⟨i.key,n,l⟩).2.links
      rw [Pass.add_met (l := ⟨i.key,n,l⟩) hmet]
      exact calls
  | @leave t i y a b l ls ds hs htop hlk hA hx =>
    refine ⟨fun c x hn hfinds => ?_,shorter htop⟩
    rcases hs.finds_iff.mp hfinds with ⟨hc,rfl⟩ | ⟨_,hfinds⟩
    · exact (h.leave hs hc (good hn) fun u hu => hx c u hc hu).onward hon
    · exact old c x hn hfinds
  | @drop i d e l ls _ _ hd he htop hlk =>
    exact ⟨fun c x hn hfinds => old c x hn (finds_put_set.mp hfinds),shorter htop⟩

theorem Faithful.pace (h : Faithful p) (hk : Pace R p q) : Faithful q := by
  cases hk with
  | tick hk => exact h.tick hk
  | @stamp i r hl hr =>
    have hon : Onward p.store (p.store.put i {r with checked := p.marker}) := .put (t := .classRef) hr rfl
    refine ⟨fun a x hn hx => ?_,h.called.imp fun _ _ hc => hc.onward hon⟩
    exact (h.right a x (fun hb => hn (hb.onward hon)) ((finds_stamp hr).mp hx)).onward hon
  | finish => exact ⟨h.right,List.IsChain.nil⟩

theorem Faithful.paces (h : Faithful p) (hk : Paces R p q) : Faithful q := by
  induction hk with
  | refl => exact h
  | tail _ hk ih => exact ih.pace hk

end Faithful

/-! Names can be resolved at any time -/

/-- A step comes to an end, and leaves the chain as it was. -/
def Halts {α : Type} (m : Checking α) (p : Pass) : Prop := ∃ a q, Gives m p a q ∧ Carries p q

section Halts
variable {α β : Type} {p q : Pass}

theorem Halts.pure (a : α) : Halts (pure a) p := ⟨a,p,gives_pure.mpr ⟨rfl,rfl⟩,.refl p⟩

theorem Halts.bind (hg : Gives m p a q) (hc : Carries p q) (hf : Halts (f a) q) : Halts (m >>= f) p := by
  obtain ⟨b,r,hb,hc'⟩ := hf
  exact ⟨b,r,gives_bind.mpr ⟨a,q,hg,hb⟩,hc.trans hc'⟩

theorem Halts.andThen (hm : Halts m p) (hf : ∀ a q, Halts (f a) q) : Halts (m >>= f) p := by
  obtain ⟨a,q,hg,hc⟩ := hm
  exact .bind hg hc (hf a q)

theorem halts_reportError : Halts (reportError f l o) p :=
  ⟨(),_,gives_reportError.mpr rfl,rfl,rfl,.refl _,rfl,rfl,id⟩

theorem halts_reportKind : Halts (reportKind r want got) p := by
  unfold reportKind
  split
  · exact .pure _
  · exact halts_reportError

theorem halts_standInClass : Halts (build (standInClass n l)) p := by
  obtain ⟨c,s,hm⟩ : ∃ c s, Makes (standInClass n l) p.store c s := ⟨_,_,rfl⟩
  exact ⟨c,_,gives_build.mpr ⟨s,hm,rfl⟩,rfl,rfl,(standInClass_made hm).1.toGained.extends,rfl,rfl,id⟩

theorem halts_once [Referring t τ] {i : Id t} (hr : p.store.get? i = some r)
    (hnew : (p.chain.mark.add (linkOf i r)).1 = true → Halts (search true r ())
    (p.marked.entered (linkOf i r))) (hold : ∀ q, Halts (search false r ()) q) :
    Halts (once i (fun _ => Pure.pure ()) search) p := by
  cases hf : found p.marker (Referring.resolution r) with
  | some x => exact ⟨x,p,gives_once.mpr ⟨r,hr,.inl ⟨hf,rfl⟩⟩,.refl p⟩
  | none =>
    have hsearch : Halts (search (p.chain.mark.add (linkOf i r)).1 r ())
        (p.marked.entered (linkOf i r)) := by
      cases hb : (p.chain.mark.add (linkOf i r)).1 with
      | true => exact hnew hb
      | false => exact hold _
    obtain ⟨x,p2,hg,hc⟩ := hsearch
    obtain ⟨r2,hr2,_⟩ := hc.store.rows t i r hr
    have hl : p.chain.links <+: p2.chain.links :=
      hc.links ▸ Chain.links_prefix_add p.chain.mark (linkOf i r)
    obtain ⟨d,hd,hdl,hdm,hdc⟩ := Chain.rewind_ends hl (hc.marks.trans (Chain.marks_add _ _))
    have hbare : (Referring.resolve r2 ⟨x,p2.marker⟩).bare = r2.bare := (Referring.moves p2.marker r2 x).bare_eq
    refine ⟨x,_,gives_once.mpr ⟨r,hr,.inr ⟨hf,(),p.marked,p2,r2,d,gives_pure.mpr ⟨rfl,rfl⟩,hg,hr2,hd,
      rfl⟩⟩,hc.marker,hc.budget,hc.store.trans (.put hr2 hbare),hdl,hdm,
      fun h => hdc ▸ hc.cycles ((Evolves.enter (X := fun _ => False) (p := p.marked) _).cycles.solid h)⟩

end Halts

/-- References of the store `s` that are on the chain leave no room for more than `n` others. -/
def Room (m : Marker) (s : Store) (p : Pass) (n : Nat) : Prop := ∃ ks : List Nat, ks.Nodup ∧
  (∀ k ∈ ks, Heavy m s k ∧ p.onChain k) ∧ storeWeight m s+1 ≤ n+ks.length

section Room
variable {m : Marker} {s : Store} {p q : Pass} {n : Nat}

theorem Room.pos (h : Room m s p n) : 0 < n := by
  obtain ⟨ks,hn,hk,hle⟩ := h
  have := length_le_storeWeight hn fun k hk' => (hk k hk').1
  omega

theorem Room.of_le (h : storeWeight m s+1 ≤ n) : Room m s p n := ⟨[],List.nodup_nil,nofun,h⟩

theorem Room.enter (h : Room m s p (n+1)) (hl : Heavy m s l.key) (hnew : p.chain.holds l = false)
    (hq : q.chain.links = p.chain.links++[l]) : Room m s q n := by
  obtain ⟨ks,hn,hk,hle⟩ := h
  refine ⟨l.key::ks,List.nodup_cons.mpr ⟨fun hmem => ?_,hn⟩,fun k hmem => ?_,by simp only [List.length_cons]; omega⟩
  · rw [← Bool.not_eq_true] at hnew
    exact hnew (holds_iff.mpr (hk _ hmem).2)
  · rcases List.mem_cons.mp hmem with rfl | hmem
    · exact ⟨hl,l,by simp [hq],rfl⟩
    · obtain ⟨hheavy,x,hx,hxk⟩ := hk k hmem
      exact ⟨hheavy,x,by simp [hq,hx],hxk⟩

theorem heavy_of_row {t : EntityType} {i : Id t} {a : Row t} (ha : s.get? i = some a) (hl : Linkable a) :
    Heavy m s i.key := ⟨t,i,a,ha,rfl,hl.weight m⟩

theorem lookup_denotes_before (ho : Onward s p.store) (hp : Sane p.store)
    (ha : p.store.lookup? scope r p.marker = some (some a,s')) : Denotes s scope r a.declared :=
  ho.denotes_iff.mp ((lookup_denotes hp ha).mp rfl)

theorem seated_onward {a : Alias} (h : a.Seated s) (ho : Onward s s') : a.Seated s' := by
  have hscope : ∀ {i j : Id .module} {m : Module}, s.get? i = some m → j = i → ∃ m', s'.get? j = some m' := by
    intro i j m hm hj
    rw [hj]
    obtain ⟨m',hm',_⟩ := ho.more.rows .module i m hm
    exact ⟨m',hm'⟩
  cases a with
  | type i | value i =>
    obtain ⟨r,m,hr,hm⟩ := h
    obtain ⟨r',hr',hb⟩ := ho.more.rows _ i r hr
    obtain ⟨m',hm'⟩ := hscope hm (scope_of_bare hb)
    exact ⟨r',m',hr',hm'⟩
  | objectClass i =>
    obtain ⟨r,m,hr,hm⟩ := h
    obtain ⟨r',hr',hb⟩ := ho.more.rows .classRef i r hr
    obtain ⟨m',hm'⟩ := hscope hm (scope_of_bare (ClassRef.bare_eq_iff.mp hb).1)
    exact ⟨r',m',hr',hm'⟩

theorem seated_of_closed {a : Alias} (h : a.Present s) (hs : Closed s) : a.Seated s := by
  cases a with
  | type i | value i | objectClass i =>
    obtain ⟨r,hr⟩ := h
    obtain ⟨m,hm⟩ : ∃ m, s.get? r.scope = some m := (hs.known hr List.mem_cons_self).row
    exact ⟨r,m,hr,hm⟩

/-- A name of the pass `p` was put on the chain, in a pass whose store came from `s`. -/
structure Entered (s : Store) (p : Pass) (l : Link) (q : Pass) : Prop where
  onward : Onward s q.store
  sane : Sane q.store
  fresh : p.chain.mark.holds l = false
  links : q.chain.links = p.chain.links++[l]

theorem halts_search [Referring t τ] {i : Id t} (ho : Onward s p.store) (hp : Sane p.store) (hr : p.store.get? i = some r)
    (hscope : p.store.get? scope = some row)
    (hfind : find true r () = (lookup scope ref >>= next)) (hold : ∀ q, Halts (find false r ()) q)
    (hnext : ∀ a q, Entered s p (linkOf i r) q → (∀ x, a = some x → Denotes s scope ref x.declared) → Halts (next a) q) :
    Halts (once i (fun _ => Pure.pure ()) find) p := by
  refine halts_once hr (fun hb => ?_) hold
  obtain ⟨hnew,hadd⟩ := add_fresh hb
  rw [hfind]
  generalize hp1 : p.marked.entered (linkOf i r) = p1
  have hstore : p1.store = p.store := hp1 ▸ rfl
  have hlinks : p1.chain.links = p.chain.links++[linkOf i r] := hp1 ▸ congrArg Chain.links hadd
  have ho1 : Onward s p1.store := hstore.symm ▸ ho
  have hs1 : Sane p1.store := hstore.symm ▸ hp
  have hnamed : ∀ name i, p1.store.moduleNamed? name = some i → Known p1.store i.key := fun name i hi => by
    obtain ⟨_,m,hm,_⟩ := (hs1.shelf.named name i).mp hi
    exact .of_row hm
  obtain ⟨a,s1,ha⟩ := lookup?_answers hnamed (.of_row (hstore.symm ▸ hscope)) ref p1.marker
  have hstill := Still.of_plain (.lookup ha)
  refine .bind (gives_lookup.mpr ⟨s1,ha,rfl⟩) (.of_plain (.lookup ha))
    (hnext a _ ⟨ho1.trans hstill.onward,hstill.sane hs1,hnew,hlinks⟩ ?_)
  rintro x rfl
  exact lookup_denotes_before ho1 hs1 ha

theorem Room.next {t : EntityType} {i : Id t} {a : Row t} (h : Room m s p (n+1)) (ha : s.get? i = some a) (hl : Linkable a)
    (hk : l.key = i.key) (hq : Entered s p l q) : Room m s q n :=
  h.enter (hk ▸ heavy_of_row ha hl) hq.fresh hq.links

/-- Searches of which one halts if those do that it leads to. They are made for references with `P`. -/
structure Descends [Referring t τ] (s : Store) (F : Nat → Id t → Checking τ) (P : Store → Id t → Prop) : Prop where
  linkable : ∀ a : Row t, Linkable a
  kept : ∀ {s' i r}, Onward s s' → s.get? i = some r → P s i → P s' i
  step : ∀ {n i r p}, Onward s p.store → Sane p.store → p.store.get? i = some r → P p.store i →
    (∀ j row q, s.get? j = some row → P s j → Entered s p (linkOf i r) q → Halts (F n j) q) → Halts (F (n+1) i) p

section Descends
variable [Referring t τ] {F : Nat → Id t → Checking τ} {P : Store → Id t → Prop} (h : Descends s F P)
include h

theorem Descends.within {i : Id t} (hi : s.get? i = some r) (hP : P s i) (hroom : Room m s p n) (ho : Onward s p.store)
    (hp : Sane p.store) : Halts (F n i) p := by
  induction n generalizing i r p with
  | zero => exact absurd hroom.pos (Nat.lt_irrefl 0)
  | succ n ih =>
    obtain ⟨r',hr',_⟩ := ho.more.rows t i r hi
    refine h.step ho hp hr' (h.kept ho hi hP) fun j row q hj hPj hq => ih hj hPj ?_ hq.onward hq.sane
    exact hroom.next hi (h.linkable r) rfl hq

theorem Descends.halts {i : Id t} (ho : Onward s p.store) (hp : Sane p.store) (hr : p.store.get? i = some r)
    (hP : P p.store i) (hb : storeWeight m s+2 ≤ p.budget) : Halts (budget >>= fun n => F n i) p := by
  refine .bind (gives_budget.mpr ⟨rfl,rfl⟩) (.refl p) ?_
  obtain ⟨n,hn⟩ : ∃ n, p.budget = n+1 := ⟨p.budget-1,by omega⟩
  rw [hn]
  refine h.step ho hp hr hP fun j row q hj hPj hq => h.within (m := m) hj hPj (.of_le ?_) hq.onward hq.sane
  omega

end Descends

/-! Types -/

variable (hs : Sane s)
include hs

theorem descends_type : Descends s typeWithin fun s i => Alias.Seated s (.type i) := by
  refine ⟨fun _ => trivial,fun ho _ hi => seated_onward hi ho,fun ho hp hr hi ih => ?_⟩
  obtain ⟨_,_,hr',hscope⟩ := hi
  cases hr.symm.trans hr'
  rw [typeWithin_succ]
  refine halts_search ho hp hr hscope rfl (fun q => .pure _) fun a q hq ha => ?_
  cases a with
  | none =>
    simp only [missingType]
    split
    · exact .pure _
    · exact halts_reportError.andThen fun _ _ => .pure _
  | some a =>
    obtain ⟨_,m,hm,hin⟩ := (ha a rfl).declared hs
    cases hdecl : a.declared with
    | type j =>
      rw [hdecl] at hin
      obtain ⟨row,hrow,rfl⟩ := hin
      simp only [hdecl]
      exact ih j row q hrow ⟨row,m,hrow,hm⟩ hq
    | _ =>
      simp only [hdecl]
      exact halts_reportKind.andThen fun _ _ => .pure _

/-! Values -/

theorem descends_value : Descends s (fun n i => valueWithin n (.reference i)) fun s i => Alias.Seated s (.value i) := by
  refine ⟨fun _ => trivial,fun ho _ hi => seated_onward hi ho,fun ho hp hr hi ih => ?_⟩
  obtain ⟨_,_,hr',hscope⟩ := hi
  cases hr.symm.trans hr'
  rw [valueWithin_succ]
  refine halts_search ho hp hr hscope rfl (fun q => .pure _) fun a q hq ha => ?_
  cases a with
  | none => exact halts_reportError.andThen fun _ _ => .pure _
  | some a =>
    obtain ⟨_,m,hm,hin⟩ := (ha a rfl).declared hs
    cases hdecl : a.declared with
    | value t v =>
      simp only [hdecl]
      cases v with
      | literal name l x => exact ⟨some x,q,gives_valueWithin_literal.mpr ⟨rfl,rfl⟩,.refl q⟩
      | reference j =>
        rw [hdecl] at hin
        obtain ⟨_,row,hrow,rfl⟩ := hin
        exact ih j row q hrow ⟨row,m,hrow,hm⟩ hq
    | _ =>
      simp only [hdecl]
      exact halts_reportKind.andThen fun _ _ => .pure _

/-! Classes -/

theorem descends_class : Descends s (fun n i => classWithin n (.reference i)) fun s i =>
    Alias.Seated s (.objectClass i) ∧ ¬ Bends s (.objectClass i) := by
  refine ⟨fun _ => trivial,fun ho hi hn => ⟨seated_onward hn.1 ho,fun hb => hn.2 (hb.of_onward hs ho ⟨_,hi⟩)⟩,
    fun {_ i r p} ho hp hr hi ih => ?_⟩
  obtain ⟨⟨_,_,hr',hscope⟩,hn⟩ := hi
  cases hr.symm.trans hr'
  have hof : r.ofObject = false := by
    by_contra hof
    exact hn ⟨i,r,.refl,hr,by simpa using hof⟩
  have standIn : ∀ {q : Pass} (d : Kind), Halts (do
      reportKind r.toNameRef .objectClass d
      build (standInClass r.name r.location)) q :=
    fun _ => halts_reportKind.andThen fun _ _ => halts_standInClass
  rw [classWithin_succ]
  refine halts_search ho hp hr hscope rfl (fun q => halts_standInClass) fun a q hq ha => ?_
  cases a with
  | none => exact halts_reportError.andThen fun _ _ => halts_standInClass
  | some a =>
    have hd := ha a rfl
    obtain ⟨_,m,hm,hin⟩ := hd.declared hs
    simp only [hof,Bool.false_eq_true,if_false]
    cases hdecl : a.declared with
    | objectClass c =>
      cases c with
      | definition d => exact ⟨d,q,gives_classWithin_definition.mpr ⟨rfl,rfl⟩,.refl q⟩
      | reference j =>
        rw [hdecl] at hin hd
        obtain ⟨row,hrow,rfl⟩ := hin
        refine ih j row q hrow ⟨⟨row,m,hrow,hm⟩,fun hb => hn ?_⟩ hq
        have hmeans : Means p.store r.scope r.reference (some (.objectClass (.reference j))) := fun e =>
          ⟨fun he => Option.some.inj he ▸ ho.denotes_iff.mpr hd,fun he => congrArg some ((ho.denotes_iff.mpr hd).unique he)⟩
        exact .back (Turns.objectClass hr hof hmeans) (hb.onward ho)
    | _ => exact standIn _

end Room

/-! Answers -/

theorem StandsFor.class_row (hs : Sane s) (h : StandsFor s a (.objectClass c)) : ∃ row, s.get? c = some row ∧
    row.erroneous = false := by
  generalize hy : Answer.objectClass c = y at h
  induction h with
  | @here a y h =>
    subst hy
    generalize ht : Turn.done (.objectClass c) = t at h
    cases h with
    | @type i r o _ _ =>
      unfold typeTurn at ht
      split at ht
      · contradiction
      · contradiction
      · split at ht <;> simp at ht
    | @value i r o _ _ =>
      unfold valueTurn at ht
      split at ht <;> simp at ht
    | @objectClass i r o _ _ ho =>
      unfold classTurn at ht
      split at ht
      · contradiction
      · injection ht with hc
        injection hc with hc
        subst hc
        obtain ⟨_,_,_,hin⟩ := ((ho _).mp rfl).declared hs
        obtain ⟨row,hrow,he,_⟩ := hin
        exact ⟨row,hrow,he⟩
      · contradiction
  | on _ _ ih => exact ih hy

theorem StandsFor.not_wrong (hs : Sane s) (h : StandsFor s a y) : ¬ (Answer.target y).Wrong s := by
  cases y with
  | type b | value l => simp [Answer.target,Target.Wrong]
  | objectClass c =>
    rintro ⟨row,hrow,he⟩
    obtain ⟨row',hrow',he'⟩ := StandsFor.class_row hs h
    cases hrow.symm.trans hrow'
    rw [he] at he'
    contradiction

theorem Right.exact (hs : Sane s) (hs' : Sane s') (ho : Onward s s') (hp : a.Present s)
    (hx : Right s' a x) : (∀ y, StandsFor s a y ↔ x = Answer.target y ∧ ¬ x.Wrong s') ∧
    (x.Wrong s' ↔ Strays s a ∨ Endless s a) := by
  rcases hx with ⟨y,hy,rfl⟩ | ⟨hno,hw⟩
  · have hright := StandsFor.not_wrong hs' hy
    have hy0 := (standsFor_iff hs ho hp).mp hy
    refine ⟨fun z => ⟨fun hz => ⟨by rw [hz.unique hy0],hright⟩,fun ⟨hz,_⟩ => ?_⟩,fun hw => absurd hw hright,fun hno => ?_⟩
    · obtain rfl : y = z := by
        cases y <;> cases z <;> simp_all [Answer.target]
      exact hy0
    · exact (hno.elim hy0.not_strays hy0.not_endless).elim
  · have hno0 := hno.imp (strays_iff hs ho hp).mp (endless_iff hs ho hp).mp
    refine ⟨fun z => ⟨fun hz => ?_,fun ⟨_,hz⟩ => absurd hw hz⟩,fun _ => hno0,fun _ => hw⟩
    exact (hno0.elim hz.not_strays hz.not_endless).elim

end InfoObject.Check

namespace InfoObject.Project
open Model Check

/-- A pass as it may be while a project is checked. -/
def Moment (p : Project) (r : Pass) : Prop := Paces False p.startPass r

section Moments
variable {n : Nat} {p : Project} {r : Pass}

structure Moment.Ready (p : Project) (r : Pass) : Prop where
  sane : Sane p.store
  onward : Onward p.store r.store
  tidy : Tidy False r
  faithful : Faithful r
  ample : storeWeight p.marker.next p.store+2 ≤ r.budget

theorem Moment.ready (h : Sound n p) (hn : n+1 < 2^64) (hr : Moment p r) : Moment.Ready p r where
  sane := h.sane
  onward := Paces.onward hr
  tidy := Paces.tidy hr (h.tidy hn False)
  faithful := Faithful.paces ⟨fun a x _ hx => absurd hx (h.not_finds hn a.key x),List.IsChain.nil⟩ hr
  ample := by
    have hle := storeWeight_le_budget p.marker.next p.store
    rw [Paces.budget_eq hr]
    show _ ≤ Project.budget p.store
    omega

theorem Moment.exact (h : Sound n p) (hn : n+1 < 2^64) (hr : Moment p r) (hticks : Ticks False Any r q)
    (hfinds : q.Finds a.key x) (hp : a.Present r.store) (hbend : ¬ Bends r.store a) : Moment p q ∧
    (∀ y, StandsFor r.store a y ↔ x = Answer.target y ∧ ¬ x.Wrong q.store) ∧
    (x.Wrong q.store ↔ Strays r.store a ∨ Endless r.store a) := by
  have hq : Moment p q := Paces.trans hr hticks.paces
  have hready := Moment.ready h hn hr
  have hbend' : ¬ Bends q.store a := fun hb => hbend (hb.of_onward hready.tidy.sane hticks.onward hp)
  have hright := (Moment.ready h hn hq).faithful.right a x hbend' hfinds
  exact ⟨hq,hright.exact hready.tidy.sane (Moment.ready h hn hq).tidy.sane hticks.onward hp⟩

/-- Whenever a name that stands in a module is asked for while a project is checked, the answer is what the search for the name
comes to. All names of the project stand in modules, and the search for them comes to the same throughout the check. -/
theorem names_resolved (h : Reached n p) (hn : n+1 < 2^64) :
    (∃ q, Gives (checkAll p.duplicates) p.startPass () q ∧ Moment p q) ∧ ∀ r, Moment p r →
      (∀ i, Alias.Seated r.store (.type i) → r.Next i.key → ∃ t q, Gives (resolveType i) r t q ∧ Moment p q ∧
        (∀ b, t = some b ↔ StandsFor r.store (.type i) (.type b)) ∧
        (t = none ↔ Strays r.store (.type i) ∨ Endless r.store (.type i))) ∧
      (∀ i, Alias.Seated r.store (.value i) → r.Next i.key → ∃ v q, Gives (resolveValue (.reference i)) r v q ∧ Moment p q ∧
        (∀ l, v = some l ↔ StandsFor r.store (.value i) (.value l)) ∧
        (v = none ↔ Strays r.store (.value i) ∨ Endless r.store (.value i))) ∧
      (∀ i, Alias.Seated r.store (.objectClass i) → r.Next i.key → ¬ Bends r.store (.objectClass i) →
        ∃ c d q, Gives (resolveClass (.reference i)) r c q ∧ Moment p q ∧ q.store.get? c = some d ∧
          (∀ k, k = c ∧ d.erroneous = false ↔ StandsFor r.store (.objectClass i) (.objectClass k)) ∧
          (d.erroneous = true ↔ Strays r.store (.objectClass i) ∨ Endless r.store (.objectClass i))) ∧
      (∀ a, a.Present p.store → a.Seated r.store ∧ (∀ y, StandsFor r.store a y ↔ StandsFor p.store a y) ∧
        (Strays r.store a ↔ Strays p.store a) ∧ (Endless r.store a ↔ Endless p.store a)) := by
  have hsound := h.sound (Nat.lt_of_succ_lt hn)
  refine ⟨?_,fun r hr => ?_⟩
  · obtain ⟨q,hq,_⟩ := h.steady.pass
    exact ⟨q,hq,(hq.checkAll_round rfl (hsound.tidy hn True)).paces.loose⟩
  have hready := Moment.ready hsound hn hr
  refine ⟨fun i hi hnext => ?_,fun i hi hnext => ?_,fun i hi hnext hbend => ?_,fun a ha => ?_⟩
  · obtain ⟨row,_,hrow,_⟩ := id hi
    obtain ⟨t,q,hg,_⟩ := (descends_type hready.sane).halts hready.onward hready.tidy.sane hrow hi hready.ample
    have hw := hg.within
    have hticks := ticks_typeWithin hw hready.tidy hnext False.elim
    obtain ⟨hq,hstands,hwrong⟩ := Moment.exact (a := .type i) hsound hn hr hticks (finds_typeWithin hw) ⟨row,hrow⟩
      (not_bends_type i)
    refine ⟨t,q,hg,hq,fun b => (Iff.trans ?_ (hstands (.type b)).symm),hwrong⟩
    cases t <;> simp [Answer.target,Target.Wrong]
  · obtain ⟨row,_,hrow,_⟩ := id hi
    obtain ⟨v,q,hg,_⟩ := (descends_value hready.sane).halts hready.onward hready.tidy.sane hrow hi hready.ample
    have hnext' : ∀ j, ValueExpr.reference i = .reference j → r.Next j.key := by
      rintro j ⟨⟩
      exact hnext
    have hw := hg.within
    have hticks := ticks_valueWithin hw hready.tidy hnext' False.elim
    obtain ⟨hq,hstands,hwrong⟩ := Moment.exact (a := .value i) hsound hn hr hticks (finds_valueWithin hw) ⟨row,hrow⟩
      (not_bends_value i)
    refine ⟨v,q,hg,hq,fun l => (Iff.trans ?_ (hstands (.value l)).symm),hwrong⟩
    cases v <;> simp [Answer.target,Target.Wrong]
  · obtain ⟨row,_,hrow,_⟩ := id hi
    obtain ⟨c,q,hg,_⟩ := (descends_class hready.sane).halts hready.onward hready.tidy.sane hrow ⟨hi,hbend⟩ hready.ample
    have hnext' : ∀ j, ClassExpr.reference i = .reference j → r.Next j.key := by
      rintro j ⟨⟩
      exact hnext
    have hw := hg.within
    have hticks := (ticks_within False _).1 _ _ _ _ hw hready.tidy hnext' False.elim
    obtain ⟨hq,hstands,hwrong⟩ := Moment.exact (a := .objectClass i) hsound hn hr (hticks.mono fun _ _ => trivial)
      (finds_classWithin hw) ⟨row,hrow⟩ hbend
    obtain ⟨d,hd⟩ : ∃ d, q.store.get? c = some d := by
      rcases search_cases hready.tidy.sane (a := .objectClass i) ⟨row,hrow⟩ hbend with ⟨y,hy⟩ | hno
      · have hcy := ((hstands y).mp hy).1
        cases y with
        | objectClass k =>
          obtain rfl : c = k := by simpa [Answer.target] using hcy
          obtain ⟨d,hd,_⟩ := StandsFor.class_row hready.tidy.sane hy
          obtain ⟨d',hd',_⟩ := hticks.onward.more.rows _ c d hd
          exact ⟨d',hd'⟩
        | _ => simp [Answer.target] at hcy
      · obtain ⟨d,hd,_⟩ := hwrong.mpr hno
        exact ⟨d,hd⟩
    have herr : Target.Wrong q.store (.objectClass c) ↔ d.erroneous = true := by
      simp [Target.Wrong,hd]
    refine ⟨c,d,q,hg,hq,hd,fun k => (Iff.trans ?_ (hstands (.objectClass k)).symm),herr.symm.trans hwrong⟩
    rw [herr,Bool.not_eq_true,eq_comm]
    simp [Answer.target]
  · exact ⟨seated_onward (seated_of_closed ha h.steady.closed) hready.onward,
      fun y => standsFor_iff hready.sane hready.onward ha,strays_iff hready.sane hready.onward ha,
      endless_iff hready.sane hready.onward ha⟩

end Moments

def ringSources : List (String × String) :=
  [("m.asn","M DEFINITIONS ::= BEGIN IMPORTS Far FROM N; Near ::= Far Self ::= Other Other ::= Self v Near ::= w w Near ::= 5 END"),
   ("n.asn","N DEFINITIONS ::= BEGIN Far ::= INTEGER END")]

theorem names_resolved_ringSources : ∃ p, (new false).addSources ringSources = .ok p ∧ Reached 0 p ∧ 0+1 < 2^64 ∧
    Moment p p.startPass ∧ ∀ i : Id .typeRef, i.index < 3 → p.startPass.Next i.key ∧ ∃ t q,
      Gives (resolveType i) p.startPass t q ∧ Moment p q ∧ (∀ b, t = some b ↔ StandsFor p.store (.type i) (.type b)) ∧
      (t = none ↔ Strays p.store (.type i) ∨ Endless p.store (.type i)) := by
  have hsize : ((new false).addSources ringSources).toOption.any (fun p => decide (3 ≤ p.store.typeRefs.size)) = true := by
    decide +kernel
  obtain ⟨p,hp,hle⟩ := Notation.exists_of_toOption_any hsize
  rw [decide_eq_true_eq] at hle
  have hreached := Reached.addSources (.new false) hp
  refine ⟨p,hp,hreached,by decide,.refl _,fun i hi => ⟨nofun,?_⟩⟩
  have hrow : p.startPass.store.get? i = some p.store.typeRefs[i.index] :=
    Array.getElem?_eq_getElem (Nat.lt_of_lt_of_le hi hle)
  have hnames := (names_resolved hreached (by decide)).2 p.startPass (.refl _)
  exact hnames.1 i (hnames.2.2.2 (.type i) ⟨_,hrow⟩).1 nofun

end InfoObject.Project
