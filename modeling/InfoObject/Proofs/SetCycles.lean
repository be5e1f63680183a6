import InfoObject.Proofs.SetContents

/-! Cycles of sets, and those that a check tells of. -/
namespace InfoObject.Check
open Model

/-- Distinct sets, each with the next among its elements and the last with the first. -/
structure SetCycle (p : Pass) (ts : List (Id .setDef)) : Prop where
  nonempty : ts ≠ []
  distinct : ts.Nodup
  joined : Cycle.Chain p.Edge (ts : Cycle (Id .setDef))

/-- The links of a cycle have the names and the places of the sets. -/
def LinksOf (p : Pass) (c : List Link) (ts : List (Id .setDef)) : Prop :=
  List.Forall₂ (fun l t => ∃ d, p.store.get? t = some d ∧ l = setLink t d) c ts

/-- Two sets are in one strongly connected component of the set graph that has a cycle. -/
def Pass.Twined (p : Pass) (i t : Id .setDef) : Prop := Relation.TransGen p.Edge i t ∧ Relation.TransGen p.Edge t i

/-- Every set that a module in use declares has a class that is no stand-in. -/
def SetsGoverned (p : Pass) : Prop := ∀ (i : Id .setDef) d, Declares p.store (.objectSet (.definition i)) →
  p.store.get? i = some d → ∃ c row, classNow p.marker p.store d.governor = some c ∧ p.store.get? c = some row ∧
    row.erroneous = false

theorem Gives.checkSet_stamped (h : Gives (check (.objectSet i)) p u q) : Stamped q.marker q.store i := by
  simp only [check,gives_bind,gives_budget] at h
  obtain ⟨n,p0,⟨_,rfl⟩,h⟩ := h
  cases n with
  | zero => exact absurd h gives_throw
  | succ n =>
    obtain ⟨d,hd,⟨hst,rfl⟩ | ⟨_,h⟩⟩ := gives_checkSet.mp h
    · exact ⟨d,d.checked,hd,rfl,hst⟩
    · have hst : Stamped p0.marker (p0.store.put i {d with checked := p0.marker}) i :=
        ⟨_,_,Store.get?_put_self (t := .setDef) hd,rfl,Marker.before_irrefl _⟩
      rcases h with ⟨_,rfl⟩ | ⟨_,c,p1,b,p2,h⟩
      · exact hst
      · have k := ((keeps_governSet i _ _ _ h.governed).trans
          (keeps_checkGoverning (keeps_checkWithin n) c _ _ _ h.classChecked)).trans
          (Keeps.ite (keeps_checkExpansion (keeps_checkWithin n) i d c) (.pure _) _ _ _ h.rest)
        exact k.toGrows.stamped hst

theorem Gives.checkAll_surveyed (h : Gives (Project.checkAll ds) p u q) (hp : Idle p)
    (hfresh : Marker.zero.before p.marker = true) (hnew : ∀ i : Id .setDef, ¬ Stamped p.marker p.store i) (hi : Declares p.store (.objectSet (.definition i))) (hd : q.store.get? i = some d) :
    Surveyed q d := by
  obtain ⟨s,hvisits⟩ := sweep_tour.checkAll h hp
  obtain ⟨p',q',j,m,n,a,_,_,_,_,ha,hg,tq⟩ := hvisits _ hi
  simp only [checkDeclared,ha] at hg
  have hst := tq.toGrows.stamped (p := q'.finish) hg.checkSet_stamped
  exact (s.visited.sets hp.links hfresh i d hd (s.marker ▸ hst)).resolve_left (hnew i)

section Graph
variable {p : Pass} {i t : Id .setDef} {c : List Link} {cs : List (List Link)} {ds : List (Id .setDef)} {ts : List (Id .setDef)}

theorem linksOf_of_keys (hshown : ∀ l ∈ c, Shows p.store l) (hk : ts.map Id.key = Cycle.keys c) : LinksOf p c ts := by
  induction c generalizing ts with
  | nil =>
    obtain rfl : ts = [] := List.map_eq_nil_iff.mp hk
    exact .nil
  | cons l c ih =>
    cases ts with
    | nil => contradiction
    | cons t ts =>
      obtain ⟨hl,hc⟩ := List.cons.inj hk
      refine .cons ?_ (ih (fun m hm => hshown m (List.mem_cons_of_mem _ hm)) hc)
      obtain ⟨u,j,d,hd,hj,hlabel⟩ := (hshown l List.mem_cons_self).named
      obtain rfl : u = .setDef := Id.type_of_key (hj.trans hl.symm)
      obtain rfl : j = t := Id.key_inj (hj.trans hl.symm)
      obtain ⟨hn,hloc⟩ := Prod.mk.inj (Option.some.inj hlabel)
      refine ⟨d,hd,?_⟩
      obtain ⟨k,n,loc⟩ := l
      subst hj hn hloc
      rfl

theorem Circuit.setCycle (h : Circuit p c) (ht : t.key ∈ Cycle.keys c) : ∃ ts, SetCycle p ts ∧ LinksOf p c ts ∧ t ∈ ts := by
  obtain ⟨ts,hkeys,hdistinct,hchain⟩ := h.sets ht
  have hmem : t ∈ ts := by
    rw [← hkeys] at ht
    obtain ⟨u,hu,hut⟩ := List.mem_map.mp ht
    exact Id.key_inj hut ▸ hu
  exact ⟨ts,⟨List.ne_nil_of_mem hmem,hdistinct,hchain⟩,linksOf_of_keys h.shown hkeys,hmem⟩

theorem SetCycle.reaches (h : SetCycle p ts) (hi : i ∈ ts) (ht : t ∈ ts) : Relation.TransGen p.Edge i t :=
  Cycle.chain_iff_pairwise.mp (h.joined.imp fun _ _ => Relation.TransGen.single) i hi t ht

theorem Woven.part (h : Woven p cs ds) (hi : i ∈ ds) (hd : p.store.get? i = some d) (he : e ∈ d.elements) : ∃ ds' os,
    Part p cs ds' i e os := by
  induction h with
  | nil => exact absurd hi List.not_mem_nil
  | @cons j ds d' x oss _ hd' _ _ hparts ih =>
    rcases List.mem_cons.mp hi with rfl | hi
    · cases hd.symm.trans hd'
      obtain ⟨os,_,hpart⟩ := forall₂_mem hparts he
      exact ⟨ds,os,hpart⟩
    · exact ih hi

/-- Of sets that lead to each other without end, the one that was listed first met another one that was not listed yet, and
so closed a cycle through it. -/
theorem Woven.closes (h : Woven p cs ds) {S : Id .setDef → Prop} (hnext : ∀ i, S i → ∃ t, p.Edge i t ∧ S t) (hS : S i)
    (hi : i ∈ ds) : ∃ c ∈ cs, ∃ t, S t ∧ t.key ∈ Cycle.keys c := by
  induction h generalizing i with
  | nil => exact absurd hi List.not_mem_nil
  | @cons j ds d x oss _ hd _ _ hparts ih =>
    by_cases hearlier : ∃ t ∈ ds, S t
    · obtain ⟨t,ht,hSt⟩ := hearlier
      exact ih hSt ht
    · obtain rfl : i = j := (List.mem_cons.mp hi).resolve_right fun h => hearlier ⟨i,h,hS⟩
      obtain ⟨t,⟨d',e,k,hd',hk,hr,ht,he⟩,hSt⟩ := hnext i hS
      cases hd.symm.trans hd'
      obtain ⟨os,_,hpart⟩ := forall₂_mem hparts hk
      cases hpart with
      | wrong hr' hd'' he' =>
        cases hr.1.unique hr'.1
        cases ht.symm.trans hd''
        rw [he] at he'
        contradiction
      | listed hr' _ _ hin _ =>
        cases hr.1.unique hr'.1
        exact absurd ⟨t,hin,hSt⟩ hearlier
      | @cut _ t' _ c hr' _ _ hc _ ht' =>
        cases hr.1.unique hr'.1
        exact ⟨c,hc,t,hSt,ht'⟩

theorem Pass.Edge.declared (h : p.Edge i t) (hp : Tidy True p) : Declares p.store (.objectSet (.definition t)) := by
  obtain ⟨_,e,_,_,_,hr,ht,he⟩ := h
  exact (hp.targets trivial _ _ hr.1).2 e ht he

theorem Pass.Twined.next (h : p.Twined i t) : ∃ u, p.Edge t u ∧ p.Twined i u := by
  obtain ⟨hit,hti⟩ := h
  obtain ⟨u,htu,hui⟩ := Relation.TransGen.head'_iff.mp hti
  refine ⟨u,htu,hit.tail htu,?_⟩
  rcases Relation.reflTransGen_iff_eq_or_transGen.mp hui with rfl | hui
  · exact hit.tail htu
  · exact hui

theorem Surveyed.lists (h : Surveyed p d) (hg : SetsGoverned p) (hi : Declares p.store (.objectSet (.definition i)))
    (hs : Sane p.store) (hd : p.store.get? i = some d) : (∃ e, d.expansion = some (.error e)) ∨ ∃ os, p.Lists i os := by
  cases h with
  | wrong he =>
    obtain ⟨d',_,hd',he',_⟩ := hi.homed hs
    cases hd.symm.trans hd'
    rw [he] at he'
    contradiction
  | classless hc hrow he =>
    obtain ⟨c',row',hc',hrow',he'⟩ := hg i d hi hd
    cases hc.symm.trans hc'
    cases hrow.symm.trans hrow'
    rw [he] at he'
    contradiction
  | unread hx => exact .inl ⟨_,hx⟩
  | listed hos => exact .inr ⟨_,d,hd,hos⟩

end Graph

end InfoObject.Check

namespace InfoObject.Project
open Model Check

section Told
variable {n : Nat} {p : Project}

/-- In a project where every declared set has a class, a check reads every declared set, or finds that it cannot be read,
and finds what each name among its elements means. It tells of cycles of sets if and only if the set graph has a cycle. The
links of each cycle of sets that it tells of are distinct sets, each with the next among its elements; and every set on a
cycle is in one strongly connected component with the sets of a cycle that is told of. -/
theorem set_cycles_told (h : Reached n p) (hn : n+1 < 2^64)
    (hg : ∀ q, Gives (checkAll p.duplicates) p.startPass () q → SetsGoverned q) :
    ∃ q, Gives (checkAll p.duplicates) p.startPass () q ∧ p.runCheck = .ok (p.checkedBy q) ∧
      (∀ i, Declares q.store (.objectSet (.definition i)) → ∃ d x, q.store.get? i = some d ∧ d.expansion = some x ∧
        ExpansionBuilt q.store d x ∧ ∀ j, .set j ∈ d.elements → ∃ t, q.Finds j.key (.objectSet t)) ∧
      ∃ cs : List (List Link), ((p.checkedBy q).result.errors.filter isCycleError).Perm (cs.filterMap Cycle.report?) ∧
        (∀ c ∈ cs, (∃ l ls, c = l::ls ∧
          Cycle.report? c = some ⟨.circularReference (Cycle.names c++[l.name]),l.location,none⟩) ∧
          ∀ t : Id .setDef, t.key ∈ Cycle.keys c → ∃ ts, SetCycle q ts ∧ LinksOf q c ts) ∧
        (∀ i, q.Twined i i → ∃ c ∈ cs, ∃ ts, SetCycle q ts ∧ LinksOf q c ts ∧ ∀ t ∈ ts, q.Twined i t) ∧
        ((∃ c ∈ cs, ∃ ts, SetCycle q ts ∧ LinksOf q c ts) ↔ ∃ i, Relation.TransGen q.Edge i i) := by
  have hsound := h.sound (Nat.lt_of_succ_lt hn)
  have htidy := hsound.tidy hn True
  obtain ⟨q,hq,_⟩ := h.steady.pass
  have hidle : Idle p.startPass := ⟨rfl,rfl,fun hne => absurd rfl hne⟩
  have hpaces := (hq.checkAll_round rfl htidy).paces
  have htidyq := hpaces.tidy htidy
  have hcycles : q.chain.cycles = [] := (hq.checkAll_tour hidle).idle.cycles
  obtain ⟨cs,ds,ht,hlisting⟩ := (Listing.start hsound hn).paces (Traced.start p) htidy hpaces
  have hwoven : Woven q cs ds := by simpa only [hcycles,List.nil_append] using hlisting.woven
  have hcircuit : ∀ c ∈ cs, Circuit q c := fun c hc => ht.circuits c (List.mem_append_right _ hc)
  have listed : ∀ i d, Declares q.store (.objectSet (.definition i)) → q.store.get? i = some d →
      (∃ e, d.expansion = some (.error e)) ∨ ∃ os, q.Lists i os := by
    intro i d hi hd
    have hstart := Declares.back hpaces.onward.stays htidy.sane hi
    exact (hq.checkAll_surveyed hidle (hsound.fresh hn) (fun _ => hsound.not_stamped hn) hstart hd).lists (hg q hq) hi htidyq.sane hd
  have closes : ∀ i, q.Twined i i → ∃ c ∈ cs, ∃ ts, SetCycle q ts ∧ LinksOf q c ts ∧ ∀ t ∈ ts, q.Twined i t := by
    intro i hi
    -- the set is named by another and names one, so it is declared and has elements
    obtain ⟨u,_,hui⟩ := Relation.TransGen.tail'_iff.mp hi.1
    obtain ⟨t,⟨d,_,j,hd,hj,_⟩,_⟩ := hi.next
    obtain ⟨e,hx⟩ | ⟨os,hlist⟩ := listed i d (hui.declared htidyq) hd
    · simp [SetDef.elements,hx] at hj
    obtain ⟨c,hc,t,htw,htk⟩ := hwoven.closes (fun _ hs => hs.next) hi (hlisting.all i os hlist)
    obtain ⟨ts,hcycle,hlinks,hmem⟩ := (hcircuit c hc).setCycle htk
    exact ⟨c,hc,ts,hcycle,hlinks,fun u hu =>
      ⟨htw.1.trans (hcycle.reaches hmem hu),(hcycle.reaches hu hmem).trans htw.2⟩⟩
  refine ⟨q,hq,runCheck_eq_ok.mpr ⟨q,hq,rfl⟩,fun i hi => ?_,cs,ht.told ▸ cycleErrors_perm p q,fun c hc => ⟨?_,fun t htk => ?_⟩,
    closes,?_,?_⟩
  · obtain ⟨d,_,hd,_⟩ := hi.homed htidyq.sane
    obtain ⟨e,hx⟩ | ⟨os,hlist⟩ := listed i d hi hd
    · refine ⟨d,_,hd,hx,htidyq.sane.expansions i d _ hd hx,fun j hj => ?_⟩
      simp [SetDef.elements,hx] at hj
    · obtain ⟨d',hd',hos⟩ := id hlist
      cases hd.symm.trans hd'
      obtain ⟨x,hx⟩ := (htidyq.complete i d os hd hos).1
      refine ⟨d,x,hd,hx,htidyq.sane.expansions i d x hd hx,fun j hj => ?_⟩
      obtain ⟨_,_,hpart⟩ := hwoven.part (hlisting.all i os hlist) hd hj
      cases hpart with
      | wrong hr | listed hr | cut hr => exact ⟨_,hr.1⟩
  · obtain ⟨l,ls,rfl⟩ := List.exists_cons_of_ne_nil (hcircuit c hc).nonempty
    exact ⟨l,ls,rfl,rfl⟩
  · obtain ⟨ts,hcycle,hlinks,_⟩ := (hcircuit c hc).setCycle htk
    exact ⟨ts,hcycle,hlinks⟩
  · rintro ⟨c,_,ts,hcycle,_⟩
    obtain ⟨t,htmem⟩ := List.exists_mem_of_ne_nil ts hcycle.nonempty
    exact ⟨t,hcycle.reaches htmem htmem⟩
  · rintro ⟨i,hi⟩
    obtain ⟨c,hc,ts,hcycle,hlinks,_⟩ := closes i ⟨hi,hi⟩
    exact ⟨c,hc,ts,hcycle,hlinks⟩

end Told

def circularSets : List (String × String) :=
  [("m.asn","M DEFINITIONS ::= BEGIN C ::= CLASS { &id INTEGER } Left C ::= { Right } Right C ::= { { &id 1 } | Left | Right } END")]

/-- A set that has itself among its elements. -/
def namesItself (q : Pass) (i : Id .setDef) : Bool := (q.store.get? i).any fun d => !d.erroneous && d.elements.any fun e =>
  match e with
  | .set j => (q.store.get? j).any fun r => found q.marker r.resolution == some i
  | _ => false

theorem edge_of_namesItself (hl : q.chain.links = []) (h : namesItself q i = true) : q.Edge i i := by
  obtain ⟨d,hd,h⟩ := (Option.any_eq_true _ _).mp h
  obtain ⟨he,h⟩ := Bool.and_eq_true_iff.mp h
  obtain ⟨e,hmem,h⟩ := List.any_eq_true.mp h
  cases e with
  | set j =>
    obtain ⟨r,hr,hx⟩ := (Option.any_eq_true _ _).mp h
    have hfound : q.Finds j.key (.objectSet i) := by
      refine ⟨.setRef,j,r,hr,rfl,?_⟩
      show (found q.marker (SetRef.toNameRef r).resolution).map Target.objectSet = _
      rw [show found q.marker (SetRef.toNameRef r).resolution = some i by simpa using hx]
      rfl
    exact ⟨d,d,j,hd,hmem,⟨hfound,not_onChain hl⟩,hd,by simpa using he⟩
  | literal | object => contradiction

theorem set_cycles_told_circularSets : ∃ p, (new false).addSources circularSets = .ok p ∧ Reached 0 p ∧ 0+1 < 2^64 ∧
    (∀ q, Gives (checkAll p.duplicates) p.startPass () q → SetsGoverned q) ∧
    ∃ q, p.runCheck = .ok (p.checkedBy q) ∧ ∃ cs : List (List Link),
      ((p.checkedBy q).result.errors.filter isCycleError).Perm (cs.filterMap Cycle.report?) ∧
      ∃ c ∈ cs, ∃ ts, SetCycle q ts ∧ LinksOf q c ts ∧ ∀ t ∈ ts, q.Twined ⟨1⟩ t := by
  have hrun : ((new false).addSources circularSets).toOption.any (fun p =>
      match checkAll p.duplicates p.startPass with
      | .ok (_,q) => q.chain.links.isEmpty && namesItself q ⟨1⟩ && q.store.sets.all fun d =>
          (classNow q.marker q.store d.governor).any fun c => (q.store.get? c).any (!·.erroneous)
      | .error _ => false) = true := by
    decide +kernel
  obtain ⟨p,hp,hrun⟩ := Notation.exists_of_toOption_any hrun
  have hreached := Reached.addSources (.new false) hp
  have governed : ∀ q, Gives (checkAll p.duplicates) p.startPass () q → SetsGoverned q := by
    intro q hq i d _ hd
    rw [show checkAll p.duplicates p.startPass = .ok ((),q) from hq] at hrun
    have hmem : d ∈ q.store.sets := Array.mem_of_getElem? hd
    have hclass := Array.all_eq_true_iff_forall_mem.mp (Bool.and_eq_true_iff.mp hrun).2 d hmem
    obtain ⟨c,hc,hrow⟩ := (Option.any_eq_true _ _).mp hclass
    obtain ⟨row,hrow,he⟩ := (Option.any_eq_true _ _).mp hrow
    exact ⟨c,row,hc,hrow,by simpa using he⟩
  obtain ⟨q,hq,hcheck,_,cs,hperm,_,hclosed,_⟩ := set_cycles_told hreached (by decide) governed
  rw [show checkAll p.duplicates p.startPass = .ok ((),q) from hq] at hrun
  obtain ⟨hlinks,hself⟩ := Bool.and_eq_true_iff.mp (Bool.and_eq_true_iff.mp hrun).1
  have hedge : q.Edge ⟨1⟩ ⟨1⟩ := edge_of_namesItself (by simpa using hlinks) hself
  exact ⟨p,hp,hreached,by decide,governed,q,hcheck,cs,hperm,hclosed ⟨1⟩ ⟨.single hedge,.single hedge⟩⟩

end InfoObject.Project
