import InfoObject.Proofs.Circuits

/-! Cycles of references, in a project where no class is that of an object. -/
namespace InfoObject.Check
open Model

/-- No class in a module in use is that of an object. -/
def NoClassOf (s : Store) : Prop :=
  ∀ (i : Id .classRef) (r : ClassRef), s.get? i = some r → r.scope ∈ s.kept → r.ofObject = false

/-- A cycle of references, each of which points to the next and was written in a module in use. -/
structure Ring (s : Store) (as : List Alias) : Prop where
  nonempty : as ≠ []
  distinct : as.Nodup
  closed : Cycle.Chain (Points s) (as : Cycle Alias)
  housed : ∀ a ∈ as, Housed s a

def Alias.link? (s : Store) : Alias → Option Link
  | .type i => (s.get? i).map fun r => ⟨i.key,r.name,r.location⟩
  | .value i => (s.get? i).map fun r => ⟨i.key,r.name,r.location⟩
  | .objectClass i => (s.get? i).map fun r => ⟨i.key,r.name,r.location⟩

section Graph
variable {s s' : Store} {a b : Alias} {as bs : List Alias}

/-! References that were written in modules in use -/

theorem Denotes.declares (hk : scope ∈ s.kept) (h : Denotes s scope r d) : Declares s d := by
  have found : ∀ {i : Id .module} {name : String}, i ∈ s.kept → Assigns s i name d → Declares s d := by
    rintro i name hi ⟨m,a,hm,ha,rfl⟩
    exact ⟨i,hi,m,hm,a,ha.mem,rfl⟩
  cases h with
  | qualified _ hi ha | imported _ _ _ _ hi ha => exact found hi.mem ha
  | own _ ha => exact found hk ha

theorem Declares.housed (hs : Sane s) (hd : Declares s d) (ha : d.alias? = some a) : Housed s a := by
  have hh := hd.homed hs
  unfold Declared.alias? at ha
  split at ha
  · exact Option.some.inj ha ▸ hh
  · exact Option.some.inj ha ▸ hh.2
  · exact Option.some.inj ha ▸ hh
  · contradiction

theorem Housed.present (h : Housed s a) : a.Present s := by
  cases a with
  | type i | value i | objectClass i =>
    obtain ⟨r,hr,_⟩ := h
    exact ⟨r,hr⟩

theorem Housed.points (ha : Housed s a) (h : Points s a b) : ∃ d, Declares s d ∧ d.alias? = some b := by
  unfold Points at h
  generalize ht : Turn.on b = t at h
  cases h with
  | type hr ho =>
    obtain ⟨r',hr',hk⟩ := ha
    cases hr.symm.trans hr'
    obtain ⟨d,rfl,hd⟩ := typeTurn_on ht.symm
    exact ⟨d,Denotes.declares hk ((ho d).mp rfl),hd⟩
  | value hr ho =>
    obtain ⟨r',hr',hk⟩ := ha
    cases hr.symm.trans hr'
    obtain ⟨d,rfl,hd⟩ := valueTurn_on ht.symm
    exact ⟨d,Denotes.declares hk ((ho d).mp rfl),hd⟩
  | objectClass hr _ ho =>
    obtain ⟨r',hr',hk⟩ := ha
    cases hr.symm.trans hr'
    obtain ⟨d,rfl,hd⟩ := classTurn_on ht.symm
    exact ⟨d,Denotes.declares hk ((ho d).mp rfl),hd⟩

theorem NoClassOf.onward (ho : Onward s s') (h : NoClassOf s) : NoClassOf s' := by
  intro i r' hr' hk
  cases hr : s.get? i with
  | none =>
    have := ho.written .classRef trivial i hr
    rw [show s'.get? i = some r' from hr'] at this
    contradiction
  | some r =>
    obtain ⟨r'',hr'',hb⟩ := ho.more.rows _ i r hr
    cases hr'.symm.trans hr''
    obtain ⟨hname,hof⟩ := ClassRef.bare_eq_iff.mp hb
    rw [hof]
    exact h i r hr (by rwa [← scope_of_bare hname,← ho.kept])

theorem Housed.not_solid (hn : NoClassOf s) (h : Housed s a) : ¬ Solid s a.key := by
  intro hsolid
  generalize hk : a.key = k at hsolid
  cases hsolid with
  | object i | set i | elements i => cases a <;> exact Id.key_ne (by decide) _ i hk
  | @classOf i r hr ho =>
    obtain rfl : a = .objectClass i := Alias.key_inj hk
    obtain ⟨r',hr',hscope⟩ := h
    cases hr.symm.trans hr'
    rw [hn i r hr hscope] at ho
    contradiction

/-! Rings -/

theorem Ring.declared (h : Ring s as) (ha : a ∈ as) : ∃ d, Declares s d ∧ d.alias? = some a := by
  obtain ⟨b,hb,hba⟩ := exists_before h.closed ha
  exact (h.housed b hb).points hba

theorem Ring.onRing (h : Ring s as) (ha : a ∈ as) : OnRing s a :=
  Cycle.chain_iff_pairwise.mp (h.closed.imp fun _ _ => Relation.TransGen.single) a ha a ha

theorem Ring.leads (h : Ring s as) (ha : a ∈ as) (hab : Model.Leads s a b) : b ∈ as := by
  induction hab with
  | refl => exact ha
  | tail _ hbc ih =>
    obtain ⟨d,hd,hbd⟩ := exists_after h.closed ih
    exact hbc.unique hbd ▸ hd

theorem Ring.back (hs : Sane s) (ho : Onward s s') (h : Ring s' as) : Ring s as := by
  have housed : ∀ a ∈ as, Housed s a := by
    intro a ha
    obtain ⟨d,hd,hda⟩ := h.declared ha
    exact Declares.housed hs (Declares.back ho.stays hs hd) hda
  exact ⟨h.nonempty,h.distinct,chain_imp_of_mem h.closed fun a ha b _ hab => Turns.back ho (housed a ha).present hab,housed⟩

theorem Ring.rotated (h : Ring s as) (hr : as ~r bs) : Ring s bs where
  nonempty hn := h.nonempty (List.isRotated_nil_iff.mp (hn ▸ hr))
  distinct := hr.nodup_iff.mp h.distinct
  closed := Cycle.coe_eq_coe.mpr hr ▸ h.closed
  housed a ha := h.housed a (hr.mem_iff.mpr ha)

theorem path_unique (ha : (a::(as++[z])).IsChain (Points s)) (hb : (a::(bs++[z])).IsChain (Points s)) (hza : z ∉ as)
    (hzb : z ∉ bs) : as = bs := by
  induction as generalizing a bs with
  | nil =>
    have hstep : Points s a z := (List.isChain_cons_cons.mp ha).1
    cases bs with
    | nil => rfl
    | cons b bs =>
      have hb := (List.isChain_cons_cons.mp hb).1
      exact absurd (hstep.unique hb ▸ List.mem_cons_self) hzb
  | cons c as ih =>
    obtain ⟨hac,ha⟩ := List.isChain_cons_cons.mp ha
    cases bs with
    | nil =>
      have hstep : Points s a z := (List.isChain_cons_cons.mp hb).1
      exact absurd (hstep.unique hac ▸ List.mem_cons_self) hza
    | cons b bs =>
      obtain ⟨hab,hb⟩ := List.isChain_cons_cons.mp hb
      obtain rfl := hac.unique hab
      rw [ih ha hb (fun h => hza (List.mem_cons_of_mem _ h)) fun h => hzb (List.mem_cons_of_mem _ h)]

theorem Ring.unique (ha : Ring s as) (hb : Ring s bs) (h : a ∈ as) (h' : a ∈ bs) : as ~r bs := by
  obtain ⟨us,hus⟩ := isRotated_of_mem h
  obtain ⟨vs,hvs⟩ := isRotated_of_mem h'
  have hu := ha.rotated hus
  have hv := hb.rotated hvs
  have huv : us = vs := path_unique ((Cycle.chain_coe_cons _ a us).mp hu.closed) ((Cycle.chain_coe_cons _ a vs).mp hv.closed)
    (List.nodup_cons.mp hu.distinct).1 (List.nodup_cons.mp hv.distinct).1
  exact hus.trans (huv ▸ hvs.symm)

end Graph

/-! Circuits of references are rings -/

section Circuits
variable {s s' : Store} {p q : Pass} {a b : Alias} {as bs : List Alias} {c : List Link} {cs ds : List (List Link)} {k : Nat}

theorem Pass.Joins.points (hn : NoClassOf p.store) (ha : Housed p.store a) (h : p.Joins a.key k) :
    ∃ b, Points p.store a b ∧ b.key = k := by
  rcases h.1 with hsolid | hhands
  · exact absurd hsolid (ha.not_solid hn)
  · exact hhands.points

theorem Circuit.ring (h : Circuit p c) (hs : Sane p.store) (hn : NoClassOf p.store) (hl : l ∈ c)
    (ha : a.key = l.key) : ∃ as, Ring p.store as ∧ Cycle.keys c = as.map Alias.key := by
  have hkeys : ∀ k ∈ Cycle.keys c, ∃ b : Alias, b.key = k ∧ Housed p.store b := by
    refine handed_on (P := fun k => ∃ b : Alias, b.key = k ∧ Housed p.store b) h.joined ?_ (List.mem_map_of_mem hl)
      ⟨a,ha,(h.shown l hl).housed a ha⟩
    rintro k j hkj ⟨b,rfl,hb⟩
    obtain ⟨d,hbd,rfl⟩ := hkj.points hn hb
    obtain ⟨e,he,hed⟩ := hb.points hbd
    exact ⟨d,rfl,Declares.housed hs he hed⟩
  obtain ⟨as,has⟩ := exists_map_eq fun k hk => (hkeys k hk).imp fun _ => And.left
  have housed : ∀ b ∈ as, Housed p.store b := by
    intro b hb
    obtain ⟨d,hd,hhd⟩ := hkeys b.key (has ▸ List.mem_map_of_mem hb)
    exact Alias.key_inj hd ▸ hhd
  refine ⟨as,⟨?_,?_,?_,housed⟩,has.symm⟩
  · rintro rfl
    exact h.nonempty (List.map_eq_nil_iff.mp has.symm)
  · exact List.Nodup.of_map Alias.key (has ▸ h.distinct)
  · have hjoined : Cycle.Chain (fun a b : Alias => p.Joins a.key b.key) (as : Cycle Alias) := by
      rw [← Cycle.chain_map,Cycle.map_coe,has]
      exact h.joined
    refine chain_imp_of_mem hjoined fun a ha b _ hab => ?_
    obtain ⟨d,had,hd⟩ := hab.points hn (housed a ha)
    exact Alias.key_inj hd ▸ had

theorem Shows.link? (ho : Onward s s') (h : Shows s' l) (ha : a.key = l.key) (hp : a.Present s) : Alias.link? s a = some l := by
  obtain ⟨⟨t,i,row',hrow',hk,hlabel⟩,_⟩ := h
  have settle : ∀ {u : EntityType} {j : Id u} {row : Row u}, s.get? j = some row → j.key = l.key →
      label row = some (l.name,l.location) := by
    intro u j row hrow hj
    obtain ⟨rfl,rfl⟩ := Id.eq_of_key (hk.trans hj.symm)
    obtain ⟨row'',hrow'',hb⟩ := ho.more.rows t i row hrow
    cases hrow'.symm.trans hrow''
    exact (label_of_bare hb).symm.trans hlabel
  cases a with
  | type j | value j | objectClass j =>
    obtain ⟨row,hrow⟩ := hp
    have := settle (j := j) hrow ha
    simp_all [Alias.link?,label,Alias.key]

theorem links_of_keys (ho : Onward s s') (hshown : ∀ l ∈ c, Shows s' l) (hp : ∀ a ∈ as, a.Present s)
    (hk : Cycle.keys c = as.map Alias.key) : c.map some = as.map (Alias.link? s) := by
  induction c generalizing as with
  | nil =>
    obtain rfl : as = [] := List.map_eq_nil_iff.mp hk.symm
    rfl
  | cons l c ih =>
    cases as with
    | nil => contradiction
    | cons a as =>
      obtain ⟨hl,hc⟩ := List.cons.inj hk
      rw [List.map_cons,List.map_cons,ih (fun m hm => hshown m (List.mem_cons_of_mem _ hm))
        (fun b hb => hp b (List.mem_cons_of_mem _ hb)) hc,(hshown l List.mem_cons_self).link? ho hl.symm (hp a List.mem_cons_self)]

/-- A cycle through a reference is the ring of the reference, as it was when the check began. -/
theorem Circuit.ring_before (h : Circuit p c) (hs : Sane s) (hs' : Sane p.store) (ho : Onward s p.store) (hn : NoClassOf s)
    (hl : l ∈ c) (ha : a.key = l.key) : ∃ as, Ring s as ∧ a ∈ as ∧ c.map some = as.map (Alias.link? s) := by
  obtain ⟨as,hring,hkeys⟩ := h.ring hs' (hn.onward ho) hl ha
  have hring := hring.back hs ho
  refine ⟨as,hring,?_,links_of_keys ho h.shown (fun b hb => (hring.housed b hb).present) hkeys⟩
  have hmem : a.key ∈ as.map Alias.key := hkeys ▸ ha ▸ List.mem_map_of_mem hl
  obtain ⟨b,hb,hba⟩ := List.mem_map.mp hmem
  exact Alias.key_inj hba ▸ hb

theorem links_rotated (h : as ~r bs) (hc : c.map some = as.map f) (hd : d.map some = bs.map f) : c ~r d := by
  obtain ⟨n,rfl⟩ := h
  refine ⟨n,List.map_injective_iff.mpr (Option.some_injective Link) ?_⟩
  rw [List.map_rotate,hc,hd,List.map_rotate]

theorem Traced.unique (h : Traced cs p) (hc : c ∈ cs) (hd : d ∈ cs) (hcd : c ~r d) : c = d := by
  obtain ⟨c',hc'⟩ := h.least c hc
  obtain ⟨d',hd'⟩ := h.least d hd
  have hkeys : Cycle.keys c = Cycle.keys d := by
    rw [hc',hd']
    refine Cycle.keys_canonical ((Cycle.canonical_isRotated c').trans ?_)
    rw [← hc']
    exact hcd.trans (hd' ▸ (Cycle.canonical_isRotated d').symm)
  exact List.inj_on_of_nodup_map h.once hc hd hkeys

theorem Traced.names_le (h : Traced cs p) (hc : c ∈ cs) (hcd : c ~r d) : Cycle.names c ≤ Cycle.names d := by
  obtain ⟨c',rfl⟩ := h.least c hc
  exact Cycle.names_canonical_le ((Cycle.canonical_isRotated c').trans hcd)

/-! No ring is missed -/

/-- For each reference on a ring that was found, the ring was closed on the chain, or told of. -/
def Caught (s : Store) (cs : List (List Link)) (p : Pass) : Prop := ∀ a x, OnRing s a → p.Finds a.key x →
  ∃ c ∈ p.chain.cycles++cs, ∃ b, Model.Leads s a b ∧ b.key ∈ Cycle.keys c

theorem Caught.pace (h : Caught s cs p) (ho : Onward s p.store) (hk : Pace R p q)
    (hkeep : ∀ c ∈ p.chain.cycles++cs, ∃ d ∈ q.chain.cycles++ds, Cycle.keys c ~r Cycle.keys d) : Caught s ds q := by
  have old : ∀ a x, OnRing s a → p.Finds a.key x → ∃ c ∈ q.chain.cycles++ds, ∃ b, Model.Leads s a b ∧ b.key ∈ Cycle.keys c := by
    intro a x ha hx
    obtain ⟨c,hc,b,hab,hb⟩ := h a x ha hx
    obtain ⟨d,hd,hcd⟩ := hkeep c hc
    exact ⟨d,hd,b,hab,hcd.mem_iff.mp hb⟩
  intro a x ha hx
  cases hk with
  | tick hk =>
    cases hk with
    | still hk => exact old a x ha (hk.finds_iff.mp hx)
    | enter | meet => exact old a x ha hx
    | @close t i y r r' n l hs hopen hnext hon =>
      rcases hs.finds_iff.mp hx with ⟨hai,_⟩ | ⟨_,hx⟩
      · -- the reference is met on the chain, and what is on the chain from there on is closed
        obtain ⟨m,ms,hdrop,hm,_⟩ := closing_suffix (S := fun _ _ => True) (List.pairwise_of_forall fun _ _ => trivial).isChain
          (fun _ _ => trivial) hon
        refine ⟨m::ms,?_,a,.refl,?_⟩
        · simp only [Pass.add_met (l := ⟨i.key,n,l⟩) hon,hdrop]
          simp
        · rw [hai,← hm]
          exact List.mem_cons_self
      · exact old a x ha hx
    | @leave t i y r r' l ls ds hs htop hlk hA hsuits =>
      rcases hs.finds_iff.mp hx with ⟨hai,rfl⟩ | ⟨_,hx⟩
      · -- the reference was found to mean what the next one means, which is on the same ring
        obtain ⟨b,hab,hb⟩ := ha.next
        obtain ⟨c,hc,d,hbd,hd⟩ := old b x hb (hsuits a (.on b) hai (hab.onward ho))
        exact ⟨c,hc,d,.head hab hbd,hd⟩
      · exact old a x ha hx
    | drop => exact old a x ha (finds_put_set.mp hx)
  | stamp _ hr => exact old a x ha ((finds_stamp hr).mp hx)
  | finish => exact old a x ha hx

theorem Traced.paces (ht : Traced cs p) (hc : Caught s cs p) (hp : Tidy True p) (ho : Onward s p.store)
    (hk : Paces True p q) : ∃ ds, Traced ds q ∧ Caught s ds q := by
  induction hk with
  | refl => exact ⟨cs,ht,hc⟩
  | tail hk h ih =>
    obtain ⟨ds,ht,hc⟩ := ih
    obtain ⟨told,ht',hkeep⟩ := ht.pace (Paces.tidy hk hp) h
    exact ⟨told++ds,ht',hc.pace (ho.trans (Paces.onward hk)) h hkeep⟩

end Circuits

end InfoObject.Check

namespace InfoObject.Project
open Model Check

section Told
variable {n : Nat} {p : Project}

/-- In a project where no class is that of an object, the cycles that a check tells of and that have a reference among
their links are the rings of references: each ring is told of once, from the link where the names are least, and its
references are listed in the order in which they point to each other. -/
theorem rings_told_once (h : Reached n p) (hn : n+1 < 2^64) (hc : NoClassOf p.store) :
    ∃ q, Gives (checkAll p.duplicates) p.startPass () q ∧ p.runCheck = .ok (p.checkedBy q) ∧ ∃ cs : List (List Link),
      ((p.checkedBy q).result.errors.filter isCycleError).Perm (cs.filterMap Cycle.report?) ∧ cs.Nodup ∧
      (∀ c ∈ cs, (∃ l ls, c = l::ls ∧ Cycle.report? c = some ⟨.circularReference (Cycle.names c++[l.name]),l.location,none⟩) ∧
        ∀ d, c ~r d → Cycle.names c ≤ Cycle.names d) ∧ (∀ c ∈ cs, ∀ l ∈ c, ∀ a : Alias, a.key = l.key →
        ∃ as, Ring p.store as ∧ a ∈ as ∧ c.map some = as.map (Alias.link? p.store)) ∧
      (∀ as, Ring p.store as → ∃! c, c ∈ cs ∧ ∃ bs, as ~r bs ∧ c.map some = bs.map (Alias.link? p.store)) ∧
      ∀ a, ¬ OnRing p.store a → ∀ c ∈ cs, ∀ l ∈ c, l.key ≠ a.key := by
  have hsound := h.sound (Nat.lt_of_succ_lt hn)
  have htidy := hsound.tidy hn True
  obtain ⟨q,hq,_⟩ := h.steady.pass
  have hpaces := (hq.checkAll_round rfl htidy).paces
  have honward : Onward p.store q.store := hpaces.onward
  have hsane : Sane q.store := (hpaces.tidy htidy).sane
  obtain ⟨cs,htraced,hcaught⟩ := Traced.paces (s := p.store) (Traced.start p) (fun a x _ hx => absurd hx (hsound.not_finds hn _ x))
    htidy (.refl _) hpaces
  have hcircuit : ∀ c ∈ cs, Circuit q c := fun c hmem => htraced.circuits c (List.mem_append_right _ hmem)
  have hring : ∀ c ∈ cs, ∀ l ∈ c, ∀ a : Alias, a.key = l.key →
      ∃ as, Ring p.store as ∧ a ∈ as ∧ c.map some = as.map (Alias.link? p.store) :=
    fun c hmem l hl a ha => (hcircuit c hmem).ring_before hsound.sane hsane honward hc hl ha
  refine ⟨q,hq,runCheck_eq_ok.mpr ⟨q,hq,rfl⟩,cs,htraced.told ▸ cycleErrors_perm p q,htraced.once.of_map,fun c hmem => ⟨?_,
    fun d hd => htraced.names_le hmem hd⟩,hring,fun as has => ?_,fun a hno c hmem l hl hla => ?_⟩
  · obtain ⟨l,ls,rfl⟩ := List.exists_cons_of_ne_nil (hcircuit c hmem).nonempty
    exact ⟨l,ls,rfl,rfl⟩
  · obtain ⟨a,ha⟩ := List.exists_mem_of_ne_nil as has.nonempty
    obtain ⟨d,hd,hda⟩ := has.declared ha
    obtain ⟨x,hx⟩ := hq.checkAll_finds rfl htidy (hsound.fresh hn) (hsound.sealed hn) hd hda
    obtain ⟨c,hmem,b,hab,hb⟩ := hcaught a x (has.onRing ha) hx
    have hidle : q.chain.cycles = [] := (hq.checkAll_tour ⟨rfl,rfl,fun hne => absurd rfl hne⟩).idle.cycles
    rw [hidle,List.nil_append] at hmem
    obtain ⟨l,hl,hlb⟩ := List.mem_map.mp hb
    obtain ⟨bs,hbs,hmemb,hlinks⟩ := hring c hmem l hl b hlb.symm
    have hrot : as ~r bs := has.unique hbs (has.leads ha hab) hmemb
    refine ⟨c,⟨hmem,bs,hrot,hlinks⟩,?_⟩
    rintro d ⟨hd,ds,hds,hdlinks⟩
    exact htraced.unique hd hmem (links_rotated (hds.symm.trans hrot) hdlinks hlinks)
  · obtain ⟨as,has,ha,_⟩ := hring c hmem l hl a hla.symm
    exact hno (has.onRing ha)

end Told

def circularSources : List (String × String) :=
  [("m.asn","M DEFINITIONS ::= BEGIN IMPORTS Far FROM N; Near ::= Far Into ::= Near v Near ::= w w Near ::= v C ::= D D ::= C END"),
   ("n.asn","N DEFINITIONS ::= BEGIN IMPORTS Near FROM M; Far ::= Near x Far ::= 5 END")]

theorem rings_told_once_circularSources : ∃ p, (new false).addSources circularSources = .ok p ∧ Reached 0 p ∧ 0+1 < 2^64 ∧
    NoClassOf p.store ∧ ∃ q, Gives (checkAll p.duplicates) p.startPass () q ∧ p.runCheck = .ok (p.checkedBy q) ∧
      ∃ cs : List (List Link), ((p.checkedBy q).result.errors.filter isCycleError).Perm (cs.filterMap Cycle.report?) ∧
        cs.Nodup ∧ ∀ as, Ring p.store as → ∃! c, c ∈ cs ∧ ∃ bs, as ~r bs ∧ c.map some = bs.map (Alias.link? p.store) := by
  have hnone : ((new false).addSources circularSources).toOption.any
      (fun p => p.store.classRefs.all fun r => !r.ofObject) = true := by
    decide +kernel
  obtain ⟨p,hp,hall⟩ := Notation.exists_of_toOption_any hnone
  have hclass : NoClassOf p.store := by
    intro i r hr _
    have hmem : r ∈ p.store.classRefs := Array.mem_of_getElem? hr
    simpa using Array.all_eq_true_iff_forall_mem.mp hall r hmem
  have hreached := Reached.addSources (.new false) hp
  obtain ⟨q,hq,hrun,cs,hperm,hnodup,_,_,hrings,_⟩ := rings_told_once hreached (by decide) hclass
  exact ⟨p,hp,hreached,by decide,hclass,q,hq,hrun,cs,hperm,hnodup,hrings⟩

end InfoObject.Project
