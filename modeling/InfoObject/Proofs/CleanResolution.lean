import InfoObject.Proofs.Targets

/-! Resolution in a clean pass: it leaves all well, so whatever it finds is good. -/
namespace InfoObject.Check
open Model

variable {p q : Pass}

theorem Gives.reportError_not_clean (h : Gives (reportError f l o) p u q) : ¬ q.Clean := by
  rw [gives_reportError.mp h]
  exact fun hc => hc.reports ⟨_,List.mem_cons_self ..⟩

theorem Gives.reportKind_clean {d : Declared} (h : Gives (reportKind r want d.kind) p u q) (hq : q.Clean) : d = .malformed := by
  simp only [reportKind,gives_ite] at h
  rcases h with ⟨hk,_⟩ | ⟨_,h⟩
  · cases d <;> first | rfl | simp [Declared.kind] at hk
  · exact absurd hq h.reportError_not_clean

theorem Gives.reportClassMismatch_not_clean (h : Gives (reportClassMismatch r a b) p u q) : ¬ q.Clean := by
  simp only [reportClassMismatch,gives_bind,gives_load] at h
  obtain ⟨_,_,_,_,_,_,h⟩ := h
  exact h.reportError_not_clean

/-! What names were found to mean -/

def typeNow (m : Marker) (s : Store) (i : Id .typeRef) : Option TypeTarget :=
  (s.get? i).bind fun r => found m r.resolution

theorem Gives.typeWithin_found (h : Gives (typeWithin n i) p x q) : typeNow q.marker q.store i = some x := by
  cases n with
  | zero => exact absurd h gives_throw
  | succ n =>
    rw [typeWithin_succ] at h
    exact h.once_now

theorem Ready.type_found (h : Ready p) (hx : typeNow p.marker p.store i = some x) : ∃ b, x = some b := by
  obtain ⟨r,hr,hf⟩ := Option.bind_eq_some_iff.mp hx
  exact h.targets .typeRef i r hr x hf

def valueNow (m : Marker) (s : Store) : ValueExpr → Option ValueTarget
  | .literal _ _ v => some (some v)
  | .reference i => (s.get? i).bind fun r => found m r.resolution

theorem Gives.valueWithin_found (h : Gives (valueWithin n v) p x q) : valueNow q.marker q.store v = some x := by
  cases v with
  | literal a b c =>
    obtain ⟨rfl,_⟩ := gives_valueWithin_literal.mp h
    rfl
  | reference i =>
    cases n with
    | zero => exact absurd h gives_throw
    | succ n =>
      rw [valueWithin_succ] at h
      exact h.once_now

theorem Ready.value_found (h : Ready p) (hx : valueNow p.marker p.store v = some x) : ∃ l, x = some l := by
  cases v with
  | literal a b c => exact ⟨c,(Option.some.inj hx).symm⟩
  | reference i =>
    obtain ⟨r,hr,hf⟩ := Option.bind_eq_some_iff.mp hx
    exact h.targets .valueRef i r hr x hf

def objectNow (m : Marker) (s : Store) : ObjectExpr → Option (Id .objectDef)
  | .definition o => some o
  | .reference i => (s.get? i).bind fun r => found m r.resolution

theorem Gives.objectWithin_found (h : Gives (objectWithin n o) p x q) : objectNow q.marker q.store o = some x := by
  cases o with
  | definition d =>
    obtain ⟨rfl,_⟩ := gives_objectWithin_definition.mp h
    rfl
  | reference i =>
    cases n with
    | zero => exact absurd h gives_throw
    | succ n =>
      rw [objectWithin_succ] at h
      exact h.once_now

theorem Ready.object_found (h : Ready p) (hx : objectNow p.marker p.store o = some x) :
    o = .definition x ∨ Declares p.store (.object (.definition x)) := by
  cases o with
  | definition d => exact .inl (congrArg _ (Option.some.inj hx))
  | reference i =>
    obtain ⟨r,hr,hf⟩ := Option.bind_eq_some_iff.mp hx
    exact .inr (h.targets .objectRef i r hr x hf).declared

def setNow (m : Marker) (s : Store) : SetExpr → Option (Id .setDef)
  | .definition d => some d
  | .reference i => (s.get? i).bind fun r => found m r.resolution

theorem Ready.set_found (h : Ready p) (hx : setNow p.marker p.store d = some x) :
    d = .definition x ∨ Declares p.store (.objectSet (.definition x)) := by
  cases d with
  | definition d => exact .inl (congrArg _ (Option.some.inj hx))
  | reference i =>
    obtain ⟨r,hr,hf⟩ := Option.bind_eq_some_iff.mp hx
    exact .inr (h.targets .setRef i r hr x hf).declared

theorem Ready.class_declared (h : Ready p) (he : HomedClass p.store e) (hc : classNow p.marker p.store e = some c) :
    Declares p.store (.objectClass (.definition c)) := by
  cases e with
  | definition d =>
    obtain rfl := Option.some.inj hc
    exact he
  | reference i =>
    obtain ⟨r,hr,hf⟩ := Option.bind_eq_some_iff.mp hc
    exact h.targets .classRef i r hr c hf

/-! What follows classes, objects and sets -/

/-- References with a governor that was not resolved are not resolved themselves. -/
structure Unread (m : Marker) (s : Store) (g : Id .classRef) : Prop where
  objects : ∀ (i : Id .objectRef) r, s.get? i = some r → r.governor = .reference g → found m r.resolution = none
  sets : ∀ (i : Id .setRef) r, s.get? i = some r → r.governor = .reference g → found m r.resolution = none

theorem Ready.unread (h : Ready p) (hg : classNow p.marker p.store (.reference g) = none) : Unread p.marker p.store g := by
  constructor
  all_goals
    intro i r hr hgov
    by_contra hf
    obtain ⟨x,hx⟩ := Option.ne_none_iff_exists'.mp hf
    obtain ⟨_,_,_,_,_,hc⟩ := (h.targets _ i r hr x hx).governed
    have hc' : classNow p.marker p.store r.governor = _ := hc
    rw [hgov,hg] at hc'
    contradiction

theorem Unread.put {g i : Id .classRef} (h : Unread m s g) : Unread m (s.put i r) g := by
  constructor
  · intro j row hrow
    exact h.objects j row ((Store.get?_put_other (t := .classRef) (u := .objectRef) (by decide) i r j).symm.trans hrow)
  · intro j row hrow
    exact h.sets j row ((Store.get?_put_other (t := .classRef) (u := .setRef) (by decide) i r j).symm.trans hrow)

/-- What follows classes leaves all well, and does not resolve what waits for the class. -/
structure FollowsWell (f : ClassExpr → Checking (Id .classDef)) : Prop where
  keeps : ∀ e, Keeps True (f e)
  follows : Follows f
  ready : ∀ e p c q, Gives (f e) p c q → q.Clean → Ready p → HomedClass p.store e → Ready q
  waits : ∀ e p c q, Gives (f e) p c q → q.Clean → Ready p → HomedClass p.store e →
    q = p ∨ ∃ g, e = .reference g ∧ Unread q.marker q.store g

structure FollowsMembersWell {E : Type} {t : EntityType} (D : E → Declared) (now : Marker → Store → E → Option (Id t))
    (f : E → Checking (Id t)) : Prop where
  keeps : ∀ e, Keeps True (f e)
  follows : ∀ e p x q, Gives (f e) p x q → now q.marker q.store e = some x
  ready : ∀ e p x q, Gives (f e) p x q → q.Clean → Ready p → HomedDeclared p.store (D e) → Ready q

abbrev FollowsObjectsWell := FollowsMembersWell Declared.object objectNow

abbrev FollowsSetsWell := FollowsMembersWell Declared.objectSet setNow

theorem FollowsMembersWell.budget {E : Type} {t : EntityType} {D : E → Declared} {now : Marker → Store → E → Option (Id t)}
    {f : Nat → E → Checking (Id t)} (h : ∀ n, FollowsMembersWell D now (f n)) :
    FollowsMembersWell D now (fun e => do f (← Check.budget) e) := by
  exact ⟨fun e => keeping.bind keeping.budget fun n => (h n).keeps e,
    fun e p x q hg => (h p.budget).follows e p x q hg.within,
    fun e p x q hg => (h p.budget).ready e p x q hg.within⟩

theorem Gives.classesDiffer_clean (h : Gives (classesDiffer a b) p d q) (hp : Ready p)
    (ha : Declares p.store (.objectClass (.definition a))) (hb : Declares p.store (.objectClass (.definition b))) : q = p ∧
    (d = false → a = b) := by
  simp only [classesDiffer,gives_bind,gives_load,gives_pure] at h
  obtain ⟨g,_,⟨hg,rfl⟩,e,_,⟨he,rfl⟩,rfl,rfl⟩ := h
  exact ⟨rfl,fun hd => by simpa [(ha.class_row hp.sane hg).1,(hb.class_row hp.sane he).1] using hd⟩

theorem Gives.settle_clean (hk : Keeps True govern) (hs : Keeps True standIn)
    (h : Gives (settle r e false govern standIn y) p x q) (hq : q.Clean)
    (he : Declares p.store (.objectClass (.definition e))) (hg : ∀ c p1, Gives govern p c p1 → p1.Clean → Ready p1 ∧
    Declares p1.store (.objectClass (.definition c))) : x = y ∧ Gives govern p e q := by
  simp only [settle,Bool.false_eq_true,if_false] at h
  obtain ⟨c,p1,hc,h⟩ := gives_bind.mp h
  obtain ⟨b,p2,hb,h⟩ := gives_bind.mp h
  have k1 := hk _ _ _ hc
  have k2 := keeping.classesDiffer _ _ _ hb
  cases b with
  | true =>
    obtain ⟨_,p3,h3,h⟩ := gives_bind.mp h
    exact absurd (hs.clean h hq) h3.reportClassMismatch_not_clean
  | false =>
    obtain ⟨rfl,rfl⟩ := gives_pure.mp h
    obtain ⟨hr1,hcd⟩ := hg c p1 hc (k2.toEvolves.clean hq)
    obtain ⟨rfl,hce⟩ := hb.classesDiffer_clean hr1 hcd (he.mono k1.stays)
    obtain rfl := hce rfl
    exact ⟨rfl,hc⟩

/-! Steps that leave all well -/

section Steps
variable {t : EntityType} {τ : Type} (hq : q.Clean) (hp : Ready p)
include hq hp

/-- Without errors, a name is declared as what is followed, unless it is absent. -/
theorem Gives.seek_clean (h : Gives (seek r want sel absent wrong follow) p x q) (hw : Keeps True wrong) (hr : r.scope ∈ p.store.kept) : ∃ p1, Plain p p1 ∧ Ready p1 ∧
    (Gives absent p1 x q ∨ ∃ d e, Declares p1.store d ∧ sel d = some e ∧ Gives (follow e) p1 x q) := by
  obtain ⟨a,s,p1,ha,hplain,h⟩ := gives_seek h
  have hready := hp.plain hplain
  have hdecl : ∀ b, a = some b → Declares p1.store b.declared := fun b hb =>
    (lookup_declares hp.sane hr (hb ▸ ha)).mono hplain.stays
  refine ⟨p1,hplain,hready,?_⟩
  rcases h with ⟨_,h⟩ | ⟨b,_,hb,_,hk,h⟩ | ⟨b,e,hb,hsel,h⟩
  · exact .inl h
  · exact absurd (hk.reportKind_clean (hw.clean h hq) ▸ hdecl b hb) hready.formed
  · exact .inr ⟨_,e,hdecl b hb,hsel,h⟩

theorem Gives.seekOr_clean (h : Gives (seekOr r want sel standIn follow) p x q) (hs : Keeps True standIn) (hr : r.scope ∈ p.store.kept) : ∃ p1, Plain p p1 ∧ Ready p1 ∧
    ∃ d e, Declares p1.store d ∧ sel d = some e ∧ Gives (follow e) p1 x q := by
  obtain ⟨p1,hplain,hready,habsent | hfound⟩ := h.seek_clean hq hp hs hr
  · obtain ⟨_,_,h1,h2⟩ := gives_bind.mp habsent
    exact absurd (hs.clean h2 hq) h1.reportError_not_clean
  · exact ⟨p1,hplain,hready,hfound⟩

theorem Gives.once_ready {t : EntityType} [Referring t τ] {i : Id t} {search : Bool → Row t → Unit → Checking τ}
    (h : Gives (once i (fun _ => pure ()) search) p x q) (hks : ∀ b r, Keeps True (search b r ()))
    (hs : ∀ r p1 p2, p.store.get? i = some r → p1.store = p.store → Ready p1 → Gives (search true r ()) p1 x p2 → p2.Clean →
      Ready p2 ∧ ∀ r2, RowGood p2.marker p2.store i (Referring.resolve r2 ⟨x,p2.marker⟩)) : Ready q ∧ (q = p ∨
    ∃ p2 r2 r3 c, Ready p2 ∧ p2.store.get? i = some r2 ∧ found p2.marker (Referring.resolution r2) = none ∧
      q = {p2 with store := p2.store.put i r3, chain := c}) := by
  obtain ⟨r,hr,⟨_,rfl⟩ | ⟨hn,e,p1,p2,r2,c,ha⟩⟩ := gives_once.mp h
  · exact ⟨hp,.inl rfl⟩
  · have hprep := ha.prepared
    obtain ⟨_,rfl⟩ := gives_pure.mp hprep
    obtain ⟨hrq,hr2,hn2⟩ := ha.ready (.pure _) (fun b => hks b r) hq hp (fun h _ => ⟨h,r,hr,hn⟩)
      fun p1 hs1 _ hready hsearch hc => (hs r p1 p2 hr hs1 hready hsearch hc).imp_right fun hgood => hgood r2
    exact ⟨hrq,.inr ⟨p2,r2,_,c,hr2,ha.row,hn2,ha.result⟩⟩

theorem Gives.findType_clean (h : Gives (findType follow r) p x q)
    (hr : r.scope ∈ p.store.kept) : Ready q ∧ (∃ b, x = some b) ∨ ∃ p1 i, Ready p1 ∧ HomedType p1.store i ∧
    Gives (follow i) p1 x q := by
  rw [findType_eq] at h
  obtain ⟨p1,_,hr1,h | ⟨d,i,hd,hi,h⟩⟩ := h.seek_clean hq hp (.pure _) hr
  · unfold missingType at h
    split at h
    · obtain ⟨rfl,rfl⟩ := gives_pure.mp h
      exact .inl ⟨hr1,_,rfl⟩
    · simp only [gives_bind,gives_pure] at h
      obtain ⟨_,p2,h2,_,rfl⟩ := h
      exact absurd hq h2.reportError_not_clean
  · cases d <;> cases hi
    exact .inr ⟨p1,i,hr1,hd.homed hr1.sane,h⟩

theorem Gives.typeWithin_ready (h : Gives (typeWithin n i) p x q)
    (hi : HomedType p.store i) : Ready q := by
  induction n generalizing i p x q with
  | zero => exact absurd h gives_throw
  | succ n ih =>
    rw [typeWithin_succ] at h
    refine (h.once_ready hq hp (fun _ _ => .ite (keeping.findType (keeping.typeWithin n) ⟨⟩) (.pure _)) ?_).1
    intro r p1 p2 hr hs hready hsearch hc
    obtain ⟨row,hrow,hscope⟩ := hi
    cases hr.symm.trans hrow
    obtain ⟨hr2,hx⟩ : Ready p2 ∧ ∃ b, x = some b := by
      rcases hsearch.findType_clean hc hready (hs ▸ hscope) with h | ⟨p3,j,hr3,hj,hfollow⟩
      · exact h
      · have hr2 := ih hc hr3 hfollow hj
        exact ⟨hr2,hr2.type_found hfollow.typeWithin_found⟩
    refine ⟨hr2,fun _ t ht => ?_⟩
    cases (found_now ..).symm.trans ht
    exact hx

theorem Gives.resolveType_ready (h : Gives (resolveType i) p x q)
    (hi : HomedType p.store i) : Ready q ∧ ∃ b, x = some b ∧ typeNow q.marker q.store i = some (some b) := by
  replace h := h.within
  have hr := h.typeWithin_ready hq hp hi
  obtain ⟨b,rfl⟩ := hr.type_found h.typeWithin_found
  exact ⟨hr,b,rfl,h.typeWithin_found⟩

theorem Gives.valueWithin_ready (h : Gives (valueWithin n v) p x q)
    (hv : HomedValue p.store v) : Ready q := by
  induction n generalizing v p x q with
  | zero =>
    cases v with
    | literal => exact (gives_pure.mp h).2 ▸ hp
    | reference => exact absurd h gives_throw
  | succ n ih =>
    cases v with
    | literal => exact (gives_pure.mp h).2 ▸ hp
    | reference i =>
      rw [valueWithin_succ] at h
      refine (h.once_ready hq hp (fun _ _ => .ite (keeping.findValue (keeping.valueWithin n) ⟨⟩) (.pure _)) ?_).1
      intro r p1 p2 hr hs hready hsearch hc
      obtain ⟨row,hrow,hscope⟩ := hv
      cases hr.symm.trans hrow
      rw [if_pos rfl,findValue_eq] at hsearch
      obtain ⟨p3,_,hr3,d,w,hd,hw,hfollow⟩ := hsearch.seekOr_clean hc hready (.pure _) (hs ▸ hscope)
      cases d <;> cases hw
      have hr2 := ih hc hr3 hfollow (hd.homed hr3.sane).2
      refine ⟨hr2,fun _ t ht => ?_⟩
      cases (found_now ..).symm.trans ht
      exact hr2.value_found hfollow.valueWithin_found

theorem Gives.resolveValue_ready (h : Gives (resolveValue v) p x q)
    (hv : HomedValue p.store v) : Ready q ∧ ∃ l, x = some l ∧ valueNow q.marker q.store v = some (some l) := by
  replace h := h.within
  have hr := h.valueWithin_ready hq hp hv
  obtain ⟨l,rfl⟩ := hr.value_found h.valueWithin_found
  exact ⟨hr,l,rfl,h.valueWithin_found⟩

theorem Gives.govern_ready [HasGovernor t] {i : Id t} {a : Row t} (hw : FollowsWell f)
    (h : Gives (noteGovernor f i) p c q) (ha : p.store.get? i = some a)
    (hg : HomedClass p.store (HasGovernor.governor a)) : Ready q ∧ Declares q.store (.objectClass (.definition c)) ∧ ∃ b,
    q.store.get? i = some (HasGovernor.note b c) ∧
    classNow q.marker q.store (HasGovernor.governor (HasGovernor.note b c)) = some c := by
  obtain ⟨_,b,p1,ha',hc,hb,hgov,hput,e⟩ := gives_govern hw.keeps hw.follows h
  cases ha.symm.trans ha'
  have k := hw.keeps _ _ _ _ hc
  have hnow := hw.follows _ _ _ _ hc
  have hr1 := hw.ready _ _ _ _ hc (e.toEvolves.clean hq) hp hg
  have hdecl := hr1.class_declared (HomedClass.mono k.stays hg) hnow
  refine ⟨hr1.plain e,hdecl.mono e.stays,b,?_,?_⟩
  · rw [hput]
    exact Store.get?_put_self hb
  · rw [HasGovernor.bare (HasGovernor.moves p1.marker b c).bare_eq,hgov]
    exact e.toGrows.classNow objectsOnly_false hnow

theorem Gives.governObject_ready (hw : FollowsWell f) (h : Gives (governObject f i) p c q)
    (hi : HomedObject p.store (.definition i)) : Ready q ∧ Declares q.store (.objectClass (.definition c)) ∧ ∃ o,
    q.store.get? i = some o ∧ o.objectClass = some c ∧ classNow q.marker q.store o.governor = some c := by
  obtain ⟨row,_,hrow,_,_,_,_,hg⟩ := hi
  obtain ⟨hr,hdecl,_,ho,hnow⟩ := Gives.govern_ready (t := .objectDef) hq hp hw h hrow hg
  exact ⟨hr,hdecl,_,ho,rfl,hnow⟩

theorem Gives.member_ready {E : Type} {D : E → Declared} {now : Marker → Store → E → Option (Id t)}
    {node : Id t → E} {sel : Declared → Option E} {follow : E → Checking (Id t)} {wrong : Row t → Bool}
    {govern : Id t → Checking (Id .classDef)} {standIn : Checking (Id t)} {x : Id t} {r : NameRef τ}
    (h : Gives (seekOr r want sel standIn (member r c follow wrong govern standIn)) p x q) (hf : FollowsMembersWell D now follow)
    (hk : ∀ y, Keeps True (govern y)) (hs : Keeps True standIn) (hr : r.scope ∈ p.store.kept)
    (hc : Declares p.store (.objectClass (.definition c))) (hsel : ∀ {d e}, sel d = some e → d = D e)
    (hfound : ∀ {p e y}, Ready p → now p.marker p.store e = some y → e = node y ∨ Declares p.store (D (node y)))
    (hright : ∀ {p : Pass} {y row}, HomedDeclared p.store (D (node y)) → p.store.get? y = some row → wrong row = false)
    (hgov : ∀ {p y c q}, Ready p → HomedDeclared p.store (D (node y)) → Gives (govern y) p c q → q.Clean →
      Ready q ∧ Declares q.store (.objectClass (.definition c))) :
    ∃ p2, Ready p2 ∧ Declares p2.store (D (node x)) ∧ Gives (govern x) p2 c q := by
  obtain ⟨p1,hplain,hr1,d,e,hd,he,h⟩ := h.seekOr_clean hq hp hs hr
  obtain rfl := hsel he
  simp only [member,gives_bind,gives_load] at h
  obtain ⟨y,_,hy,row,p2,⟨hrow,rfl⟩,h⟩ := h
  have ky := hf.keeps _ _ _ _ hy
  have hr2 := hf.ready _ _ _ _ hy ((keeping.settle ⟨⟩ (hk y) hs).clean h hq) hr1 (hd.homed hr1.sane)
  have hyd : Declares p2.store (D (node y)) := by
    rcases hfound hr2 (hf.follows _ _ _ _ hy) with rfl | hyd
    · exact hd.mono ky.stays
    · exact hyd
  rw [hright (hyd.homed hr2.sane) hrow] at h
  obtain ⟨rfl,hgiven⟩ := h.settle_clean (hk y) hs hq ((hc.mono hplain.stays).mono ky.stays)
    fun c p3 => hgov hr2 (hyd.homed hr2.sane)
  exact ⟨p2,hr2,hyd,hgiven⟩

section Find
variable {followClass : ClassExpr → Checking (Id .classDef)} {followObject : ObjectExpr → Checking (Id .objectDef)}
  (hc : FollowsWell followClass) (ho : FollowsObjectsWell followObject)

include hc ho

theorem Gives.findClass_ready (h : Gives (findClass followClass followObject r) p c q)
    (hr : r.scope ∈ p.store.kept) : Ready q ∧ Declares q.store (.objectClass (.definition c)) := by
  rw [findClass_eq] at h
  rcases gives_ite.mp h with ⟨_,h⟩ | ⟨_,h⟩
  · obtain ⟨p1,_,hr1,d,o,hd,hsel,h⟩ := h.seekOr_clean hq hp keeps_standInClass hr
    cases d <;> cases hsel
    obtain ⟨x,p2,hx,hgov⟩ := gives_bind.mp h
    have k := keeps_governObject hc.keeps hc.follows x _ _ _ hgov
    have hx' := ho.keeps _ _ _ _ hx
    have hr2 := ho.ready _ _ _ _ hx (k.toEvolves.clean hq) hr1 (hd.homed hr1.sane)
    have hxd : Declares p2.store (.object (.definition x)) := by
      rcases hr2.object_found (ho.follows _ _ _ _ hx) with rfl | hxd
      · exact hd.mono hx'.stays
      · exact hxd
    exact (hgov.governObject_ready hq hr2 hc (hxd.homed hr2.sane)).imp id And.left
  · obtain ⟨p1,_,hr1,d,e,hd,hsel,h⟩ := h.seekOr_clean hq hp keeps_standInClass hr
    cases d <;> cases hsel
    have hg := hd.homed hr1.sane
    have k := hc.keeps _ _ _ _ h
    have hrq := hc.ready _ _ _ _ h hq hr1 hg
    exact ⟨hrq,hrq.class_declared (HomedClass.mono k.stays hg) (hc.follows _ _ _ _ h)⟩

theorem Gives.findObject_ready (h : Gives (findObject followClass followObject r e) p x q)
    (hr : r.scope ∈ p.store.kept) (hg : HomedClass p.store r.governor)
    (he : classNow p.marker p.store r.governor = some e) : Ready q ∧ GoodObject q.marker q.store r.governor x := by
  have hev := hp.evolves (keeping.findObject hc.keeps hc.follows ho.keeps ⟨⟩ e _ _ _ h).toEvolves
  have hk := keeps_governObject (R := True) hc.keeps hc.follows
  rw [findObject_eq] at h
  obtain ⟨p2,hr2,hxd,hgov⟩ := h.member_ready hq hp ho hk keeps_standInObject hr (hp.class_declared hg he)
    (fun {d _} hd => by cases d <;> cases hd; rfl) Ready.object_found
    HomedObject.formed fun hr hy h hq => (h.governObject_ready hq hr hc hy).imp id And.left
  obtain ⟨hrq,_,o,ho,hoc,hog⟩ := hgov.governObject_ready hq hr2 hc (hxd.homed hr2.sane)
  have kg := hk _ _ _ _ hgov
  exact ⟨hrq,hxd.mono kg.stays,o,e,ho,hoc,hog,hev.classNow objectsOnly_false he⟩

end Find

theorem Gives.governed_ready [Referring t τ] {i : Id t} {governor : Row t → ClassExpr} {r : Row t}
    {search : Bool → Row t → Id .classDef → Checking τ} (hc : FollowsWell f)
    (h : Gives (once i (fun r => f (governor r)) search) p x q) (hr : p.store.get? i = some r)
    (hg : HomedClass p.store (governor r)) (hbare : ∀ {a b : Row t}, b.bare = a.bare → governor b = governor a)
    (hwait : ∀ {m s g r}, Unread m s g → s.get? i = some r → governor r = .reference g →
      found m (Referring.resolution r) = none) (hks : ∀ b r e, Keeps True (search b r e))
    (hs : ∀ e p1 p2, p1.store.kept = p.store.kept → Ready p1 → HomedClass p1.store (governor r) →
      classNow p1.marker p1.store (governor r) = some e → Gives (search true r e) p1 x p2 → p2.Clean → Ready p2 ∧
      ∀ r2, governor r2 = governor r → RowGood p2.marker p2.store i (Referring.resolve r2 ⟨x,p2.marker⟩)) : Ready q := by
  obtain ⟨_,hr',⟨_,rfl⟩ | ⟨hn,e,p1,p2,r2,c,ha⟩⟩ := gives_once.mp h
  · exact hp
  · cases hr.symm.trans hr'
    have hprep := ha.prepared
    have k1 := hc.keeps _ _ _ _ hprep
    obtain ⟨r1,hr1,hb1⟩ := k1.extends.rows t i r hr
    refine (ha.ready (hc.keeps _) (fun b => hks b r e) hq hp ?_ ?_).1
    · refine fun hmark hcl => ⟨hc.ready _ _ _ _ hprep hcl hmark hg,r1,hr1,?_⟩
      -- The name is not resolved on the way to its class, which is asked for before.
      rcases hc.waits _ _ _ _ hprep hcl hmark hg with rfl | ⟨g,he,hu⟩
      · cases hr.symm.trans hr1
        exact hn
      · exact hwait hu hr1 ((hbare hb1).trans he)
    · intro p1' hs1 hm hready hsearch hcl
      have k2 := hks true r e _ _ _ hsearch
      obtain ⟨hrd,hgood⟩ := hs e p1' p2 (hs1 ▸ k1.kept) hready (hs1 ▸ HomedClass.mono k1.stays hg)
        (hs1 ▸ hm ▸ hc.follows _ _ _ _ hprep) hsearch hcl
      obtain ⟨r3,hr3,hb2⟩ := k2.extends.rows t i r1 (hs1 ▸ hr1)
      cases ha.row.symm.trans hr3
      exact ⟨hrd,hgood r2 ((hbare hb2).trans (hbare hb1))⟩

theorem Gives.classWithin_ready (hc : FollowsWell (classWithin n)) (ho : FollowsObjectsWell (objectWithin n))
    (h : Gives (classWithin (n+1) (.reference g)) p c q)
    (hg : HomedClass p.store (.reference g)) : Ready q ∧ (q = p ∨ Unread q.marker q.store g) := by
  rw [classWithin_succ] at h
  obtain ⟨hrq,h⟩ := h.once_ready hq hp (fun _ _ => .ite (keeping.findClass hc.keeps hc.follows ho.keeps ⟨⟩) keeps_standInClass)
    fun r p1 p2 hr hs hready hsearch hcl => by
      obtain ⟨row,hrow,hscope⟩ := hg
      cases hr.symm.trans hrow
      obtain ⟨hrd,hd⟩ := hsearch.findClass_ready hcl hready hc ho (hs ▸ hscope)
      refine ⟨hrd,fun _ t ht => ?_⟩
      cases (found_now ..).symm.trans ht
      exact hd
  refine ⟨hrq,h.imp_right ?_⟩
  rintro ⟨p2,r2,_,_,hr2,hrow,hn,rfl⟩
  exact (hr2.unread (by simp only [classNow,hrow,Option.bind_some]; exact hn)).put

theorem Gives.objectWithin_ready (hc : FollowsWell (classWithin n)) (ho : FollowsObjectsWell (objectWithin n))
    (h : Gives (objectWithin (n+1) (.reference i)) p x q)
    (hi : HomedObject p.store (.reference i)) : Ready q := by
  rw [objectWithin_succ] at h
  obtain ⟨r,hr,hscope,hg⟩ := hi
  refine h.governed_ready (t := .objectRef) hq hp hc hr hg (fun h => (ObjectRef.bare_eq_iff.mp h).2) (fun h => h.objects i _)
    (fun _ _ e => .ite (keeping.findObject hc.keeps hc.follows ho.keeps ⟨⟩ e) keeps_standInObject) ?_
  intro e p1 p2 hk hready hg1 he hsearch hcl
  obtain ⟨hrd,hgood⟩ := hsearch.findObject_ready hcl hready hc ho (hk ▸ hscope) hg1 he
  refine ⟨hrd,fun r2 hr2 t ht => ?_⟩
  cases (found_now ..).symm.trans ht
  exact hr2 ▸ hgood

end Steps

theorem followsWell_of_references (hc : ∀ g p c q, Gives (classWithin n (.reference g)) p c q → q.Clean → Ready p →
      HomedClass p.store (.reference g) → Ready q ∧ (q = p ∨ Unread q.marker q.store g))
    (ho : ∀ i p x q, Gives (objectWithin n (.reference i)) p x q → q.Clean → Ready p → HomedObject p.store (.reference i) →
      Ready q) : FollowsWell (classWithin n) ∧ FollowsObjectsWell (objectWithin n) := by
  refine ⟨⟨(keeping.within n).1,follows_classWithin n,?_,?_⟩,(keeping.within n).2,fun _ _ _ _ h => h.objectWithin_found,?_⟩
  · intro e p c q h hq hp he
    cases e with
    | definition => exact (gives_classWithin_definition.mp h).2 ▸ hp
    | reference g => exact (hc g p c q h hq hp he).1
  · intro e p c q h hq hp he
    cases e with
    | definition => exact .inl (gives_classWithin_definition.mp h).2
    | reference g => exact (hc g p c q h hq hp he).2.imp id fun hu => ⟨g,rfl,hu⟩
  · intro o p x q h hq hp ho'
    cases o with
    | definition => exact (gives_objectWithin_definition.mp h).2 ▸ hp
    | reference i => exact ho i p x q h hq hp ho'

theorem followsWell_within (n : Nat) : FollowsWell (classWithin n) ∧ FollowsObjectsWell (objectWithin n) := by
  induction n with
  | zero => exact followsWell_of_references (fun _ _ _ _ h => absurd h gives_throw) fun _ _ _ _ h => absurd h gives_throw
  | succ n ih =>
    obtain ⟨hc,ho⟩ := ih
    exact followsWell_of_references (fun _ _ _ _ h hq hp => h.classWithin_ready hq hp hc ho) fun _ _ _ _ h hq hp => h.objectWithin_ready hq hp hc ho

theorem followsWell_resolveClass : FollowsWell resolveClass := by
  refine ⟨keeps_resolveClass,follows_resolveClass,?_,?_⟩
  · exact fun e p c q h => (followsWell_within p.budget).1.ready e p c q h.within
  · exact fun e p c q h => (followsWell_within p.budget).1.waits e p c q h.within

theorem followsObjectsWell_resolveObject : FollowsObjectsWell resolveObject := .budget fun n => (followsWell_within n).2

/-! Object sets -/

theorem Gives.governSet_ready (h : Gives (governSet i) p c q) (hq : q.Clean) (hp : Ready p)
    (hi : HomedSet p.store (.definition i)) : Ready q ∧ Declares q.store (.objectClass (.definition c)) ∧ ∃ d,
    q.store.get? i = some d ∧ d.setClass = some c ∧ classNow q.marker q.store d.governor = some c := by
  obtain ⟨row,_,hrow,_,_,_,_,hg⟩ := hi
  obtain ⟨hr,hdecl,_,hd,hnow⟩ := Gives.govern_ready (t := .setDef) hq hp followsWell_resolveClass h hrow hg
  exact ⟨hr,hdecl,_,hd,rfl,hnow⟩

theorem Gives.findSet_ready (hf : FollowsSetsWell follow) (h : Gives (findSet follow r e) p x q) (hq : q.Clean)
    (hp : Ready p) (hr : r.scope ∈ p.store.kept) (hg : HomedClass p.store r.governor)
    (he : classNow p.marker p.store r.governor = some e) : Ready q ∧ GoodSet q.marker q.store r.governor x := by
  have hev := hp.evolves (keeping.findSet hf.keeps ⟨⟩ e _ _ _ h).toEvolves
  rw [findSet_eq] at h
  obtain ⟨p2,hr2,hxd,hgov⟩ := h.member_ready hq hp hf keeps_governSet keeps_standInSet hr (hp.class_declared hg he)
    (fun {d _} hd => by cases d <;> cases hd; rfl) Ready.set_found
    HomedSet.formed fun hr hy h hq => (h.governSet_ready hq hr hy).imp id And.left
  obtain ⟨hrq,_,d,hd,hdc,hdg⟩ := hgov.governSet_ready hq hr2 (hxd.homed hr2.sane)
  have kg := keeps_governSet (R := True) _ _ _ _ hgov
  exact ⟨hrq,hxd.mono kg.stays,d,e,hd,hdc,hdg,hev.classNow objectsOnly_false he⟩

theorem Gives.setWithin_found (h : Gives (setWithin n d) p x q) : setNow q.marker q.store d = some x := by
  cases d with
  | definition d =>
    obtain ⟨rfl,_⟩ := gives_setWithin_definition.mp h
    rfl
  | reference i =>
    cases n with
    | zero => exact absurd h gives_throw
    | succ n =>
      rw [setWithin_succ] at h
      exact h.once_now

theorem Gives.setWithin_ready (hf : FollowsSetsWell (setWithin n)) (h : Gives (setWithin (n+1) (.reference i)) p x q)
    (hq : q.Clean) (hp : Ready p) (hi : HomedSet p.store (.reference i)) : Ready q := by
  rw [setWithin_succ] at h
  obtain ⟨r,hr,hscope,hg⟩ := hi
  refine h.governed_ready (t := .setRef) hq hp followsWell_resolveClass hr hg (fun h => (SetRef.bare_eq_iff.mp h).2)
    (fun h => h.sets i _) (fun _ _ e => .ite (keeping.findSet hf.keeps ⟨⟩ e) keeps_standInSet) ?_
  intro e p1 p2 hk hready hg1 he hsearch hcl
  obtain ⟨hrd,hgood⟩ := Gives.findSet_ready hf hsearch hcl hready (hk ▸ hscope) hg1 he
  refine ⟨hrd,fun r2 hr2 t ht => ?_⟩
  cases (found_now ..).symm.trans ht
  exact hr2 ▸ hgood

theorem followsSetsWell_within (n : Nat) : FollowsSetsWell (setWithin n) := by
  refine ⟨keeping.setWithin n,fun _ _ _ _ h => h.setWithin_found,fun d p x q h hq hp hd => ?_⟩
  cases d with
  | definition => exact (gives_setWithin_definition.mp h).2 ▸ hp
  | reference i =>
    cases n with
    | zero => exact absurd h gives_throw
    | succ n => exact h.setWithin_ready (followsSetsWell_within n) hq hp hd

theorem followsSetsWell_resolveSet : FollowsSetsWell resolveSet := .budget followsSetsWell_within

/-! Flattening -/

theorem Gives.expand_ready (h : Gives (expand i) p e q) (hp : Ready p) : Ready q := by
  obtain ⟨hchain,hu,_⟩ := h.expand_unresolved
  exact hp.of_unresolved objectsOnly_false (hp.evolves (keeps_expand (R := True) i _ _ _ h).toEvolves) (by rw [hchain]) hu

def FlattensWell (f : Id .setDef → Checking (List (Id .objectDef))) : Prop :=
  ∀ i p os q d c, Gives (f i) p os q → q.Clean → Ready p → HomedSet p.store (.definition i) →
    p.store.get? i = some d → classNow p.marker p.store d.governor = some c →
    Ready q ∧ ∀ o ∈ os, Listed q.marker q.store i d.governor o

theorem Ready.listed_of_good (h : Ready p) (ho : GoodObject p.marker p.store g o) : Listed p.marker p.store i g o := by
  refine ⟨.inl ho.declared,?_⟩
  obtain ⟨row,_,hrow,herr,_⟩ := ho.declared.homed h.sane
  obtain ⟨row',c,hrow',_,hgov,hg⟩ := ho.governed
  cases hrow.symm.trans hrow'
  exact ⟨row,c,hrow,herr,hgov,hg⟩

/-- What a declared set lists, a set of the same class may list too. -/
theorem Listed.lift (h : Listed m s j g' o) (hj : Declares s (.objectSet (.definition j))) (hg' : classNow m s g' = some c)
    (hg : classNow m s g = some c) : Listed m s i g o := by
  refine ⟨h.source.imp id ?_,?_⟩
  · rintro ⟨k,row,hk,hrow,hmem⟩
    exact ⟨k,row,.inr (hk.elim (fun h => h ▸ hj) id),hrow,hmem⟩
  · obtain ⟨row,c',hrow,herr,hgov,hc'⟩ := h.governed
    cases hg'.symm.trans hc'
    exact ⟨row,c,hrow,herr,hgov,hg⟩

theorem Gives.flattenElement_ready (hk : ∀ i, Keeps True (f i)) (hf : FlattensWell f)
    (h : Gives (flattenElement f e) p os q) (hq : q.Clean) (hp : Ready p) (hi : HomedSet p.store (.definition i))
    (hd : p.store.get? i = some d) (he : e ∈ d.elements) (hc : classNow p.marker p.store d.governor = some c) : Ready q ∧ ∀
    o ∈ os, Listed q.marker q.store i d.governor o := by
  have hhome := element_homed hp.sane hi hd he
  cases e with
  | literal o =>
    simp only [flattenElement,gives_pure] at h
    obtain ⟨rfl,rfl⟩ := h
    refine ⟨hp,fun x hx => ?_⟩
    obtain rfl : x = o := by simpa using hx
    obtain ⟨⟨row,_,hrow,herr,_⟩,row',hrow',hgov⟩ := hhome
    cases hrow.symm.trans hrow'
    exact ⟨.inr ⟨i,d,.inl rfl,hd,he⟩,row,c,hrow,herr,hgov ▸ hc,hc⟩
  | object j =>
    simp only [flattenElement,gives_bind,gives_load,gives_pure] at h
    obtain ⟨o,p1,ho,row,_,⟨hrow,rfl⟩,rfl,rfl⟩ := h
    have hw := followsObjectsWell_resolveObject
    have k := hw.keeps _ _ _ _ ho
    have hr := hw.ready _ _ _ _ ho hq hp hhome.1
    refine ⟨hr,fun x hx => ?_⟩
    obtain rfl : x = o := by
      split at hx
      · simp at hx
      · simpa using hx
    obtain ⟨_,rj,hrj,hgov⟩ := hhome
    obtain ⟨rj',hrj',hbare⟩ := k.extends.rows _ j rj hrj
    have hnow := hw.follows _ _ _ _ ho
    simp only [objectNow,hrj',Option.bind_some] at hnow
    have hgood : GoodObject q.marker q.store rj'.governor x := hr.targets .objectRef j rj' hrj' x hnow
    rw [(ObjectRef.bare_eq_iff.mp hbare).2,hgov] at hgood
    exact hr.listed_of_good hgood
  | set j =>
    simp only [flattenElement,gives_bind] at h
    obtain ⟨x,p1,hx,h⟩ := h
    have hw := followsSetsWell_resolveSet
    have k := hw.keeps _ _ _ _ hx
    have k2 := hk _ _ _ _ h
    have hr := hw.ready _ _ _ _ hx (k2.toEvolves.clean hq) hp hhome.1
    obtain ⟨_,rj,hrj,hgov⟩ := hhome
    obtain ⟨rj',hrj',hbare⟩ := k.extends.rows _ j rj hrj
    have hnow := hw.follows _ _ _ _ hx
    simp only [setNow,hrj',Option.bind_some] at hnow
    have hgood : GoodSet p1.marker p1.store rj'.governor x := hr.targets .setRef j rj' hrj' x hnow
    rw [(SetRef.bare_eq_iff.mp hbare).2,hgov] at hgood
    obtain ⟨dx,cx,hdx,_,hcx,hcg⟩ := hgood.governed
    have hc1 := (hp.evolves k.toEvolves).classNow objectsOnly_false hc
    cases hc1.symm.trans hcg
    obtain ⟨hrq,hl⟩ := hf x p1 os q dx c h hq hr (hgood.declared.homed hr.sane) hdx hcx
    have ev := hr.evolves k2.toEvolves
    exact ⟨hrq,fun o ho => (hl o ho).lift (hgood.declared.mono k2.stays) (ev.classNow objectsOnly_false hcx) (ev.classNow objectsOnly_false hc1)⟩

theorem Gives.flattenElements_ready (hk : ∀ i, Keeps True (f i)) (hf : FlattensWell f)
    (h : Gives (flattenElements f es) p os q) (hq : q.Clean) (hp : Ready p) (hi : HomedSet p.store (.definition i))
    (hd : p.store.get? i = some d) (he : ∀ e ∈ es, e ∈ d.elements) (hc : classNow p.marker p.store d.governor = some c) :
    Ready q ∧ ∀ o ∈ os, Listed q.marker q.store i d.governor o := by
  induction es generalizing p d os with
  | nil =>
    simp only [flattenElements,gives_pure] at h
    obtain ⟨rfl,rfl⟩ := h
    exact ⟨hp,by simp⟩
  | cons e es ih =>
    simp only [flattenElements,gives_bind,gives_pure] at h
    obtain ⟨xs,p1,hx,ys,_,hy,rfl,rfl⟩ := h
    have kx := (keeps_flattenElement hk e).restoringChain _ _ _ hx
    have ky := keeps_flattenElements hk es _ _ _ hy
    obtain ⟨r,c',hstep,hr,hp1,hready⟩ := hx.restoringChain_clean (ky.toEvolves.clean hq)
    obtain ⟨hrr,hl⟩ := hstep.flattenElement_ready hk hf hr (hp.unlink fun _ h => h) hi hd (he e (by simp)) hc
    have hr1 := hready hrr
    have ex := hp.evolves kx.toEvolves
    obtain ⟨d1,hd1,hmoves,_⟩ := ex.rows .setDef i d hd
    have hgov : d1.governor = d.governor := SetMoves.governor hmoves
    obtain ⟨hrq,hl2⟩ := ih hy hr1 (HomedSet.mono ex.stays hi) hd1
      (fun y hy => SetMoves.mem_elements hmoves (he y (by simp [hy]))) (by rw [hgov]; exact ex.classNow objectsOnly_false hc)
    refine ⟨hrq,fun o ho => ?_⟩
    rcases List.mem_append.mp ho with ho | ho
    · have hl1 : Listed p1.marker p1.store i d.governor o := by
        rw [hp1]
        exact hl o ho
      exact hl1.mono objectsOnly_false (hr1.evolves ky.toEvolves).toGrows
    · rw [← hgov]
      exact hl2 o ho

theorem flattensWell_within (n : Nat) : FlattensWell (flattenWithin n) := by
  induction n with
  | zero => exact fun _ _ _ _ _ _ h => absurd h gives_throw
  | succ n ih =>
    intro i p os q d c hg hq hp hi hd hc
    have hk := keeps_flattenWithin n
    have hev := hp.evolves (keeps_flattenWithin (n+1) i _ _ _ hg).toEvolves
    obtain ⟨d0,hd0,⟨hx,_⟩ | ⟨_,⟨hf,rfl⟩ | ⟨hn,⟨hfresh,e,p1,p2,d1,d2,c',h⟩ | ⟨hcyc,_,c',hc',rfl⟩⟩⟩⟩ :=
      gives_flattenWithin.mp hg
    · simp [hi.formed hd0] at hx
    · cases hd.symm.trans hd0
      exact ⟨hp,hp.targets .setDef i d hd os hf⟩
    · cases hd.symm.trans hd0
      have hc2 : p2.Clean := .of_rewind h.rewound (h.result ▸ hq)
      have ke := keeps_expand (R := True) i _ _ _ h.expanded
      have kf := keeps_flattenElements hk _ _ _ _ h.flattened
      have hc1 := kf.toEvolves.clean hc2
      have hc0 := ke.toEvolves.clean hc1
      obtain ⟨_,hoff⟩ := hc0.enter (p := p.marked)
      have hready0 := (hp.unlink (c := p.chain.mark) fun _ h => h).enter (t := .setDef) hd hn (l := setLink i d) rfl
      have hready1 := h.expanded.expand_ready hready0
      have ev := hready0.evolves ke.toEvolves
      obtain ⟨d1',hd1',hmoves,_⟩ := ev.rows .setDef i d hd
      cases h.row1.symm.trans hd1'
      have hgov : d1.governor = d.governor := SetMoves.governor hmoves
      obtain ⟨hready2,hl⟩ := h.flattened.flattenElements_ready hk ih hc2 hready1
        (HomedSet.mono ev.stays hi) h.row1 (fun _ h => h) (by rw [hgov]; exact ev.classNow objectsOnly_false hc)
      have hlinks1 : p1.chain.links = p.chain.links++[setLink i d] := ke.restored.trans (Chain.add_links hfresh)
      have hlinks2 : p2.chain.links = p.chain.links++[setLink i d] := kf.restored.trans hlinks1
      have hpend := hready2.pending (t := .setDef) h.row2 ⟨setLink i d,by simp [hlinks2],rfl⟩
      have hgov2 : d2.governor = d.governor := by
        obtain ⟨d3,hd3,hb3⟩ := kf.extends.rows _ i d1 h.row1
        cases h.row2.symm.trans hd3
        exact ((SetDef.bare_eq_iff.mp hb3).2.2.2.2.1).trans hgov
      have hchain : c'.links = p.chain.links := by
        obtain ⟨_,hl,_⟩ := h.evolves hk
        rw [h.result] at hl
        exact hl
      have hrq : Ready q := by
        rw [h.result]
        refine hready2.resolve (t := .setDef) (b := {d2 with flattening := some ⟨os,p2.marker⟩}) h.row2 hpend
          ⟨rfl,.refl ..,fun _ h => h,.inr ⟨⟨os,rfl⟩,.inr trivial⟩⟩ rfl (fun _ h _ => h) ?_ ?_ ?_
        · intro os' hos
          cases (found_now ..).symm.trans hos
          change ∀ o ∈ os, Listed p2.marker p2.store i d2.governor o
          rw [hgov2,← hgov]
          exact hl
        · rw [hchain,hlinks2]
          exact List.subset_append_left _ _
        · intro l hl he
          rw [hchain] at hl
          exact hoff ⟨l,hl,he⟩
      refine ⟨hrq,?_⟩
      have hself : q.store.get? i = some {d2 with flattening := some ⟨os,p2.marker⟩} := by
        rw [h.result]
        exact Store.get?_put_self (t := .setDef) h.row2
      have hmarker : q.marker = p2.marker := by rw [h.result]
      have htargets := hrq.targets .setDef i _ hself os (by rw [hmarker]; exact found_now ..)
      change ∀ o ∈ os, Listed q.marker q.store i d2.governor o at htargets
      rwa [hgov2] at htargets
    · have hcl := Pass.Clean.of_rewind (p := p.marked.entered (setLink i d0)) hc' hq
      have hcyc' := (hcl.enter (p := p.marked)).1
      simp only [hcyc] at hcyc'
      contradiction

theorem Gives.flatten_ready (h : Gives (flatten i) p os q) (hq : q.Clean) (hp : Ready p)
    (hi : HomedSet p.store (.definition i)) (hd : p.store.get? i = some d)
    (hc : classNow p.marker p.store d.governor = some c) : Ready q ∧ ∀ o ∈ os, Listed q.marker q.store i d.governor o := by
  exact flattensWell_within _ i _ os q d c h.within hq hp hi hd hc

end InfoObject.Check
