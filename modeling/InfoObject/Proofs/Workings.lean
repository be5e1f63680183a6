import InfoObject.Proofs.CleanDefinitions
import InfoObject.Proofs.Searches

/-! Checks of definitions take the steps of the machine, and stay within the modules in use. -/
namespace InfoObject.Check
open Model

/-! What belongs to the modules in use, stand-ins included -/

def LodgedGoal (s : Store) : Goal → Prop
  | .objectClass i => LodgedClass s (.definition i)
  | .object i => LodgedObject s (.definition i)
  | .objectSet i => LodgedSet s (.definition i)

section Lodged
variable {s s' : Store}

theorem LodgedGoal.onward (h : Onward s s') (hg : LodgedGoal s g) : LodgedGoal s' g := by
  cases g with
  | objectClass i => exact LodgedClass.onward (e := .definition i) h hg
  | object i => exact LodgedObject.onward (o := .definition i) h hg
  | objectSet i => exact LodgedSet.onward (d := .definition i) h hg

theorem ElementBuilt.lodged (h : ElementBuilt s m d n x e) (hm : m.id ∈ s.kept) (hg : LodgedClass s d.governor) :
    LodgedHeld s e.held := by
  cases h with
  | @literal b o row h e =>
    have hmod : row.module = some m.id := congrArg (·.module) e
    have hgov : row.governor = d.governor := congrArg (·.governor) e
    exact ⟨row,h,fun j hj => Option.some.inj (hmod.symm.trans hj) ▸ hm,hgov ▸ hg⟩
  | @object r i row h e u | @set r i row h e u =>
    have hscope : row.scope = m.id := congrArg (·.scope) e
    have hgov : row.governor = d.governor := congrArg (·.governor) e
    exact ⟨row,h,hscope ▸ hm,hgov ▸ hg⟩

theorem element_lodged (hs : Sane s) (hi : LodgedSet s (.definition i)) (hd : s.get? i = some d)
    (he : e ∈ d.elements) : LodgedHeld s e.held := by
  obtain ⟨row,hrow,hm,hg⟩ := hi
  cases hd.symm.trans hrow
  obtain ⟨j,_,_,_,hj,hel⟩ := hs.element hd he
  exact ElementBuilt.lodged hel (hm j hj) hg

/-! Settings as they are built -/

theorem GovernorBuilt.lodged (h : GovernorBuilt s f g) (hf : HomedField s f) : LodgedClass s g := by
  have hs := hf.2
  unfold GovernorBuilt at h
  cases hshape : f.shape with
  | object c | objectSet c =>
    simp only [hshape] at h hs
    exact h ▸ hs
  | _ =>
    simp only [hshape] at h
    obtain ⟨c,row,rfl,hrow,hnone⟩ := h
    exact ⟨row,hrow,by simp [hnone]⟩

theorem ValueBuilt.lodged (h : ValueBuilt s m f display l x v) (hm : m.id ∈ s.kept) (hf : HomedField s f) :
    LodgedHeld s v := by
  cases h with
  | int | text => trivial
  | @object b o row g k hrow e hg | @set b o row g k hrow e hg =>
    have hmod : row.module = some m.id := congrArg (·.module) e
    have hgov : row.governor = g := congrArg (·.governor) e
    exact ⟨row,hrow,fun j hj => Option.some.inj (hmod.symm.trans hj) ▸ hm,hgov ▸ GovernorBuilt.lodged hg hf⟩
  | name h =>
    cases h with
    | @type i row h e | @value i row n h e =>
      have hscope : row.scope = m.id := congrArg (·.scope) e
      exact ⟨row,h,hscope ▸ hm⟩
    | @object i row g h e hg | @set i row g h e hg =>
      have hscope : row.scope = m.id := congrArg (·.scope) e
      have hgov : row.governor = g := congrArg (·.governor) e
      exact ⟨row,h,hscope ▸ hm,hgov ▸ GovernorBuilt.lodged hg hf⟩
    | literal => trivial

end Lodged

/-! Small parts -/

section Parts
variable {α : Type} {F : Prop} {s : Store} {p q : Pass} {t : EntityType}

theorem Still.place {i : Id t} {a b : Row t} (h : Plain p q) (ha : q.store.get? i = some a)
    (hb : b.bare = a.bare) (hr : SameResults a b) (ht : t ≠ .classRef)
    (hx : ∀ (j : Id .setDef) d d' e, q.store.get? j = some d → (q.store.put i b).get? j = some d' →
      d.expansion = some e → d'.expansion = some e)
    (hs : Sane p.store → Sane (q.store.put i b)) : Still p (q.put i b) := by
  have hq := Still.of_plain h
  have hon : Onward q.store (q.store.put i b) := .put ha hb
  refine { hq with
    onward := hq.onward.trans hon
    sane := hs
    unresolved := hq.unresolved.trans hq.onward.more (.put ha hr)
    expanded := fun j d d'' e hd hd'' he => ?_
    stamps := fun j c hc => ?_}
  · obtain ⟨d',hd',_⟩ := hq.onward.more.rows _ j d hd
    exact hx j d' d'' e hd' hd'' (hq.expanded j d d' e hd hd' he)
  · rw [Store.get?_put_other ht] at hc
    exact hq.stamps j c hc

theorem expanded_put {i : Id t} {b : Row t} (ht : t ≠ .setDef) (j : Id .setDef) (d d' : SetDef)
    (e : Except Notation.SyntaxError Expansion) (hd : s.get? j = some d) (hd' : (s.put i b).get? j = some d')
    (he : d.expansion = some e) : d'.expansion = some e := by
  rw [Store.get?_put_other ht] at hd'
  exact Option.some.inj (hd.symm.trans hd') ▸ he

theorem expanded_first {i : Id .setDef} (hd : s.get? i = some d) (hn : d.expansion = none) (j : Id .setDef) (c c' : SetDef)
    (x : Except Notation.SyntaxError Expansion) (hc : s.get? j = some c)
    (hc' : (s.put i {d with expansion := some e}).get? j = some c') (hx : c.expansion = some x) : c'.expansion = some x := by
  by_cases hij : i = j
  · subst hij
    cases hd.symm.trans hc
    simp [hn] at hx
  · rw [Store.get?_put_ne (t := .setDef) _ hij] at hc'
    exact Option.some.inj (hc.symm.trans hc') ▸ hx

theorem goes_scopeOf (i : Option (Id .module)) : Goes F s (scopeOf i) Whatever := by
  unfold scopeOf
  split
  · exact goes_load.andThen fun _ _ _ => .done _
  · exact .throw _

theorem goes_expand (i : Id .setDef) : Goes F s (expand i) fun e s' => ∃ d, s'.get? i = some d ∧ d.expansion = some e := by
  refine .of_still fun p a q h => ?_
  obtain ⟨d,hd,⟨he,rfl⟩ | ⟨he,p1,d',hr,hd',rfl⟩⟩ := h.expand_cases
  · exact ⟨.refl _,d,hd,he⟩
  · obtain ⟨hplain,hb,hf,hn⟩ := hr.readElements
    have hev : Evolves (fun _ => False) _ _ := hplain.expand hd he hd' hb hf hn
    have hnone : d'.expansion = none := Eq.trans (hplain.parts .setDef i d d' hd hd') he
    exact ⟨.place (t := .setDef) hplain hd' rfl rfl (by decide) (expanded_first hd' hnone) hev.sane,_,
      Store.get?_put_self (t := .setDef) hd',rfl⟩

/-- What is due is stamped before the check goes on. -/
theorem Goes.whenDue {i : Id t} {checked : Row t → Marker} {stamp : Row t → Marker → Row t}
    {rest : Row t → Checking Unit} (hk : Keeps False (whenDue i checked stamp rest))
    (hput : ∀ p r, p.store.get? i = some r → Still p (p.put i (stamp r p.marker)))
    (hrest : ∀ r s', Onward s s' → Goes F s' (rest r) Whatever) : Goes F s (whenDue i checked stamp rest) Whatever := by
  intro p a q h ho hp hc
  refine ⟨?_,(hk p a q h).restored,trivial⟩
  obtain ⟨r,hr,⟨_,rfl⟩ | ⟨_,h⟩⟩ := gives_whenDue.mp h
  · exact .refl q
  · have h1 := hput p r hr
    exact h1.ticks.trans (hrest r _ (ho.trans h1.onward) _ _ _ h (.refl _) (h1.tidy hp)
      (hc.onward h1.onward h1.links)).1

theorem goes_checkObjectRef (hi : LodgedObject s (.reference i)) : Goes F s (checkObjectRef i) Whatever :=
  .whenDue (t := .objectRef) (keeps_checkObjectRef i) (fun _ _ hr => .put (t := .objectRef) hr ⟨rfl,trivial⟩ rfl (by decide))
    fun _ _ ho => (goes_resolveObject (hi.onward ho)).andThen fun _ _ _ => .done _

theorem goes_checkSetRef (hi : LodgedSet s (.reference i)) : Goes F s (checkSetRef i) Whatever :=
  .whenDue (t := .setRef) (keeps_checkSetRef i) (fun _ _ hr => .put (t := .setRef) hr ⟨rfl,trivial⟩ rfl (by decide))
    fun _ _ ho => (goes_resolveSet (hi.onward ho)).andThen fun _ _ _ => .done _

end Parts

/-! Flattening -/

def LodgedList (os : List (Id .objectDef)) (s : Store) : Prop := ∀ o ∈ os, LodgedObject s (.definition o)

/-- Nothing but sets is under resolution. -/
def Pass.Flat (p : Pass) : Prop := ∀ l ∈ p.chain.links, ∃ i : Id .setDef, i.key = l.key

/-- What the lists of sets are made of stays. -/
structure Firm (p q : Pass) : Prop where
  rows : Extends p.store q.store
  expanded : ∀ (i : Id .setDef) d d' e, p.store.get? i = some d → q.store.get? i = some d' → d.expansion = some e →
    d'.expansion = some e
  rests : ∀ k x, p.Rests k x → q.Rests k x
  lists : ∀ i os, p.Lists i os → q.Lists i os
  links : q.chain.links = p.chain.links
  cycles : ∀ c ∈ p.chain.cycles, c ∈ q.chain.cycles

section Firm
variable {R : Prop} {p q : Pass} {t : Id .setDef} {os : List (Id .objectDef)}

theorem Moves.settled_eq {a b : Row u} (h : Moves m False a b) (hx : settled m a = some x) : settled m b = some x := by
  have kept : ∀ {τ : Type} {r r' : Option (Resolution τ)} {f : τ → Target}, Resolves m False r r' →
      (found m r).map f = some x → (found m r').map f = some x := by
    intro τ r r' f hr hf
    obtain ⟨y,hy,_⟩ := Option.map_eq_some_iff.mp hf
    rwa [hr.eq_of_found id hy]
  cases u with
  | typeRef | valueRef | classRef | objectRef | setRef => exact kept h.resolution hx
  | _ => simp [settled] at hx

theorem Kept.rests (h : Kept R p q) (hk : p.Rests k x) : q.Rests k x := by
  obtain ⟨⟨u,i,a,ha,rfl,hx⟩,hoff⟩ := hk
  obtain ⟨b,hb,hm,_⟩ := h.rows u i a ha
  rw [show p.onChain i.key = False from eq_false hoff] at hm
  refine ⟨⟨u,i,b,hb,rfl,?_⟩,by rwa [Pass.onChain_congr h.restored]⟩
  rw [h.marker]
  exact hm.settled_eq hx

theorem Kept.lists (h : Kept R p q) (hoff : ¬ p.onChain t.key) (hl : p.Lists t os) : q.Lists t os := by
  obtain ⟨d,hd,hos⟩ := hl
  obtain ⟨d',hd',hm,_⟩ := h.rows .setDef t d hd
  refine ⟨d',hd',?_⟩
  rw [(SetMoves.flattening hm).eq_of_found hoff hos,h.marker]
  exact hos

theorem Kept.firm (h : Kept R p q) (hp : Tidy R' p) : Firm p q where
  rows := h.extends
  expanded i d d' e hd hd' he := by
    obtain ⟨d'',hd'',hm,_⟩ := h.rows .setDef i d hd
    cases hd'.symm.trans hd''
    exact SetMoves.expansion hm e he
  rests k x := h.rests
  lists i os hl := h.lists (hp.apart i os hl) hl
  links := h.restored
  cycles c hc := by
    obtain ⟨l,hl,_⟩ := h.cycles
    rw [hl]
    exact List.mem_append_left _ hc

theorem Firm.marks (hl : c.links = p.chain.links) (hc : c.cycles = p.chain.cycles) : Firm p {p with chain := c} where
  rows := .refl _
  expanded i d d' e hd hd' he := Option.some.inj (hd.symm.trans hd') ▸ he
  rests k x hk := ⟨hk.1,by rw [Pass.onChain_congr (p := p) hl]; exact hk.2⟩
  lists _ _ h := h
  links := hl
  cycles c' h := hc.symm ▸ h

theorem same_wrong (h : Extends s s') (hd : s.get? t = some d) : ∃ d', s'.get? t = some d' ∧ d'.erroneous = d.erroneous := by
  obtain ⟨d',hd',hb⟩ := h.rows _ t d hd
  exact ⟨d',hd',(SetDef.bare_eq_iff.mp hb).2.2.1⟩

theorem Firm.elements (h : Firm p q) (hd : p.store.get? t = some d) (hd' : q.store.get? t = some d')
    (he : e ∈ d.elements) : e ∈ d'.elements := by
  cases hx : d.expansion with
  | none => simp [SetDef.elements,hx] at he
  | some x => rwa [SetDef.elements_of_expansion ((h.expanded t d d' x hd hd' hx).trans hx.symm)]

theorem Pass.Yields.firm (h : Firm p q) (hy : p.Yields t os) : q.Yields t os := by
  cases hy with
  | wrong hd he =>
    obtain ⟨d',hd',hw⟩ := same_wrong h.rows hd
    exact .wrong hd' (hw.trans he)
  | listed hd he hos =>
    obtain ⟨d',hd',hw⟩ := same_wrong h.rows hd
    exact .listed hd' (hw.trans he) (h.lists t os hos)
  | met hd he hon hl hc hlc htc =>
    obtain ⟨d',hd',hw⟩ := same_wrong h.rows hd
    exact .met hd' (hw.trans he) (Pass.onChain_congr h.links ▸ hon) (h.links ▸ hl) (h.cycles _ hc) hlc htc

theorem Pass.Adds.firm (h : Firm p q) (ha : p.Adds e os) : q.Adds e os := by
  cases ha with
  | literal o => exact .literal o
  | @object j o row hr ho =>
    obtain ⟨row',ho',hb⟩ := h.rows.rows _ o row ho
    rw [← (ObjectDef.bare_eq_iff.mp hb).2.2.1]
    exact .object (h.rests _ _ hr) ho'
  | set hr hy => exact .set (h.rests _ _ hr) (hy.firm h)

end Firm

section Flattening
variable {s : Store} {p q : Pass} {i : Id .setDef} {d : SetDef} {os : List (Id .objectDef)}

theorem LodgedList.onward (h : Onward s s') (hos : LodgedList os s) : LodgedList os s' :=
  fun o ho => (hos o ho).onward h

theorem Pass.Flat.calm (h : p.Flat) : p.Calm := by
  intro l hl
  obtain ⟨i,hi⟩ := h l (List.mem_of_getLast? hl)
  exact hi ▸ .elements i

theorem Pass.Flat.off {t : EntityType} (h : p.Flat) (ht : t ≠ .setDef) (j : Id t) : ¬ p.onChain j.key := by
  rintro ⟨l,hl,hk⟩
  obtain ⟨i,hi⟩ := h l hl
  exact Id.key_ne ht j i (hk.symm.trans hi.symm)

/-- A step that flattens a set in the midst of others goes through steps of the machine, and gives what the set yields. -/
structure Flattened (t : Id .setDef) (os : List (Id .objectDef)) (p q : Pass) : Prop where
  ticks : Ticks True Any p q
  lodged : LodgedList os q.store
  yields : q.Yields t os

/-- What flattens sets of the modules in use does so wherever they are called for. -/
def Flattens (f : Id .setDef → Checking (List (Id .objectDef))) : Prop :=
  ∀ t p os q, Gives (f t) p os q → LodgedSet p.store (.definition t) → Tidy True p → p.Flat →
    (∀ d, p.store.get? t = some d → d.erroneous = false → p.Summons t) → Flattened t os p q

/-- What holds in the midst of flattening a set. -/
structure Amid (i : Id .setDef) (d : SetDef) (p : Pass) : Prop where
  tidy : Tidy True p
  flat : p.Flat
  top : ∀ l, p.chain.links.getLast? = some l → l.key = i.key
  row : p.store.get? i = some d

theorem Amid.kept (h : Amid i d p) (hkept : Kept False p q) (ht : Ticks True Any p q) :
    ∃ d', Amid i d' q ∧ ∀ e ∈ d.elements, e ∈ d'.elements := by
  obtain ⟨d',hd',_⟩ := hkept.extends.rows _ i d h.row
  refine ⟨d',⟨ht.tidy h.tidy,?_,?_,hd'⟩,fun e => (hkept.firm h.tidy).elements h.row hd'⟩
  · exact fun l hl => h.flat l (hkept.restored ▸ hl)
  · exact fun l hl => h.top l (hkept.restored ▸ hl)

variable {f : Id .setDef → Checking (List (Id .objectDef))} (hf : Flattens f) (hk : ∀ j, Keeps True (f j))

include hf hk in
theorem flattened_element (h : Amid i d p) (he : e ∈ d.elements) (hl : LodgedHeld p.store e.held)
    (hg : Gives (flattenElement f e) p os q) : Ticks True Any p q ∧ LodgedList os q.store ∧ q.Adds e os := by
  cases e with
  | literal o =>
    obtain ⟨rfl,rfl⟩ := gives_pure.mp hg
    refine ⟨.refl _,fun x hx => ?_,.literal o⟩
    obtain rfl := List.mem_singleton.mp hx
    exact hl
  | object j =>
    simp only [flattenElement,gives_bind,gives_load,gives_pure] at hg
    obtain ⟨o,p1,ho,row,_,⟨hrow,rfl⟩,rfl,rfl⟩ := hg
    obtain ⟨hticks,hlinks,hlodged⟩ := goes_resolveObject (o := .reference j) hl _ _ _ ho (.refl _) h.tidy h.flat.calm.free
    refine ⟨hticks,fun x hx => ?_,.object ⟨?_,?_⟩ hrow⟩
    · have : x = o := by
        split at hx
        · simp at hx
        · exact List.mem_singleton.mp hx
      exact this ▸ hlodged
    · exact finds_objectWithin ho.within
    · rw [Pass.onChain_congr hlinks]
      exact h.flat.off (by decide) j
  | set j =>
    simp only [flattenElement,gives_bind] at hg
    obtain ⟨t,p1,ht,hg⟩ := hg
    obtain ⟨hticks,hlinks,hlodged⟩ := goes_resolveSet (e := .reference j) hl _ _ _ ht (.refl _) h.tidy h.flat.calm.free
    have hrests : p1.Rests j.key (.objectSet t) := by
      refine ⟨?_,?_⟩
      · exact finds_setWithin ht.within
      · rw [Pass.onChain_congr hlinks]
        exact h.flat.off (by decide) j
    obtain ⟨d1,h1,hes⟩ := h.kept (keeps_resolveSet _ _ _ _ ht) hticks
    have hsummons : ∀ e, p1.store.get? t = some e → e.erroneous = false → p1.Summons t := fun e hrow hw l hl =>
      ⟨i,(h1.top l hl).symm,d1,e,j,h1.row,hes _ he,hrests,hrow,hw⟩
    have hflat := hf t p1 os q hg hlodged h1.tidy h1.flat hsummons
    exact ⟨hticks.trans hflat.ticks,hflat.lodged,.set ((hk t p1 os q hg).rests hrests) hflat.yields⟩

include hf hk in
theorem flattened_elements (h : Amid i d p) (hes : ∀ e ∈ es, e ∈ d.elements) (hi : LodgedSet p.store (.definition i))
    (hg : Gives (flattenElements f es) p os q) : Ticks True Any p q ∧ LodgedList os q.store ∧ ∃ oss,
    List.Forall₂ q.Adds es oss ∧ os = oss.flatten := by
  induction es generalizing d p os with
  | nil =>
    obtain ⟨rfl,rfl⟩ := gives_pure.mp hg
    exact ⟨.refl _,fun o ho => by simp at ho,[],.nil,rfl⟩
  | cons e es ih =>
    simp only [flattenElements,gives_bind,gives_pure] at hg
    obtain ⟨os1,p1,h1,os2,_,h2,rfl,rfl⟩ := hg
    have he := hes e List.mem_cons_self
    have hkept := (keeps_flattenElement hk e).restoringChain _ _ _ h1
    obtain ⟨r,c,hm,hrew,rfl⟩ := gives_restoringChain.mp h1
    have h0 := Still.marked p
    obtain ⟨hticks,hos1,hadds⟩ := flattened_element hf hk (p := p.marked)
      ⟨h.tidy.of_links rfl,h.flat,h.top,h.row⟩ he (element_lodged h.tidy.sane hi h.row he) hm
    obtain ⟨hcy,hre⟩ := rewind_rest hrew
    have hlinks : c.links = r.chain.links := hkept.restored.trans (keeps_flattenElement hk e _ _ _ hm).restored.symm
    have hticks1 : Ticks True Any p {r with chain := c} :=
      (h0.ticks.trans hticks).trans (Still.marks c hlinks hcy hre).ticks
    obtain ⟨d1,hamid,hes1⟩ := h.kept hkept.weaken hticks1
    obtain ⟨hticks2,hos2,oss,hall,hflat⟩ := ih hamid (fun x hx => hes1 x (hes x (List.mem_cons_of_mem _ hx)))
      (hi.onward hticks1.onward) h2
    have hfirm := (keeps_flattenElements hk es _ _ _ h2).firm hamid.tidy
    refine ⟨hticks1.trans hticks2,fun o ho => ?_,os1::oss,.cons ?_ hall,by rw [List.flatten_cons,hflat]⟩
    · rcases List.mem_append.mp ho with ho | ho
      · exact (hos1 o ho).onward hticks2.onward
      · exact hos2 o ho
    · exact (hadds.firm (.marks hlinks hcy)).firm hfirm

theorem not_finds_set (i : Id .setDef) (x : Target) : ¬ p.Finds i.key x := by
  rintro ⟨t,j,a,_,hk,hx⟩
  obtain rfl : t = .setDef := Id.type_of_key hk
  simp [settled] at hx

theorem tick_flatten (hd : p.store.get? i = some d) (hn : found p.marker d.flattening = none) (hs : p.Summons i)
    (hc : p.Calm) (hfresh : (p.chain.add (setLink i d)).1 = true) :
    Tick True Any p (p.entered (setLink i d)) := by
  refine .enter (t := .setDef) hd rfl (.inl (not_finds_set i)) (hc.next _) (fun hon => ?_) (fun _ c hk => ?_)
    (fun x hx => absurd hx (not_finds_set i x)) fun t ht => ?_
  · exact absurd ((holds_iff (l := setLink i d)).mpr hon) (by simp [(add_fresh hfresh).1])
  · cases c <;> exact absurd hk (Id.key_ne (by decide) _ i)
  · obtain rfl := Id.key_inj ht
    refine ⟨?_,hs⟩
    rintro os ⟨d',hd',hos⟩
    cases hd.symm.trans hd'
    simp [hn] at hos

/-- A set is on the chain while it is flattened. -/
theorem Flattening.steps (h : Flattening n i p d os q e p1 p2 d1 d2 c) (ih : Flattens (flattenWithin n))
    (hi : LodgedSet p.store (.definition i)) (hd : p.store.get? i = some d) (hw : d.erroneous = false)
    (hn : found p.marker d.flattening = none) (hp : Tidy True p) (hflat : p.Flat) (hs : p.Summons i)
    (hfresh : (p.chain.mark.add (setLink i d)).1 = true) : Flattened i os p q := by
  have hadd := (add_fresh hfresh).2
  have h0 := Still.marked p
  have h1 : Tick True Any p.marked (p.marked.entered (setLink i d)) :=
    tick_flatten (p := p.marked) hd hn hs hflat.calm hfresh
  have htidy : Tidy True (p.marked.entered (setLink i d)) := h1.tidy (h0.tidy hp)
  have hlast : (p.chain.mark.add (setLink i d)).2.links = p.chain.links++[setLink i d] := by
    rw [hadd]
    rfl
  have hflat1 : Pass.Flat (p.marked.entered (setLink i d)) := by
    intro l hl
    rcases List.mem_append.mp (hlast ▸ hl) with hl | hl
    · exact hflat l hl
    · exact ⟨i,by rw [List.mem_singleton.mp hl]; rfl⟩
  obtain ⟨h2,hl2,d1',hd1',hx⟩ := goes_expand i _ _ _ h.expanded (.refl _) htidy hflat1.calm.free
  cases h.row1.symm.trans hd1'
  have hamid : Amid i d1 p1 := by
    refine ⟨h2.tidy htidy,fun l hl => hflat1 l (hl2 ▸ hl),fun l hl => ?_,h.row1⟩
    rw [hl2,hlast,List.getLast?_append] at hl
    obtain rfl : setLink i d = l := by simpa using hl
    rfl
  obtain ⟨h3,hos,oss,hall,hflatten⟩ := flattened_elements ih (keeps_flattenWithin n) hamid (fun _ he => he)
    (hi.onward h2.onward) h.flattened
  have hkept := keeps_flattenElements (keeps_flattenWithin n) _ _ _ _ h.flattened
  have hlinks : p2.chain.links = p.chain.links++[setLink i d] := by
    rw [hkept.restored,hl2,hlast]
  have hx2 : d2.expansion = some e := (hkept.firm hamid.tidy).expanded i d1 d2 e h.row1 h.row2 hx
  have hadds : List.Forall₂ p2.Adds d2.elements oss := by
    rwa [SetDef.elements_of_expansion (hx2.trans hx.symm)]
  have h4 : Tick True Any p2 { p2 with
      store := p2.store.put i {d2 with flattening := some ⟨os,p2.marker⟩}
      chain := {p2.chain with links := p.chain.links} } := by
    refine .drop (e := {d2 with flattening := some ⟨os,p2.marker⟩}) h.row2 ⟨rfl,rfl⟩ hlinks rfl trivial hx2 hadds
      (by rw [hflatten]) fun _ os' hos' => ?_
    have heq : p2.marker.before p2.marker = false ∧ os = os' := by simpa [found] using hos'
    exact heq.2 ▸ hos
  have hl : c.links = p.chain.links := by
    have := (h.evolves (keeps_flattenWithin n)).2.1
    rwa [h.result] at this
  obtain ⟨hcy,hre⟩ := rewind_rest h.rewound
  have hput : q.store.get? i = some {d2 with flattening := some ⟨os,p2.marker⟩} := by
    rw [h.result]
    exact Store.get?_put_self (t := .setDef) h.row2
  have hticks : Ticks True Any p q := by
    rw [h.result]
    refine ((h0.ticks.trans h1.ticks).trans (h2.trans h3)).trans (h4.ticks.trans (Still.ticks ?_))
    exact Still.marks c hl hcy hre
  refine ⟨hticks,LodgedList.onward ?_ hos,.listed hput ?_ ⟨_,hput,?_⟩⟩
  · rw [h.result]
    exact .put (t := .setDef) h.row2 rfl
  · obtain ⟨d',hd',hw'⟩ := same_wrong hticks.onward.more hd
    cases hput.symm.trans hd'
    exact hw'.trans hw
  · simp [found,h.result,Marker.before_irrefl]

theorem yields_met (hd : p.store.get? i = some d) (hw : d.erroneous = false) (hon : p.onChain i.key)
    (hl : q.chain.links = p.chain.links) (hc : p.chain.links.dropWhile (·.key != i.key) ∈ q.chain.cycles)
    (hs : q.store = p.store) : q.Yields i [] := by
  obtain ⟨m,hm,hmk⟩ := hon
  obtain ⟨a,as,hdrop⟩ : ∃ a as, p.chain.links.dropWhile (·.key != i.key) = a::as := by
    refine List.exists_cons_of_ne_nil fun hnil => ?_
    have := List.dropWhile_eq_nil_iff.mp hnil m hm
    simp [hmk] at this
  have hkey : a.key = i.key := by
    have := List.head?_dropWhile_not (fun l : Link => l.key != i.key) p.chain.links
    rw [hdrop] at this
    simpa using this
  have hsplit : p.chain.links = p.chain.links.takeWhile (·.key != i.key)++a::as := by
    rw [← hdrop,List.takeWhile_append_dropWhile]
  obtain ⟨l,hlast⟩ : ∃ l, (a::as).getLast? = some l := ⟨_,List.getLast?_eq_some_getLast (List.cons_ne_nil a as)⟩
  refine .met (l := l) (hs ▸ hd) hw ⟨m,hl ▸ hm,hmk⟩ ?_ hc ?_ ⟨a,by simp [hdrop],hkey⟩
  · rw [hl,hsplit,List.getLast?_append,hlast]
    rfl
  · rw [hdrop]
    exact List.mem_of_getLast? hlast

theorem flattens_flattenWithin (n : Nat) : Flattens (flattenWithin n) := by
  induction n with
  | zero => exact fun _ _ _ _ hg => absurd hg gives_throw
  | succ n ih =>
    intro i p os q hg hi hp hflat hs
    have hl := (keeps_flattenWithin (n+1) i p os q hg).restored
    obtain ⟨d,hd,⟨hw,rfl,rfl⟩ | ⟨hw,⟨hf,rfl⟩ | ⟨hn,⟨hb,e,p1,p2,d1,d2,c,h⟩ | ⟨hb,rfl,c,hrew,rfl⟩⟩⟩⟩ := gives_flattenWithin.mp hg
    · exact ⟨.refl q,fun o ho => by simp at ho,.wrong hd hw⟩
    · exact ⟨.refl q,hp.listed trivial i d os hd hf,.listed hd hw ⟨d,hd,hf⟩⟩
    · exact h.steps ih hi hd hw hn hp hflat (hs d hd hw) hb
    · obtain ⟨hon,hadd⟩ := add_met hb
      have hon' : p.marked.onChain i.key := (holds_iff (p := p.marked) (l := setLink i d)).mp hon
      have h0 := Still.marked p
      have h1 : Tick True Any p.marked (p.marked.entered (setLink i d)) :=
        .meet (p := p.marked) hd hflat.calm hon' (hs d hd hw)
      obtain ⟨hcy,hre⟩ := rewind_rest hrew
      refine ⟨(h0.ticks.trans h1.ticks).trans (Still.marks c ?_ hcy hre).ticks,fun o ho => by simp at ho,?_⟩
      · exact hl.trans (congrArg Chain.links hadd).symm
      · refine yields_met hd hw hon' hl ?_ rfl
        show _ ∈ c.cycles
        rw [hcy,hadd]
        simp [setLink,Chain.mark]

theorem goes_flatten (hi : LodgedSet s (.definition i)) : Goes True s (flatten i) LodgedList := by
  refine goes_budget.andThen fun n s' ho p os q hg ho' hp hc => ?_
  have hlinks := hc.idle trivial
  have h := flattens_flattenWithin n i p os q hg ((hi.onward ho).onward ho') hp (by simp [Pass.Flat,hlinks])
    fun _ _ _ => by simp [Pass.Summons,hlinks]
  exact ⟨h.ticks,(keeps_flattenWithin n i p os q hg).restored,h.lodged⟩

end Flattening

/-! Checks -/

/-- What checks definitions of the modules in use takes steps of the machine. -/
structure ChecksLodged (go : Goal → Checking Unit) : Prop where
  keeps : ∀ g, Keeps False (go g)
  goes : ∀ s g, LodgedGoal s g → Goes True s (go g) Whatever

section Checks
variable {go : Goal → Checking Unit} (hgo : ChecksLodged go) {s : Store} {p q : Pass}

theorem goes_reportConflict (hf : Fault.ordinary f) : Goes True s (reportConflict c f l r) Whatever := by
  refine .of_still fun p a q h => ⟨?_,trivial⟩
  obtain ⟨_,rfl⟩ | ⟨_,rfl⟩ := gives_reportConflict.mp h
  · exact .refl _
  · refine {Still.refl _ with reports := ⟨[_],rfl,?_⟩}
    exact List.forall_mem_singleton.mpr (not_told_ordinary hf)

/-- Checks of what belongs to the modules in use take steps of the machine, if the checks do that they call for. -/
theorem working : Checkable (Goes True) Onward LodgedHeld LodgedClass fun _ => True where
  refl := .refl
  trans h k := h.trans k
  held h hv := hv.onward h
  ofClass h he := he.onward h
  done := .done
  bind hm hf := hm.bind fun a s' ho _ hq => hf a s' ho hq
  restoringChain hk h := h.restoringChain hk
  tell _ _ := goes_reportError
  warn _ := goes_reportWarning
  conflict _ _ := goes_reportConflict
  type := goes_resolveType
  value := goes_resolveValue
  objectClass he := (goes_resolveClass he).whatever
  object := goes_resolveObject
  objectRef := goes_checkObjectRef
  setRef := goes_checkSetRef
  flatten := goes_flatten
  loadClass _ := goes_load.whatever
  loadObject hi p o q hg ho hp hc := by
    obtain ⟨hticks,hl,hrow⟩ := goes_load (t := .objectDef) p o q hg ho hp hc
    obtain ⟨o,ho',hm,_⟩ := (hi.onward ho).onward hticks.onward
    cases hrow.symm.trans ho'
    exact ⟨hticks,hl,trivial,fun st hst v => value_homed (hticks.tidy hp).sane hrow hm hst⟩
  loadSet _ := goes_load.imp fun _ _ _ _ => trivial

theorem ChecksLodged.meets (h : ChecksLodged f) (s : Store) (g : Goal) (hg : g.Meets LodgedHeld LodgedClass s) :
    Goes True s (f g) Whatever := h.goes s g (by cases g <;> exact hg)

theorem HomedField.meets (h : HomedField s f) : f.shape.Meets LodgedHeld LodgedClass s := by
  have hs := h.2
  cases hshape : f.shape <;> simp only [hshape] at hs <;> exact hs

theorem still_defaultSetting (h : Gives (defaultSetting i n f x) p st q) (hc : p.store.get? i = some c)
    (hf : c.fields[n]? = some f) (hx : f.declaredDefault = some x) : Still p q := by
  have hk := (h.defaultSetting hc hf hx).1
  obtain ⟨_,rfl⟩ | ⟨hd,p1,c',hplain,hc',hb,hfresh,rfl⟩ := h.defaultSetting_cases hx
  · exact .refl q
  · exact .place (t := .classDef) hplain hc' (c'.withDefault_bare n st) trivial (by decide) (expanded_put (by decide)) hk.sane

theorem lodged_defaultSetting (h : Gives (defaultSetting i n f x) p st q) (hp : Sane p.store) (hc : p.store.get? i = some c)
    (hf : c.fields[n]? = some f) (hx : f.declaredDefault = some x) (hh : HomedField p.store f) :
    LodgedHeld q.store st.value := by
  have hbuilt : ∀ {p1 : Pass}, Onward p.store p1.store → DefaultBuilt p1.store f st → LodgedHeld p1.store st.value := by
    rintro p1 hon ⟨m,y,_,_,hb⟩
    have hh1 : HomedField p1.store f := hh.mono hon.stays
    exact ValueBuilt.lodged hb.value hh1.1 hh1
  obtain ⟨hd,rfl⟩ | ⟨hd,p1,c',hplain,hc',hb,hfresh,rfl⟩ := h.defaultSetting_cases hx
  · exact hbuilt (.refl _) (hp.defaults i c f st hc (List.mem_of_getElem? hf) hd)
  · exact (hbuilt (Still.of_plain hplain).onward hb).onward (.put (t := .classDef) hc' (c'.withDefault_bare n st))

include hgo in
theorem goes_checkField (n : Nat) (hi : LodgedClass s (.definition i)) : Goes True s (checkField go i n) Whatever := by
  intro p a q h ho hp hc
  have hl := (keeps_checkField hgo.keeps i n p a q h).restored
  refine ⟨?_,hl,trivial⟩
  obtain ⟨c,f,p1,c1,hcl,hf,hsh,hcl1,hf1,h⟩ := h.checkField_cases
  obtain ⟨c',hcl',hfields⟩ := hi.onward ho
  cases hcl.symm.trans hcl'
  have hh := hfields f (List.mem_of_getElem? hf)
  obtain ⟨h1,ho1,hp1,hc1,_⟩ := (working.checkShape hh.meets trivial).calm hsh (.refl _) hp hc
  rcases h with ⟨_,rfl⟩ | ⟨_,x,st,p2,hx,hst,h⟩
  · exact h1
  · have h2 := still_defaultSetting hst hcl1 hf1 hx
    have hh1 : HomedField p1.store f := hh.mono ho1.stays
    have hheld := lodged_defaultSetting hst hp1.sane hcl1 hf1 hx hh1
    have h3 := working.checkSetting hgo.keeps hgo.meets (fun _ => hheld) (hh1.mono h2.onward.stays).meets trivial _ _ _ h (.refl _)
      (h2.tidy hp1) (hc1.onward h2.onward h2.links)
    exact h1.trans (h2.ticks.trans h3.1)

include hgo in
theorem goes_checkClass (hi : LodgedClass s (.definition i)) : Goes True s (checkClass go i) Whatever := by
  refine .whenDue (t := .classDef) (keeps_checkClass hgo.keeps i)
    (fun _ _ hr => .put (t := .classDef) hr ⟨rfl,rfl⟩ trivial (by decide)) fun c s' ho => .ite (fun _ => .done _) fun _ => ?_
  rw [checkFields_eq]
  refine (working.reportDuplicates _ _ fun _ _ => ⟨trivial,trivial⟩).andThen fun _ _ ho1 => .forM fun n _ _ ho2 => ?_
  exact (goes_checkField hgo n (((hi.onward ho).onward ho1).onward ho2)).restoringChain (keeps_checkField hgo.keeps i n)

/-! Objects -/

include hgo in
theorem BodyChecked.ticks {row : Module} (h : BodyChecked go i ⟨j,row.file⟩ ci body p q o c x p1 o' p2 p3)
    (hst : o.checked.before p.marker = false) (hj : o.module = some j) (hrow : p.store.get? j = some row)
    (hkept : j ∈ p.store.kept) (hci : LodgedClass p.store (.definition ci)) (hp : Tidy True p)
    (hc : p.Free True) : Ticks True Any p q := by
  obtain ⟨hplain,hsorted⟩ := h.sorted.partitionBody
  obtain ⟨c',hc',hfields⟩ := hci
  cases h.objectClass.symm.trans hc'
  have h1 : Still p (p1.put i {o' with settings := x.settings}) :=
    .place (t := .objectDef) hplain h.row rfl trivial (by decide) (expanded_put (by decide)) (h.saves hst hj hrow).sane
  have hheld : ∀ st ∈ x.settings, LodgedHeld (p1.store.put i {o' with settings := x.settings}) st.value :=
    fun st hst => by
      obtain ⟨l,hb⟩ := hsorted hp.sane [] (by simp)
      obtain ⟨_,f,hf,hbuilt⟩ := hb.built hst
      have hlodged := ValueBuilt.lodged hbuilt.value (hplain.kept ▸ hkept)
        ((hfields f (mem_fields_of_field? hf)).mono hplain.stays)
      exact hlodged.onward (.put (t := .objectDef) (b := {o' with settings := x.settings}) h.row rfl)
  have htidy := h1.tidy hp
  obtain ⟨h2,ho2,hp2,hc2,_⟩ := (Goes.forM fun _ _ _ _ => goes_reportError rfl).calm h.unknown (.refl _) htidy
    (hc.onward h1.onward h1.links)
  obtain ⟨h3,ho3,hp3,hc3,_⟩ := (Goes.forM fun _ _ _ _ => goes_reportError rfl).calm h.repeated (.refl _) hp2 hc2
  have hrest : Goes True p3.store ((firstFields c).forM (checkObjectField go o x.settings)) Whatever := by
    refine .forM fun f hf s' ho' => ?_
    have hon : Onward p.store s' := ((h1.onward.trans ho2).trans ho3).trans ho'
    have hmem : f ∈ c.fields := mem_fields_of_field? (mem_firstFields.mp hf)
    exact working.checkObjectField hgo.keeps hgo.meets trivial
      (fun st hst => ⟨(((hheld st hst).onward ho2).onward ho3).onward ho',trivial⟩) ((hfields f hmem).mono hon.stays).meets
  exact (h1.ticks.trans (h2.trans h3)).trans (hrest _ _ _ h.fields (.refl _) hp3 hc3).1

include hgo in
theorem ticks_checkBlock (h : Gives (checkBlock go i o c) p u q) (ho : p.store.get? i = some o1) (hb : o1.bare = o.bare)
    (hst : o1.checked.before p.marker = false) (hi : LodgedObject p.store (.definition i))
    (hci : LodgedClass p.store (.definition c)) (hp : Tidy True p) (hc : p.Free True) : Ticks True Any p q := by
  obtain ⟨_,j,row,_,hj,hrow,⟨e,_,h⟩ | ⟨_,_,_,_,_,_,_,_,_,h⟩⟩ := h.checkBlock_cases
  · exact (goes_reportError rfl _ _ _ h (.refl _) hp hc).1
  · cases ho.symm.trans h.object
    have hj1 : o1.module = some j := (ObjectDef.bare_eq_iff.mp hb).2.2.2.1.trans hj
    obtain ⟨o3,ho3,hmod,_⟩ := hi
    cases ho.symm.trans ho3
    exact h.ticks hgo hst hj1 hrow (hmod j hj1) hci hp hc

include hgo in
theorem goes_checkObject (hi : LodgedObject s (.definition i)) : Goes True s (checkObject go i) Whatever := by
  intro p a q hg ho hp hc
  refine ⟨?_,(keeps_checkObject hgo.keeps i p a q hg).restored,trivial⟩
  obtain ⟨o,hrow,⟨_,rfl⟩ | ⟨hd,h⟩⟩ := gives_checkObject.mp hg
  · exact .refl q
  · have h1 : Still p (p.put i {o with checked := p.marker}) :=
      .put (t := .objectDef) hrow ⟨rfl,rfl⟩ trivial (by decide)
    rcases h with ⟨_,rfl⟩ | ⟨_,c,p1,b,p2,h⟩
    · exact h1.ticks
    · have hi1 := (hi.onward ho).onward h1.onward
      obtain ⟨h2,ho2,hp2,hc2,hcl⟩ := (goes_governObject hi1).calm h.governed (.refl _) (h1.tidy hp)
        (hc.onward h1.onward rfl)
      obtain ⟨h3,ho3,hp3,hc3,_⟩ := (working.checkGoverning hgo.meets hcl).calm h.classChecked (.refl _) hp2 hc2
      refine (h1.ticks.trans (h2.trans h3)).trans ?_
      have hr := h.rest
      cases b with
      | false => exact (gives_pure.mp hr).2 ▸ .refl _
      | true =>
        obtain ⟨o2,ho2',hbare,hst⟩ := h.row hgo.keeps hrow
        exact ticks_checkBlock hgo hr ho2' hbare hst ((hi1.onward ho2).onward ho3) (hcl.onward ho3) hp3 hc3

/-! Object sets -/

include hgo in
theorem goes_checkExpansion (d : SetDef) (hi : LodgedSet s (.definition i)) (hc : LodgedClass s (.definition c)) :
    Goes True s (checkExpansion go i d c) Whatever := by
  refine (goes_expand i).bind fun e s' ho hs hd => ?_
  cases e with
  | error x => exact (goes_scopeOf d.module).andThen fun m _ _ => goes_reportError rfl
  | ok x =>
    obtain ⟨d',hd',hx⟩ := hd
    have hi' := hi.onward ho
    refine working.checkElements hgo.keeps hgo.meets hi' (hc.onward ho) fun y hy => element_lodged hs hi' hd' ?_
    simpa only [SetDef.elements,hx] using hy

include hgo in
theorem goes_checkSet (hi : LodgedSet s (.definition i)) : Goes True s (checkSet go i) Whatever := by
  refine .whenDue (t := .setDef) (keeps_checkSet hgo.keeps i)
    (fun _ _ hr => .put (t := .setDef) hr ⟨rfl,rfl⟩ rfl (by decide)) fun d s' ho => .ite (fun _ => .done _) fun _ => ?_
  refine (goes_governSet (hi.onward ho)).bind fun c s1 h1 _ hc => ?_
  refine (working.checkGoverning hgo.meets hc).andThen fun b s2 h2 => .ite (fun _ => ?_) fun _ => .done _
  exact goes_checkExpansion hgo d (((hi.onward ho).onward h1).onward h2) (hc.onward h2)

end Checks

theorem checksLodged_checkWithin (n : Nat) : ChecksLodged (checkWithin n) := by
  refine ⟨keeps_checkWithin n,?_⟩
  induction n with
  | zero => exact fun _ _ _ => .throw _
  | succ n ih =>
    intro s g hg
    have hgo : ChecksLodged (checkWithin n) := ⟨keeps_checkWithin n,ih⟩
    cases g with
    | objectClass i => exact goes_checkClass hgo hg
    | object i => exact goes_checkObject hgo hg
    | objectSet i => exact goes_checkSet hgo hg

theorem goes_check (hg : LodgedGoal s g) : Goes True s (check g) Whatever :=
  goes_budget.andThen fun n _ ho => (checksLodged_checkWithin n).goes _ g (hg.onward ho)

end InfoObject.Check
