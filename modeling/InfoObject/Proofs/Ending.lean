import InfoObject.Proofs.Checkable
import InfoObject.Proofs.Closed
import InfoObject.Proofs.Weight

/-! Steps that come to an end. A pass whose store is closed and whose budget is ample can resolve every name:
each name under resolution is on the chain, and there are no more of them than the store counts for. -/
namespace InfoObject.Check
open Model

/-! Passes that a step can go on with -/

/-- An entity that may be on the chain. -/
def Linkable : {t : EntityType} → Row t → Prop
  | .classRef,_ => True
  | .typeRef,_ => True
  | .valueRef,_ => True
  | .objectRef,_ => True
  | .setRef,_ => True
  | .setDef,d => SetDef.erroneous d = false
  | .module,_ => False
  | .classDef,_ => False
  | .objectDef,_ => False

theorem Linkable.weight {a : Row t} (h : Linkable a) (m : Marker) : 1 ≤ rowWeight m a := by
  cases t with
  | module | classDef | objectDef => exact h.elim
  | setDef =>
    have he : SetDef.erroneous a = false := h
    simp only [rowWeight,setWeight,he,Bool.false_eq_true,if_false]
    omega
  | _ => exact Nat.le_refl 1

theorem Linkable.of_bare {a b : Row t} (hb : b.bare = a.bare) (h : Linkable a) : Linkable b := by
  cases t <;> exact (congrArg Linkable hb).mpr h

/-- A pass that counts for no more than `w`, with no number that leads nowhere. -/
structure Fit (w : Nat) (p : Pass) : Prop where
  closed : Closed p.store
  apart : (p.chain.links.map Link.key).Nodup
  linked : ∀ l ∈ p.chain.links, ∃ (t : EntityType) (i : Id t) (a : Row t), p.store.get? i = some a ∧ i.key = l.key ∧ Linkable a
  weight : p.weight ≤ w
  ample : 2*w+2 ≤ p.budget

/-- What a step that ends leaves as it was. -/
structure Carries (p q : Pass) : Prop where
  marker : q.marker = p.marker
  budget : q.budget = p.budget
  store : Extends p.store q.store
  links : q.chain.links = p.chain.links
  marks : q.chain.marks = p.chain.marks
  cycles : [] ∉ p.chain.cycles → [] ∉ q.chain.cycles

/-- What a step gives may be an entity of the store. -/
abbrev InStore {t : EntityType} (i : Id t) (s : Store) : Prop := Known s i.key

/-- A step comes to an end, and the pass counts for no more than `w` then. -/
def Ends {α : Type} (m : Checking α) (w : Nat) (p : Pass) (Q : α → Store → Prop) : Prop :=
  ∃ a q, Gives m p a q ∧ Carries p q ∧ Closed q.store ∧ q.weight ≤ w ∧ Q a q.store

variable {α β : Type} {w : Nat} {p q : Pass}

section Ends
variable {r : Pass} {t : EntityType} {i : Id t}

theorem Carries.refl (p : Pass) : Carries p p := ⟨rfl,rfl,.refl _,rfl,rfl,id⟩

theorem Carries.trans (h : Carries p q) (k : Carries q r) : Carries p r :=
  ⟨k.marker.trans h.marker,k.budget.trans h.budget,h.store.trans k.store,k.links.trans h.links,k.marks.trans h.marks,
    k.cycles ∘ h.cycles⟩

theorem Fit.length_le (h : Fit w p) : p.chain.links.length ≤ w := by
  have hlen : (p.chain.links.map Link.key).length ≤ p.weight := by
    refine length_le_storeWeight h.apart fun k hk => ?_
    obtain ⟨l,hl,rfl⟩ := List.mem_map.mp hk
    obtain ⟨t,i,a,ha,hk,hw⟩ := h.linked l hl
    exact ⟨t,i,a,ha,hk,hw.weight _⟩
  rw [List.length_map] at hlen
  exact hlen.trans h.weight

theorem Fit.next (h : Fit w p) (hc : Carries p q) (hs : Closed q.store) (hw : q.weight ≤ v) (hv : v ≤ w) : Fit v q := by
  refine ⟨hs,hc.links ▸ h.apart,?_,hw,by have := h.ample; rw [hc.budget]; omega⟩
  rw [hc.links]
  intro l hl
  obtain ⟨t,i,a,ha,hk,hlk⟩ := h.linked l hl
  obtain ⟨b,hb,hab⟩ := hc.store.rows t i a ha
  exact ⟨t,i,b,hb,hk,hlk.of_bare hab⟩

theorem Ends.read (hp : Fit w p) (h : Gives m p a p) (hq : Q a p.store) : Ends m w p Q :=
  ⟨a,p,h,.refl p,hp.closed,hp.weight,hq⟩

theorem Ends.pure (hp : Fit w p) (hq : Q a p.store) : Ends (pure a) w p Q :=
  .read hp (gives_pure.mpr ⟨rfl,rfl⟩) hq

theorem ends_orStuck {α : Type} {a : α} {o : Option α} {e : Stuck} (hp : Fit w p) (h : o = some a) :
    Ends (orStuck o e) w p fun b s => b = a ∧ s = p.store :=
  .read hp (gives_orStuck.mpr ⟨h,rfl⟩) ⟨rfl,rfl⟩

theorem ends_load (hp : Fit w p) (hi : Known p.store i.key) :
    Ends (load i : Checking (Row t)) w p fun a s => s = p.store ∧ s.get? i = some a := by
  obtain ⟨a,ha⟩ := hi.row
  exact .read hp (gives_load.mpr ⟨ha,rfl⟩) ⟨rfl,ha⟩

theorem Ends.bind (hp : Fit w p) (hm : Ends m w p Q) (hf : ∀ a q, Carries p q → Fit w q → Q a q.store → Ends (f a) w q T) :
    Ends (m >>= f) w p T := by
  obtain ⟨a,q,hg,hc,hs,hw,hq⟩ := hm
  obtain ⟨b,r,hg',hc',hs',hw',ht⟩ := hf a q hc (hp.next hc hs hw (Nat.le_refl _)) hq
  exact ⟨b,r,gives_bind.mpr ⟨a,q,hg,hg'⟩,hc.trans hc',hs',hw',ht⟩

theorem Ends.step (hg : Gives m p a p) (h : Ends (f a) w p Q) : Ends (m >>= f) w p Q := by
  obtain ⟨b,q,hb,h⟩ := h
  exact ⟨b,q,gives_bind.mpr ⟨a,p,hg,hb⟩,h⟩

theorem ends_budget (h : Ends (f p.budget) w p Q) : Ends (budget >>= f) w p Q :=
  .step (gives_budget.mpr ⟨rfl,rfl⟩) h

theorem Ends.mono (hm : Ends m w p Q) (h : ∀ a q, Carries p q → Q a q.store → T a q.store) : Ends m w p T := by
  obtain ⟨a,q,hg,hc,hs,hw,hq⟩ := hm
  exact ⟨a,q,hg,hc,hs,hw,h a q hc hq⟩

theorem Ends.whatever (hm : Ends m w p Q) : Ends m w p Whatever := hm.mono fun _ _ _ _ => trivial

theorem Ends.weaken (hm : Ends m v p Q) (hv : v ≤ w) : Ends m w p Q := by
  obtain ⟨a,q,hg,hc,hs,hw,hq⟩ := hm
  exact ⟨a,q,hg,hc,hs,hw.trans hv,hq⟩

theorem Ends.forM_keeping {l : List α} {J : Store → Prop} (hp : Fit w p) (hJ : J p.store)
    (hf : ∀ x ∈ l, ∀ q, Carries p q → Fit w q → J q.store → Ends (f x) w q fun _ => J) : Ends (l.forM f) w p fun _ => J := by
  induction l generalizing p with
  | nil => exact .pure hp hJ
  | cons x l ih =>
    refine .bind hp (hf x (by simp) p (.refl p) hp hJ) fun _ q hc hq hJ => ih hq hJ fun y hy r hr => ?_
    exact hf y (by simp [hy]) r (hc.trans hr)

theorem Ends.forM {l : List α} (hp : Fit w p) (hf : ∀ x ∈ l, ∀ q, Carries p q → Fit w q → Ends (f x) w q Whatever) :
    Ends (l.forM f) w p Whatever := .forM_keeping hp trivial fun x hx q hc hq _ => hf x hx q hc hq

theorem ends_save {a b : Row t} (hp : Fit w p) (ha : p.store.get? i = some a)
    (hb : b.bare = a.bare) (hk : ∀ k ∈ mentions b, k ∈ mentions a ∨ Known p.store k)
    (hw : rowWeight p.marker b ≤ rowWeight p.marker a) (hq : Q () (p.store.put i b)) : Ends (save i b) w p Q :=
  ⟨(),_,gives_save.mpr rfl,⟨rfl,rfl,.put ha hb,rfl,rfl,id⟩,hp.closed.put ha (Whole.of_bare hb) hk,
    (Pass.weight_put_le ha hw).trans hp.weight,hq⟩

theorem ends_report (hp : Fit w p) : Ends (report d) w p fun _ s => s = p.store :=
  ⟨(),_,gives_report.mpr rfl,⟨rfl,rfl,.refl _,rfl,rfl,id⟩,hp.closed,hp.weight,rfl⟩

theorem ends_reportError (hp : Fit w p) : Ends (reportError f l o) w p fun _ s => s = p.store :=
  ends_report hp

theorem ends_reportWarning (hp : Fit w p) : Ends (reportWarning c l) w p fun _ s => s = p.store :=
  ends_report hp

end Ends

/-! Names -/

theorem findIn?_answers {s : Store} (hs : ∀ name i, s.moduleNamed? name = some i → Known s i.key) (module name : Identifier) : ∃ a, s.findIn? module name = some a := by
  unfold Store.findIn?
  split
  · exact ⟨none,rfl⟩
  · rename_i i hi
    obtain ⟨row,hrow⟩ := (hs module i hi).row
    exact ⟨_,by rw [hrow]; rfl⟩

/-- A name that is written in a module that is there can be looked for. -/
theorem lookup?_answers {s : Store} (hs : ∀ name i, s.moduleNamed? name = some i → Known s i.key) (hk : Known s scope.key)
    (r : Notation.Reference) (m : Marker) :
    ∃ a s', s.lookup? scope r m = some (a,s') := by
  obtain ⟨row,hrow⟩ := hk.row
  simp only [Store.lookup?,hrow,Option.bind_eq_bind,Option.bind_some]
  split
  · exact ⟨_,_,rfl⟩
  · rename_i name _
    split
    · unfold Store.lookupUnqualified?
      split
      · exact ⟨_,_,rfl⟩
      · split
        · exact ⟨_,_,rfl⟩
        · rename_i source imports _
          obtain ⟨a,ha⟩ := findIn?_answers hs source name
          exact ⟨a,_,by rw [ha]; rfl⟩
    · split
      · exact ⟨_,_,rfl⟩
      · rename_i module _
        obtain ⟨a,ha⟩ := findIn?_answers hs module name
        exact ⟨a,_,by rw [ha]; rfl⟩

theorem mentions_of_bare (h : b.bare = a.bare) : mentions (t := .module) b = mentions (t := .module) a := by
  have hd := congrArg (List.map Assignment.declared) (Module.bare_eq_iff.mp h).2.2.1
  simp only [List.map_map] at hd
  have flat : ∀ m : Module, mentions (t := .module) m =
      (m.assignments.map (Assignment.declared ∘ Assignment.bare)).flatMap Declared.keys := fun m => by
    simp only [mentions,List.flatMap_map]
    rfl
  rw [flat,flat,hd]

theorem Closed.lookup (hs : Closed s) (h : s.lookup? scope n m = some (a,s')) : Closed s' := by
  rcases (LooksUp.of_lookup? h).store with rfl | ⟨row,row',hrow,hm,rfl⟩
  · exact hs
  · exact hs.put (t := .module) hrow (fun _ => trivial) fun k hk => .inl (mentions_of_bare hm.bare ▸ hk)

theorem ends_lookup (hp : Fit w p) (hk : Known p.store scope.key) (n : Notation.Reference) :
    Ends (lookup scope n) w p fun a s => ∀ x, a = some x → ∀ k ∈ x.declared.keys, Known s k := by
  obtain ⟨a,s,ha⟩ := lookup?_answers hp.closed.named hk n p.marker
  have hplain := Plain.lookup ha
  refine ⟨a,_,gives_lookup.mpr ⟨s,ha,rfl⟩,⟨rfl,rfl,hplain.extends,rfl,rfl,id⟩,Closed.lookup hp.closed ha,
    (storeWeight_lookup ha).le.trans hp.weight,?_⟩
  intro x hx k hk
  obtain ⟨i,row,_,hrow,hmem,_⟩ := (LooksUp.of_lookup? ha).found x hx
  exact (hp.closed.known (t := .module) hrow (List.mem_flatMap.mpr ⟨x,hmem,hk⟩)).mono hplain.extends

theorem ends_reportKind (hp : Fit w p) : Ends (reportKind r want got) w p fun _ s => s = p.store := by
  unfold reportKind
  split
  · exact .pure hp rfl
  · exact ends_reportError hp

/-! Entities that are built -/

/-- A step that builds comes to an end, leaves the store closed and adds no more than `n` to what it counts for. -/
def Builds {α : Type} (n : Nat) (m : Checking α) (p : Pass) (Q : α → Store → Prop) : Prop :=
  ∃ a q, Gives m p a q ∧ Extends p.store q.store ∧ Closed q.store ∧ q.weight ≤ p.weight+n ∧ Q a q.store

section Building
variable {n k : Nat} {m : Scope} {Q : α → Store → Prop} {T : β → Store → Prop} {l : Location}

theorem Builds.pure (hs : Closed p.store) (hq : Q a p.store) : Builds n (pure a) p Q :=
  ⟨a,p,gives_pure.mpr ⟨rfl,rfl⟩,.refl _,hs,Nat.le_add_right _ _,hq⟩

theorem Builds.bind (hb : Builds n b p Q) (hf : ∀ a q, Extends p.store q.store → Closed q.store → Q a q.store →
    Builds k (f a) q T) : Builds (n+k) (b >>= f) p T := by
  obtain ⟨a,q,hg,he,hs,hw,hq⟩ := hb
  obtain ⟨c,r,hg',he',hs',hw',ht⟩ := hf a q he hs hq
  exact ⟨c,r,gives_bind.mpr ⟨a,q,hg,hg'⟩,he.trans he',hs',by omega,ht⟩

theorem Builds.mono (hb : Builds n b p Q) (h : n ≤ k) : Builds k b p Q := by
  obtain ⟨a,q,hg,he,hs,hw,hq⟩ := hb
  exact ⟨a,q,hg,he,hs,by omega,hq⟩

theorem Builds.map (hb : Builds n b p Q) (h : ∀ a s, Q a s → T (f a) s) : Builds n (f <$> b) p T := by
  obtain ⟨a,q,hg,he,hs,hw,hq⟩ := hb
  exact ⟨f a,q,gives_map.mpr ⟨a,hg,rfl⟩,he,hs,hw,h a _ hq⟩

theorem build_bind : build (b >>= f) = (do build (f (← build b))) := rfl

theorem build_map : build (f <$> b) = f <$> build b := rfl

theorem Builds.ends (hp : Fit w p) (h : Builds 0 (build b) p Q) : Ends (build b) w p Q := by
  obtain ⟨a,q,hg,he,hs,hw,hq⟩ := h
  obtain ⟨s,_,rfl⟩ := gives_build.mp hg
  exact ⟨a,_,hg,⟨rfl,rfl,he,rfl,rfl,id⟩,hs,hw.trans hp.weight,hq⟩

theorem builds_alloc {b : Row t} (hb : New b) (ht : ¬ t.Written)
    (hc : ∀ i s, Makes (alloc b : Build (Id t)) p.store i s → Closed s) (hw : rowWeight p.marker b ≤ n) :
    Builds n (build (alloc b : Build (Id t))) p InStore := by
  have hm : Makes (alloc b : Build (Id t)) p.store (p.store.add (t := t) b).1 (p.store.add (t := t) b).2 := rfl
  have hadd := Makes.alloc hm hb fun h => ht (h ▸ trivial)
  refine ⟨_,_,gives_build.mpr ⟨_,hm,rfl⟩,hadd.grown.extends,hc _ _ hm,?_,.of_row hadd.row⟩
  exact (storeWeight_add b).le.trans (Nat.add_le_add_left hw _)

theorem builds_lookup (hs : Closed p.store) (hk : Known p.store scope.key) (r : Notation.Reference) :
    Builds 0 (lookup scope r) p Whatever := by
  obtain ⟨a,s,ha⟩ := lookup?_answers hs.named hk r p.marker
  exact ⟨a,_,gives_lookup.mpr ⟨s,ha,rfl⟩,(Plain.lookup ha).extends,Closed.lookup hs ha,(storeWeight_lookup ha).le,trivial⟩

theorem builds_intern (hs : Closed p.store) (name : String) : Builds 0 (build (intern name)) p Whatever :=
  ⟨_,_,gives_build.mpr ⟨_,rfl,rfl⟩,(Built.intern p.store name).extends,Makes.closed_intern (i := _) rfl hs,Nat.le_refl _,trivial⟩

theorem builds_scopeOf (hs : Closed p.store) (hi : Known p.store i.key) : Builds 0 (scopeOf (some i)) p fun m _ => m.id =
    i := by
  obtain ⟨row,hrow⟩ := hi.row
  refine ⟨⟨i,row.file⟩,p,?_,.refl _,hs,Nat.le_refl _,rfl⟩
  simp [scopeOf,hrow]

theorem builds_standInClass (hs : Closed p.store) (name : String) (l : Location) :
    Builds 0 (build (standInClass name l)) p InStore :=
  builds_alloc (t := .classDef) ⟨rfl,fun _ hf => by simp at hf⟩ id (fun _ _ h => Makes.closed_standInClass h hs)
    (by simp [rowWeight,classWeight])

theorem ends_standInClass (hp : Fit w p) (name : String) (l : Location) :
    Ends (build (standInClass name l)) w p InStore :=
  Builds.ends hp (builds_standInClass hp.closed name l)

theorem ends_standInObject (hp : Fit w p) (name : String) (hc : Known p.store c.key)
    (l : Location) : Ends (build (standInObject name c l)) w p InStore :=
  Builds.ends hp (builds_alloc (t := .objectDef) ⟨rfl,rfl⟩ id (fun _ _ h => Makes.closed_standInObject h hp.closed hc)
    (by simp [rowWeight,objectWeight]))

theorem ends_standInSet (hp : Fit w p) (name : String) (hc : Known p.store c.key)
    (l : Location) : Ends (build (standInSet name c l)) w p InStore :=
  Builds.ends hp (builds_alloc (t := .setDef) ⟨rfl,rfl,.inr ⟨rfl,rfl⟩⟩ id (fun _ _ h => Makes.closed_standInSet h hp.closed hc)
    (by simp [rowWeight,setWeight]))

/-! Elements of sets -/

section Written
variable {g : ClassExpr} {name : String} {b : Notation.RawBlock} {r : Notation.Reference} (hs : Closed p.store)
  (hm : Known p.store m.id.key) (hg : Known p.store g.key)

include hs hm hg

theorem builds_newObjectDef : Builds (b.length+1) (build (newObjectDef m name g b l)) p InStore :=
  builds_alloc (t := .objectDef) ⟨rfl,rfl⟩ id (fun _ _ => Makes.closed_newObjectDef hs hm hg) objectWeight_le

theorem builds_newSetDef : Builds (b.length+2) (build (newSetDef m name g b l)) p InStore :=
  builds_alloc (t := .setDef) ⟨rfl,rfl,.inl rfl⟩ id (fun _ _ => Makes.closed_newSetDef hs hm hg) setWeight_le

theorem builds_newObjectRef : Builds 1 (build (newObjectRef m name g r l)) p InStore :=
  builds_alloc (t := .objectRef) ⟨rfl,rfl⟩ id (fun _ _ => Makes.closed_newObjectRef hs hm hg) (Nat.le_refl _)

theorem builds_newSetRef : Builds 1 (build (newSetRef m name g r l)) p InStore :=
  builds_alloc (t := .setRef) ⟨rfl,rfl⟩ id (fun _ _ => Makes.closed_newSetRef hs hm hg) (Nat.le_refl _)

end Written

theorem builds_namesSet (hs : Closed p.store) (hm : Known p.store m.id.key) (r : Notation.Reference) :
    Builds 0 (namesSet m r) p Whatever := by
  refine (builds_lookup hs hm r).bind (k := 0) fun a q _ hq _ => ?_
  split
  · exact .pure hq trivial
  · exact .pure hq trivial
  · exact (builds_intern hq _).bind (k := 0) fun _ _ _ hq _ => .pure hq trivial

theorem builds_newElement (hs : Closed p.store) (hm : Known p.store m.id.key) (hd : Known p.store d.governor.key) (n : Nat)
    (x : Notation.ElementDecl) : Builds x.weight (newElement m d n x) p fun e s => Known s e.key := by
  cases x with
  | block b => exact (builds_newObjectDef hs hm hd).map fun _ _ h => h
  | reference r =>
    refine ((builds_namesSet hs hm r).bind (k := 1) fun b q he hq _ => ?_).mono (Nat.le_refl _)
    split
    · exact (builds_newSetRef hq (hm.mono he) (hd.mono he)).map fun _ _ h => h
    · exact (builds_newObjectRef hq (hm.mono he) (hd.mono he)).map fun _ _ h => h

theorem builds_newElements (hs : Closed p.store) (hm : Known p.store m.id.key) (hd : Known p.store d.governor.key) (n : Nat)
    (xs : List Notation.ElementDecl) : Builds (xs.map Notation.ElementDecl.weight).sum (newElements m d n xs) p fun es s =>
    ∀ e ∈ es, Known s e.key := by
  induction xs generalizing p n with
  | nil => exact .pure hs nofun
  | cons x xs ih =>
    rw [List.map_cons,List.sum_cons]
    refine (builds_newElement hs hm hd n x).bind fun e q he hq hk => ?_
    refine (ih hq (hm.mono he) (hd.mono he) (n+1)).bind (k := 0) fun es r he' hr hes => ?_
    exact .pure hr (List.forall_mem_cons.mpr ⟨hk.mono he',hes⟩)

theorem builds_readElements (hs : Closed p.store) {i : Id .setDef} (hd : p.store.get? i = some d) (hb : d.block = some b)
    (hm : ∀ body, b.parseSet = .ok body → d.module.isSome) :
    Builds (blockWeight d.block) (readElements d) p fun e s => ∀ x ∈ elementsOf e, Known s x.key := by
  have hk := (hs.rows .setDef i d hd).2
  simp only [readElements,hb,orStuck,pure_bind]
  split
  · exact .pure hs (List.forall_mem_nil _)
  · rename_i body hbody
    obtain ⟨j,hj⟩ := Option.isSome_iff_exists.mp (hm body hbody)
    have hjk : Known p.store j.key := hk _ (by simp [mentions,hj])
    have hgk : Known p.store d.governor.key := hk _ (by simp [mentions])
    have hle := Notation.parseSet_weight hbody
    rw [hj]
    refine ((builds_scopeOf hs hjk).bind (k := (body.elements.map Notation.ElementDecl.weight).sum) fun m q hext hq hm => ?_).mono
      (by simp only [blockWeight,Option.elim_some]; omega)
    exact (builds_newElements hq (hm ▸ hjk.mono hext) (hgk.mono hext) 0 _).bind (k := 0) fun es r _ hr hes => .pure hr hes

/-! Settings -/

section Settings
variable {f : Field} (hs : Closed p.store) (hf : ∀ k ∈ f.shape.key?, Known p.store k)

include hs hf

theorem builds_fieldGovernor (l : Location) : Builds 0 (build (fieldGovernor f l)) p fun g s => Known s g.key := by
  unfold fieldGovernor
  split
  · rename_i c hc
    exact .pure hs (hf _ (by simp [hc,FieldShape.key?,ClassExpr.key]))
  · rename_i c hc
    exact .pure hs (hf _ (by simp [hc,FieldShape.key?,ClassExpr.key]))
  · rw [build_map]
    exact (builds_standInClass hs _ l).map fun _ _ h => h

variable (hm : Known p.store m.id.key)

include hm

theorem builds_referenceSetting (r : Notation.Reference) (l : Location) (kind : FieldKind) :
    Builds 1 (build (referenceSetting m f r l kind)) p fun v s => ∀ k ∈ v.key?, Known s k := by
  unfold referenceSetting
  split
  · rw [build_map]
    exact Builds.map (builds_alloc (t := .typeRef) rfl id (fun _ _ h => Makes.closed_newTypeRef h hs hm) (Nat.le_refl _))
      fun _ _ h k hk => Option.some.inj hk ▸ h
  · rw [build_bind]
    refine (builds_fieldGovernor hs hf l).bind (k := 1) fun g q he hq hg => ?_
    rw [build_map]
    exact (builds_newObjectRef hq (hm.mono he) hg).map fun _ _ h k hk => Option.some.inj hk ▸ h
  · rw [build_bind]
    refine (builds_fieldGovernor hs hf l).bind (k := 1) fun g q he hq hg => ?_
    rw [build_map]
    exact (builds_newSetRef hq (hm.mono he) hg).map fun _ _ h k hk => Option.some.inj hk ▸ h
  · split
    · exact .pure hs nofun
    · rw [build_map]
      refine Builds.map (builds_alloc (t := .valueRef) rfl id (fun _ _ h => ?_) (Nat.le_refl _))
        fun _ _ h k hk => Option.some.inj hk ▸ h
      exact Makes.closed_alloc (t := .valueRef) h hs trivial (by simpa [mentions,newNameRef] using hm)

theorem builds_blockSetting (display : String) (b : Notation.RawBlock) (l : Location) :
    Builds (b.length+2) (build (blockSetting m f display b l)) p fun v s => ∀ k ∈ v.key?, Known s k := by
  rw [blockSetting,build_bind,← Nat.zero_add (b.length+2)]
  refine (builds_fieldGovernor hs hf l).bind fun g q he hq hg => ?_
  split
  · rw [build_map]
    exact (builds_newSetDef hq (hm.mono he) hg).map fun _ _ h k hk => Option.some.inj hk ▸ h
  · rw [build_map]
    exact ((builds_newObjectDef hq (hm.mono he) hg).map fun _ _ h k hk => Option.some.inj hk ▸ h).mono (by omega)

theorem builds_newSetting (owner : String) (name : Identifier) (x : Notation.Payload) :
    Builds x.weight (newSetting m owner name x f) p fun st s => ∀ k ∈ st.value.key?, Known s k := by
  unfold newSetting
  cases x with
  | int | text => exact .pure hs nofun
  | block b => exact (builds_blockSetting hs hf hm _ b _).bind (k := 0) fun _ _ _ hq h => .pure hq h
  | reference r =>
    have hkind : Builds 0 (classifyReference m r f.kind) p Whatever := by
      refine (builds_lookup hs hm r).bind (k := 0) fun a q _ hq _ => ?_
      split
      · exact .pure hq trivial
      · exact .pure hq trivial
    refine hkind.bind (k := 1) fun kind q he hq _ => ?_
    exact (builds_referenceSetting hq (fun k hk => (hf k hk).mono he) (hm.mono he) r _ kind).bind (k := 0)
      fun _ _ _ hq h => .pure hq h

end Settings

theorem builds_partitionBody (hs : Closed p.store) (hm : Known p.store m.id.key)
    (hc : ∀ f ∈ c.fields, ∀ k ∈ f.shape.key?, Known p.store k) (owner : String)
    (hd : ∀ st ∈ done, ∀ k ∈ st.value.key?, Known p.store k) (ds : List Notation.SettingDecl) :
    Builds (ds.map fun d => d.payload.weight).sum (partitionBody m owner c done ds) p fun x s => ∀ st ∈ x.settings, ∀
    k ∈ st.value.key?, Known s k := by
  induction ds generalizing p done with
  | nil => exact .pure hs fun st hst => hd st (List.mem_reverse.mp hst)
  | cons d ds ih =>
    have next : ∀ {q : Pass}, Extends p.store q.store → Closed q.store →
        Builds (ds.map fun d => d.payload.weight).sum (partitionBody m owner c done ds) q
          fun x s => ∀ st ∈ x.settings, ∀ k ∈ st.value.key?, Known s k :=
      fun he hq => ih hq (hm.mono he) (fun f hf k hk => (hc f hf k hk).mono he)
        fun st hst k hk => (hd st hst k hk).mono he
    rw [List.map_cons,List.sum_cons,← Nat.zero_add (_+_)]
    refine (builds_intern hs _).bind fun name q he hq _ => ?_
    split
    · exact ((next he hq).bind (k := 0) fun _ _ _ hr h => .pure hr h).mono (Nat.le_add_left _ _)
    · split
      · exact ((next he hq).bind (k := 0) fun _ _ _ hr h => .pure hr h).mono (Nat.le_add_left _ _)
      · rename_i f hf
        have hmem : f ∈ c.fields := mem_fields_of_field? hf
        refine (builds_newSetting hq (fun k hk => (hc f hmem k hk).mono he) (hm.mono he) owner name d.payload).bind
          fun st r he' hr hst => ?_
        have hall := he.trans he'
        refine ih hr (hm.mono hall) (fun f hf k hk => (hc f hf k hk).mono hall) ?_
        exact List.forall_mem_cons.mpr ⟨hst,fun st hst k hk => (hd st hst k hk).mono hall⟩

end Building

/-! The chain -/

theorem Fit.mark (hp : Fit w p) : Fit w p.marked := {hp with}

theorem Chain.rewind_ends {c : Chain} (hl : ls <+: c.links) (hm : c.marks = ls.length::ms) : ∃ d, c.rewind = some d ∧
    d.links = ls ∧ d.marks = ms ∧ d.cycles = c.cycles := by
  simp only [Chain.rewind,hm]
  exact ⟨_,rfl,(List.prefix_iff_eq_take.mp hl).symm,rfl,rfl⟩

theorem ends_restoringChain (h : Ends m w p.marked Q) : Ends (restoringChain m) w p Q := by
  obtain ⟨a,q,hg,hc,hs,hw,hq⟩ := h
  obtain ⟨d,hd,hl,hm,hcs⟩ := Chain.rewind_ends (hc.links ▸ List.prefix_refl _) hc.marks
  exact ⟨a,_,gives_restoringChain.mpr ⟨q,d,hg,hd,rfl⟩,⟨hc.marker,hc.budget,hc.store,hl,hm,hcs ▸ hc.cycles⟩,hs,hw,hq⟩

theorem Fit.add {t : EntityType} {i : Id t} {a : Row t} (hp : Fit w p) (ha : p.store.get? i = some a) (hl : Linkable a)
    (n : String) (l : Location) : Fit w (p.entered ⟨i.key,n,l⟩) := by
  by_cases h : p.chain.holds ⟨i.key,n,l⟩
  · simp only [Pass.entered,Chain.add,h,if_true]
    exact {hp with}
  · simp only [Pass.entered,Chain.add,h,Bool.false_eq_true,if_false]
    have hnot : i.key ∉ p.chain.links.map Link.key := by
      intro hmem
      obtain ⟨x,hx,hk⟩ := List.mem_map.mp hmem
      exact h (List.any_eq_true.mpr ⟨x,hx,by simpa using hk⟩)
    refine {hp with apart := ?_, linked := ?_}
    · rw [List.map_append,List.nodup_append]
      refine ⟨hp.apart,by simp,?_⟩
      rintro k hk _ hk' rfl
      have hki : k = i.key := by simpa using hk'
      exact hnot (hki ▸ hk)
    · intro x hx
      rcases List.mem_append.mp hx with hx | hx
      · exact hp.linked x hx
      · obtain rfl := List.mem_singleton.mp hx
        exact ⟨t,i,a,ha,rfl,hl⟩

theorem Chain.links_prefix_add (c : Chain) (l : Link) : c.links <+: (c.add l).2.links := by
  unfold Chain.add
  split
  · exact List.prefix_refl _
  · exact List.prefix_append _ _

theorem Chain.marks_add (c : Chain) (l : Link) : (c.add l).2.marks = c.marks := by
  unfold Chain.add
  split <;> rfl

theorem Chain.length_add {c : Chain} (h : (c.add l).1 = true) : (c.add l).2.links.length = c.links.length+1 := by
  unfold Chain.add at h ⊢
  split
  · rename_i hh
    simp [hh] at h
  · simp

/-! References -/

/-- References, with the numbers of what they are found to mean. -/
class Targeting (t : EntityType) (τ : outParam Type) [Referring t τ] where
  keys : τ → List Nat
  linkable : ∀ a : Row t, Linkable a := by intros; trivial
  mentions_resolve : ∀ (a : Row t) x, ∀ k ∈ mentions (Referring.resolve a x), k ∈ mentions a ∨ k ∈ keys x.target
  mentions_target : ∀ (a : Row t) x, Referring.resolution a = some x → ∀ k ∈ keys x.target, k ∈ mentions a
  weight_resolve : ∀ m (a : Row t) x, rowWeight m (Referring.resolve a x) = rowWeight m a := by intros; rfl
  scope : Row t → Id .module
  mentions_scope : ∀ a : Row t, (scope a).key ∈ mentions a

instance : Targeting .typeRef TypeTarget where
  keys _ := []
  mentions_resolve _ _ _ hk := .inl hk
  mentions_target _ _ _ _ hk := by simp at hk
  scope := NameRef.scope
  mentions_scope _ := List.mem_singleton_self _

instance : Targeting .valueRef ValueTarget where
  keys _ := []
  mentions_resolve _ _ _ hk := .inl hk
  mentions_target _ _ _ _ hk := by simp at hk
  scope := NameRef.scope
  mentions_scope _ := List.mem_singleton_self _

theorem NameRef.mem_keys {t : EntityType} {r : NameRef (Id t)} (h : k ∈ NameRef.keys {r with resolution := some x}) :
    k ∈ r.keys ∨ k ∈ [x.target.key] := by
  rcases List.mem_cons.mp h with rfl | h
  · exact .inl List.mem_cons_self
  · exact .inr (by simpa [NameRef.target?] using h)

theorem NameRef.mem_cons_keys {t : EntityType} {r : NameRef (Id t)}
    (h : k ∈ n::NameRef.keys {r with resolution := some x}) : k ∈ n::r.keys ∨ k ∈ [x.target.key] := by
  rcases List.mem_cons.mp h with rfl | h
  · exact .inl List.mem_cons_self
  · exact (NameRef.mem_keys h).imp (List.mem_cons_of_mem _) id

theorem NameRef.target_mem_keys {t : EntityType} {r : NameRef (Id t)} {x : Resolution (Id t)} (h : r.resolution = some x)
    (hk : k ∈ [x.target.key]) : k ∈ r.keys := by
  rw [List.mem_singleton.mp hk]
  simp [NameRef.keys,NameRef.target?,h]

instance : Targeting .classRef (Id .classDef) where
  keys c := [c.key]
  mentions_resolve _ _ _ hk := NameRef.mem_keys hk
  mentions_target _ _ h _ hk := NameRef.target_mem_keys h hk
  scope r := r.scope
  mentions_scope _ := List.mem_cons_self

instance : Targeting .objectRef (Id .objectDef) where
  keys o := [o.key]
  mentions_resolve _ _ _ hk := NameRef.mem_cons_keys hk
  mentions_target _ _ h _ hk := List.mem_cons_of_mem _ (NameRef.target_mem_keys h hk)
  scope r := r.scope
  mentions_scope _ := List.mem_cons_of_mem _ List.mem_cons_self

instance : Targeting .setRef (Id .setDef) where
  keys d := [d.key]
  mentions_resolve _ _ _ hk := NameRef.mem_cons_keys hk
  mentions_target _ _ h _ hk := List.mem_cons_of_mem _ (NameRef.target_mem_keys h hk)
  scope r := r.scope
  mentions_scope _ := List.mem_cons_of_mem _ List.mem_cons_self

section Once
variable {t : EntityType} {τ ε : Type} [Referring t τ] [Targeting t τ] {id : Id t} {before : Row t → Checking ε}
  {search : Bool → Row t → ε → Checking τ}

theorem scope_known {r : Row t} (hp : Fit w p) (hr : p.store.get? id = some r) (he : Extends p.store s) :
    Known s (Targeting.scope r).key :=
  (hp.closed.known hr (Targeting.mentions_scope r)).mono he

/-- A resolution ends if the search does, both where the name is new on the chain and where it closes a cycle. -/
theorem Ends.once (hp : Fit w p) (hi : Known p.store id.key)
    (hb : ∀ r, p.store.get? id = some r → Ends (before r) w p.marked B)
    (hs : ∀ r e q, p.store.get? id = some r → Extends p.store q.store → Fit w q → B e q.store →
    (q.chain.links.length = p.chain.links.length+1 → Ends (search true r e) w q fun x s => ∀ k ∈ Targeting.keys t x,
    Known s k) ∧ Ends (search false r e) w q fun x s => ∀ k ∈ Targeting.keys t x, Known s k) :
    Ends (once id before search) w p fun x s => ∀ k ∈ Targeting.keys t x, Known s k := by
  obtain ⟨r,hr⟩ := hi.row
  cases hf : found p.marker (Referring.resolution r) with
  | some x =>
    refine .read hp (gives_once.mpr ⟨r,hr,.inl ⟨hf,rfl⟩⟩) fun k hk => ?_
    obtain ⟨y,hy,_,rfl⟩ := found_eq_some.mp hf
    exact hp.closed.known hr (Targeting.mentions_target r y hy k hk)
  | none =>
    obtain ⟨e,p1,hg1,hc1,hs1,hw1,hB⟩ := hb r hr
    have hp1 := hp.mark.next hc1 hs1 hw1 (Nat.le_refl _)
    obtain ⟨r1,hr1,_⟩ := hc1.store.rows t id r hr
    have hp2 := hp1.add hr1 (Targeting.linkable r1) (Referring.name r) (Referring.location r)
    have hsearch : Ends (search (p1.chain.add (linkOf id r)).1 r e) w (p1.entered (linkOf id r))
        fun x s => ∀ k ∈ Targeting.keys t x, Known s k := by
      obtain ⟨hnew,hold⟩ := hs r e (p1.entered (linkOf id r)) hr hc1.store hp2 hB
      cases hb : (p1.chain.add (linkOf id r)).1 with
      | false => exact hold
      | true =>
        refine hnew ?_
        rw [Chain.length_add hb]
        exact congrArg (List.length · + 1) hc1.links
    obtain ⟨x,p2,hg2,hc2,hs2,hw2,hk⟩ := hsearch
    obtain ⟨r2,hr2,_⟩ := hc2.store.rows t id r1 hr1
    have hl : p.chain.links <+: p2.chain.links := by
      have hadd := Chain.links_prefix_add p1.chain (linkOf id r)
      rw [hc1.links] at hadd
      exact hc2.links ▸ hadd
    obtain ⟨d,hd,hdl,hdm,hdc⟩ := Chain.rewind_ends hl
      ((hc2.marks.trans (Chain.marks_add _ _)).trans hc1.marks)
    have hbare : (Referring.resolve r2 ⟨x,p2.marker⟩).bare = r2.bare := (Referring.moves p2.marker r2 x).bare_eq
    refine ⟨x,_,gives_once.mpr ⟨r,hr,.inr ⟨hf,e,p1,p2,r2,d,hg1,hg2,hr2,hd,rfl⟩⟩,
      ⟨hc2.marker.trans hc1.marker,hc2.budget.trans hc1.budget,(hc1.store.trans hc2.store).trans (.put hr2 hbare),hdl,hdm,
        fun h => hdc ▸ hc2.cycles ((Evolves.enter (X := fun _ => False) _).cycles.solid (hc1.cycles h))⟩,
      hs2.put hr2 (Whole.of_bare hbare) ?_,?_,fun k hk' => (hk k hk').put hr2⟩
    · exact fun k hk' => (Targeting.mentions_resolve r2 _ k hk').imp_right (hk k)
    · exact (Pass.weight_put_le hr2 (Targeting.weight_resolve _ _ _).le).trans hw2

end Once

/-! Types and values -/

section Steps
variable {t : EntityType} (hp : Fit w p)
include hp

theorem ends_missing (h : ∀ q, Carries p q → Fit w q → Ends m w q Q) : Ends (do reportMissing r; m) w p Q :=
  .bind hp (ends_reportError hp) fun _ q hc hq _ => h q hc hq

theorem ends_seek (hr : Known p.store r.scope.key) (ha : ∀ q, Carries p q → Fit w q → Ends absent w q Q)
    (hw : ∀ q, Carries p q → Fit w q → Ends wrong w q Q)
    (hf : ∀ d e q, sel d = some e → Carries p q → Fit w q → (∀ k ∈ d.keys, Known q.store k) → Ends (follow e) w q Q) :
    Ends (seek r want sel absent wrong follow) w p Q := by
  refine .bind hp (ends_lookup hp hr r.reference) fun a q hc hq hkeys => ?_
  split
  · exact ha q hc hq
  · split
    · exact hf _ _ q ‹_› hc hq (hkeys _ rfl)
    · exact .bind hq (ends_reportKind hq) fun _ q1 hc1 hq1 _ => hw q1 (hc.trans hc1) hq1

theorem ends_seekOr (hr : Known p.store r.scope.key) (hs : ∀ q, Carries p q → Fit w q → Ends standIn w q Q)
    (hf : ∀ d e q, sel d = some e → Carries p q → Fit w q → (∀ k ∈ d.keys, Known q.store k) → Ends (follow e) w q Q) :
    Ends (seekOr r want sel standIn follow) w p Q :=
  ends_seek hp hr (fun _ hc hq => ends_missing hq fun q1 hc1 hq1 => hs q1 (hc.trans hc1) hq1) hs hf

theorem ends_typeWithin (hi : Known p.store i.key) (hn : 2*w+1 ≤ n+2*p.chain.links.length) :
    Ends (typeWithin n i) w p Whatever := by
  induction n generalizing p i with
  | zero =>
    have := hp.length_le
    omega
  | succ n ih =>
    rw [typeWithin_succ]
    refine (Ends.once (B := Whatever) hp hi (fun _ _ => .pure hp.mark trivial) ?_).whatever
    intro r _ q hr he hq _
    refine ⟨fun hlen => ?_,.pure hq nofun⟩
    refine Ends.mono (Q := Whatever) ?_ fun _ _ _ _ => nofun
    refine findType_eq ▸ ends_seek hq (scope_known hp hr he) (fun q1 _ hq1 => ?_) (fun _ _ hq1 => .pure hq1 trivial) fun d next q1 hd hc hq1 hk => ?_
    · unfold missingType
      split
      · exact .pure hq1 trivial
      · exact ends_missing hq1 fun _ _ hq => .pure hq trivial
    · cases d <;> cases hd
      refine ih hq1 (hk _ (by simp [Declared.keys])) ?_
      rw [hc.links]
      omega

theorem ends_resolveType (hi : Known p.store i.key) : Ends (resolveType i) w p Whatever := by
  have := hp.ample
  exact ends_budget (ends_typeWithin hp hi (by omega))

theorem ends_valueWithin (hv : ∀ k ∈ v.key?, Known p.store k) (hn : 2*w+1 ≤ n+2*p.chain.links.length) :
    Ends (valueWithin n v) w p Whatever := by
  induction n generalizing p v with
  | zero =>
    have := hp.length_le
    omega
  | succ n ih =>
    cases v with
    | literal => exact .pure hp trivial
    | reference i =>
      rw [valueWithin_succ]
      refine (Ends.once (B := Whatever) hp (hv _ rfl) (fun _ _ => .pure hp.mark trivial) ?_).mono
        fun _ _ _ _ => trivial
      intro r _ q hr he hq _
      refine ⟨fun hlen => ?_,.pure hq nofun⟩
      refine Ends.mono (Q := Whatever) ?_ fun _ _ _ _ => nofun
      refine findValue_eq ▸ ends_seekOr hq (scope_known hp hr he) (fun _ _ hq1 => .pure hq1 trivial) fun d v q1 hd hc hq1 hkeys => ?_
      cases d <;> cases hd
      refine ih hq1 (fun k hk => hkeys k (by simp [Declared.keys,Option.mem_def.mp hk])) ?_
      rw [hc.links]
      omega

theorem ends_resolveValue (hv : ∀ k ∈ v.key?, Known p.store k) : Ends (resolveValue v) w p Whatever := by
  have := hp.ample
  exact ends_budget (ends_valueWithin hp hv (by omega))

/-! Classes, objects and object sets -/

theorem ends_govern [HasGovernor t] {i : Id t} (hi : Known p.store i.key)
    (hkey : ∀ a : Row t, (HasGovernor.governor a).key ∈ mentions a)
    (hnote : ∀ (a : Row t) c, mentions (HasGovernor.note a c) = mentions a)
    (hweight : ∀ m (a : Row t) c, rowWeight m (HasGovernor.note a c) = rowWeight m a)
    (hf : ∀ e q, Carries p q → Fit w q → Known q.store e.key → Ends (f e) w q InStore) :
    Ends (noteGovernor f i) w p InStore := by
  refine .bind hp (ends_load hp hi) fun a q hc hq ha => ?_
  obtain ⟨_,ha⟩ := ha
  refine .bind hq (hf _ q hc hq (hq.closed.known ha (hkey a))) fun c q1 hc1 hq1 hk => ?_
  refine .bind hq1 (ends_load hq1 ((hi.mono hc.store).mono hc1.store)) fun b q2 hc2 hq2 hb => ?_
  obtain ⟨hs,hb⟩ := hb
  refine .bind hq2 (ends_save (Q := fun _ s => Known s c.key) hq2 hb (HasGovernor.moves q2.marker b c).bare_eq
    (fun k hk => .inl (hnote b c ▸ hk)) (hweight _ b c).le ((hs ▸ hk).put hb)) fun _ q3 _ hq3 hk3 => ?_
  exact .pure hq3 hk3

theorem ends_governObject (hi : Known p.store i.key)
    (hf : ∀ e q, Carries p q → Fit w q → Known q.store e.key → Ends (f e) w q InStore) :
    Ends (governObject f i) w p InStore :=
  ends_govern (t := .objectDef) hp hi (fun _ => by simp [mentions,HasGovernor.governor]) (fun _ _ => rfl) (fun _ _ _ => rfl) hf

theorem ends_classesDiffer (ha : Known p.store a.key)
    (hb : Known p.store b.key) : Ends (classesDiffer a b) w p Whatever :=
  .bind hp (ends_load hp ha) fun _ _ hc hq _ => .bind hq (ends_load hq (hb.mono hc.store)) fun _ _ _ hq _ =>
    .pure hq trivial

theorem ends_reportClassMismatch (ha : Known p.store a.key)
    (hb : Known p.store b.key) : Ends (reportClassMismatch r a b) w p Whatever := by
  refine .bind hp (ends_load hp ha) fun _ _ hc hq _ => .bind hq (ends_load hq (hb.mono hc.store)) fun _ _ _ hq _ => ?_
  exact (ends_reportError hq).whatever

theorem ends_settle {τ : Type} {r : NameRef τ} {expected : Id .classDef} {erroneous : Bool}
    {govern : Checking (Id .classDef)} {standIn : Checking (Id t)} {y : Id t}
    (he : Known p.store expected.key) (hy : Known p.store y.key) (hg : Ends govern w p InStore)
    (hs : ∀ q, Carries p q → Fit w q → Ends standIn w q InStore) :
    Ends (settle r expected erroneous govern standIn y) w p InStore := by
  unfold settle
  split
  · exact hs p (.refl p) hp
  · refine .bind hp hg fun got q hc hq hgot => ?_
    refine .bind hq (ends_classesDiffer hq hgot (he.mono hc.store)) fun b q1 hc1 hq1 _ => ?_
    have hc' := hc.trans hc1
    split
    · refine .bind hq1 (ends_reportClassMismatch hq1 (hgot.mono hc1.store) (he.mono hc'.store)) fun _ q2 hc2 hq2 _ => ?_
      exact hs q2 (hc'.trans hc2) hq2
    · exact .pure hq1 (hy.mono hc'.store)

theorem ends_seekMember {follow : ε → Checking (Id t)} {erroneous : Row t → Bool} {standIn : Checking (Id t)}
    {govern : Id t → Checking (Id .classDef)} (hr : Known p.store r.scope.key) (he : Known p.store expected.key)
    (hs : ∀ q, Carries p q → Fit w q → Ends standIn w q InStore)
    (hg : ∀ i q, Carries p q → Fit w q → Known q.store i.key → Ends (govern i) w q InStore)
    (hf : ∀ d e q, sel d = some e → Carries p q → Fit w q → (∀ k ∈ d.keys, Known q.store k) → Ends (follow e) w q InStore) :
    Ends (seekOr r want sel standIn (member r expected follow erroneous govern standIn)) w p InStore := by
  refine ends_seekOr hp hr hs fun d e q hd hc hq hk => .bind hq (hf d e q hd hc hq hk) fun i q1 hc1 hq1 hi => ?_
  refine .bind hq1 (ends_load hq1 hi) fun row q2 hc2 hq2 _ => ?_
  have hc' := (hc.trans hc1).trans hc2
  exact ends_settle hq2 (he.mono hc'.store) (hi.mono hc2.store) (hg i q2 hc' hq2 (hi.mono hc2.store))
    fun q3 hc3 hq3 => hs q3 (hc'.trans hc3) hq3

section Follow
variable {followClass : ClassExpr → Checking (Id .classDef)} {followObject : ObjectExpr → Checking (Id .objectDef)}
  (hc : ∀ e q, Carries p q → Fit w q → Known q.store e.key → Ends (followClass e) w q InStore)
  (ho : ∀ o q, Carries p q → Fit w q → Known q.store o.key → Ends (followObject o) w q InStore)

include hc ho

theorem ends_findClass (r : ClassRef) (hr : Known p.store r.scope.key) : Ends (findClass followClass followObject r) w p InStore := by
  rw [findClass_eq]
  split
  · refine ends_seekOr hp hr (fun _ _ hq => ends_standInClass hq _ _) fun d o q hd hcq hq hk => ?_
    cases d <;> cases hd
    refine .bind hq (ho o q hcq hq (hk _ (by simp [Declared.keys]))) fun i q1 hc1 hq1 hi => ?_
    exact ends_governObject hq1 hi fun e q2 hc2 hq2 he => hc e q2 ((hcq.trans hc1).trans hc2) hq2 he
  · refine ends_seekOr hp hr (fun _ _ hq => ends_standInClass hq _ _) fun d c q hd hcq hq hk => ?_
    cases d <;> cases hd
    exact hc c q hcq hq (hk _ (by simp [Declared.keys]))

theorem ends_findObject (r : ObjectRef) (hr : Known p.store r.scope.key) (he : Known p.store expected.key) :
    Ends (findObject followClass followObject r expected) w p InStore := by
  rw [findObject_eq]
  refine ends_seekMember hp hr he (fun q hc hq => ends_standInObject hq _ (he.mono hc.store) _)
    (fun i q hcq hq hi => ends_governObject hq hi fun e q1 hc1 => hc e q1 (hcq.trans hc1)) fun d o q hd hcq hq hk => ?_
  cases d <;> cases hd
  exact ho o q hcq hq (hk _ (by simp [Declared.keys]))

end Follow

omit hp in
/-- Classes and objects: an object asks for its class before it is on the chain itself. -/
theorem ends_within (n : Nat) : ∀ {p : Pass} {w : Nat}, Fit w p →
    (∀ {e : ClassExpr}, Known p.store e.key → 2*w+1 ≤ n+2*p.chain.links.length →
      Ends (classWithin n e) w p InStore) ∧
    ∀ {o : ObjectExpr}, Known p.store o.key → 2*w+2 ≤ n+2*p.chain.links.length →
      Ends (objectWithin n o) w p InStore := by
  induction n with
  | zero =>
    intro p w hp
    have := hp.length_le
    exact ⟨fun _ _ => by omega,fun _ _ => by omega⟩
  | succ n ih =>
    intro p w hp
    constructor
    · intro e he hn
      cases e with
      | definition c => exact .pure hp he
      | reference i =>
        rw [classWithin_succ]
        refine (Ends.once (B := Whatever) hp he (fun _ _ => .pure hp.mark trivial) ?_).mono
          fun c q _ hk => hk _ List.mem_cons_self
        intro r _ q hr hext hq _
        refine ⟨fun hlen => ?_,(ends_standInClass hq _ _).mono fun _ _ _ hk _ hk' => List.mem_singleton.mp hk' ▸ hk⟩
        refine Ends.mono (ends_findClass hq ?_ ?_ r (scope_known hp hr hext)) fun _ _ _ hk _ hk' => List.mem_singleton.mp hk' ▸ hk
        · exact fun e q1 hc1 hq1 he => (ih hq1).1 he (by rw [hc1.links]; omega)
        · exact fun o q1 hc1 hq1 ho => (ih hq1).2 ho (by rw [hc1.links]; omega)
    · intro o ho hn
      cases o with
      | definition i => exact .pure hp ho
      | reference i =>
        rw [objectWithin_succ]
        refine (Ends.once (B := InStore) hp ho ?_ ?_).mono fun c q _ hk => hk _ List.mem_cons_self
        · intro r hr
          have hlen : 2*w+1 ≤ n+2*p.chain.links.length := by omega
          exact (ih hp.mark).1 (hp.closed.known (t := .objectRef) hr (by simp [mentions])) hlen
        · intro r expected q hr hext hq he
          refine ⟨fun hlen => ?_,
            (ends_standInObject hq _ he _).mono fun _ _ _ hk _ hk' => List.mem_singleton.mp hk' ▸ hk⟩
          refine Ends.mono (ends_findObject hq ?_ ?_ r (scope_known hp hr hext) he) fun _ _ _ hk _ hk' => List.mem_singleton.mp hk' ▸ hk
          · exact fun e q1 hc1 hq1 he => (ih hq1).1 he (by rw [hc1.links]; omega)
          · exact fun o q1 hc1 hq1 ho => (ih hq1).2 ho (by rw [hc1.links]; omega)

theorem ends_resolveClass (he : Known p.store e.key) : Ends (resolveClass e) w p InStore := by
  have := hp.ample
  exact ends_budget ((ends_within _ hp).1 he (by omega))

theorem ends_resolveObject (ho : Known p.store o.key) : Ends (resolveObject o) w p InStore := by
  have := hp.ample
  exact ends_budget ((ends_within _ hp).2 ho (by omega))

theorem ends_governSet (hi : Known p.store i.key) : Ends (governSet i) w p InStore :=
  ends_govern (t := .setDef) hp hi (fun _ => by simp [mentions,HasGovernor.governor]) (fun _ _ => rfl) (fun _ _ _ => rfl)
    fun _ _ _ hq he => ends_resolveClass hq he

theorem ends_findSet (hf : ∀ x q, Carries p q → Fit w q → Known q.store x.key →
    Ends (follow x) w q InStore) (r : SetRef) (hr : Known p.store r.scope.key) (he : Known p.store expected.key) :
    Ends (findSet follow r expected) w p InStore := by
  rw [findSet_eq]
  refine ends_seekMember hp hr he (fun q hc hq => ends_standInSet hq _ (he.mono hc.store) _)
    (fun i q _ hq hi => ends_governSet hq hi) fun d x q hd hcq hq hk => ?_
  cases d <;> cases hd
  exact hf x q hcq hq (hk _ (by simp [Declared.keys]))

theorem ends_setWithin (hx : Known p.store x.key) (hn : 2*w+1 ≤ n+2*p.chain.links.length) :
    Ends (setWithin n x) w p InStore := by
  induction n generalizing p x with
  | zero =>
    have := hp.length_le
    omega
  | succ n ih =>
    cases x with
    | definition i => exact .pure hp hx
    | reference i =>
      rw [setWithin_succ]
      refine (Ends.once (B := InStore) hp hx ?_ ?_).mono fun c q _ hk => hk _ List.mem_cons_self
      · exact fun r hr => ends_resolveClass hp.mark (hp.closed.known (t := .setRef) hr (by simp [mentions]))
      · intro r expected q hr hext hq he
        refine ⟨fun hlen => ?_,
          (ends_standInSet hq _ he _).mono fun _ _ _ hk _ hk' => List.mem_singleton.mp hk' ▸ hk⟩
        refine Ends.mono (ends_findSet hq ?_ r (scope_known hp hr hext) he) fun _ _ _ hk _ hk' => List.mem_singleton.mp hk' ▸ hk
        exact fun y q1 hc1 hq1 hy => ih hq1 hy (by rw [hc1.links]; omega)

theorem ends_resolveSet (hx : Known p.store x.key) : Ends (resolveSet x) w p InStore := by
  have := hp.ample
  exact ends_budget (ends_setWithin hp hx (by omega))

end Steps

end InfoObject.Check
