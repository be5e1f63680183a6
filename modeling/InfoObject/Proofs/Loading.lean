import InfoObject.Project
import InfoObject.Proofs.Closed

/-! Modules that are loaded leave a sane store, in which every number still leads to an entity. -/
namespace InfoObject.Model

/-- Builders for a module let the store grow and keep it closed, with `Q` for what they build. -/
def Lays {α : Type} (x : Id .module) (s : Store) (b : Build α) (Q : α → Store → Prop) : Prop :=
  ∀ a s', Makes b s a s' → Grown s s' ∧ (Known s x.key → Closed s → Closed s') ∧ Q a s'

section Lays
variable {α β : Type} {x : Id .module} {s : Store} {b : Build α} {Q : α → Store → Prop} {T : β → Store → Prop}

theorem Lays.pure (h : Q a s) : Lays x s (pure a) Q := by
  intro a' s' hm
  obtain ⟨rfl,rfl⟩ := makes_pure.mp hm
  exact ⟨.refl _,fun _ hs => hs,h⟩

theorem Lays.bind (hb : Lays x s b Q) (hf : ∀ a s', Grown s s' → Q a s' → Lays x s' (f a) T) : Lays x s (b >>= f) T := by
  intro c s' hm
  obtain ⟨a,s₁,h₁,h₂⟩ := makes_bind.mp hm
  obtain ⟨g₁,hs₁,ha⟩ := hb a s₁ h₁
  obtain ⟨g₂,hs₂,hc⟩ := hf a s₁ g₁ ha c s' h₂
  exact ⟨g₁.trans g₂,fun hx hs => hs₂ (g₁.known hx) (hs₁ hx hs),hc⟩

theorem Lays.map (hb : Lays x s b Q) (hf : ∀ a s', Q a s' → T (f a) s') : Lays x s (f <$> b) T := by
  rw [← bind_pure_comp]
  exact hb.bind fun a s' _ ha => .pure (hf a s' ha)

theorem Lays.ite [Decidable c] (hb : c → Lays x s b Q) (hd : ¬ c → Lays x s d Q) : Lays x s (if c then b else d) Q := by
  split
  · exact hb ‹_›
  · exact hd ‹_›

theorem Lays.mapM (hf : ∀ a s, Lays x s (f a) T) (hT : ∀ b s s', Grown s s' → T b s → T b s')
    (l : List α) : Lays x s (l.mapM f) fun bs s' => ∀ b ∈ bs, T b s' := by
  induction l generalizing s with
  | nil =>
    rw [List.mapM_nil]
    exact .pure nofun
  | cons a l ih =>
    rw [List.mapM_cons]
    refine (hf a s).bind fun b s₁ _ hb => ih.bind fun bs s₂ g hbs => .pure ?_
    exact List.forall_mem_cons.mpr ⟨hT _ _ _ g hb,hbs⟩

theorem lays_intern : Lays x s (intern name) fun i s' => i ∈ s'.registry.entries := by
  intro i s' h
  refine ⟨(Makes.intern h).1.toGrown,fun _ => Makes.closed_intern h,?_⟩
  obtain rfl : (s.intern name).1 = i := congrArg Prod.fst h
  obtain rfl : (s.intern name).2 = s' := congrArg Prod.snd h
  simp only [Store.intern,Registry.intern]
  cases hl : s.registry.lookup name .asn with
  | none => exact List.mem_cons_self ..
  | some i => exact List.mem_of_find?_eq_some hl

end Lays

section Parts
variable {s : Store} {m : Scope} {n : String} {r : Notation.Reference} {b : Notation.RawBlock} {g : ClassExpr} {l : Location}

theorem Gained.not_known (g : Gained s s') (h : ¬ Known s' k) : ¬ Known s k := fun hk => h (g.known hk)

theorem lays_newTypeRef : Lays m.id s (newTypeRef m n r l) fun t s' =>
    (∃ row, s'.get? t = some row ∧ row.scope = m.id) ∧ ¬ Known s t.key := by
  intro t s' h
  have hadd := Makes.alloc (t := .typeRef) h rfl (by decide)
  exact ⟨hadd.grown,fun hm hs => Makes.closed_newTypeRef h hs hm,⟨_,hadd.row,rfl⟩,hadd.fresh⟩

theorem lays_newClassRef : Lays m.id s (newClassRef m n r ofObject l) fun c s' =>
    (∃ row, s'.get? c = some row ∧ row.scope = m.id) ∧ ¬ Known s c.key := by
  intro c s' h
  have hadd := Makes.alloc (t := .classRef) h ⟨rfl,rfl⟩ (by decide)
  refine ⟨hadd.grown,fun hm hs => Makes.closed_alloc (t := .classRef) h hs trivial ?_,⟨_,hadd.row,rfl⟩,hadd.fresh⟩
  simpa [mentions,NameRef.keys,newNameRef,NameRef.target?] using hm

section
variable (hg : GovernorIn s m.id g)
include hg

theorem lays_newObjectDef : Lays m.id s (newObjectDef m n g b l) fun o s' =>
    DeclaredIn s' m.id (.object (.definition o)) ∧ ¬ Known s o.key := by
  intro o s' h
  have hadd := Makes.alloc (t := .objectDef) h ⟨rfl,rfl⟩ (by decide)
  exact ⟨hadd.grown,fun hm hs => Makes.closed_newObjectDef hs hm hg.known h,
    ⟨_,hadd.row,rfl,rfl,rfl,hg.mono hadd.grown.extends⟩,hadd.fresh⟩

theorem lays_newObjectRef : Lays m.id s (newObjectRef m n g r l) fun o s' =>
    DeclaredIn s' m.id (.object (.reference o)) ∧ ¬ Known s o.key := by
  intro o s' h
  have hadd := Makes.alloc (t := .objectRef) h ⟨rfl,rfl⟩ (by decide)
  exact ⟨hadd.grown,fun hm hs => Makes.closed_newObjectRef hs hm hg.known h,
    ⟨_,hadd.row,rfl,hg.mono hadd.grown.extends⟩,hadd.fresh⟩

theorem lays_newSetDef : Lays m.id s (newSetDef m n g b l) fun d s' =>
    DeclaredIn s' m.id (.objectSet (.definition d)) ∧ ¬ Known s d.key := by
  intro d s' h
  have hadd := Makes.alloc (t := .setDef) h ⟨rfl,rfl,.inl rfl⟩ (by decide)
  exact ⟨hadd.grown,fun hm hs => Makes.closed_newSetDef hs hm hg.known h,
    ⟨_,hadd.row,rfl,rfl,rfl,hg.mono hadd.grown.extends⟩,hadd.fresh⟩

theorem lays_newSetRef : Lays m.id s (newSetRef m n g r l) fun d s' =>
    DeclaredIn s' m.id (.objectSet (.reference d)) ∧ ¬ Known s d.key := by
  intro d s' h
  have hadd := Makes.alloc (t := .setRef) h ⟨rfl,rfl⟩ (by decide)
  exact ⟨hadd.grown,fun hm hs => Makes.closed_newSetRef hs hm hg.known h,
    ⟨_,hadd.row,rfl,hg.mono hadd.grown.extends⟩,hadd.fresh⟩

end

theorem lays_newValue : Lays m.id s (newValue m n x l) fun v s' => ∀ e ∈ v, ValueIn s' m.id e ∧ ∀ k ∈ e.key?, ¬ Known s k := by
  cases x with
  | int | text => exact .pure (by simp [ValueIn,ValueExpr.key?])
  | block => exact .pure (by simp)
  | reference r =>
    rw [newValue]
    split
    · exact .pure (by simp [ValueIn,ValueExpr.key?])
    · intro v s' h
      simp only [makes_bind,makes_pure] at h
      obtain ⟨j,_,hj,rfl,rfl⟩ := h
      have hadd := Makes.alloc (t := .valueRef) hj rfl (by decide)
      refine ⟨hadd.grown,fun hm hs => Makes.closed_alloc (t := .valueRef) hj hs trivial ?_,fun e he => ?_⟩
      · simpa [mentions,newNameRef] using hm
      · obtain rfl := Option.some.inj he
        exact ⟨⟨_,hadd.row,rfl⟩,by simpa [ValueExpr.key?] using hadd.fresh⟩

theorem lays_isClassName : Lays x s (isClassName r) fun _ _ => True :=
  lays_intern.bind fun _ _ _ _ => .pure trivial

theorem lays_newGovernor : Lays m.id s (newGovernor m r) fun c s' => GovernorIn s' m.id (.reference c) := by
  intro c s' h
  obtain ⟨g,hs,⟨row,hrow,hscope⟩,_⟩ := lays_newClassRef c s' h
  exact ⟨g,hs,c,row,rfl,hrow,hscope⟩

theorem lays_fieldShape : Lays m.id s (fieldShape m name f) fun x s' => ∀ g : Field, g.scope = m.id → g.shape = x →
    FieldIn s' m.id g := by
  rw [fieldShape]
  split
  · refine .pure fun g hs hx => ⟨hs,?_⟩
    rw [hx]
    cases name.isUpper <;> trivial
  · refine lays_isClassName.bind fun _ _ _ _ => .ite (fun _ => ?_) fun _ => .ite (fun _ => ?_) fun _ => ?_
    · refine lays_newGovernor.bind fun c _ _ hgov => .pure fun g hs hx => ⟨hs,?_⟩
      rw [hx]
      cases name.isUpper <;> exact hgov
    · refine .pure fun g hs hx => ⟨hs,?_⟩
      rw [hx]
      trivial
    · refine lays_newTypeRef.bind fun t _ _ ht => .pure fun g hs hx => ⟨hs,?_⟩
      rw [hx]
      exact ht.1

theorem lays_newField : Lays m.id s (newField m f) fun x s' => FieldIn s' m.id x ∧ x.defaultSetting = none :=
  lays_intern.bind fun _ _ _ _ => lays_fieldShape.bind fun _ _ _ hin => .pure ⟨hin _ rfl rfl,rfl⟩

theorem lays_newClassDef : Lays m.id s (newClassDef m n fs l) fun c s' => DeclaredIn s' m.id
    (.objectClass (.definition c)) ∧ ¬ Known s c.key := by
  refine (Lays.mapM (fun _ _ => lays_newField) (fun _ _ _ g hx => ⟨hx.1.mono g.extends rfl,hx.2⟩) fs).bind ?_
  intro xs s₁ g₁ hxs c s' h
  have hadd := Makes.alloc (t := .classDef) h ⟨rfl,fun f hf => (hxs f hf).2⟩ (by decide)
  refine ⟨hadd.grown,fun hm hs => Makes.closed_alloc (t := .classDef) h hs trivial fun k hk => ?_,
    ⟨_,hadd.row,rfl,rfl,fun f hf => (hxs f hf).1.mono hadd.grown.extends rfl⟩,g₁.not_known hadd.fresh⟩
  obtain ⟨f,hf,hk⟩ := List.mem_flatMap.mp hk
  exact (hxs f hf).1.known hm (hxs f hf).2 k hk

end Parts

/-! Assignments -/

/-- What an assignment to a name declares belongs to its module, and fits the name. -/
structure DeclaresWell (s : Store) (m : Scope) (i : Identifier) (d : Declared) : Prop where
  home : DeclaredIn s m.id d
  object : d.kind = .object → i.isUpper = false
  objectSet : d.kind = .objectSet → i.isUpper = true

/-- It was not there before, either. -/
structure DeclaresAnew (s₀ s : Store) (m : Scope) (i : Identifier) (d : Declared) : Prop extends DeclaresWell s m i d where
  fresh : ∀ k ∈ d.keys, ¬ Known s₀ k

section Assignments
variable {s s' : Store} {m : Scope} {n : String} {i : Identifier} {l : Location} {d : Declared} {x : Notation.Payload}

theorem DeclaresAnew.malformed : DeclaresAnew s s' m i .malformed := ⟨⟨trivial,nofun,nofun⟩,nofun⟩

/-- Only objects and sets have to fit their names. -/
theorem DeclaresAnew.of_kind (hd : DeclaredIn s' m.id d) (hk : d.kind ≠ .object ∧ d.kind ≠ .objectSet)
    (hf : ∀ k ∈ d.keys, ¬ Known s k) : DeclaresAnew s s' m i d :=
  ⟨⟨hd,fun h => absurd h hk.1,fun h => absurd h hk.2⟩,hf⟩

theorem DeclaresAnew.since (g : Gained s₀ s) (h : DeclaresAnew s s' m i d) : DeclaresAnew s₀ s' m i d :=
  ⟨h.toDeclaresWell,fun k hk => g.not_known (h.fresh k hk)⟩

theorem lays_declareUngoverned : Lays m.id s (declareUngoverned m n i l x) fun d s' => DeclaresAnew s s' m i d := by
  cases x with
  | int | text | block => exact .pure .malformed
  | reference r =>
    refine .ite (fun _ => ?_) fun _ => .ite (fun _ => ?_) fun _ => .pure .malformed
    · exact lays_newClassRef.bind fun c _ _ hc =>
        .pure (.of_kind hc.1 (by simp [Declared.kind]) (by simpa [Declared.keys,ClassExpr.key] using hc.2))
    · exact lays_newTypeRef.bind fun t _ _ ht => .pure (.of_kind ht.1 (by simp [Declared.kind]) (by simpa [Declared.keys] using ht.2))

theorem lays_declareOfClass (hg : GovernorIn s m.id g) : Lays m.id s (declareOfClass m n i l g x) fun d s' => DeclaresAnew s
    s' m i d := by
  have object : ∀ {o : ObjectExpr} {s'}, i.isUpper ≠ true → DeclaredIn s' m.id (.object o) ∧ ¬ Known s o.key →
      DeclaresAnew s s' m i (.object o) := fun hu h =>
    ⟨⟨h.1,fun _ => by simpa using hu,by simp [Declared.kind]⟩,by simpa [Declared.keys] using h.2⟩
  have set : ∀ {o : SetExpr} {s'}, i.isUpper = true → DeclaredIn s' m.id (.objectSet o) ∧ ¬ Known s o.key →
      DeclaresAnew s s' m i (.objectSet o) := fun hu h =>
    ⟨⟨h.1,by simp [Declared.kind],fun _ => hu⟩,by simpa [Declared.keys] using h.2⟩
  cases x with
  | int | text => exact .pure .malformed
  | block b =>
    exact .ite (fun hu => (lays_newSetDef hg).map fun _ _ h => set hu h) fun hu =>
      (lays_newObjectDef hg).map fun _ _ h => object hu h
  | reference r =>
    exact .ite (fun hu => (lays_newSetRef hg).map fun _ _ h => set hu h) fun hu =>
      (lays_newObjectRef hg).map fun _ _ h => object hu h

theorem lays_declareOfType : Lays m.id s (declareOfType m n i l r x) fun d s' => DeclaresAnew s s' m i d := by
  refine .ite (fun _ => .pure .malformed) fun _ => lays_newValue.bind fun v s₁ g₁ hv => ?_
  cases v with
  | none => exact .pure .malformed
  | some v =>
    obtain ⟨hin,hfresh⟩ := hv v rfl
    refine lays_newTypeRef.bind fun t s₂ g₂ ht => .pure (.of_kind ⟨ht.1,hin.mono g₂.extends⟩ (by simp [Declared.kind]) ?_)
    exact List.forall_mem_cons.mpr ⟨g₁.not_known ht.2,fun k hk => hfresh k (by simpa using hk)⟩

theorem lays_declare : Lays m.id s (declare m i a) fun d s' => DeclaresAnew s s' m i d := by
  obtain ⟨name,governor,value⟩ := a
  cases value with
  | classBody fields =>
    exact lays_newClassDef.map fun c _ h =>
      .of_kind h.1 (by simp [Declared.kind]) (by simpa [Declared.keys,ClassExpr.key] using h.2)
  | classOf object =>
    exact lays_newClassRef.map fun c _ h =>
      .of_kind h.1 (by simp [Declared.kind]) (by simpa [Declared.keys,ClassExpr.key] using h.2)
  | payload x =>
    cases governor with
    | none => exact lays_declareUngoverned
    | some r =>
      refine lays_isClassName.bind fun _ s₁ g₁ _ => .ite (fun _ => ?_) fun _ => ?_
      · refine lays_newGovernor.bind fun c s₂ g₂ hgov d s' h => ?_
        obtain ⟨g,hs,hd⟩ := lays_declareOfClass hgov d s' h
        exact ⟨g,hs,hd.since (g₁.trans g₂).toGained⟩
      · intro d s' h
        obtain ⟨g,hs,hd⟩ := lays_declareOfType d s' h
        exact ⟨g,hs,hd.since g₁.toGained⟩

structure AssignmentIn (s : Store) (m : Scope) (a : Assignment) : Prop where
  registered : a.identifier ∈ s.registry.entries
  home : DeclaredIn s m.id a.declared
  cases : CaseFits a

theorem lays_newAssignment : Lays m.id s (newAssignment m a) fun y s' => AssignmentIn s' m y ∧ ∀ k ∈ y.declared.keys,
    ¬ Known s k := by
  refine lays_intern.bind fun i s₁ g₁ hi => lays_declare.bind fun d s₂ g₂ hd => .pure ⟨?_,(hd.since g₁.toGained).fresh⟩
  exact ⟨g₂.names.subset hi,hd.home,hd.object,hd.objectSet⟩

theorem AssignmentIn.mono (g : Grown s s') (h : AssignmentIn s m a) : AssignmentIn s' m a :=
  ⟨g.names.subset h.registered,h.home.mono g.extends,h.cases⟩

/-- Nothing is declared twice. -/
def DeclaredApart (as : List Assignment) : Prop := as.Pairwise fun x y => ∀ k ∈ x.declared.keys, k ∉ y.declared.keys

/-- What one assignment declares is known before the next one is built, so no later one declares it again. -/
theorem lays_newAssignments (as : List Notation.Assignment) : Lays m.id s (as.mapM (newAssignment m)) fun xs s' =>
    (∀ x ∈ xs, AssignmentIn s' m x ∧ ∀ k ∈ x.declared.keys, ¬ Known s k) ∧ DeclaredApart xs := by
  induction as generalizing s with
  | nil =>
    rw [List.mapM_nil]
    exact .pure ⟨List.forall_mem_nil _,.nil⟩
  | cons a as ih =>
    rw [List.mapM_cons]
    refine lays_newAssignment.bind fun x s₁ g₁ hx => ih.bind fun xs s₂ g₂ hxs => .pure ⟨?_,List.pairwise_cons.mpr ⟨?_,hxs.2⟩⟩
    · refine List.forall_mem_cons.mpr ⟨⟨hx.1.mono g₂,hx.2⟩,fun y hy => ⟨(hxs.1 y hy).1,fun k hk => ?_⟩⟩
      exact g₁.not_known ((hxs.1 y hy).2 k hk)
    · exact fun y hy k hk hk' => (hxs.1 y hy).2 k hk' (hx.1.home.known k hk)

structure ImportIn (s : Store) (x : ImportedName) : Prop where
  name : x.name ∈ s.registry.entries
  source : x.source ∈ s.registry.entries
  unused : x.used = Marker.zero

theorem ImportIn.mono (g : Grown s s') {x : ImportedName} (h : ImportIn s x) : ImportIn s' x :=
  ⟨g.names.subset h.name,g.names.subset h.source,h.unused⟩

theorem lays_newImports {x : Id .module} : Lays x s (newImports y) fun zs s' => ∀ z ∈ zs, ImportIn s' z := by
  refine lays_intern.bind fun source s₁ _ hs zs s' h => ?_
  have hname : ∀ (n : Notation.Ident) s, Lays x s
      (do let name ← intern n.name; pure (⟨name,source,n.span,Marker.zero⟩ : ImportedName))
      fun z s => z.source = source ∧ z.name ∈ s.registry.entries ∧ z.used = Marker.zero :=
    fun _ _ => lays_intern.bind fun _ _ _ hi => .pure ⟨rfl,hi,rfl⟩
  obtain ⟨g,hs',hall⟩ := Lays.mapM hname (fun _ _ _ g hz => ⟨hz.1,g.names.subset hz.2.1,hz.2.2⟩) y.names zs s' h
  refine ⟨g,hs',fun z hz => ?_⟩
  obtain ⟨hsource,hname,hused⟩ := hall z hz
  exact ⟨hname,hsource ▸ g.names.subset hs,hused⟩

end Assignments

/-! Modules -/

/-- A module was loaded under a new number. -/
structure Loaded (node : Notation.Module) (s : Store) (i : Id .module) (s' : Store) : Prop where
  gained : Gained s s'
  fresh : s.get? i = none
  row : ∃ m, s'.get? i = some m ∧ m.node = node ∧ (Sane s → m.name = asnIdentifier node.name.name) ∧ ModuleIn s' i m
  others : ∀ (j : Id .module) m, s'.get? j = some m → s.get? j = some m ∨ j = i

section Loaded
variable {node : Notation.Module} {s s' s'' : Store} {i : Id .module} {m n : Module}

theorem Gained.put_module (h : Gained s s') (hi : s.get? i = none) (hm : s'.get? i = some m)
    (hnew : New (t := .module) n) : Gained s (s'.put i n) := by
  refine ⟨Store.kept_put.trans h.kept,by rw [Store.registry_put]; exact h.names,
    by rw [Store.registry_put]; exact h.asn,?_,?_⟩
  · intro t j a ha
    by_cases hk : i.key = j.key
    · obtain ⟨rfl,rfl⟩ := Id.eq_of_key hk
      rw [hi] at ha
      contradiction
    · exact (Store.get?_put_of_key (t := .module) n hk).trans (h.old t j a ha)
  · intro t j a ha
    by_cases hk : i.key = j.key
    · obtain ⟨rfl,rfl⟩ := Id.eq_of_key hk
      cases (Store.get?_put_self (t := .module) hm).symm.trans ha
      exact .inr ⟨hi,hnew⟩
    · exact h.new t j a ((Store.get?_put_of_key (t := .module) n hk).symm.trans ha)

theorem AssignmentIn.put_module (h : AssignmentIn s x a) : AssignmentIn (s.put i m) x a := by
  refine ⟨by rw [Store.registry_put]; exact h.registered,?_,h.cases⟩
  -- what an assignment declares lies in other tables than modules
  have hd := h.home
  generalize a.declared = d at hd
  match d,hd with
  | .malformed,_ => trivial
  | .objectClass (.definition _),hd | .objectClass (.reference _),hd | .object (.definition _),hd
  | .object (.reference _),hd | .objectSet (.definition _),hd | .objectSet (.reference _),hd
  | .type _,hd | .value _ (.literal ..),hd | .value _ (.reference _),hd => exact hd

theorem Makes.alloc_module (h : Makes (Model.alloc m) s i s') (hm : New (t := .module) m) :
    Gained s s' ∧ s.get? i = none ∧ s'.get? i = some m ∧
      ∀ (j : Id .module) n, s'.get? j = some n → s.get? j = some n ∨ j = i := by
  obtain rfl : (s.add (t := .module) m).1 = i := congrArg Prod.fst h
  obtain rfl : (s.add (t := .module) m).2 = s' := congrArg Prod.snd h
  refine ⟨.add hm,Store.get?_add_fresh s m,Store.get?_add_new (t := .module) s m,fun j n hn => ?_⟩
  rcases Store.get?_add_cases (t := .module) hn with hj | ⟨hj,_⟩
  · exact .inl hj
  · exact .inr hj

theorem Makes.newModule (h : Makes (Model.newModule node) s i s') : Loaded node s i s' ∧ (Closed s → Closed s') ∧
    ∀ m, s'.get? i = some m → DeclaredApart m.assignments := by
  simp only [Model.newModule,makes_bind,makes_pure] at h
  obtain ⟨name,s1,hname,j,s2,hj,imports,s3,himp,assigns,s4,hass,u,s5,hput,rfl,rfl⟩ := h
  obtain rfl : s4.put i {node, name, assignments := assigns, imports := imports.flatten} = s' :=
    congrArg Prod.snd hput
  obtain ⟨g1,_,hreg⟩ := lays_intern (x := i) name s1 hname
  obtain ⟨g2,hfresh,hrow,hothers⟩ := Makes.alloc_module hj (by simp [New])
  obtain ⟨g3,hc3,himps⟩ := Lays.mapM (x := i) (fun _ _ => lays_newImports) (fun _ _ _ g h x hx => (h x hx).mono g)
    node.imports imports s3 himp
  obtain ⟨g4,hc4,hassigns,hapart⟩ := lays_newAssignments (m := ⟨i,node.file⟩) node.assignments assigns s4 hass
  have g34 := g3.trans g4
  have himports : ∀ x ∈ imports.flatten, ImportIn s4 x := by
    intro x hx
    obtain ⟨l,hl,hx⟩ := List.mem_flatten.mp hx
    exact (himps l hl x hx).mono g4
  have hrow4 := g34.old _ _ _ hrow
  have hput : Gained s1 _ := (g2.trans g34.toGained).put_module hfresh hrow4
    (n := {node, name, assignments := assigns, imports := imports.flatten}) fun x hx => (himports x hx).unused
  have hfreshs : s.get? i = none := by
    by_contra hs
    obtain ⟨m,hm⟩ := Option.ne_none_iff_exists'.mp hs
    rw [g1.old .module i m hm] at hfresh
    contradiction
  refine ⟨⟨g1.toGained.trans hput,hfreshs,⟨_,Store.get?_put_self (t := .module) hrow4,rfl,(Makes.intern hname).2,?_⟩,?_⟩,fun hs => ?_,?_⟩
  · have hnames : (s4.put i _).registry = s4.registry := Store.registry_put (t := .module)
      (b := {node, name, assignments := assigns, imports := imports.flatten})
    exact {
      name := hput.names.subset hreg
      assigned := fun a ha => (hassigns a ha).1.put_module.registered
      imported := fun x hx => by rw [hnames]; exact ⟨(himports x hx).name,(himports x hx).source⟩
      declared := fun a ha => (hassigns a ha).1.put_module.home
      cases := fun a ha => (hassigns a ha).1.cases}
  · intro j m hm
    by_cases hij : i = j
    · exact .inr hij.symm
    · rw [Store.get?_put_ne (t := .module) _ hij] at hm
      rcases hothers j m (g34.modules j m hm) with h | h
      · exact .inl (g1.modules j m h)
      · exact .inr h
  · -- the row of the module is there, though empty, before anything that is numbered after it
    have hm2 : Known s2 i.key := .of_row hrow
    have hs1 : Closed s1 := Makes.closed_intern hname hs
    have hs2 := Makes.closed_alloc (t := .module) hj hs1 trivial (by simp [mentions])
    refine (hc4 (g3.known hm2) (hc3 hm2 hs2)).put (t := .module) hrow4 (fun _ => trivial) fun k hk => .inr ?_
    obtain ⟨a,ha,hk⟩ := List.mem_flatMap.mp hk
    exact (hassigns a ha).1.home.known k hk
  · intro m hm
    rw [Store.get?_put_self (t := .module) hrow4] at hm
    exact Option.some.inj hm ▸ hapart

theorem Loaded.sane (h : Loaded node s i s') (hs : Sane s) : Sane s' := by
  refine h.gained.sane hs ?_
  intro j n hn hnone
  rcases h.others j n hn with hj | rfl
  · rw [hj] at hnone
    contradiction
  · obtain ⟨m,hm,_,_,hin⟩ := h.row
    cases hm.symm.trans hn
    exact hin

end Loaded

/-! The modules in use -/

theorem Extends.keep (s : Store) (l : Shelf) : Extends s {s with kept := l} :=
  ⟨List.suffix_refl _,fun t i a ha => ⟨a,by cases t <;> exact ha,rfl⟩⟩

theorem Sane.keep (h : Sane s) (hl : Arranged s l) : Sane {s with kept := l} where
  shelf := hl.mono (.keep s l)
  asn := h.asn
  modules i m hm := (h.modules i m hm).mono (.keep s l) rfl
  expansions i d e hd he := (h.expansions i d e hd he).mono (.keep s l) rfl
  defaults i c f st hc hf hst := (h.defaults i c f st hc hf hst).mono (.keep s l)
  settings i o st ho hst := (h.settings i o st ho hst).mono (.keep s l) rfl
  apart i j m n k hi hj := by
    have back : ∀ (t : EntityType) (i : Id t) b, ({s with kept := l} : Store).get? i = some b →
        ∃ a, s.get? i = some a ∧ Touched a b := fun t i b hb => ⟨b,by cases t <;> exact hb,.refl b⟩
    exact h.apart i j m n k (hi.of_touched back) (hj.of_touched back)

theorem Store.get?_empty (i : Id t) (a : Row t) : Store.empty.get? i ≠ some a := by
  cases t <;> simp [Store.empty,Store.get?,Stored.rows]

theorem Sane.empty : Sane Store.empty where
  shelf := ⟨nofun,List.nodup_nil,fun _ _ => ⟨nofun,fun h => nomatch h.1⟩⟩
  asn := nofun
  modules i m hm := absurd hm (Store.get?_empty (t := .module) i m)
  expansions i d _ hd _ := absurd hd (Store.get?_empty (t := .setDef) i d)
  defaults i c _ _ hc _ _ := absurd hc (Store.get?_empty (t := .classDef) i c)
  settings i o _ ho _ := absurd ho (Store.get?_empty (t := .objectDef) i o)
  apart i j m n k hi _ := by
    cases hi with
    | default hc => exact absurd hc (Store.get?_empty (t := .classDef) _ _)
    | element hd => exact absurd hd (Store.get?_empty (t := .setDef) _ _)

end InfoObject.Model
