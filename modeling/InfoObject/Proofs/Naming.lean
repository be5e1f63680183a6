import InfoObject.Proofs.Building

/-! What a name denotes in a module, told without the way it is looked for: the first assignment to the name in
the module itself, or else in the module that the first import of the name brings it from. -/
namespace InfoObject.Model

/-- The first item of a list that has a property. -/
def First {α : Type} (P : α → Prop) (l : List α) (a : α) : Prop :=
  ∃ l₁ l₂, l = l₁++a::l₂ ∧ P a ∧ ∀ b ∈ l₁, ¬ P b

/-- A module assigns something to a name. Of several assignments the first one counts. -/
def Assigns (s : Store) (i : Id .module) (name : String) (d : Declared) : Prop :=
  ∃ m a, s.get? i = some m ∧ First (fun a => a.identifier = asnIdentifier name) m.assignments a ∧ a.declared = d

/-- The module in use under a name. -/
def InUse (s : Store) (name : Identifier) (i : Id .module) : Prop :=
  First (fun i => ∃ m, s.get? i = some m ∧ m.name = name) s.kept.modules i

/-- What a name that is written in a module denotes. -/
inductive Denotes (s : Store) (scope : Id .module) (r : Notation.Reference) (d : Declared) : Prop
  | qualified {q : Notation.Ident} {i : Id .module} (hq : r.qualifier = some q)
      (hi : InUse s (asnIdentifier q.name) i) (ha : Assigns s i r.name.name d)
  | own (hq : r.qualifier = none) (ha : Assigns s scope r.name.name d)
  | imported {m : Module} {x : ImportedName} {i : Id .module} (hq : r.qualifier = none)
      (hn : ∀ e, ¬ Assigns s scope r.name.name e) (hm : s.get? scope = some m)
      (hx : First (fun x => x.name = asnIdentifier r.name.name) m.imports x) (hi : InUse s x.source i)
      (ha : Assigns s i r.name.name d)

/-! Looking for the first item -/

section First
variable {α β : Type} {P : α → Prop} {l : List α} {a b : α}

theorem First.mem (h : First P l a) : a ∈ l := by
  obtain ⟨l₁,l₂,rfl,_⟩ := h
  simp

theorem First.holds (h : First P l a) : P a := by
  obtain ⟨_,_,_,h,_⟩ := h
  exact h

theorem find?_eq_some_iff_first (hf : ∀ a, f a = true ↔ P a) : l.find? f = some a ↔ First P l a := by
  rw [List.find?_eq_some_iff_append]
  constructor
  · rintro ⟨ha,l₁,l₂,hl,hn⟩
    refine ⟨l₁,l₂,hl,(hf a).mp ha,fun b hb hP => ?_⟩
    have := hn b hb
    simp [(hf b).mpr hP] at this
  · rintro ⟨l₁,l₂,hl,ha,hn⟩
    refine ⟨(hf a).mpr ha,l₁,l₂,hl,fun b hb => ?_⟩
    have : ¬ f b = true := fun h => hn b hb ((hf b).mp h)
    simpa using this

theorem First.unique (h : First P l a) (k : First P l b) : a = b := by
  classical
  have hf : ∀ a, decide (P a) = true ↔ P a := fun a => decide_eq_true_iff
  exact Option.some.inj (((find?_eq_some_iff_first hf).mpr h).symm.trans ((find?_eq_some_iff_first hf).mpr k))

theorem First.map (f : α → β) (hQ : ∀ a, Q (f a) ↔ P a) (h : First P l a) : First Q (l.map f) (f a) := by
  obtain ⟨l₁,l₂,rfl,ha,hn⟩ := h
  refine ⟨l₁.map f,l₂.map f,by simp,(hQ a).mpr ha,fun b hb => ?_⟩
  obtain ⟨c,hc,rfl⟩ := List.mem_map.mp hb
  exact fun h => hn c hc ((hQ c).mp h)

theorem First.of_map (hQ : ∀ a, Q (f a) ↔ P a) (h : First Q (l.map f) y) : ∃ a, First P l a ∧ f a = y := by
  obtain ⟨m₁,m₂,hl,hy,hn⟩ := h
  obtain ⟨l₁,l₃,rfl,rfl,h₃⟩ := List.map_eq_append_iff.mp hl
  obtain ⟨a,l₂,rfl,rfl,_⟩ := List.map_eq_cons_iff.mp h₃
  refine ⟨a,⟨l₁,l₂,rfl,(hQ a).mp hy,fun b hb hP => ?_⟩,rfl⟩
  exact hn (f b) (List.mem_map_of_mem hb) ((hQ b).mpr hP)

end First

/-! The search finds what a name denotes -/

section Lookup
variable {s : Store} {i scope : Id .module} {d e : Declared} {r : Notation.Reference}

theorem Assigns.unique (h : Assigns s i name d) (k : Assigns s i name e) : d = e := by
  obtain ⟨m,a,hm,ha,rfl⟩ := h
  obtain ⟨n,b,hn,hb,rfl⟩ := k
  cases hm.symm.trans hn
  rw [ha.unique hb]

theorem Denotes.unique (h : Denotes s scope r d) (k : Denotes s scope r e) : d = e := by
  cases h with
  | qualified hq hi ha =>
    cases k with
    | qualified hq' hi' ha' =>
      cases hq.symm.trans hq'
      obtain rfl := hi.unique hi'
      exact ha.unique ha'
    | own hq' | imported hq' => simp [hq] at hq'
  | own hq ha =>
    cases k with
    | qualified hq' => simp [hq] at hq'
    | own _ ha' => exact ha.unique ha'
    | imported _ hn => exact absurd ha (hn d)
  | imported hq hn hm hx hi ha =>
    cases k with
    | qualified hq' => simp [hq] at hq'
    | own _ ha' => exact absurd ha' (hn e)
    | imported _ _ hm' hx' hi' ha' =>
      cases hm.symm.trans hm'
      obtain rfl := hx.unique hx'
      obtain rfl := hi.unique hi'
      exact ha.unique ha'

theorem Sane.registered (hs : Sane s) (hmem : asnIdentifier name ∈ s.registry.entries) :
    s.registry.lookup name .asn = some (asnIdentifier name) := by
  cases hl : s.registry.lookup name .asn with
  | none =>
    have := List.find?_eq_none.mp hl _ hmem
    simp [asnIdentifier] at this
  | some x => rw [hs.lookup_eq hl]

theorem Assigns.registered (hs : Sane s) (h : Assigns s i name d) : s.registry.lookup name .asn =
    some (asnIdentifier name) := by
  obtain ⟨m,a,hm,ha,_⟩ := h
  exact hs.registered (ha.holds ▸ (hs.modules i m hm).assigned a ha.mem)

theorem InUse.registered (hs : Sane s) (h : InUse s (asnIdentifier name) i) : s.registry.lookup name .asn =
    some (asnIdentifier name) := by
  obtain ⟨m,hm,hn⟩ := h.holds
  exact hs.registered (hn ▸ (hs.modules i m hm).name)

theorem find?_assigns (hm : s.get? i = some m) : (m.find? (asnIdentifier name)).map Assignment.declared = some d ↔
    Assigns s i name d := by
  have hf : ∀ a : Assignment, (a.identifier == asnIdentifier name) = true ↔ a.identifier = asnIdentifier name :=
    fun a => beq_iff_eq
  simp only [Option.map_eq_some_iff,Module.find?,find?_eq_some_iff_first hf]
  constructor
  · rintro ⟨a,ha,rfl⟩
    exact ⟨m,a,hm,ha,rfl⟩
  · rintro ⟨n,a,hn,ha,rfl⟩
    cases hm.symm.trans hn
    exact ⟨a,ha,rfl⟩

theorem moduleNamed?_inUse (hs : Sane s) : s.moduleNamed? name = some i ↔ InUse s name i := by
  unfold Store.moduleNamed?
  constructor
  · intro h
    obtain ⟨hi,hname⟩ := (hs.shelf.named name i).mp h
    obtain ⟨l₁,l₂,hl⟩ := List.append_of_mem hi
    refine ⟨l₁,l₂,hl,hname,fun j hj hn => ?_⟩
    -- a module before it that has the name would be the same one
    have hk := (hs.shelf.named name j).mpr ⟨show j ∈ s.kept.modules by simp [hl,hj],hn⟩
    cases h.symm.trans hk
    have hd := hs.shelf.distinct
    rw [hl,List.nodup_append] at hd
    exact hd.2.2 i hj i List.mem_cons_self rfl
  · intro h
    exact (hs.shelf.named name i).mpr ⟨h.mem,h.holds⟩

theorem findIn?_assigns (hs : Sane s) (h : s.findIn? module (asnIdentifier name) = some a) :
    a.map Assignment.declared = some d ↔ ∃ i, InUse s module i ∧ Assigns s i name d := by
  unfold Store.findIn? at h
  cases hi : s.moduleNamed? module with
  | none =>
    obtain rfl : none = a := by simpa [hi] using h
    simp [← moduleNamed?_inUse hs,hi]
  | some i =>
    simp only [hi,Option.map_eq_some_iff] at h
    obtain ⟨m,hm,rfl⟩ := h
    simp [← moduleNamed?_inUse hs,hi,find?_assigns hm]

theorem useImport_first (name : Identifier) (m : Marker) (l : List ImportedName) :
    (useImport name m l).map Prod.fst = (l.find? (·.name == name)).map ImportedName.source := by
  induction l with
  | nil => rfl
  | cons x l ih =>
    by_cases hx : x.name = name
    · simp [useImport,hx]
    · simp only [useImport,hx,if_false,Option.map_map,List.find?_cons,beq_eq_false_iff_ne.mpr hx]
      rw [← ih]
      rfl

/-- The search for a name finds exactly what the name denotes. -/
theorem lookup_denotes (hs : Sane s) (h : s.lookup? scope r m = some (a,s')) :
    a.map Assignment.declared = some d ↔ Denotes s scope r d := by
  simp only [Store.lookup?,Option.bind_eq_bind,Option.bind_eq_some_iff] at h
  obtain ⟨row,hm,h⟩ := h
  cases hl : s.registry.lookup r.name.name .asn with
  | none =>
    -- nothing is assigned to a name that is not registered
    have hno : ∀ i e, ¬ Assigns s i r.name.name e := fun i e h => by simp [h.registered hs] at hl
    obtain ⟨rfl,-⟩ : none = a ∧ s = s' := by simpa [hl] using h
    constructor
    · simp
    · intro h
      cases h with
      | qualified _ _ ha | own _ ha | imported _ _ _ _ _ ha => exact absurd ha (hno _ _)
  | some name =>
    obtain rfl := hs.lookup_eq hl
    simp only [hl] at h
    cases hq : r.qualifier with
    | some q =>
      simp only [hq] at h
      cases hq' : s.registry.lookup q.name .asn with
      | none =>
        obtain ⟨rfl,-⟩ : none = a ∧ s = s' := by simpa [hq'] using h
        constructor
        · simp
        · intro h
          cases h with
          | qualified hqq hi =>
            cases hq.symm.trans hqq
            simp [hi.registered hs] at hq'
          | own hqq | imported hqq => simp [hq] at hqq
      | some x =>
        obtain rfl := hs.lookup_eq hq'
        simp only [hq',Option.map_eq_some_iff,Prod.mk.injEq] at h
        obtain ⟨_,h,rfl,rfl⟩ := h
        rw [findIn?_assigns hs h]
        constructor
        · rintro ⟨i,hi,ha⟩
          exact .qualified hq hi ha
        · intro h
          cases h with
          | qualified hqq hi ha =>
            cases hq.symm.trans hqq
            exact ⟨_,hi,ha⟩
          | own hqq | imported hqq => simp [hq] at hqq
    | none =>
      simp only [hq,Store.lookupUnqualified?] at h
      cases ha : row.find? (asnIdentifier r.name.name) with
      | some x =>
        obtain ⟨rfl,-⟩ : some x = a ∧ s = s' := by simpa [ha] using h
        have hown : Assigns s scope r.name.name x.declared := (find?_assigns hm).mp (by rw [ha]; rfl)
        constructor
        · rintro ⟨⟩
          exact .own hq hown
        · intro h
          rw [h.unique (.own hq hown)]
          rfl
      | none =>
        simp only [ha] at h
        have hno : ∀ e, ¬ Assigns s scope r.name.name e := fun e h => by
          have := (find?_assigns hm).mpr h
          simp [ha] at this
        have himp := useImport_first (asnIdentifier r.name.name) m row.imports
        have hf : ∀ x : ImportedName, (x.name == asnIdentifier r.name.name) = true ↔
            x.name = asnIdentifier r.name.name := fun x => beq_iff_eq
        cases hu : useImport (asnIdentifier r.name.name) m row.imports with
        | none =>
          obtain ⟨rfl,-⟩ : none = a ∧ s = s' := by simpa [hu] using h
          rw [hu,Option.map_none,eq_comm,Option.map_eq_none_iff] at himp
          constructor
          · simp
          · intro h
            cases h with
            | qualified hqq => simp [hq] at hqq
            | own _ ha' => exact absurd ha' (hno _)
            | imported _ _ hm' hx =>
              cases hm.symm.trans hm'
              rw [← find?_eq_some_iff_first hf] at hx
              simp [himp] at hx
        | some y =>
          obtain ⟨source,imports⟩ := y
          rw [hu,Option.map_some,eq_comm,Option.map_eq_some_iff] at himp
          obtain ⟨x,hx,rfl⟩ := himp
          have hx' := (find?_eq_some_iff_first hf).mp hx
          simp only [hu,Option.map_eq_some_iff,Prod.mk.injEq] at h
          obtain ⟨_,h,rfl,-⟩ := h
          rw [findIn?_assigns hs h]
          constructor
          · rintro ⟨i,hi,ha'⟩
            exact .imported hq hno hm hx' hi ha'
          · intro h
            cases h with
            | qualified hqq => simp [hq] at hqq
            | own _ ha' => exact absurd ha' (hno _)
            | imported _ _ hm' hx'' hi ha' =>
              cases hm.symm.trans hm'
              obtain rfl := hx'.unique hx''
              exact ⟨_,hi,ha'⟩

end Lookup

/-! Names denote the same as long as modules are the same but for what checks leave in them -/

/-- A store that came from another without a change of modules, but for what checks leave in them. -/
structure Onward (s s' : Store) : Prop where
  more : Extends s s'
  kept : s'.kept = s.kept
  written : ∀ t : EntityType, t.Written → ∀ i : Id t, s.get? i = none → s'.get? i = none

/-- A module is in two stores, and has the same names in both. -/
def Alike (s s' : Store) (i : Id .module) : Prop :=
  ∃ m m', s.get? i = some m ∧ s'.get? i = some m' ∧ m'.bare = m.bare

/-- Two stores have the same modules in use, and the same modules at all. -/
structure SameModules (s s' : Store) : Prop where
  kept : s'.kept = s.kept
  alike : ∀ i : Id .module, Alike s s' i ∨ s.get? i = none ∧ s'.get? i = none

section Alike
variable {s s' s'' : Store} {i scope : Id .module} {d : Declared} {r : Notation.Reference}

theorem Alike.symm (h : Alike s s' i) : Alike s' s i := by
  obtain ⟨m,m',hm,hm',hb⟩ := h
  exact ⟨m',m,hm',hm,hb.symm⟩

theorem SameModules.symm (h : SameModules s s') : SameModules s' s :=
  ⟨h.kept.symm,fun i => (h.alike i).imp Alike.symm And.symm⟩

theorem SameModules.of_row (h : SameModules s s') (hm : s.get? i = some m) : ∃ m', s'.get? i = some m' ∧ m'.bare = m.bare := by
  rcases h.alike i with ⟨n,m',hn,hm',hb⟩ | ⟨hn,_⟩
  · cases hm.symm.trans hn
    exact ⟨m',hm',hb⟩
  · simp [hm] at hn

theorem Onward.refl (s : Store) : Onward s s := ⟨.refl s,rfl,fun _ _ _ h => h⟩

theorem Onward.trans (h : Onward s s') (k : Onward s' s'') : Onward s s'' :=
  ⟨h.more.trans k.more,k.kept.trans h.kept,fun t ht i hi => k.written t ht i (h.written t ht i hi)⟩

theorem Onward.sameModules (h : Onward s s') : SameModules s s' := by
  refine ⟨h.kept,fun i => ?_⟩
  cases hi : s.get? i with
  | none => exact .inr ⟨rfl,h.written .module trivial i hi⟩
  | some m =>
    obtain ⟨m',hm',hb⟩ := h.more.rows _ i m hi
    exact .inl ⟨m,m',hi,hm',hb⟩

theorem First.congr {α β : Type} {f : α → β} {P : α → Prop} {l l' : List α} (hl : l'.map f = l.map f)
    (hP : ∀ a b, f a = f b → (P a ↔ P b)) {a : α} (h : First P l a) : ∃ b, First P l' b ∧ f b = f a := by
  have hQ : ∀ a, (∃ c, f c = f a ∧ P c) ↔ P a := fun a =>
    ⟨fun ⟨c,hc,hPc⟩ => (hP c a hc).mp hPc,fun ha => ⟨a,rfl,ha⟩⟩
  have hmap := h.map f (Q := fun y => ∃ c, f c = y ∧ P c) hQ
  rw [← hl] at hmap
  exact hmap.of_map (Q := fun y => ∃ c, f c = y ∧ P c) hQ

theorem Assigns.congr (h : SameModules s s') (ha : Assigns s i name d) : Assigns s' i name d := by
  obtain ⟨m,a,hm,hf,rfl⟩ := ha
  obtain ⟨m',hm',hb⟩ := h.of_row hm
  obtain ⟨b,hfb,hba⟩ := hf.congr (Module.bare_eq_iff.mp hb).2.2.1 fun a b hab => by
    rw [(Assignment.bare_eq_iff.mp hab).2.1]
  exact ⟨m',b,hm',hfb,(Assignment.bare_eq_iff.mp hba).2.2.2.2⟩

theorem InUse.congr (h : SameModules s s') (hi : InUse s name i) : InUse s' name i := by
  obtain ⟨l₁,l₂,hl,⟨m,hm,hn⟩,hno⟩ := hi
  refine ⟨l₁,l₂,h.kept ▸ hl,?_,?_⟩
  · obtain ⟨m',hm',hb⟩ := h.of_row hm
    exact ⟨m',hm',(Module.bare_eq_iff.mp hb).2.1.trans hn⟩
  · rintro j hj ⟨m',hm',hn'⟩
    obtain ⟨n,hn,hb⟩ := h.symm.of_row hm'
    exact hno j hj ⟨n,hn,(Module.bare_eq_iff.mp hb).2.1.trans hn'⟩

theorem Denotes.congr (h : SameModules s s') (hd : Denotes s scope r d) : Denotes s' scope r d := by
  cases hd with
  | qualified hq hi ha => exact .qualified hq (hi.congr h) (ha.congr h)
  | own hq ha => exact .own hq (ha.congr h)
  | imported hq hn hm hx hi ha =>
    obtain ⟨m',hm',hb⟩ := h.of_row hm
    obtain ⟨y,hy,hyx⟩ := hx.congr (Module.bare_eq_iff.mp hb).2.2.2 fun a b hab => by
      rw [(ImportedName.bare_eq_iff.mp hab).1]
    refine .imported hq (fun e he => hn e (he.congr h.symm)) hm' hy ?_ (ha.congr h)
    rw [(ImportedName.bare_eq_iff.mp hyx).2.1]
    exact hi.congr h

theorem Onward.denotes_iff (h : Onward s s') : Denotes s' scope r d ↔ Denotes s scope r d :=
  ⟨.congr h.sameModules.symm,.congr h.sameModules⟩

end Alike

end InfoObject.Model
