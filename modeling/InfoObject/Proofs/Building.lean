import InfoObject.Proofs.Evolution

/-! Steps that change one row of a table, add rows, or build entities from their notation. -/
namespace InfoObject.Model

/-! Changing a row -/

section Put
variable {R : {t : EntityType} → Id t → Row t → Row t → Prop} {s : Store} {t u : EntityType} {i : Id t} {j : Id u}
  {a b : Row t} {c : Row u}

/-- A change of one row changes every row in some way that the change of this row is an instance of. -/
theorem Store.get?_put_forth (hR : ∀ {t : EntityType} (i : Id t) (a : Row t), R i a a)
    (ha : s.get? i = some a) (hab : R i a b) (hc : s.get? j = some c) : ∃ d, (s.put i b).get? j = some d ∧ R j c d := by
  by_cases hk : i.key = j.key
  · obtain ⟨rfl,rfl,rfl⟩ := Store.row_of_key hk ha hc
    exact ⟨b,get?_put_self ha,hab⟩
  · exact ⟨c,(get?_put_of_key b hk).trans hc,hR j c⟩

theorem Store.get?_put_back (hR : ∀ {t : EntityType} (i : Id t) (a : Row t), R i a a)
    (ha : s.get? i = some a) (hab : R i a b) (hc : (s.put i b).get? j = some c) : ∃ d, s.get? j = some d ∧ R j d c := by
  by_cases hk : i.key = j.key
  · obtain ⟨rfl,rfl,rfl⟩ := Store.row_of_key hk (get?_put_self ha) hc
    exact ⟨a,ha,hab⟩
  · exact ⟨c,(get?_put_of_key b hk).symm.trans hc,hR j c⟩

theorem Store.kept_put : (s.put i b).kept = s.kept := by
  cases t <;> rfl

theorem Store.registry_put : (s.put i b).registry = s.registry := by
  cases t <;> rfl

theorem Extends.put (ha : s.get? i = some a) (hb : b.bare = a.bare) : Extends s (s.put i b) := by
  have hnames : (s.put i b).registry = s.registry := Store.registry_put
  refine ⟨hnames ▸ List.suffix_refl _,fun u j c hc => ?_⟩
  exact Store.get?_put_forth (R := fun _ a b => b.bare = a.bare) (fun _ _ => rfl) ha hb hc

/-- What a row that is written down may hold. -/
def RowSane (s : Store) : {t : EntityType} → Id t → Row t → Prop
  | .module,i,m => ModuleIn s i m
  | .setDef,_,d => ∀ e, SetDef.expansion d = some e → ExpansionBuilt s d e
  | .classDef,_,c => ∀ f st, f ∈ ClassDef.fields c → f.defaultSetting = some st → DefaultBuilt s f st
  | .objectDef,_,o => ∀ st ∈ ObjectDef.settings o, SettingIn s o st
  | _,_,_ => True

theorem Sane.renew (h : Sane s) (ha : s.get? i = some a) (hb : b.bare = a.bare) (hnew : RowSane (s.put i b) i b)
    (happart : ∀ i' j m n k, Holds (s.put i b) i' m k → Holds (s.put i b) j n k → i' = j ∧ m = n) : Sane (s.put i b) := by
  have rows : ∀ {u : EntityType} (j : Id u) c, (s.put i b).get? j = some c →
      s.get? j = some c ∨ RowSane (s.put i b) j c := by
    intro u j c hc
    by_cases hk : i.key = j.key
    · obtain ⟨rfl,rfl,rfl⟩ := Store.row_of_key hk (Store.get?_put_self ha) hc
      exact .inr hnew
    · exact .inl ((Store.get?_put_of_key b hk).symm.trans hc)
  refine h.mono (.put ha hb) Store.kept_put (by rw [Store.registry_put]; exact h.asn) ?_ ?_ ?_ ?_ happart
  · exact fun j m hm => (rows j m hm).imp (fun hm => ⟨m,hm,rfl⟩) id
  · exact fun j d x hd hx => (rows j d hd).imp (fun hd => ⟨d,hd,rfl,hx⟩) fun h => h x hx
  · exact fun j c f st hc hf hst => (rows j c hc).imp (fun hc => ⟨c,f,hc,hf,rfl,hst⟩) fun h => h f st hf hst
  · exact fun j o st ho hst => (rows j o ho).imp (fun ho => ⟨o,ho,rfl,hst⟩) fun h => h st hst

end Put

/-- What was built for the places of a row is the same. -/
def SameParts : {t : EntityType} → Row t → Row t → Prop
  | .classDef,c,d => ClassDef.fields d = ClassDef.fields c
  | .setDef,c,d => SetDef.expansion d = SetDef.expansion c
  | .objectDef,c,d => ObjectDef.settings d = ObjectDef.settings c
  | .module,_,_ => True
  | .classRef,_,_ => True
  | .typeRef,_,_ => True
  | .valueRef,_,_ => True
  | .objectRef,_,_ => True
  | .setRef,_,_ => True

theorem SameParts.refl (a : Row t) : SameParts a a := by
  cases t <;> trivial

theorem SameParts.trans {a b c : Row t} (h : SameParts a b) (k : SameParts b c) : SameParts a c := by
  cases t with
  | classDef | setDef | objectDef => exact Eq.trans k h
  | _ => trivial

/-- A row that was changed only in what checks find. -/
structure Touched {t : EntityType} (a b : Row t) : Prop where
  bare : b.bare = a.bare
  parts : SameParts a b

theorem Touched.refl (a : Row t) : Touched a a := ⟨rfl,.refl a⟩

theorem SetDef.elements_of_expansion {d d' : SetDef} (h : d'.expansion = d.expansion) : d'.elements = d.elements := by
  simp only [SetDef.elements,h]

section Touch
variable {s s' : Store}
  (forth : ∀ (t : EntityType) (i : Id t) a, s.get? i = some a → ∃ b, s'.get? i = some b ∧ Touched a b)
  (back : ∀ (t : EntityType) (i : Id t) b, s'.get? i = some b → ∃ a, s.get? i = some a ∧ Touched a b)

include back in
theorem Holds.of_touched (h : Holds s' i n k) : Holds s i n k := by
  cases h with
  | default hc hf hd hk =>
    obtain ⟨c,hc',hcb⟩ := back .classDef _ _ hc
    have hfields := hcb.parts
    simp only [SameParts] at hfields
    rw [hfields] at hf
    exact .default hc' hf hd hk
  | element hs he =>
    obtain ⟨d,hd,hdb⟩ := back .setDef _ _ hs
    rw [SetDef.elements_of_expansion hdb.parts] at he
    exact .element hd he

include forth back in
theorem Sane.of_touched (hr : s'.registry = s.registry) (hk : s'.kept = s.kept) (h : Sane s) : Sane s' := by
  have he : Extends s s' := ⟨hr ▸ List.suffix_refl _,fun t i a ha => by
    obtain ⟨b,hb,hab⟩ := forth t i a ha
    exact ⟨b,hb,hab.bare⟩⟩
  refine h.mono he hk (by rw [hr]; exact h.asn) ?_ ?_ ?_ ?_ ?_
  · intro i m' hm
    obtain ⟨m,hm',hb⟩ := back .module i m' hm
    exact .inl ⟨m,hm',hb.bare⟩
  · intro i d' x hd hx
    obtain ⟨d,hd',hb⟩ := back .setDef i d' hd
    exact .inl ⟨d,hd',hb.bare,hb.parts ▸ hx⟩
  · intro i c' f st hc hf hst
    obtain ⟨c,hc',hb⟩ := back .classDef i c' hc
    have hfields := hb.parts
    simp only [SameParts] at hfields
    exact .inl ⟨c,f,hc',hfields ▸ hf,rfl,hst⟩
  · intro i o' st ho hst
    obtain ⟨o,ho',hb⟩ := back .objectDef i o' ho
    have hsettings := hb.parts
    simp only [SameParts] at hsettings
    exact .inl ⟨o,ho',hb.bare,hsettings ▸ hst⟩
  · intro i j m n k hi hj
    exact h.apart i j m n k (hi.of_touched back) (hj.of_touched back)

end Touch

/-! Adding rows -/

/-- A row as it comes: nothing was found for it, and nothing built. -/
def New : {t : EntityType} → Row t → Prop
  | .module,m => ∀ x ∈ Module.imports m, x.used = Marker.zero
  | .classDef,c => ClassDef.checked c = Marker.zero ∧ ∀ f ∈ ClassDef.fields c, f.defaultSetting = none
  | .classRef,r => ClassRef.checked r = Marker.zero ∧ (ClassRef.toNameRef r).resolution = none
  | .typeRef,r => NameRef.resolution r = none
  | .valueRef,r => NameRef.resolution r = none
  | .objectDef,o => ObjectDef.checked o = Marker.zero ∧ ObjectDef.settings o = []
  | .objectRef,r => ObjectRef.checked r = Marker.zero ∧ (ObjectRef.toNameRef r).resolution = none
  | .setDef,d => SetDef.checked d = Marker.zero ∧ SetDef.flattening d = none ∧
      (SetDef.expansion d = none ∨ SetDef.block d = none ∧ SetDef.expansion d = some (.ok ⟨[],false⟩))
  | .setRef,r => SetRef.checked r = Marker.zero ∧ (SetRef.toNameRef r).resolution = none

/-- A store with new rows and names, all else being the same. -/
structure Gained (s s' : Store) : Prop where
  kept : s'.kept = s.kept
  names : s.registry.entries <:+ s'.registry.entries
  asn : (∀ x ∈ s.registry.entries, x.origin = .asn) → ∀ x ∈ s'.registry.entries, x.origin = .asn
  old : ∀ (t : EntityType) (i : Id t) a, s.get? i = some a → s'.get? i = some a
  new : ∀ (t : EntityType) (i : Id t) a, s'.get? i = some a → s.get? i = some a ∨ s.get? i = none ∧ New a

/-- A store with new rows and names, but no new module. -/
structure Grown (s s' : Store) : Prop extends Gained s s' where
  modules : ∀ (i : Id .module) m, s'.get? i = some m → s.get? i = some m

/-- What is only ever written in a module, and never built for a place in another entity. -/
def EntityType.Written : EntityType → Prop
  | .module | .classRef => True
  | _ => False

/-- A store with new rows and names such as a check builds: no module, and no name of a class. -/
structure Built (s s' : Store) : Prop extends Grown s s' where
  classRefs : ∀ (i : Id .classRef) r, s'.get? i = some r → s.get? i = some r

section Grown
variable {s s' s'' : Store}

theorem Gained.refl (s : Store) : Gained s s :=
  ⟨rfl,List.suffix_refl _,id,fun _ _ _ h => h,fun _ _ _ h => .inl h⟩

theorem Gained.trans (h : Gained s s') (k : Gained s' s'') : Gained s s'' := by
  refine ⟨k.kept.trans h.kept,h.names.trans k.names,k.asn ∘ h.asn,
    fun t i a ha => k.old t i a (h.old t i a ha),?_⟩
  intro t i a ha
  rcases k.new t i a ha with ha' | ⟨hn,hnew⟩
  · exact h.new t i a ha'
  · refine .inr ⟨?_,hnew⟩
    by_contra hs
    obtain ⟨b,hb⟩ := Option.ne_none_iff_exists'.mp hs
    rw [h.old t i b hb] at hn
    contradiction

theorem Gained.add {b : Row t} (hb : New b) : Gained s (s.add (t := t) b).2 := by
  refine ⟨by cases t <;> rfl,by cases t <;> exact List.suffix_refl _,fun h => by cases t <;> exact h,?_,?_⟩
  · intro u i a ha
    by_cases htu : t = u
    · subst htu
      exact Store.get?_add_old b ha
    · rw [Store.get?_add_other htu]
      exact ha
  · intro u i a ha
    by_cases htu : t = u
    · subst htu
      rcases Store.get?_add_cases ha with h | ⟨rfl,rfl⟩
      · exact .inl h
      · exact .inr ⟨Store.get?_add_fresh s a,hb⟩
    · rw [Store.get?_add_other htu] at ha
      exact .inl ha

theorem Grown.refl (s : Store) : Grown s s := ⟨.refl s,fun _ _ h => h⟩

theorem Grown.trans (h : Grown s s') (k : Grown s' s'') : Grown s s'' :=
  ⟨h.toGained.trans k.toGained,fun i m hm => h.modules i m (k.modules i m hm)⟩

theorem Grown.add {b : Row t} (hb : New b) (ht : t ≠ .module) : Grown s (s.add (t := t) b).2 := by
  refine ⟨.add hb,fun i m hm => ?_⟩
  rwa [Store.get?_add_other ht] at hm

theorem Built.refl (s : Store) : Built s s := ⟨.refl s,fun _ _ h => h⟩

theorem Built.trans (h : Built s s') (k : Built s' s'') : Built s s'' :=
  ⟨h.toGrown.trans k.toGrown,fun i r hr => h.classRefs i r (k.classRefs i r hr)⟩

theorem Built.add {b : Row t} (hb : New b) (ht : ¬ t.Written) : Built s (s.add (t := t) b).2 := by
  refine ⟨.add hb ?_,fun i r hr => ?_⟩
  · rintro rfl
    exact ht trivial
  · have hne : t ≠ .classRef := by
      rintro rfl
      exact ht trivial
    rwa [Store.get?_add_other hne] at hr

/-- A check adds no row to a table that loading fills. -/
theorem Built.written (h : Built s s') (ht : t.Written) {i : Id t} (hi : s.get? i = none) : s'.get? i = none := by
  by_contra hs
  obtain ⟨a,ha⟩ := Option.ne_none_iff_exists'.mp hs
  cases t with
  | module => simp [h.modules i a ha] at hi
  | classRef => simp [h.classRefs i a ha] at hi
  | _ => exact ht.elim

theorem Built.intern (s : Store) (name : String) : Built s (s.intern name).2 := by
  simp only [Store.intern,Registry.intern]
  cases hl : s.registry.lookup name .asn with
  | some i => exact .refl s
  | none =>
    refine ⟨⟨⟨rfl,List.suffix_cons _ _,?_,fun t i a ha => by cases t <;> exact ha,
      fun t i a ha => .inl (by cases t <;> exact ha)⟩,fun _ _ h => h⟩,fun _ _ h => h⟩
    intro hx x hmem
    rcases List.mem_cons.mp hmem with rfl | hmem
    · rfl
    · exact hx x hmem

theorem Gained.extends (h : Gained s s') : Extends s s' :=
  ⟨h.names,fun t i a ha => ⟨a,h.old t i a ha,rfl⟩⟩

theorem New.elements_eq (h : New (t := .setDef) d) : d.elements = [] := by
  rcases h.2.2 with he | ⟨_,he⟩ <;> simp [SetDef.elements,he]

theorem Gained.holds (h : Gained s s') (hh : Holds s' i n k) : Holds s i n k := by
  cases hh with
  | default hc hf hd hk =>
    rcases h.new .classDef _ _ hc with hc' | ⟨_,hnew⟩
    · exact .default hc' hf hd hk
    · rw [hnew.2 _ (List.mem_of_getElem? hf)] at hd
      contradiction
  | element hs he =>
    rcases h.new .setDef _ _ hs with hs' | ⟨_,hnew⟩
    · exact .element hs' he
    · rw [New.elements_eq hnew] at he
      simp at he

theorem Gained.sane (h : Gained s s') (hs : Sane s)
    (hm : ∀ (i : Id .module) m, s'.get? i = some m → s.get? i = none → ModuleIn s' i m) : Sane s' := by
  refine hs.mono h.extends h.kept (h.asn hs.asn) ?_ ?_ ?_ ?_ ?_
  · intro i m hi
    rcases h.new .module i m hi with hi' | ⟨hn,_⟩
    · exact .inl ⟨m,hi',rfl⟩
    · exact .inr (hm i m hi hn)
  · intro i d x hd hx
    rcases h.new .setDef i d hd with hd' | ⟨_,_,_,he | ⟨hb,he⟩⟩
    · exact .inl ⟨d,hd',rfl,hx⟩
    · rw [he] at hx
      contradiction
    · right
      rw [he] at hx
      obtain rfl := Option.some.inj hx
      simp only [ExpansionBuilt,hb]
  · intro i c f st hc hf hst
    rcases h.new .classDef i c hc with hc' | ⟨_,hnew⟩
    · exact .inl ⟨c,f,hc',hf,rfl,hst⟩
    · rw [hnew.2 f hf] at hst
      contradiction
  · intro i o st ho hst
    rcases h.new .objectDef i o ho with ho' | ⟨_,hnew⟩
    · exact .inl ⟨o,ho',rfl,hst⟩
    · rw [hnew.2] at hst
      simp at hst
  · intro i j m n k hi hj
    exact hs.apart i j m n k (h.holds hi) (h.holds hj)

theorem Grown.sane (h : Grown s s') (hs : Sane s) : Sane s' := by
  refine h.toGained.sane hs ?_
  intro i m hm hn
  rw [h.modules i m hm] at hn
  contradiction

theorem Gained.known (h : Gained s s') (hk : Known s k) : Known s' k := by
  obtain ⟨t,i,a,ha,rfl⟩ := hk
  exact ⟨t,i,a,h.old t i a ha,rfl⟩

theorem Known.of_row {i : Id t} (h : s.get? i = some a) : Known s i.key :=
  ⟨t,i,a,h,rfl⟩

theorem not_known_add (s : Store) (b : Row t) : ¬ Known s (s.add (t := t) b).1.key := by
  rintro ⟨u,j,a,ha,hk⟩
  obtain ⟨rfl,rfl⟩ := Id.eq_of_key hk
  rw [Store.get?_add_fresh] at ha
  contradiction

end Grown

theorem ValueBuilt.known (h : ValueBuilt s m f display l p v) (hk : v.key? = some k) : Known s k := by
  cases h with
  | int | text => simp [SettingValue.key?] at hk
  | object _ h | set _ h => exact Option.some.inj hk ▸ .of_row h
  | name h =>
    cases h with
    | type h | object h | set h | value _ h => exact Option.some.inj hk ▸ .of_row h
    | literal => simp [SettingValue.key?] at hk

theorem ElementBuilt.known (h : ElementBuilt s m d n x e) : Known s e.key := by
  cases h with
  | literal h | object h | set h => exact .of_row h

theorem ElementsBuilt.mem (h : ElementsBuilt s m d n xs es) (he : e ∈ es) : ∃ n x, ElementBuilt s m d n x e := by
  induction xs generalizing n es with
  | nil =>
    cases es with
    | nil => simp at he
    | cons => exact h.elim
  | cons x xs ih =>
    cases es with
    | nil => exact h.elim
    | cons y es =>
      rcases List.mem_cons.mp he with rfl | he
      · exact ⟨n,x,h.1⟩
      · exact ih h.2 he

theorem Sane.element {i : Id .setDef} (hs : Sane s) (hd : s.get? i = some d) (he : e ∈ d.elements) : ∃ j file n x, d.module = some j ∧
    ElementBuilt s ⟨j,file⟩ d n x e := by
  cases hx : d.expansion with
  | none => simp [SetDef.elements,hx] at he
  | some y =>
    have hb := hs.expansions i d y hd hx
    unfold ExpansionBuilt at hb
    split at hb
    · subst hb
      simp [SetDef.elements,hx] at he
    · split at hb
      · subst hb
        simp [SetDef.elements,hx] at he
      · obtain ⟨j,m,es,hj,_,rfl,hes⟩ := hb
        simp only [SetDef.elements,hx] at he
        obtain ⟨n,x,hel⟩ := hes.mem he
        exact ⟨j,m.file,n,x,hj,hel⟩

theorem Sane.known (hs : Sane s) (h : Holds s i n k) : Known s k := by
  cases h with
  | default hc hf hd hk =>
    obtain ⟨m,p,_,_,hb⟩ := hs.defaults _ _ _ _ hc (List.mem_of_getElem? hf) hd
    exact hb.value.known hk
  | element hd he =>
    obtain ⟨_,_,_,_,_,hel⟩ := hs.element hd (List.mem_of_getElem? he)
    exact hel.known

/-! Builders -/

/-- A row was added under a number that was not known. -/
structure Added {t : EntityType} (s : Store) (b : Row t) (i : Id t) (s' : Store) : Prop where
  grown : Grown s s'
  built : ¬ t.Written → Built s s'
  row : s'.get? i = some b
  fresh : ¬ Known s i.key

theorem Makes.alloc {b : Row t} (h : Makes (alloc b) s i s') (hb : New b) (ht : t ≠ .module) : Added s b i s' := by
  obtain rfl : (s.add (t := t) b).1 = i := congrArg Prod.fst h
  obtain rfl : (s.add (t := t) b).2 = s' := congrArg Prod.snd h
  exact ⟨.add hb ht,.add hb,Store.get?_add_new s b,not_known_add s b⟩

theorem Sane.lookup_eq (hs : Sane s) (h : s.registry.lookup name .asn = some i) : i = asnIdentifier name := by
  have hname : i.name = Dialect.asn.canonical name := by simpa using List.find?_some h
  have horigin := hs.asn i (List.mem_of_find?_eq_some h)
  cases i
  simp_all [asnIdentifier]

theorem Makes.intern (h : Makes (intern name) s i s') : Built s s' ∧ (Sane s → i = asnIdentifier name) := by
  obtain rfl : (s.intern name).1 = i := congrArg Prod.fst h
  obtain rfl : (s.intern name).2 = s' := congrArg Prod.snd h
  refine ⟨.intern s name,?_⟩
  intro hs
  simp only [Store.intern,Registry.intern]
  cases hl : s.registry.lookup name .asn with
  | none => rfl
  | some i => exact hs.lookup_eq hl

/-- What a setting holds was not there before. -/
def FreshValue (s s' : Store) (v : SettingValue) : Prop := ∀ k, v.key? = some k → ¬ Known s k ∧ Known s' k

section Settings
variable {s s' : Store} {m : Scope} {f : Field} {r : Notation.Reference} {l : Location} {g : ClassExpr}
  {v : SettingValue}

theorem Makes.fieldGovernor (h : Makes (Check.fieldGovernor f l) s g s') : Built s s' ∧ GovernorBuilt s' f g := by
  unfold Check.fieldGovernor at h
  unfold GovernorBuilt
  cases hf : f.shape with
  | object c | objectSet c =>
    simp only [hf,makes_pure] at h
    exact ⟨h.2 ▸ .refl s,h.1⟩
  | _ =>
    simp only [hf,makes_map] at h
    obtain ⟨c,hc,rfl⟩ := h
    have ha := Makes.alloc (t := .classDef) hc ⟨rfl,fun _ hf => by simp at hf⟩ (by decide)
    exact ⟨ha.built id,c,_,rfl,ha.row,rfl⟩

theorem Makes.referenceSetting (h : Makes (Check.referenceSetting m f r l k) s v s') : Built s s' ∧ NameBuilt s' m f r l v ∧
    FreshValue s s' v := by
  have value : Makes (Check.referenceSetting m f r l .value) s v s' →
      Built s s' ∧ NameBuilt s' m f r l v ∧ FreshValue s s' v := by
    intro h
    cases hr : referenceLiteral? r with
    | some x =>
      simp only [Check.referenceSetting,hr,makes_pure] at h
      obtain ⟨rfl,rfl⟩ := h
      exact ⟨.refl _,.literal hr,fun k hk => by simp [SettingValue.key?] at hk⟩
    | none =>
      simp only [Check.referenceSetting,hr,makes_map] at h
      obtain ⟨i,hi,rfl⟩ := h
      have ha := Makes.alloc (t := .valueRef) hi rfl (by decide)
      refine ⟨ha.built id,.value hr ha.row rfl,?_⟩
      rintro k ⟨⟩
      exact ⟨ha.fresh,.of_row ha.row⟩
  cases k with
  | type =>
    simp only [Check.referenceSetting,makes_map] at h
    obtain ⟨i,hi,rfl⟩ := h
    have ha := Makes.alloc (t := .typeRef) hi rfl (by decide)
    refine ⟨ha.built id,.type ha.row rfl,?_⟩
    rintro k ⟨⟩
    exact ⟨ha.fresh,.of_row ha.row⟩
  | object | objectSet =>
    simp only [Check.referenceSetting,makes_bind,makes_map] at h
    obtain ⟨g,s1,hg,i,hi,rfl⟩ := h
    obtain ⟨hgrown,hgov⟩ := Makes.fieldGovernor hg
    have ha := Makes.alloc (i := i) hi ⟨rfl,rfl⟩ (by decide)
    refine ⟨hgrown.trans (ha.built id),?_,?_⟩
    · constructor
      exacts [ha.row,rfl,hgov.mono ha.grown.extends]
    · rintro k ⟨⟩
      exact ⟨fun hk => ha.fresh (hgrown.known hk),.of_row ha.row⟩
  | value | erroneous => exact value h

theorem Makes.blockSetting (h : Makes (Check.blockSetting m f display b l) s v s') : Built s s' ∧
    ValueBuilt s' m f display l (.block b) v ∧ FreshValue s s' v := by
  simp only [Check.blockSetting,makes_bind] at h
  obtain ⟨g,s1,hg,h⟩ := h
  obtain ⟨hgrown,hgov⟩ := Makes.fieldGovernor hg
  by_cases hk : f.kind = .objectSet
  · simp only [hk,if_true,makes_map] at h
    obtain ⟨i,hi,rfl⟩ := h
    have ha := Makes.alloc (t := .setDef) hi ⟨rfl,rfl,.inl rfl⟩ (by decide)
    refine ⟨hgrown.trans (ha.built id),.set hk ha.row rfl (hgov.mono ha.grown.extends),?_⟩
    rintro k ⟨⟩
    exact ⟨fun hk => ha.fresh (hgrown.known hk),.of_row ha.row⟩
  · simp only [hk,if_false,makes_map] at h
    obtain ⟨i,hi,rfl⟩ := h
    have ha := Makes.alloc (t := .objectDef) hi ⟨rfl,rfl⟩ (by decide)
    refine ⟨hgrown.trans (ha.built id),.object hk ha.row rfl (hgov.mono ha.grown.extends),?_⟩
    rintro k ⟨⟩
    exact ⟨fun hk => ha.fresh (hgrown.known hk),.of_row ha.row⟩

end Settings

end InfoObject.Model

namespace InfoObject.Check
open Model

/-! Steps on a pass -/

section Steps
variable {X : Nat → Prop} {s : Store} {p q r : Pass} {t : EntityType} {i : Id t}

theorem Resolves.notNewer (h : Resolves m x a b) (ha : ∀ y, a = some y → m.before y.marker = false) : ∀ y, b = some y →
    m.before y.marker = false := by
  intro y hy
  rcases h with rfl | ⟨⟨t,ht⟩,_⟩
  · exact ha y hy
  · rw [ht] at hy
    obtain rfl := Option.some.inj hy
    exact Marker.before_irrefl _

theorem Stamps.notNewer (h : Stamps m a b) (ha : m.before a = false) : m.before b = false := by
  rcases h with rfl | rfl
  · exact ha
  · exact Marker.before_irrefl _

theorem Moves.notNewer {a b : Row t} (h : Moves m x a b) (ha : NotNewer m a) : NotNewer m b := by
  cases t with
  | module =>
    intro y hy
    obtain ⟨n,hn⟩ := List.mem_iff_getElem?.mp hy
    obtain ⟨x,hx,hxy⟩ := getElem?_of_forall₂_flip (ModuleMoves.imports h) hn
    exact hxy.used.notNewer (ha x (List.mem_of_getElem? hx))
  | classDef | objectDef => exact h.checked.notNewer ha
  | classRef | objectRef | setRef => exact ⟨h.checked.notNewer ha.1,h.resolution.notNewer ha.2⟩
  | typeRef | valueRef => exact h.resolution.notNewer ha
  | setDef => exact ⟨h.checked.notNewer ha.1,h.flattening.notNewer ha.2⟩

theorem New.notNewer {a : Row t} (h : New a) : NotNewer m a := by
  have hz : m.before Marker.zero = false := by simp [Marker.before,Marker.zero]
  cases t with
  | module => exact fun x hx => by rw [h x hx]; exact hz
  | classDef | objectDef => simpa [NotNewer,h.1] using hz
  | classRef | objectRef | setRef => exact ⟨by rw [h.1]; exact hz,fun x hx => by simp [h.2] at hx⟩
  | typeRef | valueRef => exact fun x hx => by simp [show NameRef.resolution a = none from h] at hx
  | setDef => exact ⟨by rw [h.1]; exact hz,fun x hx => by simp [h.2.1] at hx⟩

theorem Evolves.put {a b : Row t} (ha : p.store.get? i = some a)
    (hm : Moves p.marker (X i.key) a b) (hs : SameParts a b) (hk : ClassKept X p.marker p.store a b) :
    Evolves X p (p.put i b) := by
  have forth : ∀ (u : EntityType) (j : Id u) c, p.store.get? j = some c →
      ∃ d, (p.store.put i b).get? j = some d ∧ Touched c d := fun u j c hc =>
    Store.get?_put_forth (R := fun _ => Touched) (fun _ => Touched.refl) ha ⟨hm.bare_eq,hs⟩ hc
  have back : ∀ (u : EntityType) (j : Id u) c, (p.store.put i b).get? j = some c →
      ∃ d, p.store.get? j = some d ∧ Touched d c := fun u j c hc =>
    Store.get?_put_back (R := fun _ => Touched) (fun _ => Touched.refl) ha ⟨hm.bare_eq,hs⟩ hc
  refine { Evolves.refl X p with
    kept := Store.kept_put
    names := ?_
    rows := ?_
    holds := ?_
    sane := ?_
    bounded := ?_}
  · simp only [Store.registry_put]
    exact List.suffix_refl _
  · intro u j c hc
    exact Store.get?_put_forth (R := fun i a b => Moves p.marker (X i.key) a b ∧ ClassKept X p.marker p.store a b)
      (fun _ _ => ⟨.refl ..,.refl ..⟩) ha ⟨hm,hk⟩ hc
  · exact fun j n k h => .inl (h.of_touched back)
  · exact fun h => h.of_touched forth back Store.registry_put Store.kept_put
  · intro hb u j c hc
    obtain ⟨d,hd,hdc⟩ := Store.get?_put_back (R := fun i a b => Moves p.marker (X i.key) a b)
      (fun _ _ => .refl ..) ha hm hc
    exact hdc.notNewer (hb u j d hd)

theorem Evolves.of_grown (h : Grown p.store s) : Evolves X p {p with store := s} := by
  refine { Evolves.refl X p with
    kept := h.kept
    names := h.names
    rows := ?_
    holds := ?_
    sane := h.sane
    bounded := ?_}
  · exact fun t i a ha => ⟨a,h.old t i a ha,.refl ..,.refl ..⟩
  · exact fun i n k hh => .inl (h.holds hh)
  · intro hb t i a ha
    rcases h.new t i a ha with ha' | ⟨_,hnew⟩
    · exact hb t i a ha'
    · exact New.notNewer hnew

theorem Evolves.report (ds : List Diagnostic) : Evolves X p {p with reports := ds++p.reports} := by
  refine {Evolves.refl X p with reports := List.suffix_append _ _, conflicts := ?_}
  intro h hc
  obtain ⟨e,he⟩ := h hc
  exact ⟨e,List.mem_append_right _ he⟩

/-! Names -/

theorem useImport_moves (h : useImport name m l = some (source,l')) : List.Forall₂ (ImportMoves m) l l' := by
  induction l generalizing l' with
  | nil => simp [useImport] at h
  | cons x l ih =>
    simp only [useImport] at h
    by_cases hx : x.name = name
    · subst hx
      simp only [if_true,Option.some.injEq,Prod.mk.injEq] at h
      obtain ⟨_,rfl⟩ := h
      exact .cons ⟨rfl,.inr rfl⟩ (List.forall₂_same.mpr fun _ _ => ⟨rfl,.refl ..⟩)
    · simp only [hx,if_false,Option.map_eq_some_iff,Prod.mk.injEq,Prod.exists] at h
      obtain ⟨source',l'',h,rfl,rfl⟩ := h
      exact .cons ⟨rfl,.refl ..⟩ (ih h)

theorem bare_imports_of_moves (h : List.Forall₂ (ImportMoves m) l l') : l'.map ImportedName.bare = l.map ImportedName.bare := by
  induction h with
  | nil => rfl
  | cons hx _ ih => simp only [List.map_cons,hx.bare,ih]

theorem find?_found {m : Module} (h : m.find? name = some a) : a ∈ m.assignments ∧ a.identifier = name :=
  ⟨List.mem_of_find?_eq_some h,by simpa using List.find?_some h⟩

/-- What the search for a name changes, and where it finds the name: in the module in which it is written, or in one that has
a name. -/
structure LooksUp (s : Store) (scope : Id .module) (n : Notation.Reference) (m : Marker) (a : Option Assignment) (s' : Store) :
    Prop where
  store : s' = s ∨ ∃ row row', s.get? scope = some row ∧ ModuleMoves m row row' ∧ s' = s.put scope row'
  found : ∀ x, a = some x → ∃ i row, (i = scope ∨ ∃ name, s.moduleNamed? name = some i) ∧ s.get? i = some row ∧
    x ∈ row.assignments ∧ s.registry.lookup n.name.name .asn = some x.identifier

theorem findIn?_found {s : Store} (h : s.findIn? module name = some (some a)) : ∃ i row, s.moduleNamed? module = some i ∧
    s.get? i = some row ∧ a ∈ row.assignments ∧ a.identifier = name := by
  unfold Store.findIn? at h
  split at h
  · simp at h
  · rename_i i hi
    obtain ⟨row,hrow,ha⟩ := Option.map_eq_some_iff.mp h
    exact ⟨i,row,hi,hrow,find?_found ha⟩

theorem LooksUp.of_lookup? (h : s.lookup? scope n m = some (a,s')) : LooksUp s scope n m a s' := by
  have other : ∀ {x name : Identifier}, s.registry.lookup n.name.name .asn = some name → s.findIn? x name = some a →
      ∀ y, a = some y → ∃ i row, (i = scope ∨ ∃ x, s.moduleNamed? x = some i) ∧ s.get? i = some row ∧ y ∈ row.assignments ∧
        s.registry.lookup n.name.name .asn = some y.identifier := by
    rintro x name hname h y rfl
    obtain ⟨i,row,hi,hrow,hy,rfl⟩ := findIn?_found h
    exact ⟨i,row,.inr ⟨x,hi⟩,hrow,hy,hname⟩
  simp only [Store.lookup?,Option.bind_eq_bind,Option.bind_eq_some_iff] at h
  obtain ⟨row,hrow,h⟩ := h
  cases hl : s.registry.lookup n.name.name .asn with
  | none =>
    simp only [hl,Option.some.injEq,Prod.mk.injEq] at h
    obtain ⟨rfl,rfl⟩ := h
    exact ⟨.inl rfl,by simp⟩
  | some name =>
    simp only [hl] at h
    split at h
    · unfold Store.lookupUnqualified? at h
      split at h
      · rename_i x hx
        simp only [Option.some.injEq,Prod.mk.injEq] at h
        obtain ⟨rfl,rfl⟩ := h
        refine ⟨.inl rfl,fun y hy => ?_⟩
        cases hy
        obtain ⟨hmem,rfl⟩ := find?_found hx
        exact ⟨scope,row,.inl rfl,hrow,hmem,hl⟩
      · split at h
        · simp only [Option.some.injEq,Prod.mk.injEq] at h
          obtain ⟨rfl,rfl⟩ := h
          exact ⟨.inl rfl,by simp⟩
        · rename_i source imports huse
          simp only [Option.map_eq_some_iff,Prod.mk.injEq] at h
          obtain ⟨_,h,rfl,rfl⟩ := h
          have hmoves := useImport_moves huse
          refine ⟨.inr ⟨row,{row with imports},hrow,⟨?_,hmoves⟩,rfl⟩,hl ▸ other hl h⟩
          simp only [Module.bare,bare_imports_of_moves hmoves]
    · split at h
      · simp only [Option.some.injEq,Prod.mk.injEq] at h
        obtain ⟨rfl,rfl⟩ := h
        exact ⟨.inl rfl,by simp⟩
      · simp only [Option.map_eq_some_iff,Prod.mk.injEq] at h
        obtain ⟨_,h,rfl,rfl⟩ := h
        exact ⟨.inl rfl,hl ▸ other hl h⟩

theorem LooksUp.sane (h : LooksUp s scope n m (some x) s') (hs : Sane s) : ∃ i row, (i = scope ∨ i ∈ s.kept) ∧ s.get? i = some row ∧
    x ∈ row.assignments ∧ x.identifier = asnIdentifier n.name.name := by
  obtain ⟨i,row,hi,hrow,hx,hl⟩ := h.found x rfl
  exact ⟨i,row,hi.imp_right fun ⟨_,hn⟩ => ((hs.shelf.named _ _).mp hn).1,hrow,hx,hs.lookup_eq hl⟩

/-! Steps that read a notation -/

/-- The stamp of a row that is checked once in a generation. -/
def stampOf : {t : EntityType} → Row t → Option Marker
  | .classDef,c => some (ClassDef.checked c)
  | .objectDef,o => some (ObjectDef.checked o)
  | .setDef,d => some (SetDef.checked d)
  | .classRef,r => some (ClassRef.checked r)
  | .objectRef,r => some (ObjectRef.checked r)
  | .setRef,r => some (SetRef.checked r)
  | .module,_ => none
  | .typeRef,_ => none
  | .valueRef,_ => none

/-- What was found for a row is the same. -/
def SameResults : {t : EntityType} → Row t → Row t → Prop
  | .classRef,a,b => (ClassRef.toNameRef b).resolution = (ClassRef.toNameRef a).resolution
  | .typeRef,a,b => NameRef.resolution b = NameRef.resolution a
  | .valueRef,a,b => NameRef.resolution b = NameRef.resolution a
  | .objectRef,a,b => (ObjectRef.toNameRef b).resolution = (ObjectRef.toNameRef a).resolution
  | .setRef,a,b => (SetRef.toNameRef b).resolution = (SetRef.toNameRef a).resolution
  | .setDef,a,b => SetDef.flattening b = SetDef.flattening a
  | .module,_,_ => True
  | .classDef,_,_ => True
  | .objectDef,_,_ => True

theorem SameResults.refl (a : Row t) : SameResults a a := by
  cases t <;> trivial

theorem SameResults.trans {a b c : Row t} (h : SameResults a b) (k : SameResults b c) : SameResults a c := by
  cases t <;> first | trivial | exact Eq.trans k h

/-- Nothing was ever found for a row. -/
def Unfound : {t : EntityType} → Row t → Prop
  | .classRef,a => (ClassRef.toNameRef a).resolution = none
  | .typeRef,a => NameRef.resolution a = none
  | .valueRef,a => NameRef.resolution a = none
  | .objectRef,a => (ObjectRef.toNameRef a).resolution = none
  | .setRef,a => (SetRef.toNameRef a).resolution = none
  | .setDef,a => SetDef.flattening a = none
  | .module,_ => True
  | .classDef,_ => True
  | .objectDef,_ => True

/-- Nothing was stamped. -/
def Unstamped (s s' : Store) : Prop :=
  ∀ (t : EntityType) (i : Id t) b k, s'.get? i = some b → stampOf b = some k →
    k = Marker.zero ∨ ∃ a, s.get? i = some a ∧ stampOf a = some k

/-- No default was built, and nothing was stamped. -/
structure Quiet (s s' : Store) : Prop where
  fields : ∀ (i : Id .classDef) c c', s.get? i = some c → s'.get? i = some c' → c'.fields = c.fields
  stamps : Unstamped s s'

/-- Nothing was found. -/
def Unresolved (s s' : Store) : Prop :=
  ∀ (t : EntityType) (i : Id t) b, s'.get? i = some b →
    (∃ a, s.get? i = some a ∧ SameResults a b) ∨ s.get? i = none ∧ Unfound b

theorem Unstamped.refl (s : Store) : Unstamped s s := fun _ _ b _ hb hk => .inr ⟨b,hb,hk⟩

theorem Unstamped.trans (h : Unstamped s s') (k : Unstamped s' s'') : Unstamped s s'' := by
  intro t i b n hb hn
  rcases k t i b n hb hn with hz | ⟨a,ha,hn'⟩
  · exact .inl hz
  · exact h t i a n ha hn'

theorem Unstamped.put {a b : Row t} (ha : s.get? i = some a)
    (hs : stampOf b = stampOf a) : Unstamped s (s.put i b) := by
  intro u j c k hc hk
  obtain ⟨d,hd,hdc⟩ := Store.get?_put_back (R := fun _ a b => stampOf b = stampOf a) (fun _ _ => rfl) ha hs hc
  exact .inr ⟨d,hd,hdc ▸ hk⟩

theorem Quiet.refl (s : Store) : Quiet s s := by
  refine ⟨?_,.refl s⟩
  intro i c c' hc hc'
  cases hc.symm.trans hc'
  rfl

theorem Quiet.trans (e : Extends s s') (h : Quiet s s') (k : Quiet s' s'') : Quiet s s'' := by
  refine ⟨?_,h.stamps.trans k.stamps⟩
  intro i c c'' hc hc''
  obtain ⟨c',hc',_⟩ := e.rows _ i c hc
  exact (k.fields i c' c'' hc' hc'').trans (h.fields i c c' hc hc')

theorem Quiet.put {a b : Row t} (ha : s.get? i = some a)
    (hf : SameParts a b) (hs : stampOf b = stampOf a) : Quiet s (s.put i b) := by
  refine ⟨?_,.put ha hs⟩
  intro j c c' hc hc'
  obtain ⟨d,hd,hdc⟩ := Store.get?_put_back (R := fun _ => SameParts) (fun _ => SameParts.refl) ha hf hc'
  cases hc.symm.trans hd
  exact hdc

theorem New.stampOf {a : Row t} (h : New a) (hk : stampOf a = some k) : k = Marker.zero := by
  cases t with
  | classDef | objectDef | setDef | classRef | objectRef | setRef =>
    exact (Option.some.inj hk).symm.trans h.1
  | _ => simp [Check.stampOf] at hk

theorem Quiet.of_grown (h : Grown s s') : Quiet s s' := by
  constructor
  · intro i c c' hc hc'
    cases (h.old .classDef i c hc).symm.trans hc'
    rfl
  · intro t i b k hb hk
    rcases h.new t i b hb with ha | ⟨_,hnew⟩
    · exact .inr ⟨b,ha,hk⟩
    · exact .inl (New.stampOf hnew hk)

theorem New.unfound {a : Row t} (h : New a) : Unfound a := by
  cases t with
  | classRef | objectRef | setRef => exact h.2
  | typeRef | valueRef => exact h
  | setDef => exact h.2.1
  | _ => trivial

theorem Unresolved.refl (s : Store) : Unresolved s s := fun _ _ b hb => .inl ⟨b,hb,.refl b⟩

theorem SameResults.unfound {a b : Row t} (h : SameResults a b) (ha : Unfound a) : Unfound b := by
  cases t <;> first | trivial | exact Eq.trans h ha

theorem Unresolved.trans (e : Extends s s') (h : Unresolved s s') (k : Unresolved s' s'') : Unresolved s s'' := by
  intro t i c hc
  rcases k t i c hc with ⟨b,hb,hbc⟩ | ⟨hn,hu⟩
  · rcases h t i b hb with ⟨a,ha,hab⟩ | ⟨hn,hu⟩
    · exact .inl ⟨a,ha,hab.trans hbc⟩
    · exact .inr ⟨hn,hbc.unfound hu⟩
  · refine .inr ⟨?_,hu⟩
    by_contra hs
    obtain ⟨a,ha⟩ := Option.ne_none_iff_exists'.mp hs
    obtain ⟨b,hb,_⟩ := e.rows t i a ha
    rw [hb] at hn
    contradiction

theorem Unresolved.put {a b : Row t} (ha : s.get? i = some a)
    (h : SameResults a b) : Unresolved s (s.put i b) := fun _ _ _ hc =>
  .inl (Store.get?_put_back (R := fun _ => SameResults) (fun _ => SameResults.refl) ha h hc)

theorem Unresolved.of_grown (h : Grown s s') : Unresolved s s' := by
  intro t i b hb
  rcases h.new t i b hb with ha | ⟨hn,hnew⟩
  · exact .inl ⟨b,ha,.refl b⟩
  · exact .inr ⟨hn,New.unfound hnew⟩

/-- A step that neither checks nor resolves, and builds for no place. -/
structure Plain (p q : Pass) : Prop extends Evolves (fun _ => False) p q where
  chain : q.chain = p.chain
  silent : q.reports = p.reports
  agreed : q.conflicts = p.conflicts
  unheld : ∀ i n k, Holds q.store i n k → Holds p.store i n k
  parts : ∀ (t : EntityType) (i : Id t) a b, p.store.get? i = some a → q.store.get? i = some b → SameParts a b
  quiet : Quiet p.store q.store
  unresolved : Unresolved p.store q.store
  written : ∀ t : EntityType, t.Written → ∀ i : Id t, p.store.get? i = none → q.store.get? i = none

theorem Plain.refl (p : Pass) : Plain p p := by
  refine ⟨.refl _ p,rfl,rfl,rfl,fun _ _ _ h => h,?_,.refl _,.refl _,fun _ _ _ h => h⟩
  intro t i a b ha hb
  cases ha.symm.trans hb
  exact .refl a

theorem Plain.trans (h : Plain p q) (k : Plain q r) : Plain p r := by
  refine ⟨h.toEvolves.trans k.toEvolves,k.chain.trans h.chain,k.silent.trans h.silent,k.agreed.trans h.agreed,
    fun i n j hj => h.unheld i n j (k.unheld i n j hj),?_,h.quiet.trans h.extends k.quiet,
    h.unresolved.trans h.extends k.unresolved,
    fun t ht i hi => k.written t ht i (h.written t ht i hi)⟩
  intro t i a c ha hc
  obtain ⟨b,hb,_⟩ := h.rows t i a ha
  exact (h.parts t i a b ha hb).trans (k.parts t i b c hb hc)

theorem Plain.of_built (h : Built p.store s) : Plain p {p with store := s} := by
  refine ⟨.of_grown h.toGrown,rfl,rfl,rfl,fun _ _ _ hh => h.holds hh,?_,.of_grown h.toGrown,.of_grown h.toGrown,
    fun _ ht _ => h.written ht⟩
  intro t i a b ha hb
  cases (h.old t i a ha).symm.trans hb
  exact .refl a

theorem Plain.put {a b : Row t} (ha : p.store.get? i = some a)
    (hm : Moves p.marker False a b) (hk : ClassKept (fun _ => False) p.marker p.store a b) (hs : SameParts a b)
    (hst : stampOf b = stampOf a) (hr : SameResults a b) : Plain p (p.put i b) := by
  have back : ∀ (u : EntityType) (j : Id u) c, (p.store.put i b).get? j = some c →
      ∃ d, p.store.get? j = some d ∧ Touched d c := fun u j c hc =>
    Store.get?_put_back (R := fun _ => Touched) (fun _ => Touched.refl) ha ⟨hm.bare_eq,hs⟩ hc
  refine ⟨.put ha hm hs hk,rfl,rfl,rfl,fun _ _ _ hh => hh.of_touched back,?_,.put ha hs hst,.put ha hr,?_⟩
  · intro u j c d hc hd
    obtain ⟨c',hc',hcd⟩ := back u j d hd
    cases hc.symm.trans hc'
    exact hcd.parts
  · intro u _ j hj
    by_contra hs
    obtain ⟨m,hm⟩ := Option.ne_none_iff_exists'.mp hs
    obtain ⟨n,hn,_⟩ := back u j m hm
    rw [hn] at hj
    contradiction

theorem Plain.lookup (h : p.store.lookup? scope n p.marker = some (a,s)) : Plain p {p with store := s} := by
  rcases (LooksUp.of_lookup? h).store with rfl | ⟨row,row',hrow,hm,rfl⟩
  · exact .refl p
  · exact .put (t := .module) hrow hm trivial trivial rfl trivial

theorem Gives.namesSet (h : Gives (namesSet m n) p b q) : Plain p q ∧
    (Sane p.store → b = (asnIdentifier n.name.name).isUpper) := by
  simp only [Check.namesSet,gives_bind,gives_lookup] at h
  obtain ⟨a,p1,⟨s1,ha,hp1⟩,h⟩ := h
  have hplain : Plain p p1 := hp1 ▸ .lookup ha
  have other : ∀ {k}, Gives (do let i ← build (intern n.name.name); pure i.isUpper) p1 k q →
      Plain p q ∧ (Sane p.store → k = (asnIdentifier n.name.name).isUpper) := by
    intro k h
    simp only [gives_bind,gives_build,gives_pure] at h
    obtain ⟨i,p2,⟨s,hi,rfl⟩,rfl,rfl⟩ := h
    obtain ⟨hgrown,heq⟩ := Makes.intern hi
    refine ⟨hplain.trans (.of_built hgrown),fun hs => ?_⟩
    rw [heq (hplain.sane hs)]
  cases hk : a.map Assignment.kind with
  | none =>
    simp only [hk] at h
    exact other h
  | some k =>
    obtain ⟨x,rfl,rfl⟩ := Option.map_eq_some_iff.mp hk
    have hcase : Sane p.store → CaseFits x ∧ x.identifier = asnIdentifier n.name.name := by
      intro hs
      obtain ⟨i,row,_,hrow,hmem,hid⟩ := (LooksUp.of_lookup? ha).sane hs
      exact ⟨(hs.modules i row hrow).cases x hmem,hid⟩
    cases hx : x.kind with
    | objectSet | object =>
      simp only [Option.map_some,hx,gives_pure] at h
      obtain ⟨rfl,rfl⟩ := h
      refine ⟨hplain,fun hs => ?_⟩
      obtain ⟨hfit,hid⟩ := hcase hs
      simp_all [CaseFits]
    | _ =>
      simp only [Option.map_some,hx] at h
      exact other h

end Steps

end InfoObject.Check
