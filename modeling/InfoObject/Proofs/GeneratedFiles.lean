import InfoObject.Document.Collector
import InfoObject.GoSource.Generate
import Mathlib.Data.List.Nodup

/-! The files generated from collected documents. No setting of a collected document is of a kind that the generator does not
know, so a document has no file only if the text of the file is no Go. -/
namespace InfoObject.Document

open Model

def settingKinds : List String := ["type","value","object","object set"]

theorem kind_mem_settingKinds (x : Model.Setting) : x.kind.name ∈ settingKinds := by
  unfold Model.Setting.kind
  split <;> decide

def KnownKinds (d : Document) : Prop := ∀ o ∈ d.objects, ∀ s ∈ o.settings.getD [], s.kind ∈ settingKinds

/-- A step that brings in no setting of another kind, and what holds of its result. -/
def Collects (m : Collect α) (R : α → Prop := fun _ => True) : Prop :=
  ∀ d a e, m d = some (a,e) → KnownKinds d.document → KnownKinds e.document ∧ R a

theorem Collects.pure {a : α} (h : R a) : Collects (pure a) R := by
  intro d b e he hd
  cases he
  exact ⟨hd,h⟩

theorem Collects.bind (hm : Collects m R) (hf : ∀ a, R a → Collects (f a) S) : Collects (m >>= f) S := by
  intro d b e h hd
  obtain ⟨⟨a,c⟩,h1,h2⟩ := Option.bind_eq_some_iff.mp h
  obtain ⟨hc,ha⟩ := hm d a c h1 hd
  exact hf a ha c b e h2 hc

theorem collects_lift (o : Option α) : Collects (liftM o) := by
  intro d a e h hd
  cases o <;> cases h
  exact ⟨hd,trivial⟩

theorem Collects.forM {xs : List α} (h : ∀ x, Collects (f x)) : Collects (xs.forM f) := by
  induction xs with
  | nil => exact .pure trivial
  | cons x xs ih => exact (h x).bind fun _ _ => ih

theorem Collects.mapM {xs : List α} {f : α → Collect β} (h : ∀ x, Collects (f x)) : Collects (xs.mapM f) := by
  induction xs with
  | nil => exact .pure trivial
  | cons x xs ih =>
    rw [List.mapM_cons]
    exact (h x).bind fun _ _ => ih.bind fun _ _ => .pure trivial

theorem collects_className (s : Store) (id : Id .classDef) : Collects (className s id) :=
  (collects_lift (s.get? id)).bind fun _ _ => .pure trivial

theorem collects_objectName (s : Store) (id : Id .objectDef) : Collects (objectName s id) :=
  (collects_lift (s.get? id)).bind fun _ _ => .pure trivial

theorem collects_typeName (s : Store) (id : Id .typeRef) : Collects (typeName s id) :=
  (collects_lift (s.get? id)).bind fun r _ => (collects_lift r.target?).bind fun _ _ => .pure trivial

theorem collects_governorName (s : Store) (id : Id .classRef) : Collects (governorName s id) :=
  (collects_lift (s.get? id)).bind fun r _ => (collects_lift r.target?).bind fun _ _ => collects_className s _

theorem collects_valueText (s : Store) : (v : ValueExpr) → Collects (valueText s v)
  | .literal .. => .pure trivial
  | .reference id => (collects_lift (s.get? id)).bind fun r _ => (collects_lift r.target?).bind fun _ _ => .pure trivial

theorem collects_objectNames (s : Store) (d : SetDef) : Collects (objectNames s d) :=
  .mapM (collects_objectName s)

theorem collects_settingEntry {put : Id .objectDef → Collect Unit} (hp : ∀ id, Collects (put id))
    (x : Model.Setting) : Collects (settingEntry s put x) fun y => y.kind ∈ settingKinds := by
  unfold settingEntry
  have hx := kind_mem_settingKinds x
  split
  · exact (collects_typeName s _).bind fun _ _ => .pure hx
  · exact (collects_valueText s _).bind fun _ _ => .pure hx
  · exact (hp _).bind fun _ _ => (collects_objectName s _).bind fun _ _ => .pure hx
  · exact (collects_lift _).bind fun r _ => (collects_lift r.target?).bind fun _ _ =>
      (collects_objectName s _).bind fun _ _ => .pure hx
  · exact (collects_lift _).bind fun d _ => (Collects.forM hp).bind fun _ _ =>
      (collects_objectNames s d).bind fun _ _ => .pure hx
  · exact (collects_lift _).bind fun r _ => (collects_lift r.target?).bind fun _ _ => (collects_lift _).bind fun d _ =>
      (collects_objectNames s d).bind fun _ _ => .pure hx

theorem collects_modify {f : Draft → Draft} (h : ∀ d, KnownKinds d.document → KnownKinds (f d).document) :
    Collects (modify f) := by
  intro d a e he hd
  cases he
  exact ⟨h d hd,trivial⟩

theorem collects_addObjectEntry (o : ObjectEntry) (ho : o.settings = some []) : Collects (addObjectEntry o) := by
  intro d a e he hd
  cases he
  refine ⟨fun p hp => ?_,trivial⟩
  rcases List.mem_append.mp hp with hp | hp
  · exact hd p hp
  · obtain rfl := List.mem_singleton.mp hp
    simp [ho]

theorem collects_addSetting (i : Nat) (hx : x.kind ∈ settingKinds) : Collects (addSetting i x) := by
  refine collects_modify fun d hd p hp => ?_
  obtain ⟨j,hj,rfl⟩ := List.mem_iff_getElem.mp hp
  have ho := hd _ (List.getElem_mem (by simpa using hj))
  simp only [List.getElem_modify]
  split
  · intro y hy
    rcases List.mem_append.mp hy with hy | hy
    · exact ho y hy
    · rwa [List.mem_singleton.mp hy]
  · exact ho

/-- By induction on the depth to which objects hold others. -/
theorem collects_listObject (s : Store) (n : Nat) (id : Id .objectDef) : Collects (listObject s n id) := by
  induction n generalizing id with
  | zero => intro d a e he; cases he
  | succ n ih =>
    refine (show Collects get from fun d a e he hd => by cases he; exact ⟨hd,trivial⟩).bind fun d _ => ?_
    split
    · exact .pure trivial
    · refine (collects_modify (f := fun d => {d with listed := id::d.listed}) fun _ h => h).bind fun _ _ =>
        (collects_lift (s.get? id)).bind fun o _ =>
        (collects_lift o.objectClass).bind fun _ _ => (collects_className s _).bind fun _ _ =>
        Collects.bind (collects_addObjectEntry _ ?_) fun i _ => .forM fun x => ?_
      · rfl
      exact (collects_settingEntry ih x).bind fun _ hy => collects_addSetting i hy

theorem collects_fieldEntry (s : Store) (f : Model.Field) : Collects (fieldEntry s f) := by
  have last : ∀ e : Field, Collects (do return {e with default := ← f.defaultSetting.mapM (settingEntry s (list s))}) := by
    intro e
    cases f.defaultSetting with
    | none => exact .pure trivial
    | some x =>
      refine Collects.bind (R := fun _ => True) ?_ fun _ _ => .pure trivial
      exact (collects_settingEntry (collects_listObject s _) x).bind fun _ _ => .pure trivial
  unfold fieldEntry
  dsimp only
  split
  · exact (collects_typeName s _).bind fun _ _ => last _
  · exact (collects_governorName s _).bind fun _ _ => last _
  · exact (collects_governorName s _).bind fun _ _ => last _
  · exact last _

theorem collects_addDefinition (s : Store) (x : Definition) : Collects (addDefinition s x) := by
  cases x with
  | objectClass id =>
    refine (collects_lift _).bind fun c _ => (Collects.mapM (collects_fieldEntry s)).bind fun _ _ => collects_modify fun _ h => h
  | object id => exact collects_listObject s _ id
  | objectSet id =>
    refine (collects_lift _).bind fun d _ => (Collects.forM (collects_listObject s _)).bind fun _ _ =>
      (collects_lift d.setClass).bind fun _ _ => (collects_className s _).bind fun _ _ =>
      (collects_objectNames s d).bind fun _ _ => collects_modify fun _ h => h

theorem Collection.add_known {c c' : Collection} (h : c.add s x = some c') (hc : ∀ e ∈ c.documents, KnownKinds e.2) :
    ∀ e ∈ c'.documents, KnownKinds e.2 := by
  simp only [Collection.add,Option.bind_eq_bind,Option.bind_eq_some_iff,Option.pure_def,Option.some.injEq] at h
  obtain ⟨id,-,m,-,⟨_,d⟩,hd,rfl⟩ := h
  have hk : KnownKinds d.document := by
    refine (collects_addDefinition s x _ _ _ hd ?_).1
    simp only [Collection.document]
    cases hl : c.documents.lookup id with
    | none => simp [KnownKinds]
    | some d =>
      obtain ⟨l,_,e,-⟩ := List.lookup_eq_some_iff.mp hl
      exact hc (id,d) (by simp [e])
  intro e he
  simp only [Collection.put] at he
  split at he
  · obtain ⟨e',he',rfl⟩ := List.mem_map.mp he
    split_ifs
    · exact hk
    · exact hc e' he'
  · rcases List.mem_append.mp he with he | he
    · exact hc e he
    · rwa [List.mem_singleton.mp he]

/-- Something that the collector was told of: the definition, the store that it stands in, and the generation. -/
structure Emission where
  store : Store
  definition : Definition
  marker : Marker

def Collector.told (c : Collector) (e : Emission) : Collector := (emitter.emit e.store e.definition e.marker c).1

theorem Collector.told_known {c : Collector} (hc : ∀ d ∈ c.documents, KnownKinds d) :
    ∀ d ∈ (c.told e).documents, KnownKinds d := by
  unfold told emitter
  dsimp only
  split
  · rename_i h
    simp only [collect?,Option.map_eq_some_iff] at h
    obtain ⟨c',h,rfl⟩ := h
    have hcur : ∀ e' ∈ (c.current e.marker).documents, KnownKinds e'.2 := by
      unfold current
      split
      · simp [Collection.new]
      · split
        · simp [Collection.new]
        · exact fun e' he => hc _ (List.mem_map_of_mem he)
    intro d hd
    obtain ⟨e',he,rfl⟩ := List.mem_map.mp hd
    exact Collection.add_known h hcur e' he
  · exact hc

theorem Collector.foldl_told_known (es : List Emission) : ∀ d ∈ (es.foldl Collector.told none).documents, KnownKinds d := by
  have run : ∀ c : Collector, (∀ d ∈ c.documents, KnownKinds d) → ∀ d ∈ (es.foldl Collector.told c).documents, KnownKinds d := by
    induction es with
    | nil => exact fun _ hc => hc
    | cons e es ih => exact fun c hc => ih _ (told_known hc)
  exact run none (by simp [documents])

end InfoObject.Document

namespace InfoObject.GoSource

open Document

theorem settingValue_ok {s : Setting} (h : s.kind ∈ settingKinds) : ∃ v, settingValue s = .ok v := by
  unfold settingValue
  split
  · exact ⟨_,rfl⟩
  · split <;> exact ⟨_,rfl⟩
  · exact ⟨_,rfl⟩
  · exact ⟨_,rfl⟩
  · simp_all [settingKinds]

theorem mapM_ok {f : α → Except ε β} {k : β → γ} {g : α → γ} {xs : List α} (h : ∀ x ∈ xs, ∃ y, f x = .ok y ∧ k y = g x) :
    ∃ ys, xs.mapM f = .ok ys ∧ ys.map k = xs.map g := by
  induction xs with
  | nil => exact ⟨[],rfl,rfl⟩
  | cons x xs ih =>
    obtain ⟨y,hy,hk⟩ := h x (by simp)
    obtain ⟨ys,hys,hks⟩ := ih fun z hz => h z (by simp [hz])
    exact ⟨y::ys,by simp [List.mapM_cons,hy,hys,bind,Except.bind,pure,Except.pure],by simp [hk,hks]⟩

theorem objectOf_ok (classes : List ClassEntry) (ho : ∀ s ∈ o.settings.getD [], s.kind ∈ settingKinds) :
    ∃ d, objectOf classes o = .ok d ∧ d.name = exportedName o.name := by
  have named : ∀ name, ∃ vs, namedValues name (o.settings.getD []) = .ok vs := by
    intro name
    obtain ⟨vs,h,-⟩ := mapM_ok (f := fun s : Setting => do pure (name s.field,← settingValue s)) (k := fun _ => ())
      (g := fun _ => ()) fun s hs => by
        obtain ⟨v,hv⟩ := settingValue_ok (ho s hs)
        exact ⟨(name s.field,v),by rw [hv]; rfl,rfl⟩
    exact ⟨vs,h⟩
  unfold objectOf
  dsimp only
  split
  · obtain ⟨vs,h⟩ := named fieldName
    exact ⟨_,by rw [h]; rfl,rfl⟩
  · obtain ⟨vs,h⟩ := named id
    exact ⟨_,by rw [h]; rfl,rfl⟩

/-- Names that a document lists, each to become an identifier. -/
def entryNames (d : Document) : List String := d.classes.map (·.name)++d.objects.map (·.name)++d.sets.map (·.name)

/-- A document whose settings are of kinds that there are has a file, with one declaration for each entry. -/
theorem fileOf_ok (pre : String) (hd : KnownKinds d) : ∃ f, fileOf pre d = .ok f ∧ f.package = packageOf pre d.module ∧
    f.declarations.map Declaration.name = (entryNames d).map exportedName := by
  obtain ⟨es,he,hn⟩ := mapM_ok fun o h => objectOf_ok d.classes (hd o h)
  refine ⟨_,by unfold fileOf; rw [he]; rfl,rfl,?_⟩
  simp [entryNames,hn,structOf,setOf,Declaration.name,Function.comp_def]

def Written (pre : String) (d : Document) (g : Generated) : Prop :=
  ∃ f, fileOf pre d = .ok f ∧ g.path = f.path ∧ format? f.render = some g.text

/-- The files are those of the documents up to the first whose text is no Go. -/
theorem generate_ok {ds : List Document} (hd : ∀ d ∈ ds, KnownKinds d) : ∃ done rest, ds = done++rest ∧
    List.Forall₂ (Written pre) done (generate pre ds).1 ∧ (generate pre ds).2 = rest.head?.map (.malformed ·.module) ∧
    ∀ d ∈ rest.head?, ∀ f, fileOf pre d = .ok f → format? f.render = none := by
  induction ds with
  | nil => exact ⟨[],[],rfl,.nil,rfl,by simp⟩
  | cons d ds ih =>
    obtain ⟨f,hf,-⟩ := fileOf_ok pre (hd d (by simp))
    obtain ⟨done,rest,rfl,hdone,hrest⟩ := ih fun e he => hd e (by simp [he])
    cases ht : format? f.render with
    | none =>
      have hg : generatedOf pre d = .error (.malformed d.module) := by
        rw [generatedOf,hf]
        simp only [bind,Except.bind,ht]
        rfl
      refine ⟨[],d::(done++rest),rfl,?_⟩
      rw [generate,hg]
      refine ⟨.nil,rfl,?_⟩
      rintro _ ⟨⟩ f' hf'
      cases hf.symm.trans hf'
      exact ht
    | some text =>
      have hg : generatedOf pre d = .ok ⟨f.path,text⟩ := by
        rw [generatedOf,hf]
        simp only [bind,Except.bind,ht]
        rfl
      refine ⟨d::done,rest,rfl,?_⟩
      rw [generate,hg]
      exact ⟨.cons ⟨f,hf,rfl,ht⟩ hdone,hrest⟩

/-- Every collected document has a file with one identifier for each of its entries, and generating fails only where the
text of such a file is no Go. Two documents have one path if and only if their modules have one package name, and an
identifier is declared twice if and only if two entries have one exported name. -/
theorem collected_documents_generate (pre : String) (es : List Emission) : let ds := (es.foldl Collector.told none).documents
    (∀ d ∈ ds, ∃ f, fileOf pre d = .ok f ∧ f.declarations.map Declaration.name = (entryNames d).map exportedName ∧
      ((f.declarations.map Declaration.name).Nodup ↔ (entryNames d).Pairwise fun a b => exportedName a ≠ exportedName b) ∧
      ∀ d' ∈ ds, ∀ f', fileOf pre d' = .ok f' → (f.path = f'.path ↔ packageName d.module = packageName d'.module)) ∧
    ∃ done rest, ds = done++rest ∧ List.Forall₂ (Written pre) done (generate pre ds).1 ∧
      (generate pre ds).2 = rest.head?.map (.malformed ·.module) ∧
      ∀ d ∈ rest.head?, ∀ f, fileOf pre d = .ok f → format? f.render = none := by
  intro ds
  have hk : ∀ d ∈ ds, KnownKinds d := Collector.foldl_told_known es
  refine ⟨fun d hd => ?_,generate_ok hk⟩
  obtain ⟨f,hf,hp,hn⟩ := fileOf_ok pre (hk d hd)
  refine ⟨f,hf,hn,by rw [hn]; exact List.pairwise_map,fun d' hd' f' hf' => ?_⟩
  obtain ⟨_,h,hp',-⟩ := fileOf_ok pre (hk d' hd')
  cases hf'.symm.trans h
  simp [File.path,hp,hp',packageOf]

end InfoObject.GoSource
