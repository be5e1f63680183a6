import InfoObject.Proofs.Cycles
import InfoObject.Proofs.ErrorSpans
import InfoObject.Proofs.Keeping

/-! Where entities stand. Every entity of a project was written in the source of one of its modules, or stands in for one that
was; what is built from a tree of a module stands in the source of that module. -/
namespace InfoObject.Notation

/-! Parts of modules -/

section Exact
variable {bytes : List UInt8} {n k : Node}

theorem Node.Exact.child (h : n.Exact bytes) (hk : k ∈ n.children) : k.Exact bytes := by
  cases h with
  | mk _ _ _ _ _ below => exact below k hk

theorem Node.Exact.limit_le (h : n.Exact bytes) : n.span.limit ≤ bytes.length := by
  cases h with
  | mk _ inside => exact inside

end Exact

/-- A tree that was written in a module, with the blocks that are left in it. -/
structure Written (m : Module) (n : Node) (bs : List RawBlock) : Prop where
  exact : n.Exact (Utf8.encode m.source)
  holds : ∀ b ∈ bs, m.Holds b

/-- A span that lies in the source of a module. -/
def Module.Covers (m : Module) (s : Span) : Prop := s.limit ≤ Utf8.size m.source

/-- A module that was read from a source. -/
def Module.Parsed (m : Module) : Prop := ∃ bytes file, Module.parse bytes file = .ok m

section Written
variable {m : Module} {n k : Node} {bs cs : List RawBlock} {b : RawBlock}

theorem Written.covers (h : Written m n bs) : m.Covers n.span := by
  have hle := h.exact.limit_le
  rwa [Utf8.length_encode] at hle

theorem Written.child (h : Written m n bs) (hk : k ∈ n.children) (hcs : ∀ b ∈ cs, b ∈ bs) : Written m k cs :=
  ⟨h.exact.child hk,fun b hb => h.holds b (hcs b hb)⟩

theorem Written.covers_child (h : Written m n bs) (hk : k ∈ n.children) : m.Covers k.span := by
  have hle := (h.exact.child hk).limit_le
  rwa [Utf8.length_encode] at hle

theorem Module.Parsed.encode (h : m.Parsed) : ∃ file, Module.parse (Utf8.encode m.source) file = .ok m := by
  obtain ⟨bytes,file,hm⟩ := h
  obtain ⟨src,ts,rfl,_,_,hrule⟩ := parse_tokens hm
  rw [← hrule.source_eq] at hm
  exact ⟨file,hm⟩

theorem Module.Parsed.written (h : m.Parsed) : Written m m.node m.blocks := by
  obtain ⟨file,hm⟩ := h.encode
  exact ⟨parse_exact hm,fun _ hb => .here hb⟩

theorem Module.Parsed.covers_error (h : m.Parsed) (hb : m.Holds b) (he : b.parseObject = .error e ∨ b.parseSet = .error e) :
    m.Covers e.span := by
  obtain ⟨file,hm⟩ := h.encode
  have hle := hb.error_within hm he
  rwa [Utf8.length_encode] at hle

theorem Module.Parsed.object (h : m.Parsed) (hb : m.Holds b) (hbody : b.parseObject = .ok body) :
    Written m body.node body.blocks := by
  obtain ⟨file,hm⟩ := h.encode
  exact ⟨((hb.exact hm).2.1 body hbody).1,fun _ hc => .inObject hb hbody hc⟩

theorem Module.Parsed.set (h : m.Parsed) (hb : m.Holds b) (hbody : b.parseSet = .ok body) :
    Written m body.node body.blocks := by
  obtain ⟨file,hm⟩ := h.encode
  exact ⟨((hb.exact hm).2.2 body hbody).1,fun _ hc => .inSet hb hbody hc⟩

/-! Trees below others -/

theorem Module.Parsed.imports (h : m.Parsed) (hy : y ∈ m.imports) : Written m y.node [] := by
  refine h.written.child ?_ (List.forall_mem_nil _)
  simp only [Module.node,Node.children,List.mem_cons,List.mem_append]
  exact .inr (.inl (List.mem_map_of_mem hy))

theorem Module.Parsed.assignment (h : m.Parsed) (ha : a ∈ m.assignments) : Written m a.node a.value.blocks := by
  refine h.written.child ?_ fun b hb => List.mem_flatMap.mpr ⟨a,ha,hb⟩
  simp only [Module.node,Node.children,List.mem_cons,List.mem_append]
  exact .inr (.inr (List.mem_map_of_mem ha))

theorem Module.Parsed.name (h : m.Parsed) : m.Covers m.name.span :=
  h.written.covers_child (k := m.name.node) (by simp [Module.node,Node.children])

theorem Written.payload_covers {p : Payload} (h : Written m p.node bs) : m.Covers p.span := p.node_span ▸ h.covers

theorem Written.setting {body : ObjectBody} (h : Written m body.node body.blocks)
    (hs : s ∈ body.settings) : Written m s.node s.payload.blocks :=
  h.child (List.mem_map_of_mem hs) fun _ hb => List.mem_flatMap.mpr ⟨s,hs,hb⟩

theorem Written.element {body : SetBody} (h : Written m body.node body.blocks)
    (he : e ∈ body.elements) : Written m e.node e.blocks :=
  h.child (List.mem_map_of_mem he) fun _ hb => List.mem_flatMap.mpr ⟨e,he,hb⟩

theorem Written.settingPayload {s : SettingDecl} (h : Written m s.node s.payload.blocks) :
    Written m s.payload.node s.payload.blocks := h.child (by simp [SettingDecl.node,Node.children]) fun _ hb => hb

theorem Written.settingName {s : SettingDecl} (h : Written m s.node bs) : m.Covers s.name.span :=
  h.covers_child (k := s.name.node) (by simp [SettingDecl.node,Node.children])

end Written

end InfoObject.Notation

namespace InfoObject.Model

def InSource (nodes : List Notation.Module) (l : Location) : Prop := ∃ m ∈ nodes, l.file = m.file ∧ m.Covers l.span

/-! Entities in the sources of modules, which are numbered like the entities that were made of them -/

section Sited
variable (nodes : List Notation.Module)

structure Scope.Sited (x : Scope) (m : Notation.Module) : Prop where
  number : nodes[x.id.index]? = some m
  file : x.file = m.file

/-- The entity and the name that it is made of have their places. -/
structure NameRef.Sited {τ : Type} (r : NameRef τ) : Prop where
  location : InSource nodes r.location
  reference : InSource nodes r.referenceLocation

structure Field.Sited (f : Field) : Prop where
  location : InSource nodes f.location
  default : ∀ p ∈ f.declaredDefault, ∃ m, nodes[f.scope.index]? = some m ∧ Notation.Written m p.node p.blocks
  setting : ∀ s ∈ f.defaultSetting, InSource nodes s.location

/-- A module in which a definition was written holds a block, or has something else of the definition. -/
def WrittenIn (module : Option (Id .module)) (P : Notation.Module → Prop) : Prop :=
  ∃ i m, module = some i ∧ nodes[i.index]? = some m ∧ P m

structure Module.Sited (i : Id .module) (m : Module) : Prop where
  number : nodes[i.index]? = some m.node
  assignments : ∀ a ∈ m.assignments, InSource nodes a.location
  imports : ∀ x ∈ m.imports, m.node.Covers x.span

structure ClassDef.Sited (c : ClassDef) : Prop where
  location : InSource nodes c.location
  fields : ∀ f ∈ c.fields, f.Sited nodes

structure ObjectDef.Sited (o : ObjectDef) : Prop where
  location : InSource nodes o.location
  block : ∀ b ∈ o.block, WrittenIn nodes o.module (·.Holds b)
  settings : ∀ s ∈ o.settings, InSource nodes s.location

structure SetDef.Sited (d : SetDef) : Prop where
  location : InSource nodes d.location
  block : ∀ b ∈ d.block, WrittenIn nodes d.module (·.Holds b)
  fault : ∀ e, d.expansion = some (.error e) → WrittenIn nodes d.module (·.Covers e.span)

def RowSited : {t : EntityType} → Id t → Row t → Prop
  | .module, i, m => Module.Sited nodes i m
  | .classDef, _, c => ClassDef.Sited nodes c
  | .classRef, _, r => NameRef.Sited nodes r.toNameRef
  | .typeRef, _, r => NameRef.Sited nodes r
  | .valueRef, _, r => NameRef.Sited nodes r
  | .objectDef, _, o => ObjectDef.Sited nodes o
  | .objectRef, _, r => NameRef.Sited nodes r.toNameRef
  | .setDef, _, d => SetDef.Sited nodes d
  | .setRef, _, r => NameRef.Sited nodes r.toNameRef

structure Store.Sited (s : Store) : Prop where
  rows : ∀ {t : EntityType} (i : Id t) (a : Row t), s.get? i = some a → RowSited nodes i a
  count : s.modules.size = nodes.length

end Sited

variable {nodes : List Notation.Module} {m : Notation.Module}

theorem Scope.Sited.locate {x : Scope} (h : x.Sited nodes m) (hs : m.Covers s) : InSource nodes (x.locate s) :=
  ⟨m,List.mem_of_getElem? h.number,h.file,hs⟩

theorem Scope.Sited.writtenIn {x : Scope} (h : x.Sited nodes m) (hp : P m) : WrittenIn nodes (some x.id) P :=
    ⟨x.id,m,rfl,h.number,hp⟩

theorem Module.Sited.locate (h : Module.Sited nodes i x) (hs : x.node.Covers s) : InSource nodes (x.locate s) :=
    ⟨x.node,List.mem_of_getElem? h.number,rfl,hs⟩

theorem InSource.grow (h : InSource nodes l) : InSource (nodes++[m]) l := by
  obtain ⟨k,hk,hfile,hspan⟩ := h
  exact ⟨k,List.mem_append_left _ hk,hfile,hspan⟩

theorem getElem?_grow {n : Nat} (h : nodes[n]? = some k) : (nodes++[m])[n]? = some k := by
  obtain ⟨hn,_⟩ := List.getElem?_eq_some_iff.mp h
  rwa [List.getElem?_append_left hn]

theorem NameRef.Sited.grow {r : NameRef τ} (h : r.Sited nodes) : r.Sited (nodes++[m]) :=
  ⟨h.location.grow,h.reference.grow⟩

theorem WrittenIn.grow (h : WrittenIn nodes i P) : WrittenIn (nodes++[m]) i P := by
  obtain ⟨j,k,hj,hk,hp⟩ := h
  exact ⟨j,k,hj,getElem?_grow hk,hp⟩

theorem Field.Sited.grow {f : Field} (h : f.Sited nodes) : f.Sited (nodes++[m]) where
  location := h.location.grow
  default p hp := by
    obtain ⟨k,hk,hw⟩ := h.default p hp
    exact ⟨k,getElem?_grow hk,hw⟩
  setting s hs := (h.setting s hs).grow

theorem RowSited.grow {i : Id t} (h : RowSited nodes i a) : RowSited (nodes++[m]) i a := by
  cases t with
  | module => exact ⟨getElem?_grow h.number,fun x hx => (h.assignments x hx).grow,h.imports⟩
  | classDef => exact ⟨h.location.grow,fun f hf => (h.fields f hf).grow⟩
  | objectDef =>
    exact ⟨h.location.grow,fun b hb => (h.block b hb).grow,fun s hs => (h.settings s hs).grow⟩
  | setDef => exact ⟨h.location.grow,fun b hb => (h.block b hb).grow,fun e he => (h.fault e he).grow⟩
  | classRef | typeRef | valueRef | objectRef | setRef => exact NameRef.Sited.grow h

/-! Changes of a store -/

section Stores
variable {s s' : Store} {t : EntityType}

theorem Store.get?_put_eq {i : Id t} (h : (s.put i a).get? i = some b) : b = a := by
  simp only [get?,put,rows_withRows,Array.getElem?_setIfInBounds_self] at h
  split at h
  · exact (Option.some.inj h).symm
  · contradiction

theorem Store.Sited.put {i : Id t} (hs : s.Sited nodes) (h : RowSited nodes i a) : (s.put i a).Sited nodes := by
  refine ⟨fun {u} j b hb => ?_,?_⟩
  · by_cases hk : i.key = j.key
    · obtain ⟨rfl,rfl⟩ := Id.eq_of_key hk
      exact Store.get?_put_eq hb ▸ h
    · exact hs.rows j b ((Store.get?_put_of_key a hk).symm.trans hb)
  · by_cases hu : t = .module
    · subst hu
      have hrows : (s.put i a).modules = s.modules.setIfInBounds i.index a := rows_withRows .module s _
      rw [hrows,Array.size_setIfInBounds,hs.count]
    · have hrows : (s.put i a).modules = s.modules := rows_withRows_ne hu s _
      rw [hrows,hs.count]

theorem Store.Sited.add (hs : s.Sited nodes) (ht : t ≠ .module) (h : ∀ i : Id t, RowSited nodes i a) :
    (s.add (t := t) a).2.Sited nodes := by
  refine ⟨fun {u} j b hb => ?_,?_⟩
  · by_cases hu : t = u
    · subst hu
      obtain hold | ⟨_,rfl⟩ := Store.get?_add_cases hb
      · exact hs.rows j b hold
      · exact h j
    · rw [Store.get?_add_other hu] at hb
      exact hs.rows j b hb
  · have hrows : (s.add (t := t) a).2.modules = s.modules := rows_withRows_ne ht s _
    rw [hrows,hs.count]

theorem Store.Sited.addModule (hs : s.Sited nodes) (ha : a.assignments = [])
    (hi : a.imports = []) : (s.add (t := .module) a).1.index = nodes.length ∧
    (s.add (t := .module) a).2.Sited (nodes++[a.node]) := by
  have hindex : (s.add (t := .module) a).1.index = nodes.length := hs.count
  refine ⟨hindex,fun {u} j b hb => ?_,?_⟩
  · by_cases hu : .module = u
    · subst hu
      obtain hold | ⟨rfl,rfl⟩ := Store.get?_add_cases hb
      · exact (hs.rows j b hold).grow
      · refine Module.Sited.mk (by simp [hindex]) (fun x hx => ?_) fun x hx => ?_
        · rw [ha] at hx
          contradiction
        · rw [hi] at hx
          contradiction
    · rw [Store.get?_add_other hu] at hb
      exact (hs.rows j b hb).grow
  · have hrows : (s.add (t := .module) a).2.modules = s.modules.push a := rows_withRows .module s _
    rw [hrows,Array.size_push,hs.count,List.length_append,List.length_singleton]

end Stores

/-! Builders -/

/-- A builder keeps entities in their places, and gives something of a kind. -/
def Sites {α : Type} (nodes : List Notation.Module) (b : Build α) (Q : α → Prop) : Prop :=
  ∀ s a s', s.Sited nodes → Makes b s a s' → s'.Sited nodes ∧ Q a

section Sites
variable {α β : Type} {b : Build α} {Q : α → Prop} {P : β → Prop}

theorem Sites.pure (h : Q a) : Sites nodes (pure a) Q := by
  intro s x s' hs hm
  obtain ⟨rfl,rfl⟩ := makes_pure.mp hm
  exact ⟨hs,h⟩

theorem Sites.bind (hb : Sites nodes b Q) (hf : ∀ a, Q a → Sites nodes (f a) P) : Sites nodes (b >>= f) P := by
  intro s x s' hs hm
  obtain ⟨a,s₁,h₁,h₂⟩ := makes_bind.mp hm
  obtain ⟨hs₁,ha⟩ := hb s a s₁ hs h₁
  exact hf a ha s₁ x s' hs₁ h₂

theorem Sites.map (hb : Sites nodes b Q) (hf : ∀ a, Q a → P (f a)) : Sites nodes (f <$> b) P := by
  rw [← bind_pure_comp]
  exact hb.bind fun a ha => .pure (hf a ha)

theorem Sites.ite [Decidable c] (hb : Sites nodes b Q) (hd : Sites nodes d Q) : Sites nodes (if c then b else d) Q := by
  split <;> assumption

theorem Sites.mapM {l : List α} (hf : ∀ x ∈ l, Sites nodes (f x) P) : Sites nodes (l.mapM f) fun ys => ∀ y ∈ ys, P y := by
  induction l with
  | nil =>
    rw [List.mapM_nil]
    exact .pure nofun
  | cons x l ih =>
    rw [List.mapM_cons]
    refine (hf x List.mem_cons_self).bind fun y hy => (ih fun z hz => hf z (List.mem_cons_of_mem x hz)).bind fun ys hys => ?_
    exact .pure (List.forall_mem_cons.mpr ⟨hy,hys⟩)

theorem sites_intern : Sites nodes (intern name) fun _ => True := by
  intro s i s' hs hm
  obtain rfl : s' = _ := (congrArg Prod.snd hm).symm
  exact ⟨⟨fun {t} j a ha => hs.rows j a (by cases t <;> exact ha),hs.count⟩,trivial⟩

theorem sites_alloc (ht : t ≠ .module) (h : ∀ i : Id t, RowSited nodes i a) :
    Sites nodes (alloc a : Build (Id t)) fun _ => True := by
  intro s i s' hs hm
  obtain rfl : s' = (s.add (t := t) a).2 := (congrArg Prod.snd hm).symm
  exact ⟨hs.add ht h,trivial⟩

end Sites

/-! Stand-ins, which take the place of what they stand in for -/

section StandIns
variable {name : String} {l : Location} {c : Id .classDef}

theorem sites_standInClass (h : InSource nodes l) : Sites nodes (standInClass name l) fun _ => True := by
  refine sites_alloc (t := .classDef) (by decide) fun _ => ClassDef.Sited.mk h fun f hf => ?_
  contradiction

theorem sites_standInObject (h : InSource nodes l) : Sites nodes (standInObject name c l) fun _ => True := by
  refine sites_alloc (t := .objectDef) (by decide) fun _ => ObjectDef.Sited.mk h (fun b hb => ?_) fun s hs => ?_
  · contradiction
  · contradiction

theorem sites_standInSet (h : InSource nodes l) : Sites nodes (standInSet name c l) fun _ => True := by
  refine sites_alloc (t := .setDef) (by decide) fun _ => SetDef.Sited.mk h (fun b hb => ?_) fun e he => ?_
  · contradiction
  · cases he

end StandIns

/-! What is made of the trees of a module -/

section Trees
variable {x : Scope} {name : String} {s : Span} {r : Notation.Reference} (hx : x.Sited nodes m)
include hx

section Places
variable {g : ClassExpr} (hs : m.Covers s)
include hs

section
variable (hr : m.Covers r.span)
include hr

theorem Scope.Sited.nameRef : NameRef.Sited nodes (newNameRef x name r (x.locate s) : NameRef τ) :=
  ⟨hx.locate hs,hx.locate hr⟩

theorem sites_newTypeRef : Sites nodes (newTypeRef x name r (x.locate s)) fun _ => True :=
  sites_alloc (t := .typeRef) (by decide) fun _ => hx.nameRef hs hr

theorem sites_newClassRef : Sites nodes (newClassRef x name r ofObject (x.locate s)) fun _ => True :=
  sites_alloc (t := .classRef) (by decide) fun _ => hx.nameRef hs hr

theorem sites_newObjectRef : Sites nodes (newObjectRef x name g r (x.locate s)) fun _ => True :=
  sites_alloc (t := .objectRef) (by decide) fun _ => hx.nameRef hs hr

theorem sites_newSetRef : Sites nodes (newSetRef x name g r (x.locate s)) fun _ => True :=
  sites_alloc (t := .setRef) (by decide) fun _ => hx.nameRef hs hr

theorem sites_newValueRef :
    Sites nodes (alloc (newNameRef x name r (x.locate s) : ValueRef) : Build (Id .valueRef)) fun _ => True :=
  sites_alloc (t := .valueRef) (by decide) fun _ => hx.nameRef hs hr

end

theorem sites_newObjectDef (hb : m.Holds b) : Sites nodes (newObjectDef x name g b (x.locate s)) fun _ => True := by
  refine sites_alloc (t := .objectDef) (by decide) fun _ =>
    ObjectDef.Sited.mk (hx.locate hs) (fun b' hb' => ?_) fun s hs => ?_
  · obtain rfl := Option.mem_some.mp hb'
    exact hx.writtenIn hb
  · contradiction

theorem sites_newSetDef (hb : m.Holds b) : Sites nodes (newSetDef x name g b (x.locate s)) fun _ => True := by
  refine sites_alloc (t := .setDef) (by decide) fun _ => SetDef.Sited.mk (hx.locate hs) (fun b' hb' => ?_) fun e he => ?_
  · obtain rfl := Option.mem_some.mp hb'
    exact hx.writtenIn hb
  · contradiction

theorem sites_newValue (hp : m.Covers p.span) : Sites nodes (newValue x name p (x.locate s)) fun _ => True := by
  cases p with
  | int | text | block => exact .pure trivial
  | reference r =>
    rw [newValue]
    split
    · exact .pure trivial
    · exact (sites_newValueRef hx hs hp).bind fun _ _ => .pure trivial

end Places

omit hx in
theorem sites_isClassName : Sites nodes (isClassName r) fun _ => True := sites_intern.bind fun _ _ => .pure trivial

theorem sites_fieldShape (hf : Notation.Written m f.node f.blocks) : Sites nodes (fieldShape x i f) fun _ => True := by
  rw [fieldShape]
  split
  · exact .pure trivial
  · rename_i g hg
    have hcovers : m.Covers g.span :=
      hf.covers_child (k := g.node) (by simp [Notation.FieldDecl.node,Notation.Node.children,hg])
    refine sites_isClassName.bind fun _ _ => .ite ?_ (.ite (.pure trivial) ?_)
    · exact (sites_newClassRef hx hcovers hcovers).bind fun _ _ => .pure trivial
    · exact (sites_newTypeRef hx hcovers hcovers).bind fun _ _ => .pure trivial

theorem sites_newField (hf : Notation.Written m f.node f.blocks) : Sites nodes (newField x f) (Field.Sited nodes) := by
  refine sites_intern.bind fun i _ => (sites_fieldShape hx hf).bind fun shape _ => .pure ⟨hx.locate hf.covers,?_,nofun⟩
  intro p hp
  refine ⟨m,hx.number,hf.child ?_ fun b hb => ?_⟩
  · have hdefault : f.default = some p := hp
    simp [Notation.FieldDecl.node,Notation.Node.children,hdefault]
  · exact List.mem_flatMap.mpr ⟨p,Option.mem_toList.mpr hp,hb⟩

theorem sites_newClassDef (hs : m.Covers s) (hf : ∀ f ∈ fields, Notation.Written m f.node f.blocks) :
    Sites nodes (newClassDef x name fields (x.locate s)) fun _ => True :=
  (Sites.mapM fun f hmem => sites_newField hx (hf f hmem)).bind fun _ hfields =>
    sites_alloc (t := .classDef) (by decide) fun _ => ⟨hx.locate hs,hfields⟩

/-! Assignments and modules -/

theorem sites_declareUngoverned (hs : m.Covers s) (hp : m.Covers p.span) :
    Sites nodes (declareUngoverned x name i (x.locate s) p) fun _ => True := by
  cases p with
  | int | text | block => exact .pure trivial
  | reference r =>
    refine .ite ?_ (.ite ?_ (.pure trivial))
    · exact (sites_newClassRef hx hs hp).bind fun _ _ => .pure trivial
    · exact (sites_newTypeRef hx hs hp).bind fun _ _ => .pure trivial

theorem sites_declareOfClass (hs : m.Covers s) (hp : Notation.Written m p.node p.blocks) :
    Sites nodes (declareOfClass x name i (x.locate s) g p) fun _ => True := by
  cases p with
  | int | text => exact .pure trivial
  | block b =>
    have hb : m.Holds b := hp.holds b (by simp [Notation.Payload.blocks])
    exact .ite ((sites_newSetDef hx hs hb).map fun _ _ => trivial) ((sites_newObjectDef hx hs hb).map fun _ _ => trivial)
  | reference r =>
    have hr : m.Covers r.span := hp.payload_covers
    exact .ite ((sites_newSetRef hx hs hr).map fun _ _ => trivial) ((sites_newObjectRef hx hs hr).map fun _ _ => trivial)

theorem sites_declareOfType (hs : m.Covers s) (hg : m.Covers g.span)
    (hp : m.Covers p.span) : Sites nodes (declareOfType x name i (x.locate s) g p) fun _ => True := by
  refine .ite (.pure trivial) ((sites_newValue hx hs hp).bind fun v _ => ?_)
  cases v with
  | none => exact .pure trivial
  | some v => exact (sites_newTypeRef hx hg hg).bind fun _ _ => .pure trivial

theorem sites_declare (ha : Notation.Written m a.node a.value.blocks) : Sites nodes (declare x i a) fun _ => True := by
  obtain ⟨name,governor,value⟩ := a
  have hname : m.Covers name.span :=
    ha.covers_child (k := name.node) (by simp [Notation.Assignment.node,Notation.Node.children])
  have hvalue : Notation.Written m value.node value.blocks :=
    ha.child (by simp [Notation.Assignment.node,Notation.Node.children]) fun _ hb => hb
  cases value with
  | classBody fields span =>
    refine (sites_newClassDef hx hname fun f hf => ?_).map fun _ _ => trivial
    exact hvalue.child (List.mem_map_of_mem hf) fun b hb => List.mem_flatMap.mpr ⟨f,hf,hb⟩
  | classOf object span =>
    have hobject : m.Covers object.span :=
      hvalue.covers_child (k := object.node) (by simp [Notation.Assigned.node,Notation.Node.children])
    exact (sites_newClassRef hx hname hobject).map fun _ _ => trivial
  | payload p =>
    have hp : Notation.Written m p.node p.blocks := hvalue
    cases governor with
    | none => exact sites_declareUngoverned hx hname hp.payload_covers
    | some g =>
      have hg : m.Covers g.span := ha.covers_child (k := g.node) (by simp [Notation.Assignment.node,Notation.Node.children])
      refine sites_isClassName.bind fun _ _ => .ite ?_ (sites_declareOfType hx hname hg hp.payload_covers)
      exact (sites_newClassRef hx hg hg).bind fun c _ => sites_declareOfClass hx hname hp

theorem sites_newAssignment (ha : Notation.Written m a.node a.value.blocks) :
    Sites nodes (newAssignment x a) fun y => InSource nodes y.location := by
  have hname : m.Covers a.name.span :=
    ha.covers_child (k := a.name.node) (by simp [Notation.Assignment.node,Notation.Node.children])
  exact sites_intern.bind fun _ _ => (sites_declare hx ha).bind fun _ _ => .pure (hx.locate hname)

omit hx in
theorem sites_newImports (hy : Notation.Written m y.node []) : Sites nodes (newImports y) fun zs => ∀ z ∈ zs,
    m.Covers z.span := by
  refine sites_intern.bind fun _ _ => Sites.mapM fun n hn => sites_intern.bind fun _ _ => .pure ?_
  refine hy.covers_child (k := n.node) ?_
  simp only [Notation.Import.node,Notation.Node.children,List.mem_append]
  exact .inl (List.mem_map_of_mem hn)

end Trees

/-- A module is made of its tree, and all that is made with it stands in its source. -/
theorem Store.Sited.newModule (hs : s.Sited nodes) (hm : m.Parsed) (h : Makes (Model.newModule m) s i s') :
    s'.Sited (nodes++[m]) := by
  simp only [Model.newModule,makes_bind,makes_pure] at h
  obtain ⟨name,s₁,hname,j,s₂,hj,imports,s₃,himports,assignments,s₄,hassignments,_,_,hput,rfl,rfl⟩ := h
  obtain ⟨hs₁,_⟩ := sites_intern s name s₁ hs hname
  -- The row is there before its imports and assignments are, which refer to it by its number.
  obtain ⟨hindex,hs₂⟩ := hs₁.addModule (a := ⟨m,name,[],[]⟩) rfl rfl
  obtain ⟨rfl,rfl⟩ : (s₁.add (t := .module) (⟨m,name,[],[]⟩ : Module)).1 = i ∧
      (s₁.add (t := .module) (⟨m,name,[],[]⟩ : Module)).2 = s₂ := ⟨congrArg Prod.fst hj,congrArg Prod.snd hj⟩
  have hnumber : (nodes++[m])[(s₁.add (t := .module) (⟨m,name,[],[]⟩ : Module)).1.index]? = some m := by simp [hindex]
  obtain ⟨hs₃,hi⟩ := Sites.mapM (P := fun ys => ∀ y ∈ ys, m.Covers y.span)
    (fun y hy => sites_newImports (hm.imports hy)) _ imports s₃ hs₂ himports
  obtain ⟨hs₄,ha⟩ := Sites.mapM (P := fun y => InSource (nodes++[m]) y.location)
    (fun a ha => sites_newAssignment ⟨hnumber,rfl⟩ (hm.assignment ha)) _ assignments s₄ hs₃ hassignments
  obtain rfl : s' = _ := (congrArg Prod.snd hput).symm
  refine hs₄.put (t := .module) (Module.Sited.mk hnumber ha fun y hy => ?_)
  obtain ⟨ys,hys,hy⟩ := List.mem_flatten.mp hy
  exact hi ys hys y hy

end InfoObject.Model
