import InfoObject.Proofs.KeepingPlaces
import InfoObject.Proofs.Termination

/-! Where diagnostics point. -/
namespace InfoObject.Check
open Model

/-! Definitions -/

theorem mem_modify_cases {l : List α} (h : x ∈ l.modify n f) : x ∈ l ∨ ∃ y ∈ l, x = f y := by
  obtain ⟨i,hi⟩ := List.getElem?_of_mem h
  rw [List.getElem?_modify] at hi
  obtain ⟨y,hy,hx⟩ := Option.map_eq_some_iff.mp hi
  split at hx
  · exact .inr ⟨y,List.mem_of_getElem? hy,hx.symm⟩
  · exact .inl (hx ▸ List.mem_of_getElem? hy)

variable {nodes : List Notation.Module}

theorem KeepsPlaces.whenDue {t : EntityType} {i : Id t} {checked : Row t → Marker} {stamp : Row t → Marker → Row t}
    {parts : Row t → Checking Unit} (hstamp : ∀ r k, RowSited nodes i r → RowSited nodes i (stamp r k))
    (hparts : ∀ r, RowSited nodes i r → KeepsPlaces nodes (parts r)) : KeepsPlaces nodes (whenDue i checked stamp parts) :=
  Locates.bind locates_load fun r hr => locates_isDue.bind fun _ => .ite
    (locates_marker.bind fun k => (locates_save (hstamp r k hr)).bind fun _ => hparts r hr) (.pure trivial)

theorem locates_checkClassRef (i : Id .classRef) : KeepsPlaces nodes (checkClassRef i) :=
  KeepsPlaces.whenDue (t := .classRef) (fun _ _ hr => NameRef.Sited.mk hr.location hr.reference) fun _ _ =>
    (locating.resolveClass _).bind fun _ => .pure trivial

theorem locates_checkObjectRef (i : Id .objectRef) : KeepsPlaces nodes (checkObjectRef i) :=
  KeepsPlaces.whenDue (t := .objectRef) (fun _ _ hr => NameRef.Sited.mk hr.location hr.reference) fun _ _ =>
    (locating.resolveObject _).bind fun _ => .pure trivial

theorem locates_checkSetRef (i : Id .setRef) : KeepsPlaces nodes (checkSetRef i) :=
  KeepsPlaces.whenDue (t := .setRef) (fun _ _ hr => NameRef.Sited.mk hr.location hr.reference) fun _ _ =>
    (locating.resolveSet _).bind fun _ => .pure trivial

section Checks
variable {x : Scope} {m : Notation.Module} {go : Goal → Checking Unit}

theorem locates_reportBody (hx : x.Sited nodes m) (he : m.Covers e.span) : KeepsPlaces nodes (reportBody x e) :=
  locates_reportError (hx.locate he) rfl

theorem locates_loadField (i : Id .classDef) (n : Nat) : Locates nodes (loadField i n) (Field.Sited nodes) := by
  refine Locates.bind (locates_load (t := .classDef)) fun c hc => ?_
  split
  · rename_i f hf
    exact .pure (hc.fields f (List.mem_of_getElem? hf))
  · exact .throw

theorem locates_saveDefault (i : Id .classDef) (n : Nat) (hst : InSource nodes st.location) :
    KeepsPlaces nodes (saveDefault i n st) := by
  refine Locates.bind (locates_load (t := .classDef)) fun c hc => locates_save (t := .classDef) ?_
  refine ClassDef.Sited.mk hc.location fun f hf => ?_
  obtain hf | ⟨g,hg,rfl⟩ := mem_modify_cases hf
  · exact hc.fields f hf
  · have hsited := hc.fields g hg
    refine ⟨hsited.location,hsited.default,fun s hs => ?_⟩
    cases hs
    exact hst

theorem locates_defaultSetting (i : Id .classDef) (n : Nat) (hf : f.Sited nodes) (hy : f.declaredDefault = some y) :
    Locates nodes (defaultSetting i n f y) fun st => InSource nodes st.location := by
  unfold defaultSetting
  split
  · rename_i st hst
    exact .pure (hf.setting st hst)
  · obtain ⟨m,hm,hw⟩ := hf.default y hy
    have hwritten : WrittenIn nodes (some f.scope) fun m => Notation.Written m y.node y.blocks := ⟨f.scope,m,rfl,hm,hw⟩
    exact Locates.bind (locates_scopeOf hwritten) fun x ⟨m,hx,hw⟩ => Locates.bind (locates_newSetting hx hw) fun st hst =>
      (locates_saveDefault i n hst).bind fun _ => .pure hst

/-- Steps that keep to the places in some modules, whatever is known of a store. -/
theorem placing (hall : ∀ m ∈ nodes, m.Parsed) : Checkable
    (fun _ m Q => ∀ ds p a q, p.Sited nodes ds → Gives m p a q → q.Sited nodes ds ∧ Q a q.store) (fun _ _ => True) (fun _ _ => True)
    (fun _ _ => True) (InSource nodes) where
  refl _ := trivial
  trans _ _ := trivial
  held _ _ := trivial
  ofClass _ _ := trivial
  done _ := Locates.pure (Q := fun _ => True) trivial
  bind hm hf ds p b r hp hg := by
    obtain ⟨a,q,hm',hf'⟩ := gives_bind.mp hg
    obtain ⟨hq,ha⟩ := hm ds p a q hp hm'
    exact hf a _ trivial ha ds q b r hq hf'
  restoringChain _ h := Locates.restoringChain (Q := fun _ => True) h
  tell hl ho hf := locates_report (List.forall_mem_cons.mpr ⟨hl,fun k hk => ho k (Option.mem_toList.mp hk)⟩)
    (Fault.ordinary_rejects hf)
  warn hl := locates_reportWarning hl
  conflict hl hk := locates_reportConflict hl hk
  type _ := locating.resolveType _
  value _ := locating.resolveValue _
  objectClass _ := locating.resolveClass _
  object _ := locating.resolveObject _
  objectRef _ := locates_checkObjectRef _
  setRef _ := locates_checkSetRef _
  flatten _ ds p a q hp hg := ⟨(locates_flatten hall _ ds p a q hp hg).1,fun _ _ => trivial⟩
  loadClass _ ds p a q hp hg := ⟨(locates_load (t := .classDef) ds p a q hp hg).1,trivial⟩
  loadObject _ ds p a q hp hg := by
    obtain ⟨hq,ho⟩ := locates_load (t := .objectDef) ds p a q hp hg
    exact ⟨hq,ho.location,fun _ _ _ _ => trivial⟩
  loadSet _ ds p a q hp hg := by
    obtain ⟨hq,hd⟩ := locates_load (t := .setDef) ds p a q hp hg
    exact ⟨hq,hd.location⟩

theorem meets_any {f : FieldShape} : f.Meets (fun _ _ => True) (fun _ _ => True) s := by cases f <;> trivial

variable (hall : ∀ m ∈ nodes, m.Parsed) (hkeeps : ∀ g, Keeps False (go g)) (hgo : ∀ g, KeepsPlaces nodes (go g))

include hall hgo

theorem locates_checkGoverning (c : Id .classDef) : KeepsPlaces nodes (checkGoverning go c) :=
  (placing hall).checkGoverning (s := .empty) (fun _ g _ => hgo g) trivial

include hkeeps

theorem locates_checkDefault (i : Id .classDef) (n : Nat) (hf : f.Sited nodes) : KeepsPlaces nodes (checkDefault go i n f) := by
  unfold checkDefault
  split
  · exact .pure trivial
  · exact Locates.bind (locates_defaultSetting i n hf ‹_›) fun st hst =>
      (placing hall).checkSetting (s := .empty) hkeeps (fun _ g _ => hgo g) (fun _ => trivial) meets_any hst

theorem locates_checkField (i : Id .classDef) (n : Nat) : KeepsPlaces nodes (checkField go i n) := by
  rw [checkField_eq]
  refine Locates.bind (locates_loadField i n) fun f hf => KeepsPlaces.bind ?_ fun _ =>
    .ite (.pure trivial) (locates_checkDefault hall hkeeps hgo i n hf)
  exact (placing hall).checkShape (s := .empty) meets_any hf.location

theorem locates_checkClass (i : Id .classDef) : KeepsPlaces nodes (checkClass go i) := by
  refine KeepsPlaces.whenDue (t := .classDef) (fun _ _ hc => ClassDef.Sited.mk hc.location hc.fields) fun c hc =>
    .ite (.pure trivial) ?_
  have hpairs : ∀ y ∈ duplicateFields c, InSource nodes y.1.location ∧ InSource nodes y.2.location := fun y hy => by
    obtain ⟨hf,hfirst⟩ := mem_duplicateFields_iff.mp hy
    exact ⟨(hc.fields _ (mem_fields_of_repeats hf)).location,(hc.fields _ (mem_fields_of_field? hfirst)).location⟩
  rw [checkFields_eq]
  exact KeepsPlaces.bind ((placing hall).reportDuplicates (s := .empty) _ _ hpairs) fun _ =>
    KeepsPlaces.forM fun n _ => (locates_checkField hall hkeeps hgo i n).restoringChain

theorem locates_checkBody (i : Id .objectDef) (c : Id .classDef) (hx : x.Sited nodes m)
    (hbody : Notation.Written m body.node body.blocks) : KeepsPlaces nodes (checkBody go i x c body) := by
  refine Locates.bind (locates_load (t := .objectDef)) fun o ho => Locates.bind (locates_load (t := .classDef)) fun c _ => ?_
  refine Locates.bind (locates_partitionBody hx (List.forall_mem_nil _) fun d hd => hbody.setting hd)
    fun y ⟨hset,hrepeated,hunknown⟩ => Locates.bind (locates_load (t := .objectDef)) fun o' ho' => ?_
  have hrow : ObjectDef.Sited nodes {o' with settings := y.settings} := ⟨ho'.location,ho'.block,hset⟩
  exact (locates_save (t := .objectDef) hrow).bind fun _ =>
    (KeepsPlaces.forM fun d hd => locates_reportError (hx.locate (hunknown d hd)) rfl).bind fun _ =>
    (KeepsPlaces.forM fun d hd => locates_reportError (hx.locate (hrepeated d hd)) rfl).bind fun _ =>
    KeepsPlaces.forM fun f _ => (placing hall).checkObjectField (s := .empty) hkeeps (fun _ g _ => hgo g) ho.location
      (fun st hst => ⟨trivial,hset st hst⟩) meets_any

theorem locates_checkBlock (i : Id .objectDef) (c : Id .classDef)
    (ho : o.Sited nodes) : KeepsPlaces nodes (checkBlock go i o c) := by
  refine locates_orStuck.bind fun b hb => ?_
  refine Locates.bind (locates_scopeOf (WrittenIn.parsed hall (ho.block b hb))) fun x ⟨m,hx,hparsed,hholds⟩ => ?_
  split
  · exact locates_reportBody hx (hparsed.covers_error hholds (.inl ‹_›))
  · exact locates_checkBody hall hkeeps hgo i c hx (hparsed.object hholds ‹_›)

theorem locates_checkObject (i : Id .objectDef) : KeepsPlaces nodes (checkObject go i) :=
  KeepsPlaces.whenDue (t := .objectDef) (fun _ _ ho => ObjectDef.Sited.mk ho.location ho.block ho.settings) fun _ ho =>
    .ite (.pure trivial) ((locating.governObject locating.resolveClass follows_resolveClass i).bind fun c =>
      (locates_checkGoverning hall hgo c).bind fun _ => .ite (locates_checkBlock hall hkeeps hgo i c ho) (.pure trivial))

theorem Gives.checkExpansion_sited (h : Gives (checkExpansion go i d c) p u q) (hp : p.Sited nodes ds)
    (hd : p.store.get? i = some d') (hmodule : d'.module = d.module) : q.Sited nodes ds := by
  obtain ⟨e,p1,he,hrest⟩ := gives_bind.mp h
  obtain ⟨hp1,hfault⟩ := he.expand_sited hall hp hd
  cases e with
  | error err =>
    have hreport : KeepsPlaces nodes (do reportBody (← Check.scopeOf d.module) err) :=
      Locates.bind (locates_scopeOf (hmodule ▸ hfault err rfl)) fun x ⟨m,hx,herr⟩ => locates_reportBody hx herr
    exact (hreport _ _ _ _ hp1 hrest).1
  | ok x =>
    exact ((placing hall).checkElements (s := .empty) hkeeps (fun _ g _ => hgo g) trivial trivial (fun _ _ => trivial) _ _ _ _
      hp1 hrest).1

theorem locates_checkSet (i : Id .setDef) : KeepsPlaces nodes (checkSet go i) := by
  intro ds p u q hp hg
  refine ⟨?_,trivial⟩
  obtain ⟨d,hd,hcases⟩ := gives_checkSet.mp hg
  have hrow : SetDef.Sited nodes d := hp.store.rows i d hd
  have hrow' : SetDef.Sited nodes {d with checked := p.marker} := ⟨hrow.location,hrow.block,hrow.fault⟩
  have hp0 : Pass.Sited nodes ds (p.put i {d with checked := p.marker}) :=
    ⟨hp.store.put (t := .setDef) hrow',hp.links,hp.cycles,hp.reports,hp.rejections⟩
  obtain ⟨_,rfl⟩ | ⟨_,⟨_,rfl⟩ | ⟨_,c,p1,b,p2,h⟩⟩ := hcases
  · exact hp
  · exact hp0
  · have hp1 := (locating.governSet locating.resolveClass i _ _ _ _ hp0 h.governed).1
    have hp2 := (locates_checkGoverning hall hgo c _ _ _ _ hp1 h.classChecked).1
    have hrest := h.rest
    cases b with
    | false => exact (gives_pure.mp hrest).2 ▸ hp2
    | true =>
      -- The fault is placed by the row that is there now, and told of in the module of the row that was there first.
      have hkept := (keeps_governSet i _ _ _ h.governed).weaken.trans (keeps_checkGoverning hkeeps c _ _ _ h.classChecked)
      obtain ⟨d',hd',hbare⟩ := hkept.extends.rows _ i _ (Store.get?_put_self (t := .setDef) hd)
      exact hrest.checkExpansion_sited hall hkeeps hgo hp2 hd' (SetDef.bare_eq_iff.mp hbare).2.2.2.1

end Checks

section Modules
variable (hall : ∀ m ∈ nodes, m.Parsed)

include hall

theorem locates_checkWithin (n : Nat) (g : Goal) : KeepsPlaces nodes (checkWithin n g) := by
  induction n generalizing g with
  | zero => exact .throw
  | succ n ih =>
    have hkeeps := keeps_checkWithin n
    cases g with
    | objectClass i => exact locates_checkClass hall hkeeps ih i
    | object i => exact locates_checkObject hall hkeeps ih i
    | objectSet i => exact locates_checkSet hall hkeeps ih i

theorem locates_check (g : Goal) : KeepsPlaces nodes (check g) := locates_budget.bind fun n => locates_checkWithin hall n g

/-! Modules -/

theorem locates_checkDeclared (ha : InSource nodes a.location) : KeepsPlaces nodes (checkDeclared a) := by
  unfold checkDeclared
  split
  · exact locates_check hall _
  · exact locates_checkClassRef _
  · exact locates_check hall _
  · exact locates_checkObjectRef _
  · exact locates_check hall _
  · exact locates_checkSetRef _
  · exact (locating.resolveType _).bind fun _ => .pure trivial
  · exact (placing hall).checkValue (s := .empty) trivial trivial ha
  · exact locates_reportError ha rfl

theorem locates_visitAssignment (i : Id .module) (n : Nat) : KeepsPlaces nodes (visitAssignment i n) := by
  refine Locates.bind (locates_load (t := .module)) fun m hm => ?_
  split
  · exact .throw
  · rename_i a ha
    refine locates_marker.bind fun k => (locates_save (t := .module) ?_).bind fun _ =>
      locates_checkDeclared hall (hm.assignments a (List.mem_of_getElem? ha))
    refine Module.Sited.mk hm.number (fun b hb => ?_) hm.imports
    obtain hb | ⟨b',hb',rfl⟩ := mem_modify_cases hb
    · exact hm.assignments b hb
    · exact hm.assignments b' hb'

theorem locates_checkAssignment (i : Id .module) (n : Nat) : KeepsPlaces nodes (checkAssignment i n) :=
  (locates_visitAssignment hall i n).bind fun _ => locates_finishAssignment

omit hall

theorem locates_checkName (hm : Module.Sited nodes i m) (ha : a ∈ m.assignments)
    (n : Nat) : KeepsPlaces nodes (checkName m a n) := by
  have hplace : InSource nodes a.location := hm.assignments a ha
  have hrest : KeepsPlaces nodes (if (BuiltinType.ofName? a.identifier.asnName).isSome then
      reportWarning (.shadowsBuiltin a.identifier.display) a.location else pure ()) :=
    .ite (locates_reportWarning hplace) (.pure trivial)
  refine locates_orStuck.bind fun first hfind => ?_
  have hfirst : InSource nodes first.location := hm.assignments first (List.mem_of_find?_eq_some hfind)
  exact .ite ((locates_reportRelated hplace hfirst rfl).bind fun _ => hrest) hrest

theorem locates_imported? : KeepsPlaces nodes (imported? y) :=
  locates_get.bind fun _ => by
    split
    · exact .pure trivial
    · exact Locates.bind (locates_load (t := .module)) fun _ _ => .pure trivial

section Imports
variable {i : Id .module} {m : Module} {y : ImportedName} (hm : Module.Sited nodes i m) (hy : y ∈ m.imports)

include hm hy

theorem locates_checkImport : KeepsPlaces nodes (checkImport m y) := by
  have hplace : InSource nodes (m.locate y.span) := hm.locate (hm.imports y hy)
  have hconflict : KeepsPlaces nodes (if (m.find? y.name).isSome then
      reportError (.importConflict y.name.display) (m.locate y.span) none else pure ()) :=
    .ite (locates_reportError hplace rfl) (.pure trivial)
  refine locates_imported?.bind fun o => ?_
  split
  · exact locates_reportError hplace rfl
  · exact .ite ((locates_reportError hplace rfl).bind fun _ => hconflict) hconflict

theorem locates_checkUse : KeepsPlaces nodes (checkUse m y) := by
  refine locates_imported?.bind fun o => ?_
  split
  · exact locates_isDue.bind fun b => .ite (locates_reportWarning (hm.locate (hm.imports y hy))) (.pure trivial)
  · exact .pure trivial

end Imports

include hall

theorem locates_checkModule (i : Id .module) : KeepsPlaces nodes (checkModule i) :=
  Locates.bind (locates_load (t := .module)) fun _ hm =>
    (KeepsPlaces.forM fun y hy => locates_checkName hm (List.fst_mem_of_mem_zipIdx hy) y.2).bind fun _ =>
    (KeepsPlaces.forM fun _ hy => locates_checkImport hm hy).bind fun _ =>
    (KeepsPlaces.forM fun n _ => locates_checkAssignment hall i n).bind fun _ =>
    Locates.bind (locates_load (t := .module)) fun _ hm' => KeepsPlaces.forM fun _ hy => locates_checkUse hm' hy

theorem InSource.name (hm : Module.Sited nodes i m) : InSource nodes (m.locate m.node.name.span) :=
  hm.locate (hall m.node (List.mem_of_getElem? hm.number)).name

theorem Pass.Sited.reportDuplicate {p : Pass} (hp : p.Sited nodes ds) (hg : Gives (Project.reportDuplicate i) p u q) :
    ∃ ds, q.Sited nodes ds := by
  simp only [Project.reportDuplicate,gives_bind,gives_load,gives_get,gives_orStuck] at hg
  obtain ⟨m,_,⟨hm,rfl⟩,_,_,⟨rfl,rfl⟩,j,_,⟨_,rfl⟩,first,_,⟨hfirst,rfl⟩,hg⟩ := hg
  rw [gives_reportError.mp hg]
  exact ⟨_,hp.store,hp.links,hp.cycles,List.forall_mem_cons.mpr ⟨List.forall_mem_cons.mpr
    ⟨InSource.name hall (hp.store.rows i m hm),List.forall_mem_singleton.mpr (InSource.name hall (hp.store.rows j first hfirst))⟩,
    hp.reports⟩,rfl⟩

theorem Pass.Sited.reportDuplicates {p : Pass} {l : List (Id .module)} (hp : p.Sited nodes ds)
    (hg : Gives (l.forM Project.reportDuplicate) p u q) : ∃ ds, q.Sited nodes ds := by
  induction l generalizing p ds with
  | nil => exact ⟨ds,gives_forM_nil.mp hg ▸ hp⟩
  | cons i l ih =>
    obtain ⟨p1,h1,h2⟩ := gives_forM_cons.mp hg
    obtain ⟨_,hp1⟩ := hp.reportDuplicate hall h1
    exact ih hp1 h2

/-- After what is told of rejected modules, a check rejects none. -/
theorem Pass.Sited.checkAll {p : Pass} (hp : p.Sited nodes ds) (hg : Gives (Project.checkAll l) p u q) :
    ∃ p1, Gives (l.forM Project.reportDuplicate) p () p1 ∧ q.Sited nodes (p1.reports.filter Diagnostic.rejects) := by
  simp only [Project.checkAll,gives_bind,gives_get] at hg
  obtain ⟨_,_,h1,_,_,⟨rfl,rfl⟩,h2⟩ := hg
  obtain ⟨_,hp1⟩ := hp.reportDuplicates hall h1
  exact ⟨_,h1,hp1.rejections.symm ▸ (KeepsPlaces.forM (fun i _ => locates_checkModule hall i) _ _ _ _ hp1 h2).1⟩

end Modules

end InfoObject.Check

namespace InfoObject

def CheckResult.places (r : CheckResult) : List Location :=
  r.errors.flatMap CheckError.places++r.warnings.map (·.location)

namespace Project
open Model Check

/-- A project knows of places in some modules only. -/
structure Sited (nodes : List Notation.Module) (p : Project) : Prop where
  store : p.store.Sited nodes
  result : ∀ r ∈ p.result, ∀ k ∈ r.places, InSource nodes k

def Action.added? : Action → Option Notation.Module
  | .add node => some node
  | _ => none

def added (l : List Action) : List Notation.Module := l.filterMap Action.added?

section Sited
variable {nodes : List Notation.Module} {p q : Project}

/-- What each action keeps holds after all of them. -/
theorem acts_keep {H : List Notation.Module → Project → Prop}
    (hadd : ∀ {nodes p q i} node, H nodes p → p.addModule node = .ok (i,q) → H (nodes++[node]) q)
    (hinvalidate : ∀ {nodes p}, H nodes p → H nodes p.invalidate)
    (hcheck : ∀ {nodes p} {σ : Type} {e : Option (Emitter σ)} {st st' c}, H nodes p → p.check e st = .ok (c,st') →
      H nodes c.project) (h : H nodes p) (hl : l.foldlM act p = .ok q) : H (nodes++added l) q := by
  induction l generalizing nodes p with
  | nil =>
    cases hl
    simpa [added] using h
  | cons a l ih =>
    rw [List.foldlM_cons] at hl
    cases a with
    | add node =>
      cases ha : p.addModule node with
      | error x => simp [act,ha,Except.map,bind,Except.bind] at hl
      | ok x =>
        simp only [act,ha,Except.map,bind,Except.bind] at hl
        simpa [added,Action.added?] using ih (hadd node h ha) hl
    | invalidate => exact ih (hinvalidate h) hl
    | check e st =>
      cases hc : p.check e st with
      | error x => simp [act,hc,Except.map,bind,Except.bind] at hl
      | ok x =>
        simp only [act,hc,Except.map,bind,Except.bind] at hl
        exact ih (hcheck h hc) hl

theorem Sited.new (w : Bool) : Sited [] (new w) := by
  refine ⟨⟨fun {t} i a ha => absurd ha (Store.get?_empty i a),rfl⟩,fun r hr => ?_⟩
  contradiction

theorem Sited.add (h : Sited nodes p) (hnode : node.Parsed) (hq : p.addModule node = .ok (k,q)) : Sited (nodes++[node]) q := by
  obtain ⟨i,s,m,l,ds,ha⟩ := addModule_adds hq
  have hs := h.store.newModule hnode ha.makes
  -- Which modules are in use makes no difference: a duplicate has its places as well.
  rw [ha.result]
  exact ⟨⟨fun {t} j a ha => hs.rows j a (by cases t <;> exact ha),hs.count⟩,fun r hr k hk => (h.result r hr k hk).grow⟩

theorem checkedBy_places {q : Pass} (hk : k ∈ (p.checkedBy q).result.places) : ∃ d ∈ q.reports, k ∈ d.places := by
  obtain hk | hk := List.mem_append.mp hk
  · obtain ⟨e,he,hk⟩ := List.mem_flatMap.mp hk
    obtain ⟨d,hd,he⟩ := List.mem_filterMap.mp (List.mem_mergeSort.mp he)
    cases d with
    | error e' =>
      cases he
      exact ⟨_,List.mem_reverse.mp hd,hk⟩
    | warning => contradiction
  · obtain ⟨x,hx,rfl⟩ := List.mem_map.mp hk
    obtain ⟨d,hd,hx⟩ := List.mem_filterMap.mp (List.mem_mergeSort.mp hx)
    cases d with
    | error => contradiction
    | warning x' =>
      cases hx
      exact ⟨_,List.mem_reverse.mp hd,List.mem_cons_self⟩

section Checks
variable {σ : Type} {e : Option (Emitter σ)} {st st' : σ} {c : Checked}

theorem reports_of_check (hc : p.check e st = .ok (c,st')) :
    c.reports = [] ∨ ∃ c', p.runCheck = .ok c' ∧ c.reports = c'.reports := by
  unfold check at hc
  split at hc
  · cases hc
    exact .inl rfl
  · cases hrun : p.runCheck with
    | error x => simp [hrun,bind,Except.bind] at hc
    | ok c' =>
      simp only [hrun,bind,Except.bind] at hc
      refine .inr ⟨c',rfl,?_⟩
      cases e with
      | none =>
        cases hc
        rfl
      | some e =>
        obtain rfl : (emitChecked e c' st).1 = c := congrArg Prod.fst (Except.ok.inj hc)
        unfold emitChecked
        split <;> rfl

theorem Sited.startPass (h : Sited nodes p) : p.startPass.Sited nodes [] := ⟨h.store,nofun,nofun,nofun,rfl⟩

theorem Sited.runCheck (h : Sited nodes p) (hall : ∀ m ∈ nodes, m.Parsed) (hc : p.runCheck = .ok c) :
    Sited nodes c.project ∧ (∀ d ∈ c.reports, ∀ k ∈ d.places, InSource nodes k) ∧ ∀ k ∈ c.result.places, InSource nodes k := by
  obtain ⟨q,hg,rfl⟩ := runCheck_eq_ok.mp hc
  obtain ⟨_,_,hq⟩ := Pass.Sited.checkAll hall (h.startPass) hg
  have hplaces : ∀ k ∈ (p.checkedBy q).result.places, InSource nodes k := by
    intro k hk
    obtain ⟨d,hd,hk⟩ := checkedBy_places hk
    exact hq.reports d hd k hk
  refine ⟨⟨hq.store,fun r hr => ?_⟩,fun d hd => hq.reports d (List.mem_reverse.mp hd),hplaces⟩
  cases hr
  exact hplaces

theorem Sited.check (h : Sited nodes p) (hall : ∀ m ∈ nodes, m.Parsed) (hc : p.check e st = .ok (c,st')) :
    Sited nodes c.project ∧ (∀ d ∈ c.reports, ∀ k ∈ d.places, InSource nodes k) ∧ ∀ k ∈ c.result.places, InSource nodes k := by
  have hreports : ∀ d ∈ c.reports, ∀ k ∈ d.places, InSource nodes k := by
    obtain hnone | ⟨c',hrun,heq⟩ := reports_of_check hc
    · rw [hnone]
      exact List.forall_mem_nil _
    · rw [heq]
      exact (h.runCheck hall hrun).2.1
  obtain ⟨_,r,hr,rfl⟩ | ⟨c',hrun,hf⟩ := check_cases hc
  · exact ⟨h,hreports,h.result r hr⟩
  · obtain ⟨hproject,_,hplaces⟩ := h.runCheck hall hrun
    have hsame : c.result.places = c'.result.places := by rw [CheckResult.places,hf.errors,hf.warnings,CheckResult.places]
    rw [← hsame] at hplaces
    refine ⟨⟨hf.store ▸ hproject.store,fun r hr => ?_⟩,hreports,hplaces⟩
    cases hf.result.symm.trans hr
    exact hplaces

end Checks

theorem sited_added (hall : ∀ m ∈ added l, m.Parsed) (hl : l.foldlM act (new w) = .ok p) : Sited (added l) p :=
  acts_keep (H := fun nodes p => (∀ m ∈ nodes, m.Parsed) → Sited nodes p)
    (fun node h hq hall => (h fun m hm => hall m (List.mem_append_left _ hm)).add (hall node (by simp)) hq)
    (fun h hall => ⟨(h hall).store,(h hall).result⟩) (fun h hc hall => ((h hall).check hall hc).1) (fun _ => .new w) hl hall

end Sited

/-- Whatever modules are read and added and however often they are checked, a check ends, and each place that is named in its
result or in what it reports is a place in the source of a module that was added, by the name of the file of that module. -/
theorem diagnostics_in_sources (warningsAsErrors : Bool) (l : List Action) (hl : ∀ node ∈ added l, node.Parsed) :
    ∃ p, l.foldlM act (new warningsAsErrors) = .ok p ∧ ∀ {σ : Type} (e : Option (Emitter σ)) (st : σ),
      ∃ c st', p.check e st = .ok (c,st') ∧ (∀ d ∈ c.reports, ∀ k ∈ d.places, InSource (added l) k) ∧
        ∀ k ∈ c.result.places, InSource (added l) k := by
  obtain ⟨p,hp,hsteady⟩ := (Steady.new warningsAsErrors).acts l
  have hsited := sited_added hl hp
  refine ⟨p,hp,fun e st => ?_⟩
  obtain ⟨c,st',hc,_⟩ := hsteady.check e st
  exact ⟨c,st',hc,(hsited.check hl hc).2⟩

/-- A circle of names, a fault in an inner body and an empty set. -/
def faultySource : List UInt8 :=
  Utf8.ofString "M DEFINITIONS ::= BEGIN C ::= CLASS { &n C } a C ::= b b C ::= a o C ::= { &n { &n } } E C ::= { } END"

def repeatedSource : List UInt8 := Utf8.ofString "M DEFINITIONS ::= BEGIN END"

theorem diagnostics_in_sources_faultySource : ∃ m n p c, Notation.Module.parse faultySource "m.asn" = .ok m ∧
    Notation.Module.parse repeatedSource "n.asn" = .ok n ∧ [.add m,.add n].foldlM act (new false) = .ok p ∧
    p.check (none : Option (Emitter Unit)) () = .ok (c,()) ∧ c.reports.length = 4 ∧
    (∀ d ∈ c.reports, ∀ k ∈ d.places, InSource [m,n] k) ∧ ∀ k ∈ c.result.places, InSource [m,n] k := by
  have hrun : (Notation.Module.parse faultySource "m.asn").toOption.any (fun m =>
      (Notation.Module.parse repeatedSource "n.asn").toOption.any fun n =>
        ([.add m,.add n].foldlM act (new false)).toOption.any fun p =>
          (p.check (none : Option (Emitter Unit)) ()).toOption.any fun x => x.1.reports.length == 4) = true := by
    decide +kernel
  obtain ⟨m,hm,hrun⟩ := Notation.exists_of_toOption_any hrun
  obtain ⟨n,hn,hrun⟩ := Notation.exists_of_toOption_any hrun
  obtain ⟨p,hp,hrun⟩ := Notation.exists_of_toOption_any hrun
  obtain ⟨⟨c,_⟩,hc,hlength⟩ := Notation.exists_of_toOption_any hrun
  have hparsed : ∀ node ∈ added [.add m,.add n], node.Parsed :=
    List.forall_mem_cons.mpr ⟨⟨_,_,hm⟩,List.forall_mem_singleton.mpr ⟨_,_,hn⟩⟩
  obtain ⟨p',hp',hcheck⟩ := diagnostics_in_sources false [.add m,.add n] hparsed
  obtain rfl := Except.ok.inj (hp.symm.trans hp')
  obtain ⟨c',_,hc',hplaces⟩ := hcheck (none : Option (Emitter Unit)) ()
  obtain ⟨rfl,_⟩ := Prod.mk.inj (Except.ok.inj (hc.symm.trans hc'))
  exact ⟨m,n,p,c,hm,hn,hp,hc,of_decide_eq_true hlength,hplaces⟩

end Project

end InfoObject
