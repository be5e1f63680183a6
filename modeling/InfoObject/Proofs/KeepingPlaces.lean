import InfoObject.Proofs.Checkable
import InfoObject.Proofs.Locations

/-! Steps of a check that keep every entity, link and report in the source of some module. -/
namespace InfoObject

def CheckError.places (e : CheckError) : List Location := e.location::e.related.toList

def Diagnostic.places : Diagnostic → List Location
  | .error e => e.places
  | .warning w => [w.location]

/-- What is told of a module whose name another file supplied first. -/
def Diagnostic.rejects : Diagnostic → Bool
  | .error ⟨.duplicateModule _,_,_⟩ => true
  | _ => false

end InfoObject

namespace InfoObject.Check
open Model

/-- Entities, links of the chain and reports have their places in the sources of some modules, and these are told of as
rejected. -/
structure Pass.Sited (nodes : List Notation.Module) (ds : List Diagnostic) (p : Pass) : Prop where
  store : p.store.Sited nodes
  links : ∀ l ∈ p.chain.links, InSource nodes l.location
  cycles : ∀ z ∈ p.chain.cycles, ∀ l ∈ z, InSource nodes l.location
  reports : ∀ d ∈ p.reports, ∀ l ∈ d.places, InSource nodes l
  rejections : p.reports.filter Diagnostic.rejects = ds

/-- A step keeps everything in its place, rejects no module and gives something of a kind. -/
def Locates {α : Type} (nodes : List Notation.Module) (m : Checking α) (Q : α → Prop) : Prop :=
  ∀ ds p a q, p.Sited nodes ds → Gives m p a q → q.Sited nodes ds ∧ Q a

abbrev KeepsPlaces {α : Type} (nodes : List Notation.Module) (m : Checking α) : Prop := Locates nodes m fun _ => True

variable {nodes : List Notation.Module}

section Parts
variable {α β : Type} {m n : Checking α} {Q : α → Prop} {R : β → Prop}

theorem Locates.pure (h : Q a) : Locates nodes (pure a) Q := by
  intro ds p b q hp hg
  obtain ⟨rfl,rfl⟩ := gives_pure.mp hg
  exact ⟨hp,h⟩

theorem Locates.throw : Locates nodes (throw e : Checking α) Q := fun _ _ _ _ _ hg => absurd hg gives_throw

theorem Locates.bind (hm : Locates nodes m Q) (hf : ∀ a, Q a → Locates nodes (f a) R) : Locates nodes (m >>= f) R := by
  intro ds p b r hp hg
  obtain ⟨a,q,hm',hf'⟩ := gives_bind.mp hg
  obtain ⟨hq,ha⟩ := hm ds p a q hp hm'
  exact hf a ha ds q b r hq hf'

theorem KeepsPlaces.bind (hm : KeepsPlaces nodes m) (hf : ∀ a, Locates nodes (f a) R) : Locates nodes (m >>= f) R :=
    Locates.bind hm fun a _ => hf a

theorem KeepsPlaces.map (hm : KeepsPlaces nodes m) : KeepsPlaces nodes (f <$> m) := by
  rw [← bind_pure_comp]
  exact hm.bind fun _ => .pure trivial

theorem Locates.ite [Decidable c] (hm : Locates nodes m Q) (hn : Locates nodes n Q) : Locates nodes (if c then m else n) Q := by
  split <;> assumption

theorem KeepsPlaces.forM {l : List α} (hf : ∀ x ∈ l, KeepsPlaces nodes (f x)) : KeepsPlaces nodes (l.forM f) := by
  induction l with
  | nil => exact .pure trivial
  | cons x l ih => exact (hf x List.mem_cons_self).bind fun _ => ih fun y hy => hf y (List.mem_cons_of_mem x hy)

theorem locates_get : KeepsPlaces nodes get := by
  intro ds p a q hp hg
  exact ⟨(gives_get.mp hg).2 ▸ hp,trivial⟩

theorem locates_marker : KeepsPlaces nodes marker := by
  intro ds p a q hp hg
  obtain ⟨_,rfl⟩ := gives_marker.mp hg
  exact ⟨hp,trivial⟩

theorem locates_budget : KeepsPlaces nodes budget := by
  intro ds p a q hp hg
  obtain ⟨_,rfl⟩ := gives_budget.mp hg
  exact ⟨hp,trivial⟩

theorem locates_isDue : KeepsPlaces nodes (isDue k) := locates_marker.bind fun _ => .pure trivial

theorem locates_current? : KeepsPlaces nodes (current? r) := by
  intro ds p o q hp hg
  obtain ⟨rfl,_⟩ := gives_current?.mp hg
  exact ⟨hp,trivial⟩

theorem locates_orStuck {o : Option α} : Locates nodes (orStuck o e) fun a => o = some a := by
  intro ds p a q hp hg
  obtain ⟨ha,rfl⟩ := gives_orStuck.mp hg
  exact ⟨hp,ha⟩

theorem locates_load : Locates nodes (load i : Checking (Row t)) (RowSited nodes i) := by
  intro ds p a q hp hg
  obtain ⟨ha,rfl⟩ := gives_load.mp hg
  exact ⟨hp,hp.store.rows i a ha⟩

theorem locates_save {a : Row t} (h : RowSited nodes i a) : KeepsPlaces nodes (save i a) := by
  intro ds p u q hp hg
  rw [gives_save.mp hg]
  exact ⟨⟨hp.store.put h,hp.links,hp.cycles,hp.reports,hp.rejections⟩,trivial⟩

theorem locates_build (hb : Sites nodes b Q) : Locates nodes (build b) Q := by
  intro ds p a q hp hg
  obtain ⟨s,hs,rfl⟩ := gives_build.mp hg
  obtain ⟨hstore,ha⟩ := hb _ _ _ hp.store hs
  exact ⟨⟨hstore,hp.links,hp.cycles,hp.reports,hp.rejections⟩,ha⟩

theorem locates_report (h : ∀ l ∈ d.places, InSource nodes l) (hd : d.rejects = false) : KeepsPlaces nodes (report d) := by
  intro ds p u q hp hg
  rw [gives_report.mp hg]
  exact ⟨⟨hp.store,hp.links,hp.cycles,List.forall_mem_cons.mpr ⟨h,hp.reports⟩,by simp [hd,hp.rejections]⟩,trivial⟩

theorem Fault.ordinary_rejects (h : Fault.ordinary f) : Diagnostic.rejects (.error ⟨f,l,o⟩) = false := by
  cases f <;> first | rfl | contradiction

theorem Fault.ofName_rejects (h : Fault.ofName f = true) : Diagnostic.rejects (.error ⟨f,l,o⟩) = false := by
  cases f <;> first | rfl | contradiction

theorem locates_reportError (h : InSource nodes l) (hf : Fault.ordinary f) : KeepsPlaces nodes (reportError f l none) :=
  locates_report (List.forall_mem_singleton.mpr h) (Fault.ordinary_rejects hf)

theorem locates_reportRelated (h : InSource nodes l) (hk : InSource nodes k) (hf : Fault.ordinary f) :
    KeepsPlaces nodes (reportError f l (some k)) :=
  locates_report (List.forall_mem_cons.mpr ⟨h,List.forall_mem_singleton.mpr hk⟩) (Fault.ordinary_rejects hf)

theorem locates_reportWarning (h : InSource nodes l) : KeepsPlaces nodes (reportWarning c l) :=
  locates_report (List.forall_mem_singleton.mpr h) rfl

theorem locates_reportConflict (h : InSource nodes l) (hk : InSource nodes k) (hf : Fault.ordinary f) :
    KeepsPlaces nodes (reportConflict c f l k) := by
  intro ds p u q hp hg
  obtain ⟨_,rfl⟩ | ⟨_,rfl⟩ := gives_reportConflict.mp hg
  · exact ⟨hp,trivial⟩
  · have hsited : Pass.Sited nodes ds {p with conflicts := c::p.conflicts} :=
      ⟨hp.store,hp.links,hp.cycles,hp.reports,hp.rejections⟩
    exact locates_reportRelated h hk hf _ _ () _ hsited (gives_reportError.mpr rfl)

/-! Names -/

theorem Module.Sited.of_bare {m m' : Module} (h : Module.Sited nodes i m) (hb : m'.bare = m.bare) :
    Module.Sited nodes i m' := by
  have hnode := (Module.bare_eq_iff.mp hb).1
  refine ⟨hnode ▸ h.number,fun a ha => ?_,fun x hx => ?_⟩
  · obtain ⟨a',ha',hab⟩ := mem_assignments_of_bare hb ha
    exact (Assignment.bare_eq_iff.mp hab).2.2.1 ▸ h.assignments a' ha'
  · obtain ⟨x',hx',hxb⟩ := mem_imports_of_bare hb hx
    rw [hnode,(ImportedName.bare_eq_iff.mp hxb).2.2]
    exact h.imports x' hx'

theorem locates_lookup : KeepsPlaces nodes (lookup i r) := by
  intro ds p a q hp hg
  obtain ⟨s,ha,rfl⟩ := gives_lookup.mp hg
  refine ⟨⟨?_,hp.links,hp.cycles,hp.reports,hp.rejections⟩,trivial⟩
  rcases (LooksUp.of_lookup? ha).store with rfl | ⟨m,m',hm,hmoves,rfl⟩
  · exact hp.store
  · exact hp.store.put (t := .module) (Module.Sited.of_bare (hp.store.rows i m hm) hmoves.bare)

/-! The chain -/

theorem locates_enter (h : InSource nodes l) : KeepsPlaces nodes (enter i name l) := by
  intro ds p b q hp hg
  obtain ⟨_,rfl⟩ := gives_enter.mp hg
  refine ⟨?_,trivial⟩
  by_cases hl : p.chain.holds ⟨i.key,name,l⟩ = true
  · simp only [Pass.entered,Chain.add,hl,if_true]
    refine ⟨hp.store,hp.links,fun z hz x hx => ?_,hp.reports,hp.rejections⟩
    -- The new cycle is what is left of the links from the one that is met again.
    obtain hz | hz := List.mem_append.mp hz
    · exact hp.cycles z hz x hx
    · rw [List.mem_singleton.mp hz] at hx
      exact hp.links x ((List.dropWhile_sublist _).subset hx)
  · simp only [Pass.entered,Chain.add,hl]
    refine ⟨hp.store,fun x hx => ?_,hp.cycles,hp.reports,hp.rejections⟩
    obtain hx | hx := List.mem_append.mp hx
    · exact hp.links x hx
    · rw [List.mem_singleton.mp hx]
      exact h

theorem Pass.Sited.rewind {p : Pass} (hp : p.Sited nodes ds) (hc : p.chain.rewind = some c) :
    Pass.Sited nodes ds {p with chain := c} := by
  unfold Chain.rewind at hc
  split at hc
  · contradiction
  · cases hc
    exact ⟨hp.store,fun l hl => hp.links l (List.mem_of_mem_take hl),hp.cycles,hp.reports,hp.rejections⟩

theorem Locates.restoringChain (hm : Locates nodes m Q) : Locates nodes (restoringChain m) Q := by
  intro ds p a q hp hg
  obtain ⟨r,c,hm',hc,rfl⟩ := gives_restoringChain.mp hg
  have hmark : Pass.Sited nodes ds p.marked := ⟨hp.store,hp.links,hp.cycles,hp.reports,hp.rejections⟩
  obtain ⟨hr,ha⟩ := hm _ _ _ _ hmark hm'
  exact ⟨hr.rewind hc,ha⟩

theorem report?_places (hz : ∀ l ∈ z, InSource nodes l.location) (h : Cycle.report? z = some e) :
    KeepsPlaces nodes (report (.error e)) := by
  cases z with
  | nil => contradiction
  | cons first rest =>
    cases h
    exact locates_report (List.forall_mem_singleton.mpr (hz first List.mem_cons_self)) rfl

theorem reportCycles_places {c : Chain} (hz : ∀ z ∈ zs, ∀ l ∈ z, InSource nodes l.location) : ∀ e ∈ (c.reportCycles zs).1,
    KeepsPlaces nodes (report (.error e)) := by
  intro e he
  obtain ⟨told,ht⟩ := Chain.exists_tells c zs
  rw [ht.errors] at he
  obtain ⟨x,hx,hxe⟩ := List.mem_filterMap.mp he
  obtain ⟨z,hzs,rfl⟩ := ht.origin x hx
  exact report?_places (fun l hl => hz z hzs l ((Cycle.canonical_isRotated z).mem_iff.mpr hl)) hxe

theorem locates_finishAssignment : KeepsPlaces nodes finishAssignment := by
  intro ds p u q hp hg
  simp only [finishAssignment,gives_bind,gives_get,gives_orStuck,gives_modify] at hg
  obtain ⟨_,p,⟨rfl,rfl⟩,_,_,⟨hc,rfl⟩,_,r,hr,rfl⟩ := hg
  obtain rfl := Option.some.inj (Option.ite_none_left_eq_some.mp hc).2
  obtain ⟨hr,_⟩ := KeepsPlaces.forM (reportCycles_places hp.cycles) _ _ _ _ hp hr
  exact ⟨⟨hr.store,List.forall_mem_nil _,List.forall_mem_nil _,hr.reports,hr.rejections⟩,trivial⟩

end Parts

/-! Names that are resolved once -/

section Once
variable {t : EntityType} {τ ε : Type} [Referring t τ] {id : Id t}
  {before : Row t → Checking ε} {search : Bool → Row t → ε → Checking τ}

theorem Locates.once (hplace : ∀ r, RowSited nodes id r → InSource nodes (Referring.location r))
    (hresolve : ∀ r x, RowSited nodes id r → RowSited nodes id (Referring.resolve r x))
    (hbefore : ∀ r, KeepsPlaces nodes (before r)) (hsearch : ∀ b r e, RowSited nodes id r → KeepsPlaces nodes (search b r e)) :
    KeepsPlaces nodes (once id before search) := by
  refine Locates.bind locates_load fun r hr => locates_current?.bind fun o => ?_
  cases o with
  | some x => exact .pure trivial
  | none =>
    refine Locates.restoringChain ((hbefore r).bind fun e => (locates_enter (hplace r hr)).bind fun b =>
      (hsearch b r e hr).bind fun x => Locates.bind locates_load fun r' hr' => locates_marker.bind fun k => ?_)
    exact (locates_save (hresolve r' ⟨x,k⟩ hr')).bind fun _ => .pure trivial

end Once

theorem locates_govern {t : EntityType} [HasGovernor t] {i : Id t} (hf : ∀ e, KeepsPlaces nodes (f e))
    (hnote : ∀ a c, RowSited nodes i a → RowSited nodes i (HasGovernor.note a c)) : KeepsPlaces nodes (noteGovernor f i) :=
  Locates.bind locates_load fun _ _ => (hf _).bind fun c => Locates.bind locates_load fun a ha =>
    (locates_save (hnote a c ha)).bind fun _ => .pure trivial

theorem locating : Resolvable (fun m => KeepsPlaces nodes m) fun r => r.Sited nodes where
  pure _ := .pure trivial
  throw _ := .throw
  bind := .bind
  ite := .ite
  load := fun _ _ _ _ hp hg => ⟨(locates_load _ _ _ _ hp hg).1,trivial⟩
  budget := locates_budget
  lookup := locates_lookup
  tell hr hf := locates_report (List.forall_mem_singleton.mpr hr.reference) (Fault.ofName_rejects hf)
  standInClass hr := locates_build (sites_standInClass hr.location)
  standInObject hr := locates_build (sites_standInObject hr.location)
  standInSet hr := locates_build (sites_standInSet hr.location)
  onceType hb hs := Locates.once (fun _ hr => NameRef.Sited.location hr) (fun _ _ hr => ⟨hr.location,hr.reference⟩) hb hs
  onceValue hb hs := Locates.once (fun _ hr => NameRef.Sited.location hr) (fun _ _ hr => ⟨hr.location,hr.reference⟩) hb hs
  onceClass hb hs := Locates.once (fun _ hr => NameRef.Sited.location hr) (fun _ _ hr => ⟨hr.location,hr.reference⟩) hb hs
  onceObject hb hs := Locates.once (fun _ hr => NameRef.Sited.location hr) (fun _ _ hr => ⟨hr.location,hr.reference⟩) hb hs
  onceSet hb hs := Locates.once (fun _ hr => NameRef.Sited.location hr) (fun _ _ hr => ⟨hr.location,hr.reference⟩) hb hs
  governObject hf _ _ := locates_govern (t := .objectDef) hf fun _ _ h => ⟨h.location,h.block,h.settings⟩
  governSet hf _ := locates_govern (t := .setDef) hf fun _ _ h => ⟨h.location,h.block,h.fault⟩

/-! Bodies of sets -/

section Flattening
variable {x : Scope} {m : Notation.Module}

theorem locates_scopeOf (h : WrittenIn nodes module P) : Locates nodes (scopeOf module) fun x => ∃ m, x.Sited nodes m ∧
    P m := by
  obtain ⟨i,m,rfl,hm,hp⟩ := h
  refine Locates.bind (locates_load (t := .module)) fun row hrow => .pure ⟨m,?_,hp⟩
  have hnode : row.node = m := Option.some.inj ((Module.Sited.number hrow).symm.trans hm)
  exact ⟨hm,by rw [← hnode]; rfl⟩

theorem locates_namesSet : KeepsPlaces nodes (namesSet x r) := by
  refine locates_lookup.bind fun a => ?_
  split
  · exact .pure trivial
  · exact .pure trivial
  · exact KeepsPlaces.bind (locates_build sites_intern) fun _ => .pure trivial

theorem locates_newElement (hx : x.Sited nodes m) (he : Notation.Written m e.node e.blocks) :
    KeepsPlaces nodes (newElement x d n e) := by
  cases e with
  | block b =>
    have hb : m.Holds b := he.holds b (by simp [Notation.ElementDecl.blocks])
    exact KeepsPlaces.map (locates_build (sites_newObjectDef hx he.covers hb))
  | reference r =>
    have hr : m.Covers r.span := he.covers
    refine locates_namesSet.bind fun b => .ite ?_ ?_
    · exact KeepsPlaces.map (locates_build (sites_newSetRef hx hr hr))
    · exact KeepsPlaces.map (locates_build (sites_newObjectRef hx hr hr))

theorem locates_newElements (hx : x.Sited nodes m) (hes : ∀ e ∈ es, Notation.Written m e.node e.blocks)
    (n : Nat) : KeepsPlaces nodes (newElements x d n es) := by
  induction es generalizing n with
  | nil => exact .pure trivial
  | cons e es ih =>
    exact (locates_newElement hx (hes e List.mem_cons_self)).bind fun _ =>
      (ih (fun e' he' => hes e' (List.mem_cons_of_mem e he')) (n+1)).bind fun _ => .pure trivial

variable (hall : ∀ m ∈ nodes, m.Parsed)

theorem WrittenIn.parsed (hall : ∀ m ∈ nodes, m.Parsed) (h : WrittenIn nodes module P) :
    WrittenIn nodes module fun m => m.Parsed ∧ P m := by
  obtain ⟨i,m,hi,hm,hp⟩ := h
  exact ⟨i,m,hi,hm,hall m (List.mem_of_getElem? hm),hp⟩

include hall

theorem locates_readElements (hd : d.Sited nodes) : Locates nodes (readElements d) fun e => ∀ err, e = .error err →
    WrittenIn nodes d.module (·.Covers err.span) := by
  refine locates_orStuck.bind fun b hb => ?_
  have hblock := WrittenIn.parsed hall (hd.block b hb)
  split
  · rename_i err herr
    obtain ⟨i,m,hi,hm,hparsed,hholds⟩ := hblock
    refine .pure fun err' herr' => ?_
    cases herr'
    exact ⟨i,m,hi,hm,hparsed.covers_error hholds (.inr herr)⟩
  · rename_i body hbody
    refine Locates.bind (locates_scopeOf hblock) fun x ⟨m,hx,hparsed,hholds⟩ => ?_
    have hwritten := hparsed.set hholds hbody
    refine (locates_newElements hx (fun e he => hwritten.element he) 0).bind fun _ => .pure fun err herr => ?_
    contradiction

theorem Gives.expand_sited (h : Gives (expand i) p e q) (hp : p.Sited nodes ds) (hd : p.store.get? i = some d) :
    q.Sited nodes ds ∧ ∀ err, e = .error err → WrittenIn nodes d.module (·.Covers err.span) := by
  have hsited : SetDef.Sited nodes d := hp.store.rows i d hd
  simp only [expand,gives_bind,gives_load] at h
  obtain ⟨_,_,⟨hd',rfl⟩,h⟩ := h
  cases hd.symm.trans hd'
  cases he : d.expansion with
  | some e' =>
    simp only [he,gives_pure] at h
    obtain ⟨rfl,rfl⟩ := h
    exact ⟨hp,fun err herr => hsited.fault err (herr ▸ he)⟩
  | none =>
    simp only [he,gives_bind,gives_load,gives_save,gives_pure] at h
    obtain ⟨_,_,hr,d',_,⟨hd',rfl⟩,_,_,rfl,rfl,rfl⟩ := h
    obtain ⟨hq,hfault⟩ := locates_readElements hall hsited _ _ _ _ hp hr
    have hrow : SetDef.Sited nodes d' := hq.store.rows i d' hd'
    -- The row is loaded again behind the reading, which made entities but left the module of the set as it was.
    obtain ⟨d'',hd'',hbare⟩ := hr.readElements.1.extends.rows _ i d hd
    cases hd'.symm.trans hd''
    have hmodule : d'.module = d.module := (SetDef.bare_eq_iff.mp hbare).2.2.2.1
    have hrow' : SetDef.Sited nodes {d' with expansion := some e} :=
      ⟨hrow.location,hrow.block,fun err herr => hmodule ▸ hfault err (Option.some.inj herr)⟩
    exact ⟨⟨hq.store.put (t := .setDef) hrow',hq.links,hq.cycles,hq.reports,hq.rejections⟩,hfault⟩

theorem locates_expand (i : Id .setDef) : KeepsPlaces nodes (expand i) := by
  intro ds p e q hp hg
  obtain ⟨d,_,hd,_⟩ := gives_bind.mp hg
  exact ⟨(hg.expand_sited hall hp (gives_load.mp hd).1).1,trivial⟩

omit hall in
theorem locates_flattenElement (hf : ∀ i, KeepsPlaces nodes (f i)) (e : Element) : KeepsPlaces nodes (flattenElement f e) := by
  cases e with
  | literal o => exact .pure trivial
  | object i =>
    exact (locating.resolveObject _).bind fun _ =>
      Locates.bind (locates_load (t := .objectDef)) fun _ _ => .pure trivial
  | set i => exact (locating.resolveSet _).bind fun d => hf d

omit hall in
theorem locates_flattenElements (hf : ∀ i, KeepsPlaces nodes (f i))
    (es : List Element) : KeepsPlaces nodes (flattenElements f es) := by
  induction es with
  | nil => exact .pure trivial
  | cons e es ih =>
    exact KeepsPlaces.bind (locates_flattenElement hf e).restoringChain fun _ => ih.bind fun _ => .pure trivial

theorem locates_flattenWithin (n : Nat) (i : Id .setDef) : KeepsPlaces nodes (flattenWithin n i) := by
  induction n generalizing i with
  | zero => exact .throw
  | succ n ih =>
    refine Locates.bind (locates_load (t := .setDef)) fun d hd => .ite (.pure trivial) (locates_current?.bind fun o => ?_)
    cases o with
    | some os => exact .pure trivial
    | none =>
      refine Locates.restoringChain ((locates_enter hd.location).bind fun b => .ite ?_ (.pure trivial))
      refine (locates_expand hall i).bind fun _ => Locates.bind (locates_load (t := .setDef)) fun d1 _ =>
        (locates_flattenElements ih d1.elements).bind fun os => Locates.bind (locates_load (t := .setDef)) fun d2 hd2 =>
          locates_marker.bind fun k => ?_
      have hrow : SetDef.Sited nodes {d2 with flattening := some ⟨os,k⟩} := ⟨hd2.location,hd2.block,hd2.fault⟩
      exact (locates_save (t := .setDef) hrow).bind fun _ => .pure trivial

theorem locates_flatten (i : Id .setDef) : KeepsPlaces nodes (flatten i) :=
  locates_budget.bind fun n => locates_flattenWithin hall n i

end Flattening

/-! Settings -/

section Settings
variable {x : Scope} {m : Notation.Module} {f : Field} {p : Notation.Payload}
  (hx : x.Sited nodes m)

theorem sites_fieldGovernor (h : InSource nodes l) : Sites nodes (fieldGovernor f l) fun _ => True := by
  unfold fieldGovernor
  split
  · exact .pure trivial
  · exact .pure trivial
  · exact (sites_standInClass h).map fun _ _ => trivial

include hx

theorem sites_referenceSetting (hr : m.Covers r.span) : Sites nodes (referenceSetting x f r (x.locate r.span) k) fun _ =>
    True := by
  have hgovernor : Sites nodes (fieldGovernor f (x.locate r.span)) fun _ => True := sites_fieldGovernor (hx.locate hr)
  unfold referenceSetting
  split
  · exact (sites_newTypeRef hx hr hr).map fun _ _ => trivial
  · exact hgovernor.bind fun _ _ => (sites_newObjectRef hx hr hr).map fun _ _ => trivial
  · exact hgovernor.bind fun _ _ => (sites_newSetRef hx hr hr).map fun _ _ => trivial
  · split
    · exact .pure trivial
    · exact (sites_newValueRef hx hr hr).map fun _ _ => trivial

theorem sites_blockSetting (hs : m.Covers s) (hb : m.Holds b) :
    Sites nodes (blockSetting x f display b (x.locate s)) fun _ => True :=
  (sites_fieldGovernor (hx.locate hs)).bind fun _ _ =>
    .ite ((sites_newSetDef hx hs hb).map fun _ _ => trivial) ((sites_newObjectDef hx hs hb).map fun _ _ => trivial)

theorem locates_newSetting (hp : Notation.Written m p.node p.blocks) :
    Locates nodes (newSetting x owner name p f) fun s => InSource nodes s.location := by
  have hplace : InSource nodes (x.locate p.span) := hx.locate hp.payload_covers
  have hclassify : ∀ r, KeepsPlaces nodes (classifyReference x r f.kind) := by
    intro r
    refine locates_lookup.bind fun a => ?_
    split <;> exact .pure trivial
  cases p with
  | int | text => exact .pure hplace
  | block b =>
    have hb : m.Holds b := hp.holds b (by simp [Notation.Payload.blocks])
    exact KeepsPlaces.bind (locates_build (sites_blockSetting hx hp.covers hb)) fun _ => .pure hplace
  | reference r =>
    exact (hclassify r).bind fun k =>
      KeepsPlaces.bind (locates_build (sites_referenceSetting hx hp.covers)) fun _ => .pure hplace

theorem locates_partitionBody (hdone : ∀ s ∈ done, InSource nodes s.location)
    (hds : ∀ d ∈ ds, Notation.Written m d.node d.payload.blocks) :
    Locates nodes (partitionBody x owner c done ds) fun y => (∀ s ∈ y.settings, InSource nodes s.location) ∧
    (∀ d ∈ y.repeated, m.Covers d.span) ∧ ∀ d ∈ y.unknown, m.Covers d.name.span := by
  induction ds generalizing done with
  | nil => exact .pure ⟨fun s hs => hdone s (List.mem_reverse.mp hs),nofun,nofun⟩
  | cons d ds ih =>
    have hd := hds d List.mem_cons_self
    have hrest : ∀ e ∈ ds, Notation.Written m e.node e.payload.blocks := fun e he => hds e (List.mem_cons_of_mem d he)
    refine KeepsPlaces.bind (locates_build sites_intern) fun name => .ite ?_ ?_
    · exact Locates.bind (ih hdone hrest) fun y hy => .pure ⟨hy.1,List.forall_mem_cons.mpr ⟨hd.covers,hy.2.1⟩,hy.2.2⟩
    · split
      · exact Locates.bind (ih hdone hrest) fun y hy => .pure ⟨hy.1,hy.2.1,List.forall_mem_cons.mpr ⟨hd.settingName,hy.2.2⟩⟩
      · exact Locates.bind (locates_newSetting hx hd.settingPayload) fun s hs =>
          ih (List.forall_mem_cons.mpr ⟨hs,hdone⟩) hrest

end Settings

end InfoObject.Check
