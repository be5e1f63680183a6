import InfoObject.Proofs.DiagnosticPlaces
import InfoObject.Proofs.Naming
import Mathlib.Data.List.Find

/-! The modules of a project over all that is added to it. -/
namespace InfoObject.Notation.Module

/-- What a module is known by, however its name is spelt. -/
def identifier (m : Module) : Identifier := Model.asnIdentifier m.name.name

def namePlace (m : Module) : Location := ⟨m.file,m.name.span⟩

end InfoObject.Notation.Module

namespace InfoObject.Project
open Model Check

/-! What is kept of the modules that were added -/

variable {nodes kept ns A B : List Notation.Module} {n m k : Notation.Module} {x : Identifier} {p : Project} {s s' : Store}
  {ids : List (Id .module)} {i j : Id .module} {l : Shelf} {row : Module}

section History
variable (nodes)

/-- The file that first supplied a name. -/
def supplier? (i : Identifier) : Option String := (nodes.find? (·.identifier == i)).map (·.file)

/-- The modules of a name that another file supplied first. -/
def rejected : List Notation.Module := nodes.filter fun n => supplier? nodes n.identifier ≠ some n.file

/-- Of each name, in the order in which the names were first added, the last module from the file that first supplied it. -/
structure Stocked (kept : List Notation.Module) : Prop where
  order : kept.map (·.identifier) = (nodes.map (·.identifier)).eraseDups
  distinct : (kept.map (·.identifier)).Nodup
  latest : ∀ m ∈ kept, supplier? nodes m.identifier = some m.file ∧
    (nodes.filter fun n => n.identifier = m.identifier ∧ n.file = m.file).getLast? = some m

end History

theorem supplier?_snoc : supplier? (nodes++[n]) x =
    (supplier? nodes x).or (if n.identifier = x then some n.file else none) := by
  simp only [supplier?,List.find?_append,Option.map_or,List.find?_singleton,beq_iff_eq]
  split <;> rfl

theorem supplier?_eq_none : supplier? nodes x = none ↔ x ∉ nodes.map (·.identifier) := by
  simp [supplier?]

theorem rejected_snoc : rejected (nodes++[n]) =
    rejected nodes++if supplier? (nodes++[n]) n.identifier = some n.file then [] else [n] := by
  have hold : ∀ m ∈ nodes, supplier? (nodes++[n]) m.identifier = supplier? nodes m.identifier := by
    intro m hm
    cases hs : supplier? nodes m.identifier with
    | some f => simp [supplier?_snoc,hs]
    | none => exact absurd (List.mem_map_of_mem hm) (supplier?_eq_none.mp hs)
  rw [rejected,List.filter_append,List.filter_congr fun m hm => by rw [hold m hm],List.filter_singleton]
  split <;> simp_all [rejected]

theorem Stocked.supplier (h : Stocked nodes kept) (x : Identifier) :
    (kept.find? (·.identifier == x)).map (·.file) = supplier? nodes x := by
  cases hf : kept.find? (·.identifier == x) with
  | some m =>
    obtain rfl : m.identifier = x := by simpa using List.find?_some hf
    exact (h.latest m (List.mem_of_find?_eq_some hf)).1.symm
  | none =>
    have hx : x ∉ kept.map (·.identifier) := by simpa using hf
    rw [h.order,List.mem_eraseDups] at hx
    exact (supplier?_eq_none.mpr hx).symm

/-- A module stays the latest of its name unless one comes from the same file. -/
theorem Stocked.stays (h : Stocked nodes kept) (hm : m ∈ kept) (hn : n.identifier = m.identifier → n.file ≠ m.file) :
    supplier? (nodes++[n]) m.identifier = some m.file ∧
      ((nodes++[n]).filter fun n => n.identifier = m.identifier ∧ n.file = m.file).getLast? = some m := by
  obtain ⟨hs,hl⟩ := h.latest m hm
  refine ⟨by simp [supplier?_snoc,hs],?_⟩
  have hnone : ([n].filter fun n => n.identifier = m.identifier ∧ n.file = m.file) = [] := by simpa using hn
  rw [List.filter_append,hnone,List.append_nil,hl]

theorem eraseDups_snoc {l : List Identifier} : (l++[x]).eraseDups = if x ∈ l then l.eraseDups else l.eraseDups++[x] := by
  rw [List.eraseDups_append]
  split <;> simp_all [List.removeAll,List.eraseDups_cons]

theorem Stocked.append (h : Stocked nodes kept) (hn : supplier? nodes n.identifier = none) : Stocked (nodes++[n]) (kept++[n]) := by
  have hnew := supplier?_eq_none.mp hn
  have hkept : n.identifier ∉ kept.map (·.identifier) := by rwa [h.order,List.mem_eraseDups]
  refine ⟨?_,?_,List.forall_mem_append.mpr ⟨fun m hm => h.stays hm fun he => ?_,?_⟩⟩
  · rw [List.map_append,List.map_append,h.order,List.map_singleton,eraseDups_snoc,if_neg hnew]
  · rw [List.map_append]
    exact List.concat_eq_append ▸ h.distinct.concat hkept
  · exact absurd (he ▸ List.mem_map_of_mem hm) hkept
  · simp [supplier?_snoc,hn]

theorem Stocked.order_known (h : Stocked nodes kept) (hn : supplier? nodes n.identifier = some f) :
    kept.map (·.identifier) = ((nodes++[n]).map (·.identifier)).eraseDups := by
  have hmem : n.identifier ∈ nodes.map (·.identifier) := by
    by_contra hno
    simp [supplier?_eq_none.mpr hno] at hn
  rw [h.order,List.map_append,List.map_singleton,eraseDups_snoc,if_pos hmem]

theorem ne_of_middle (h : ((A++k::B).map (·.identifier)).Nodup) (hm : m ∈ A++B) : m.identifier ≠ k.identifier := by
  rw [List.map_append,List.map_cons,List.nodup_middle,List.nodup_cons,← List.map_append] at h
  exact fun he => h.1 (he ▸ List.mem_map_of_mem hm)

theorem Stocked.replace (h : Stocked nodes (A++k::B)) (hi : k.identifier = n.identifier)
    (hs : supplier? nodes n.identifier = some n.file) : Stocked (nodes++[n]) (A++n::B) := by
  have hmap : (A++n::B).map (·.identifier) = (A++k::B).map (·.identifier) := by simp [hi]
  refine ⟨hmap ▸ h.order_known hs,hmap ▸ h.distinct,fun m hm => ?_⟩
  obtain rfl | hm : m = n ∨ m ∈ A++B := by simpa [or_left_comm] using hm
  · simp [supplier?_snoc,hs]
  · exact h.stays (by simp at hm ⊢; tauto) fun he => absurd (hi.trans he).symm (ne_of_middle h.distinct hm)

theorem Stocked.refuse (h : Stocked nodes kept) (hn : supplier? nodes n.identifier = some f) (hf : f ≠ n.file) :
    Stocked (nodes++[n]) kept :=
  ⟨h.order_known hn,h.distinct,fun m hm => h.stays hm fun he hfile => hf
    (Option.some.inj ((he ▸ hn).symm.trans (hfile ▸ (h.latest m hm).1)))⟩

/-! What a project keeps -/

/-- What a module has of the notation that it was added as, and its name. -/
def entry (s : Store) (i : Id .module) : Option (Notation.Module × Identifier) := (s.get? i).map fun m => (m.node,m.name)

/-- Modules stand for what was added. -/
def Enters (s : Store) (ids : List (Id .module)) (nodes : List Notation.Module) : Prop :=
  ids.map (entry s) = nodes.map fun n => some (n,n.identifier)

theorem Enters.mono (h : Enters s ids nodes) (e : Extends s s') : Enters s' ids nodes := by
  refine Eq.trans (List.map_congr_left fun i hi => ?_) h
  obtain ⟨n,_,hn⟩ := List.mem_map.mp (h ▸ List.mem_map_of_mem hi)
  obtain ⟨m,hm,_⟩ := Option.map_eq_some_iff.mp hn.symm
  obtain ⟨m',hm',hb⟩ := e.rows _ i m hm
  obtain ⟨hnode,hname,_⟩ := Module.bare_eq_iff.mp hb
  rw [entry,entry,hm,hm',Option.map_some,Option.map_some,hnode,hname]

theorem Enters.append (h : Enters s ids nodes) (hi : entry s i = some (n,n.identifier)) : Enters s (ids++[i]) (nodes++[n]) := by
  simp only [Enters,List.map_append,List.map_singleton,hi] at h ⊢
  rw [h]

theorem Enters.rows (h : Enters s s.kept.modules kept) :
    s.keptModules.map (fun m => (m.node,m.name)) = kept.map fun n => (n,n.identifier) := by
  have hmap := congrArg (List.filterMap id) h
  rw [List.filterMap_map,List.filterMap_map,Function.id_comp,Function.id_comp,← Function.comp_def,List.filterMap_eq_map] at hmap
  rw [← hmap,Store.keptModules,List.map_filterMap]
  rfl

theorem Enters.shelf (h : Enters s s.kept.modules kept) : s.keptModules.map (·.node) = kept := by
  simpa [Function.comp_def] using congrArg (List.map Prod.fst) h.rows

/-- The names lead to the modules in use, whatever was entered under them before. -/
theorem moduleNamed?_eq (h : Arranged s s.kept) (x : Identifier) :
    s.moduleNamed? x = s.kept.modules.find? fun i => (s.get? i).any (·.name == x) := by
  cases hf : s.kept.modules.find? fun i => (s.get? i).any (·.name == x) with
  | some j =>
    have hany := List.find?_some hf
    obtain ⟨m,hm,hx⟩ := (Option.any_eq_true _ _).mp hany
    exact (h.named x j).mpr ⟨List.mem_of_find?_eq_some hf,m,hm,beq_iff_eq.mp hx⟩
  | none =>
    cases hl : s.moduleNamed? x with
    | none => rfl
    | some i =>
      obtain ⟨hi,m,hm,hx⟩ := (h.named x i).mp hl
      exact absurd (by simp [hm,hx]) (List.find?_eq_none.mp hf i hi)

/-- The module in use under a name is the one that is kept of the name. -/
theorem Enters.find? (h : Enters s s.kept.modules kept) (hs : Arranged s s.kept) (x : Identifier) :
    ((s.moduleNamed? x).bind (s.get? ·)).map (·.node) = kept.find? (·.identifier == x) := by
  have hrow : (s.moduleNamed? x).bind (s.get? ·) = s.keptModules.find? (·.name == x) :=
    (congrArg (Option.bind · _) (moduleNamed?_eq hs x)).trans List.find?_filterMap.symm
  rw [hrow]
  simpa [List.find?_map,Function.comp_def] using congrArg (fun l => (l.find? (·.2 == x)).map Prod.fst) h.rows

theorem Enters.replace (h : Enters s s.kept.modules kept) (hj : s.get? j = some row)
    (hl : s.kept.replace? x j i = some l) (hi : entry s i = some (n,n.identifier)) :
    ∃ A k B, kept = A++k::B ∧ k.identifier = row.name ∧ Enters s l.modules (A++n::B) := by
  obtain ⟨l₁,l₂,hmodules,rfl⟩ := replace?_eq_some hl
  rw [Enters,hmodules,List.map_append,List.map_cons,eq_comm,List.map_eq_append_iff] at h
  obtain ⟨A,C,rfl,hA,hC⟩ := h
  obtain ⟨k,B,rfl,hk,hB⟩ := List.map_eq_cons_iff.mp hC
  refine ⟨A,k,B,rfl,?_,by simp [Enters,hA,hB,hi]⟩
  simp only [entry,hj,Option.map_some,Option.some.injEq,Prod.mk.injEq] at hk
  exact hk.2

/-- What is told of a rejected module, where these are kept. -/
def rejection (kept : List Notation.Module) (n : Notation.Module) : CheckError :=
  ⟨.duplicateModule n.identifier.display,n.namePlace,(kept.find? (·.identifier == n.identifier)).map (·.namePlace)⟩

/-- A project keeps the latest modules of those that were added, and its last result tells of the others. -/
structure Shelved (nodes kept : List Notation.Module) (p : Project) : Prop where
  sane : Sane p.store
  stocked : Stocked nodes kept
  shelf : Enters p.store p.store.kept.modules kept
  duplicates : Enters p.store p.duplicates (rejected nodes)
  result : p.dirty = false → ∀ r ∈ p.result, (r.errors.filter (·.code == 3018)).Perm ((rejected nodes).map (rejection kept))

theorem Shelved.new (w : Bool) : Shelved [] [] (new w) := ⟨.empty,⟨rfl,.nil,nofun⟩,rfl,rfl,nofun⟩

/-- The store behind a module that was loaded, before it is put to use. -/
theorem Shelved.loaded (h : Shelved nodes kept p) (hmakes : Makes (newModule n) p.store i s) (hm : s.get? i = some row) :
    Sane s ∧ Enters s s.kept.modules kept ∧ Enters s p.duplicates (rejected nodes) ∧ entry s i = some (n,n.identifier) ∧
      row.name = n.identifier ∧
      ((s.moduleNamed? n.identifier).bind (s.get? ·)).map (·.file) = supplier? nodes n.identifier := by
  have hload := (Makes.newModule hmakes).1
  obtain ⟨m',hm',hnode,hname,_⟩ := hload.row
  obtain rfl := Option.some.inj (hm.symm.trans hm')
  have hsane := hload.sane h.sane
  have hkept : Enters s s.kept.modules kept := hload.gained.kept ▸ h.shelf.mono hload.gained.extends
  refine ⟨hsane,hkept,h.duplicates.mono hload.gained.extends,?_,hname h.sane,?_⟩
  · rw [entry,hm,Option.map_some,hnode,hname h.sane]
    rfl
  · rw [← h.stocked.supplier,← hkept.find? hsane.shelf,Option.map_map]
    rfl

theorem Shelved.add (h : Shelved nodes kept p) (hq : p.addModule n = .ok (j,q)) : ∃ kept, Shelved (nodes++[n]) kept q := by
  have hsane := sane_addModule h.sane hq
  obtain ⟨i,s,m,l,ds,ha⟩ := addModule_adds hq
  obtain ⟨hloaded,hkept,hdup,hi,hname,hsup⟩ := h.loaded ha.makes ha.row
  have hmore : supplier? (nodes++[n]) n.identifier = some n.file → rejected (nodes++[n]) = rejected nodes := fun hn => by
    rw [rejected_snoc,if_pos hn,List.append_nil]
  rw [ha.result] at hsane ⊢
  cases ha.placed with
  | appended hj =>
    rw [← hname,hj] at hsup
    refine ⟨kept++[n],hsane,h.stocked.append (hname ▸ hsup.symm),hkept.append hi,?_,nofun⟩
    exact hmore (by simp [supplier?_snoc,← hname,← hsup]) ▸ hdup
  | replaced hj hrow hf hl =>
    rw [← hname,hj,Option.bind_some,hrow,Option.map_some,hf] at hsup
    obtain ⟨_,_,hrow',hsame⟩ := (hloaded.shelf.named _ _).mp hj
    obtain rfl := Option.some.inj (hrow.symm.trans hrow')
    obtain ⟨A,k,B,rfl,hk,henters⟩ := hkept.replace hrow hl hi
    refine ⟨A++n::B,hsane,h.stocked.replace ((hk.trans hsame).trans hname) (hname ▸ hsup.symm),henters,?_,nofun⟩
    exact hmore (by simp [supplier?_snoc,← hname,← hsup]) ▸ hdup
  | duplicate hj hrow hf =>
    rw [← hname,hj,Option.bind_some,hrow,Option.map_some] at hsup
    refine ⟨kept,hsane,h.stocked.refuse (hname ▸ hsup.symm) hf,hkept,?_,nofun⟩
    rw [rejected_snoc,if_neg (by simpa [supplier?_snoc,← hname,← hsup] using hf)]
    exact hdup.append hi

theorem Shelved.module? (h : Shelved nodes kept p) (name : String) :
    p.module? name = p.store.moduleNamed? (asnIdentifier name) := by
  unfold Project.module?
  cases hl : p.store.registry.lookup name .asn with
  | some x =>
    rw [h.sane.lookup_eq hl]
    rfl
  | none =>
    cases hj : p.store.moduleNamed? (asnIdentifier name) with
    | none => rfl
    | some j => simp [((moduleNamed?_inUse h.sane).mp hj).registered h.sane] at hl

/-- A module from another file changes none that is in use. -/
theorem Shelved.refuses (h : Shelved nodes kept p) (hs : supplier? nodes n.identifier = some f) (hf : f ≠ n.file) :
    ∃ j q, p.addModule n = .ok (j,q) ∧ q.modules = p.modules ∧ q.store.kept = p.store.kept ∧
      p.module? n.name.name = some j := by
  obtain ⟨j,q,hq⟩ := addModule_ok h.sane n
  obtain ⟨i,s,m,l,ds,ha⟩ := addModule_adds hq
  obtain ⟨_,_,_,_,hname,hsup⟩ := h.loaded ha.makes ha.row
  have hgained := (Makes.newModule ha.makes).1.gained
  refine ⟨j,q,hq,?_⟩
  rw [ha.result,h.module?]
  cases ha.placed with
  | appended hj =>
    rw [← hname,hj,hname,hs] at hsup
    contradiction
  | replaced hj hrow hfile =>
    rw [← hname,hj,Option.bind_some,hrow,Option.map_some,hfile,hname,hs] at hsup
    exact absurd (Option.some.inj hsup).symm hf
  | duplicate hj =>
    have hrows : ∀ a ∈ s.kept.modules, s.get? a = p.store.get? a := by
      intro a hmem
      obtain ⟨row,hrow⟩ := h.sane.kept a (hgained.kept ▸ hmem)
      rw [hrow,hgained.old .module a row hrow]
    refine ⟨(List.filterMap_congr hrows).trans (by rw [hgained.kept]; rfl),hgained.kept,?_⟩
    rw [Store.moduleNamed?,← hgained.kept]
    exact (congrArg s.moduleNamed? hname).symm.trans hj

/-- Each rejected module is told of, with the module that is in use under its name. -/
theorem Gives.rejections {p q : Pass} (hs : Sane p.store) (hkept : Enters p.store p.store.kept.modules kept) (hds : Enters p.store ds ns)
    (hg : Gives (ds.forM reportDuplicate) p u q) :
    q.reports = (ns.map fun n => .error (rejection kept n)).reverse++p.reports := by
  induction ds generalizing p ns with
  | nil =>
    obtain rfl := gives_forM_nil.mp hg
    obtain rfl : ns = [] := by simpa [Enters] using hds.symm
    rfl
  | cons i ds ih =>
    obtain ⟨p1,hi,hrest⟩ := gives_forM_cons.mp hg
    cases ns with
    | nil => simp [Enters] at hds
    | cons n ns =>
      obtain ⟨hentry,htail⟩ := List.cons.inj hds
      obtain ⟨m,hm,hpair⟩ := Option.map_eq_some_iff.mp hentry
      obtain ⟨rfl,hname⟩ := Prod.mk.inj hpair
      simp only [reportDuplicate,gives_bind,gives_load,gives_get,gives_orStuck] at hi
      obtain ⟨m',_,⟨hm',rfl⟩,_,_,⟨rfl,rfl⟩,j,_,⟨hj,rfl⟩,first,_,⟨hfirst,rfl⟩,hi⟩ := hi
      cases hm.symm.trans hm'
      have hp1 := gives_reportError.mp hi
      rw [ih (p := p1) (by rwa [hp1]) (by rwa [hp1]) (by rwa [hp1]) hrest,hp1,hname]
      simp [rejection,← hkept.find? hs.shelf,← hname,hj,hfirst]
      exact ⟨rfl,rfl⟩

theorem code_eq_rejects (e : CheckError) : (e.code == 3018) = Diagnostic.rejects (.error e) := by
  obtain ⟨f,_,_⟩ := e
  cases f with
  | deferredSyntax f =>
    cases f with
    | expectedSigil want _ => cases want <;> rfl
    | _ => rfl
  | _ => rfl

/-- A check that is run tells of the rejected modules and of no others. -/
theorem Shelved.told (h : Shelved nodes kept p) (hs : Sited nodes p) (hall : ∀ m ∈ nodes, m.Parsed)
    (hg : Gives (checkAll p.duplicates) p.startPass u q) :
    ((p.checkedBy q).result.errors.filter (·.code == 3018)).Perm ((rejected nodes).map (rejection kept)) := by
  obtain ⟨p1,h1,hq⟩ := hs.startPass.checkAll hall hg
  have htold : q.reports.filter Diagnostic.rejects = ((rejected nodes).map fun n => .error (rejection kept n)).reverse := by
    rw [hq.rejections,Gives.rejections (p := p.startPass) h.sane h.shelf h.duplicates h1,startPass,List.append_nil,List.filter_eq_self]
    simp [rejection,Diagnostic.rejects]
  refine ((List.mergeSort_perm _ _).filter _).trans (.of_eq ?_)
  have herrors : (q.reports.reverse.filterMap Diagnostic.error?).filter (·.code == 3018) =
      (q.reports.filter Diagnostic.rejects).reverse.filterMap Diagnostic.error? := by
    rw [← List.filter_reverse,List.filter_filterMap,List.filterMap_filter]
    refine List.filterMap_congr fun d _ => ?_
    cases d with
    | error e => simp [Diagnostic.error?,code_eq_rejects,Option.filter_some]
    | warning w => rfl
  rw [herrors,htold]
  simp [List.filterMap_map,Function.comp_def,Diagnostic.error?]

theorem Shelved.check (h : Shelved nodes kept p) (hs : Sited nodes p) (hall : ∀ m ∈ nodes, m.Parsed)
    (hc : p.check e st = .ok (c,st')) : Shelved nodes kept c.project ∧
      (c.result.errors.filter (·.code == 3018)).Perm ((rejected nodes).map (rejection kept)) := by
  obtain ⟨hd,r,hr,rfl⟩ | ⟨c',hrun,hf⟩ := check_cases hc
  · exact ⟨h,h.result hd r hr⟩
  · obtain ⟨q,hg,rfl⟩ := runCheck_eq_ok.mp hrun
    have t := hg.checkAll_tour p.startPass_idle
    have htold := h.told hs hall hg
    rw [← hf.errors] at htold
    have hkept : q.store.kept = p.store.kept := t.kept
    refine ⟨⟨hf.store ▸ t.sane h.sane,h.stocked,?_,?_,fun _ r hr => ?_⟩,htold⟩
    · rw [hf.store]
      exact hkept.symm ▸ h.shelf.mono t.extends
    · rw [hf.store,hf.duplicates]
      exact h.duplicates.mono t.extends
    · cases hf.result.symm.trans hr
      exact htold

/-- What a project has of the modules that were added to it. -/
structure Catalogued (nodes : List Notation.Module) (p : Project) : Prop where
  kept : Stocked nodes (p.modules.map (·.node))
  /-- The names lead to the modules in use, and to no others. -/
  byName : ∀ name i, p.store.kept.byName.lookup name = some i ↔
    i ∈ p.store.kept.modules ∧ ∃ m, p.store.get? i = some m ∧ m.node.identifier = name
  named : ∀ name, ((p.module? name).bind (p.store.get? ·)).map (·.node) =
    (p.modules.map (·.node)).find? (·.identifier == asnIdentifier name)
  /-- A module of a name that another file supplied is not put to use, and the one in use is returned. -/
  refuses : ∀ n f, supplier? nodes n.identifier = some f → f ≠ n.file →
    ∃ i q, p.addModule n = .ok (i,q) ∧ q.modules = p.modules ∧ q.store.kept = p.store.kept ∧ p.module? n.name.name = some i

theorem Shelved.catalogued (h : Shelved nodes kept p) : Catalogued nodes p := by
  have hnodes : p.modules.map (·.node) = kept := h.shelf.shelf
  refine ⟨hnodes ▸ h.stocked,fun name i => ?_,fun name => ?_,fun n f => h.refuses⟩
  · rw [h.sane.shelf.named]
    refine and_congr_right fun hi => exists_congr fun m => and_congr_right fun hm => ?_
    have hentry := List.mem_map_of_mem (f := entry p.store) hi
    rw [h.shelf] at hentry
    obtain ⟨n,_,hn⟩ := List.mem_map.mp hentry
    simp only [entry,hm,Option.map_some,Option.some.injEq,Prod.mk.injEq] at hn
    rw [← hn.1,← hn.2]
  · rw [h.module?,h.shelf.find? h.sane.shelf,hnodes]

/-- Whatever modules are read and added and however often they are checked, of each name the project keeps the last module of
the file that first supplied the name. Every check ends and tells once of each module that came from another file, with the
module that is kept. -/
theorem store_keeps_latest (warningsAsErrors : Bool) (l : List Action) (hl : ∀ node ∈ added l, node.Parsed) :
    ∃ p, l.foldlM act (new warningsAsErrors) = .ok p ∧ Catalogued (added l) p ∧
      ∀ {σ : Type} (e : Option (Emitter σ)) (st : σ), ∃ c st', p.check e st = .ok (c,st') ∧
        (c.result.errors.filter (·.code == 3018)).Perm ((rejected (added l)).map (rejection (p.modules.map (·.node)))) := by
  obtain ⟨p,hp,hsteady⟩ := (Steady.new warningsAsErrors).acts l
  obtain ⟨hs,kept,h⟩ := acts_keep (H := fun nodes p => (∀ m ∈ nodes, m.Parsed) → Sited nodes p ∧ ∃ kept, Shelved nodes kept p)
    (fun node h hq hall => by
      obtain ⟨hs,_,h⟩ := h fun m hm => hall m (List.mem_append_left _ hm)
      exact ⟨hs.add (hall node (by simp)) hq,h.add hq⟩)
    (fun h hall => by
      obtain ⟨hs,_,h⟩ := h hall
      exact ⟨⟨hs.store,hs.result⟩,_,h.sane,h.stocked,h.shelf,h.duplicates,nofun⟩)
    (fun h hc hall => by
      obtain ⟨hs,_,h⟩ := h hall
      exact ⟨(hs.check hall hc).1,_,(h.check hs hall hc).1⟩) (fun _ => ⟨.new _,_,.new _⟩) hp hl
  refine ⟨p,hp,h.catalogued,fun e st => ?_⟩
  obtain ⟨c,st',hc,_⟩ := hsteady.check e st
  exact ⟨c,st',hc,(h.shelf.shelf : p.modules.map (·.node) = kept).symm ▸ (h.check hs hl hc).2⟩

theorem store_keeps_latest_repeatedSource : ∃ m n p c, Notation.Module.parse repeatedSource "m.asn" = .ok m ∧
    Notation.Module.parse repeatedSource "n.asn" = .ok n ∧ [.add m,.add n].foldlM act (new false) = .ok p ∧
    Catalogued [m,n] p ∧ p.check (none : Option (Emitter Unit)) () = .ok (c,()) ∧
    (c.result.errors.filter (·.code == 3018)).Perm [rejection (p.modules.map (·.node)) n] := by
  have hrun : (Notation.Module.parse repeatedSource "m.asn").toOption.any (fun m =>
      (Notation.Module.parse repeatedSource "n.asn").toOption.any fun n =>
        m.identifier == n.identifier && m.file != n.file) = true := by
    decide +kernel
  obtain ⟨m,hm,hrun⟩ := Notation.exists_of_toOption_any hrun
  obtain ⟨n,hn,hrun⟩ := Notation.exists_of_toOption_any hrun
  have hrejected : rejected (added [.add m,.add n]) = [n] := by
    change rejected [m,n] = [n]
    simp_all [rejected,supplier?]
  have hparsed : ∀ node ∈ added [.add m,.add n], node.Parsed :=
    List.forall_mem_cons.mpr ⟨⟨_,_,hm⟩,List.forall_mem_singleton.mpr ⟨_,_,hn⟩⟩
  obtain ⟨p,hp,hkept,hcheck⟩ := store_keeps_latest false [.add m,.add n] hparsed
  obtain ⟨c,_,hc,htold⟩ := hcheck (none : Option (Emitter Unit)) ()
  rw [hrejected] at htold
  exact ⟨m,n,p,c,hm,hn,hp,hkept,hc,htold⟩

end InfoObject.Project
