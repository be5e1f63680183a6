import InfoObject.Proofs.Loading
import InfoObject.Proofs.WellFormed

/-! The projects that come about by adding modules and checking them, and what all of them have. -/
namespace InfoObject.Check
open Model

theorem Bounded.empty (m : Marker) : Bounded m Store.empty := fun _ i a ha => absurd ha (Store.get?_empty i a)

theorem Bounded.of_gained (h : Bounded m s) (g : Gained s s') : Bounded m s' := by
  intro t i a ha
  rcases g.new t i a ha with ha' | ⟨_,hnew⟩
  · exact h t i a ha'
  · exact New.notNewer hnew

theorem Bounded.keep (h : Bounded m s) (l : Shelf) : Bounded m {s with kept := l} := by
  intro t i a ha
  exact h t i a (by cases t <;> exact ha)

theorem Marker.toNat_next {m : Marker} (h : m.value.toNat+1 < 2^64) : m.next.value.toNat = m.value.toNat+1 := by
  simp only [Marker.next,UInt64.toNat_add]
  exact Nat.mod_eq_of_lt h

theorem Marker.before_next {m : Marker} (h : m.value.toNat+1 < 2^64) : m.before m.next = true := by
  simp only [Marker.before,UInt64.lt_iff_toNat_lt,toNat_next h,decide_eq_true_eq]
  exact Nat.lt_succ_self _

theorem Marker.not_before_trans {m n k : Marker} (h : m.before n = true) (hk : m.before k = false) : n.before k = false := by
  simp only [Marker.before,decide_eq_true_eq,decide_eq_false_iff_not,UInt64.lt_iff_toNat_lt] at h hk ⊢
  omega

theorem NotNewer.later (h : m.before n = true) {a : Row t} (ha : NotNewer m a) : NotNewer n a := by
  cases t with
  | module | typeRef | valueRef => exact fun x hx => Marker.not_before_trans h (ha x hx)
  | classDef | objectDef => exact Marker.not_before_trans h ha
  | classRef | objectRef | setDef | setRef =>
    exact ⟨Marker.not_before_trans h ha.1,fun x hx => Marker.not_before_trans h (ha.2 x hx)⟩

theorem Bounded.later (h : m.before n = true) (hb : Bounded m s) : Bounded n s :=
  fun t i a ha => (hb t i a ha).later h

end InfoObject.Check

namespace InfoObject.Project
open Model Check

/-- A project that can come about, with the number of times it was checked. -/
inductive Reached : Nat → Project → Prop
  | new (warningsAsErrors : Bool) : Reached 0 (.new warningsAsErrors)
  | add {n : Nat} {p q : Project} (h : Reached n p) {node : Notation.Module} {i : Id .module}
      (hq : p.addModule node = .ok (i,q)) : Reached n q
  | invalidate {n : Nat} {p : Project} (h : Reached n p) : Reached n p.invalidate
  | check {n : Nat} {p : Project} (h : Reached n p) {σ : Type} {e : Option (Emitter σ)} {st st' : σ} {c : Checked}
      (hc : p.check e st = .ok (c,st')) : Reached (n+1) c.project

/-! Adding modules -/

/-- The modules in use and the duplicates, after the module `m` was loaded from a file, with the module that is in use
then. -/
inductive Placed (s : Store) (i : Id .module) (m : Module) (file : String) (ds : List (Id .module)) :
    Shelf → List (Id .module) → Id .module → Prop
  | appended (h : s.moduleNamed? m.name = none) : Placed s i m file ds (s.kept.append m.name i) ds i
  | replaced {j : Id .module} {row : Module} {l : Shelf} (h : s.moduleNamed? m.name = some j) (hj : s.get? j = some row)
      (hf : row.file = file) (hl : s.kept.replace? m.name j i = some l) : Placed s i m file ds l ds i
  | duplicate {j : Id .module} {row : Module} (h : s.moduleNamed? m.name = some j) (hj : s.get? j = some row)
      (hf : row.file ≠ file) : Placed s i m file ds s.kept (ds++[i]) j

/-- How a module was added to a project. -/
structure Adds (p : Project) (node : Notation.Module) (k : Id .module) (q : Project) (i : Id .module) (s : Store) (m : Module)
    (l : Shelf) (ds : List (Id .module)) : Prop where
  makes : Makes (newModule node) p.store i s
  row : s.get? i = some m
  placed : Placed s i m node.file p.duplicates l ds k
  result : q = {p with store := {s with kept := l}, dirty := true, duplicates := ds}

theorem row_eq_ok : Project.row s i = .ok m ↔ s.get? i = some m := by
  unfold Project.row
  cases s.get? i <;> simp [pure,Except.pure,throw,throwThe,MonadExceptOf.throw]

theorem addModule_adds {p q : Project} (h : p.addModule node = .ok (k,q)) : ∃ i s m l ds, Adds p node k q i s m l ds := by
  unfold addModule at h
  generalize hrun : (newModule node).run p.store = x at h
  obtain ⟨i,s⟩ := x
  cases hm : row s i with
  | error e => simp [hm,bind,Except.bind] at h
  | ok m =>
    simp only [hm,bind,Except.bind] at h
    have hrow := row_eq_ok.mp hm
    split at h
    · obtain ⟨rfl,rfl⟩ := Prod.mk.inj (Except.ok.inj h)
      exact ⟨i,s,m,_,_,hrun,hrow,.appended ‹_›,rfl⟩
    · rename_i j hj
      cases hjr : row s j with
      | error e => simp [hjr] at h
      | ok row =>
        have hjrow := row_eq_ok.mp hjr
        simp only [hjr] at h
        split at h
        · split at h
          · obtain ⟨rfl,rfl⟩ := Prod.mk.inj (Except.ok.inj h)
            exact ⟨i,s,m,_,_,hrun,hrow,.replaced hj hjrow ‹_› ‹_›,rfl⟩
          · cases h
        · obtain ⟨rfl,rfl⟩ := Prod.mk.inj (Except.ok.inj h)
          exact ⟨i,s,m,s.kept,_,hrun,hrow,.duplicate hj hjrow ‹_›,rfl⟩

section Shelves
variable {s : Store} {l l' : Shelf} {i j k : Id .module} {m : Module} {n name : Identifier}

theorem lookup_enter (l : Shelf) (n : Identifier) (i : Id .module) (name : Identifier) :
    (l.enter n i).lookup name = if name = n then some i else l.byName.lookup name := by
  unfold Shelf.enter
  rw [List.lookup_cons]
  by_cases h : name = n
  · simp [h]
  · have hne : (name == n) = false := by simpa using h
    simp only [hne,h,if_false]
    induction l.byName with
    | nil => rfl
    | cons x xs ih =>
      by_cases hx : x.1 = n
      · rw [List.filter_cons_of_neg (by simpa using hx),ih,List.lookup_cons,hx,hne]
      · rw [List.filter_cons_of_pos (by simpa using hx),List.lookup_cons,List.lookup_cons,ih]

/-- The later module stands where the earlier one stood. -/
theorem replace?_eq_some (hl : l.replace? n j i = some l') :
    ∃ before after, l.modules = before++j::after ∧ l' = ⟨before++i::after,l.enter n i⟩ := by
  obtain ⟨a,ha,rfl⟩ := Option.map_eq_some_iff.mp hl
  obtain ⟨hlt,hj,-⟩ := List.idxOf?_eq_some_iff.mp ha
  refine ⟨l.modules.take a,l.modules.drop (a+1),?_,?_⟩
  · rw [← hj,List.cons_getElem_drop_succ,List.take_append_drop]
  · rw [List.set_eq_take_append_cons_drop,if_pos hlt]

/-- A module takes the place of the one that had its name, or the end. -/
theorem arranged_enter {ms : List (Id .module)} (h : Arranged s s.kept) (hm : s.get? i = some m) (hd : ms.Nodup)
    (hms : ∀ k, k ∈ ms ↔ k = i ∨ k ∈ s.kept ∧ s.moduleNamed? m.name ≠ some k) : Arranged s ⟨ms,s.kept.enter m.name i⟩ := by
  refine ⟨fun k hk => ?_,hd,fun name k => ?_⟩
  · obtain rfl | ⟨hk,-⟩ := (hms k).mp hk
    · exact ⟨m,hm⟩
    · exact h.rows k hk
  · change (s.kept.enter m.name i).lookup name = some k ↔ k ∈ ms ∧ _
    rw [lookup_enter,hms]
    by_cases hname : name = m.name
    · subst hname
      rw [if_pos rfl]
      constructor
      · rintro ⟨⟩
        exact ⟨.inl rfl,m,hm,rfl⟩
      · rintro ⟨rfl | ⟨hk,hother⟩,hrow⟩
        · rfl
        · exact absurd ((h.named m.name k).mpr ⟨hk,hrow⟩) hother
    · rw [if_neg hname,h.named]
      constructor
      · rintro ⟨hk,row,hrow,rfl⟩
        refine ⟨.inr ⟨hk,fun hnamed => hname ?_⟩,row,hrow,rfl⟩
        obtain ⟨-,row',hrow',heq⟩ := (h.named m.name k).mp hnamed
        obtain rfl := Option.some.inj (hrow.symm.trans hrow')
        exact heq
      · rintro ⟨rfl | ⟨hk,-⟩,row,hrow,rfl⟩
        · obtain rfl := Option.some.inj (hm.symm.trans hrow)
          exact absurd rfl hname
        · exact ⟨hk,row,hrow,rfl⟩

theorem Placed.kept (h : Placed s i m file ds l ds' k) (hj : j ∈ l) : j ∈ s.kept ∨ j = i := by
  cases h with
  | appended => exact (List.mem_append.mp hj).imp_right List.mem_singleton.mp
  | replaced _ _ _ hl =>
    obtain ⟨before,after,hmods,rfl⟩ := replace?_eq_some hl
    change j ∈ s.kept.modules ∨ j = i
    rw [hmods]
    rcases List.mem_append.mp hj with hj | hj
    · exact .inl (List.mem_append_left _ hj)
    · exact (List.mem_cons.mp hj).symm.imp_left fun hj => List.mem_append_right _ (List.mem_cons_of_mem _ hj)
  | duplicate => exact .inl hj

theorem Placed.arranged (h : Placed s i m file ds l ds' k) (hs : Arranged s s.kept) (hm : s.get? i = some m)
    (hi : i ∉ s.kept) : Arranged s l := by
  cases h with
  | appended hnone =>
    refine arranged_enter hs hm ?_ fun k => ?_
    · exact hs.distinct.append (List.nodup_singleton i) (List.disjoint_singleton.mpr hi)
    · rw [hnone,List.mem_append,List.mem_singleton]
      exact ⟨fun h => h.symm.imp_right fun h => ⟨h,nofun⟩,fun h => (h.imp_right And.left).symm⟩
  | replaced hnamed _ _ hl =>
    obtain ⟨before,after,hmods,rfl⟩ := replace?_eq_some hl
    have hmem : ∀ k, k ∈ s.kept ↔ k ∈ before++_::after := fun k => by rw [← hmods]; rfl
    have hd := hmods ▸ hs.distinct
    refine arranged_enter hs hm ?_ fun k => ?_
    · have hi := mt (hmem i).mpr hi
      grind
    · rw [hnamed,hmem]
      grind
  | duplicate => exact hs

end Shelves

/-- Adding a module comes to an end. -/
theorem addModule_ok {p : Project} (hs : Sane p.store) (node : Notation.Module) : ∃ k q, p.addModule node = .ok (k,q) := by
  unfold addModule
  generalize hrun : (newModule node).run p.store = x
  obtain ⟨i,s⟩ := x
  have hload := (Makes.newModule hrun).1
  have hsane := hload.sane hs
  obtain ⟨m,hm,-⟩ := hload.row
  have hrow := row_eq_ok.mpr hm
  simp only [hrow,bind,Except.bind]
  cases hn : s.moduleNamed? m.name with
  | none => exact ⟨_,_,rfl⟩
  | some j =>
    obtain ⟨hj,row,hjrow,-⟩ := (hsane.shelf.named m.name j).mp hn
    obtain ⟨a,ha⟩ := Option.isSome_iff_exists.mp (List.isSome_idxOf?.mpr hj)
    have hjrow := row_eq_ok.mpr hjrow
    simp only [hjrow,Shelf.replace?,ha,Option.map_some]
    split <;> exact ⟨_,_,rfl⟩

/-! What every project has -/

/-- The tables of a project that was checked some number of times. -/
structure Sound (n : Nat) (p : Project) : Prop where
  sane : Sane p.store
  bounded : Bounded p.marker p.store
  marker : p.marker.value.toNat ≤ n

section Sound
variable {n : Nat} {p q : Project}

theorem sane_addModule (h : Sane p.store) (hq : p.addModule node = .ok (k,q)) : Sane q.store := by
  obtain ⟨i,s,m,l,ds,ha⟩ := addModule_adds hq
  have hload := (Makes.newModule ha.makes).1
  have hsane := hload.sane h
  have hnew : i ∉ s.kept := fun hi => by
    obtain ⟨m,hm⟩ := h.kept i (hload.gained.kept ▸ hi)
    simp [hload.fresh] at hm
  rw [ha.result]
  exact hsane.keep (ha.placed.arranged hsane.shelf ha.row hnew)

theorem Sound.add (h : Sound n p) (hq : p.addModule node = .ok (k,q)) : Sound n q := by
  have hsane := sane_addModule h.sane hq
  obtain ⟨i,s,m,l,ds,ha⟩ := addModule_adds hq
  rw [ha.result] at hsane ⊢
  exact ⟨hsane,(h.bounded.of_gained (Makes.newModule ha.makes).1.gained).keep l,h.marker⟩

end Sound

/-! Checks -/

/-- What a check gives when its pass ends. -/
def checkedBy (p : Project) (q : Pass) : Checked :=
  let result : CheckResult :=
    { marker := q.marker, errors := sortErrors (q.reports.reverse.filterMap Diagnostic.error?),
      warnings := sortWarnings (q.reports.reverse.filterMap Diagnostic.warning?), emitError := none,
      warningsAsErrors := p.warningsAsErrors}
  ⟨{p with store := q.store, dirty := false, marker := q.marker, result := some result},result,q.reports.reverse⟩

theorem runCheck_eq_ok {p : Project} : p.runCheck = .ok c ↔ ∃ q, Gives (checkAll p.duplicates) p.startPass () q ∧ c =
    p.checkedBy q := by
  unfold runCheck Gives
  simp only [StateT.run]
  cases h : checkAll p.duplicates p.startPass with
  | error e => simp [bind,Except.bind]
  | ok x =>
    obtain ⟨u,q⟩ := x
    constructor
    · intro hc
      exact ⟨q,rfl,(Except.ok.inj hc).symm⟩
    · rintro ⟨q',hq,rfl⟩
      obtain rfl : q = q' := congrArg Prod.snd (Except.ok.inj hq)
      rfl

theorem startPass_idle (p : Project) : Idle p.startPass := ⟨rfl,rfl,fun h => absurd rfl h⟩

/-- What a project keeps of a check, whatever became of its definitions. -/
structure Follows (c : Checked) (p : Project) (r : CheckResult) : Prop where
  store : p.store = c.project.store
  duplicates : p.duplicates = c.project.duplicates
  current : p.dirty = false
  generation : p.marker = c.project.marker
  result : p.result = some r
  marker : r.marker = c.result.marker
  errors : r.errors = c.result.errors
  warnings : r.warnings = c.result.warnings

def Current (n : Nat) (p : Project) (r : CheckResult) : Prop :=
  ∃ k p' c, k < n ∧ Reached k p' ∧ p'.runCheck = .ok c ∧ Follows c p r

theorem follows_runCheck {p : Project} (h : p.runCheck = .ok c) : Follows c c.project c.result := by
  obtain ⟨q,_,rfl⟩ := runCheck_eq_ok.mp h
  exact ⟨rfl,rfl,rfl,rfl,rfl,rfl,rfl,rfl⟩

theorem follows_emitChecked {p : Project} (h : p.runCheck = .ok c) (e : Emitter σ)
    (st : σ) : Follows c (emitChecked e c st).1.project (emitChecked e c st).1.result := by
  have hc := follows_runCheck h
  unfold emitChecked
  split
  · exact hc
  · exact ⟨rfl,rfl,hc.current,rfl,rfl,rfl,rfl,rfl⟩

section Current
variable {n : Nat} {p : Project} {σ : Type} {e : Option (Emitter σ)} {st st' : σ} {c : Checked}

theorem check_cases (h : p.check e st = .ok (c,st')) : (p.dirty = false ∧ ∃ r, p.result = some r ∧ c = ⟨p,r,[]⟩) ∨
      ∃ c', p.runCheck = .ok c' ∧ Follows c' c.project c.result := by
  unfold check at h
  split at h
  · rename_i r hd hr
    exact .inl ⟨hd,r,hr,(congrArg Prod.fst (Except.ok.inj h)).symm⟩
  · right
    cases hrun : p.runCheck with
    | error x => simp [hrun,bind,Except.bind] at h
    | ok c' =>
      simp only [hrun,bind,Except.bind] at h
      refine ⟨c',rfl,?_⟩
      cases e with
      | none =>
        obtain rfl : c' = c := congrArg Prod.fst (Except.ok.inj h)
        exact follows_runCheck hrun
      | some e =>
        obtain rfl : (emitChecked e c' st).1 = c := congrArg Prod.fst (Except.ok.inj h)
        exact follows_emitChecked hrun e st

theorem Reached.of_check (h : Reached n p) (hlast : p.dirty = false → ∃ r, Current n p r)
    (hc : p.check e st = .ok (c,st')) : Current (n+1) c.project c.result := by
  rcases check_cases hc with ⟨hd,r,hr,rfl⟩ | ⟨c',hrun,hf⟩
  · obtain ⟨r',k,p',c',hk,hp',hrun,hf⟩ := hlast hd
    cases hr.symm.trans hf.result
    exact ⟨k,p',c',Nat.lt_succ_of_lt hk,hp',hrun,hf⟩
  · exact ⟨n,p,c',Nat.lt_succ_self n,h,hrun,hf⟩

theorem Reached.last (h : Reached n p) : p.dirty = false → ∃ r, Current n p r := by
  induction h with
  | new | invalidate => nofun
  | add _ hq =>
    obtain ⟨_,_,_,_,_,ha⟩ := addModule_adds hq
    rw [ha.result]
    nofun
  | check h hc ih => exact fun _ => ⟨_,h.of_check ih hc⟩

theorem Reached.current (h : Reached n p) (hc : p.check e st = .ok (c,st')) : Current (n+1) c.project c.result :=
  h.of_check h.last hc

end Current

theorem Sound.runCheck (h : Sound n p) (hn : n+1 < 2^64) (hc : p.runCheck = .ok c) : Sound (n+1) c.project := by
  obtain ⟨q,hq,rfl⟩ := runCheck_eq_ok.mp hc
  have hm : p.marker.value.toNat+1 < 2^64 := Nat.lt_of_le_of_lt (Nat.succ_le_succ h.marker) hn
  have t := hq.checkAll_tour p.startPass_idle
  have hmarker : q.marker = p.marker.next := t.marker
  refine ⟨t.sane h.sane,?_,?_⟩
  · show Bounded q.marker q.store
    rw [hmarker]
    exact t.bounded (h.bounded.later (Marker.before_next hm))
  · show q.marker.value.toNat ≤ n+1
    rw [hmarker,Marker.toNat_next hm]
    exact Nat.succ_le_succ h.marker

theorem Sound.mono (h : Sound n p) (hk : n ≤ k) : Sound k p :=
  ⟨h.sane,h.bounded,h.marker.trans hk⟩

theorem Follows.sound (h : Follows c p r) (hs : Sound n c.project) : Sound n p :=
  ⟨h.store ▸ hs.sane,h.store ▸ h.generation ▸ hs.bounded,h.generation ▸ hs.marker⟩

theorem Reached.sound (h : Reached n p) (hn : n < 2^64) : Sound n p := by
  induction h with
  | new => exact ⟨.empty,.empty _,Nat.le_refl _⟩
  | add _ hq ih => exact (ih hn).add hq
  | invalidate _ ih => exact ⟨(ih hn).sane,(ih hn).bounded,(ih hn).marker⟩
  | check _ hc ih =>
    have hs := ih (Nat.lt_of_succ_lt hn)
    rcases check_cases hc with ⟨_,r,_,rfl⟩ | ⟨c',hrun,hf⟩
    · exact hs.mono (Nat.le_succ _)
    · exact hf.sound (hs.runCheck hn hrun)

theorem Reached.sane (h : Reached n p) : Sane p.store := by
  induction h with
  | new => exact .empty
  | add _ hq ih => exact sane_addModule ih hq
  | invalidate _ ih => exact ih
  | check _ hc ih =>
    rcases check_cases hc with ⟨_,r,_,rfl⟩ | ⟨c',hrun,hf⟩
    · exact ih
    · obtain ⟨q,hq,rfl⟩ := runCheck_eq_ok.mp hrun
      rw [hf.store]
      exact (hq.checkAll_tour (startPass_idle _)).sane ih

/-! Checks that find nothing wrong -/

theorem errors_eq_nil {p : Project} (h : (p.checkedBy q).result.errors = []) : ¬ q.hasError := by
  rintro ⟨e,he⟩
  have hmem : e ∈ (p.checkedBy q).result.errors := by
    refine List.mem_mergeSort.mpr (List.mem_filterMap.mpr ⟨.error e,List.mem_reverse.mpr he,rfl⟩)
  rw [h] at hmem
  simp at hmem

/-- A check without errors comes from a pass in which everything was done. -/
theorem Reached.finished (h : Reached n p) (hn : n+1 < 2^64) (hc : p.check e st = .ok (c,st'))
    (hclean : c.result.errors = []) : ∃ q : Pass, Finished q ∧ q.store = c.project.store ∧ q.marker = c.result.marker := by
  obtain ⟨k,p',c',hk,hp',hrun,hf⟩ := h.current hc
  have hkn : k+1 < 2^64 := Nat.lt_of_le_of_lt hk hn
  have hs := hp'.sound (Nat.lt_of_succ_lt hkn)
  obtain ⟨q,hq,rfl⟩ := runCheck_eq_ok.mp hrun
  have hm : p'.marker.before p'.marker.next = true :=
    Marker.before_next (Nat.lt_of_le_of_lt (Nat.succ_le_succ hs.marker) hkn)
  refine ⟨q,?_,hf.store.symm,hf.marker.symm⟩
  exact hq.checkAll_finished p'.startPass_idle hs.sane hs.bounded hm rfl (errors_eq_nil (hf.errors ▸ hclean))

end InfoObject.Project
