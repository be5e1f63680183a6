import InfoObject.Proofs.Lifetime

/-! Checkpoints of a chain. Links and cycles are two tracks that grow at their end, and each has marks of its own. -/
namespace InfoObject.Chain

def after (c : Chain) (os : List Op) : Chain := (c.run os).2

@[simp] theorem after_nil (c : Chain) : c.after [] = c := rfl

@[simp] theorem after_cons (c : Chain) (o : Op) (os : List Op) : c.after (o::os) = (c.act o).2.after os := rfl

@[simp] theorem after_append (c : Chain) (os ps : List Op) : c.after (os++ps) = (c.after os).after ps := by
  induction os generalizing c with
  | nil => rfl
  | cons o os ih => exact ih (c.act o).2

/-! Tracks -/

/-- What operations do to one of the lists of a chain and to its marks, the latest mark first. -/
structure Track (α : Type) where
  items : Chain → List α
  marks : Chain → List Nat
  push : Op
  pop : Op
  undo : Chain → Option Chain
  clears : Op → Prop
  act_push : ∀ c : Chain, items (c.act push).2 = items c ∧ marks (c.act push).2 = (items c).length::marks c
  act_pop : ∀ c : Chain, (c.act pop).2 = (undo c).getD c
  undo_none : ∀ c, undo c = none ↔ marks c = []
  undo_some : ∀ c d, undo c = some d → ∃ n, marks c = n::marks d ∧ items d = (items c).take n
  act_clears : ∀ (c : Chain) o, clears o → items (c.act o).2 = [] ∧ marks (c.act o).2 = []
  act_other : ∀ (c : Chain) o, o ≠ push → o ≠ pop → ¬ clears o → items c <+: items (c.act o).2 ∧ marks (c.act o).2 = marks c

theorem reportAll_eq (c : Chain) : ∃ r, c.reportAll.2 = {c with reported := r, cycles := [], errorMarks := []} := by
  obtain ⟨more,hmore⟩ := exists_tells c c.cycles
  exact ⟨_,by simp only [reportAll,hmore.rest]; rfl⟩

theorem add_eq (c : Chain) (l : Link) : (∃ x ∈ c.links, x.key = l.key) ∧ (c.add l).1 = false ∧
      (c.add l).2 = {c with cycles := c.cycles++[c.links.dropWhile (·.key != l.key)]} ∨
    (∀ x ∈ c.links, x.key ≠ l.key) ∧ (c.add l).1 = true ∧
      (c.add l).2 = {c with links := c.links++[l]} := by
  unfold add
  split
  · rename_i h
    obtain ⟨x,hx,hk⟩ := List.any_eq_true.mp h
    exact .inl ⟨⟨x,hx,eq_of_beq hk⟩,rfl,rfl⟩
  · rename_i h
    refine .inr ⟨fun x hx hk => h ?_,rfl,rfl⟩
    exact List.any_eq_true.mpr ⟨x,hx,beq_iff_eq.mpr hk⟩

def linkTrack : Track Link where
  items := links
  marks := marks
  push := .mark
  pop := .rewind
  undo := rewind
  clears o := o = .reset
  act_push _ := ⟨rfl,rfl⟩
  act_pop _ := rfl
  undo_none c := by
    unfold rewind
    split <;> simp_all
  undo_some c d h := by
    unfold rewind at h
    split at h
    · contradiction
    · obtain rfl := Option.some.inj h
      exact ⟨_,‹_›,rfl⟩
  act_clears c o h := by
    subst h
    exact ⟨rfl,rfl⟩
  act_other c o hpush hpop hclear := by
    cases o with
    | add l =>
      obtain ⟨_,_,h⟩ | ⟨_,_,h⟩ := c.add_eq l <;> simp [act,h]
    | rewindErrors =>
      cases h : c.errorMarks <;> simp [act,Chain.rewindErrors,h]
    | report =>
      obtain ⟨r,h⟩ := c.reportAll_eq
      simp [act,h]
    | markErrors => exact ⟨List.prefix_rfl,rfl⟩
    | mark | rewind | reset => contradiction

def cycleTrack : Track (List Link) where
  items := cycles
  marks := errorMarks
  push := .markErrors
  pop := .rewindErrors
  undo := rewindErrors
  clears o := o = .report ∨ o = .reset
  act_push _ := ⟨rfl,rfl⟩
  act_pop _ := rfl
  undo_none c := by
    unfold rewindErrors
    split <;> simp_all
  undo_some c d h := by
    unfold rewindErrors at h
    split at h
    · contradiction
    · obtain rfl := Option.some.inj h
      exact ⟨_,‹_›,rfl⟩
  act_clears c o h := by
    obtain rfl | rfl := h
    · obtain ⟨r,h⟩ := c.reportAll_eq
      simp [act,h]
    · exact ⟨rfl,rfl⟩
  act_other c o hpush hpop hclear := by
    cases o with
    | add l =>
      obtain ⟨_,_,h⟩ | ⟨_,_,h⟩ := c.add_eq l <;> simp [act,h]
    | rewind =>
      cases h : c.marks <;> simp [act,Chain.rewind,h]
    | mark => exact ⟨List.prefix_rfl,rfl⟩
    | markErrors | rewindErrors => contradiction
    | report | reset => simp at hclear

namespace Track
variable {α : Type} {T : Track α} {c d : Chain} {o : Op} {os ps ms before : List Op}

/-- Operations that set as many marks as they go back to, each before it is gone back to, and that clear nothing. -/
inductive Nested (T : Track α) : List Op → Prop
  | nil : Nested T []
  | other {o : Op} {os : List Op} (hpush : o ≠ T.push) (hpop : o ≠ T.pop) (hclear : ¬ T.clears o) (h : Nested T os) :
      Nested T (o::os)
  | pair {os ps : List Op} (h : Nested T os) (k : Nested T ps) : Nested T (T.push::(os++T.pop::ps))

theorem Nested.append (h : T.Nested os) (k : T.Nested ps) : T.Nested (os++ps) := by
  induction h with
  | nil => exact k
  | other hpush hpop hclear _ ih => exact .other hpush hpop hclear ih
  | @pair os qs h _ _ ih =>
    rw [List.cons_append,List.append_assoc,List.cons_append]
    exact .pair h ih

theorem undo_of_prefix (hmarks : T.marks d = (T.items c).length::T.marks c) (hitems : T.items c <+: T.items d) :
    ∃ e, T.undo d = some e ∧ T.items e = T.items c ∧ T.marks e = T.marks c := by
  cases h : T.undo d with
  | none =>
    rw [T.undo_none,hmarks] at h
    contradiction
  | some e =>
    obtain ⟨n,hn,he⟩ := T.undo_some d e h
    obtain ⟨rfl,hm⟩ := List.cons.inj (hmarks.symm.trans hn)
    exact ⟨e,rfl,he.trans (List.prefix_iff_eq_take.mp hitems).symm,hm.symm⟩

/-- Whatever comes between a mark and going back to it, the marks before it are kept and so are all items. -/
theorem Nested.run (h : T.Nested os) (c : Chain) : T.items c <+: T.items (c.after os) ∧ T.marks (c.after os) = T.marks c := by
  induction h generalizing c with
  | nil => exact ⟨List.prefix_rfl,rfl⟩
  | @other o os hpush hpop hclear _ ih =>
    obtain ⟨hi,hm⟩ := T.act_other c o hpush hpop hclear
    obtain ⟨hi',hm'⟩ := ih (c.act o).2
    exact ⟨hi.trans hi',hm'.trans hm⟩
  | @pair os ps _ _ ih ih' =>
    obtain ⟨hi,hm⟩ := T.act_push c
    obtain ⟨hi',hm'⟩ := ih (c.act T.push).2
    obtain ⟨e,he,hitems,hmarks⟩ := undo_of_prefix (hm'.trans hm) (hi ▸ hi')
    obtain ⟨hlast,hlastm⟩ := ih' e
    have hafter : c.after (T.push::(os++T.pop::ps)) = e.after ps := by
      rw [after_cons,after_append,after_cons,T.act_pop,he]
      rfl
    rw [hafter]
    exact ⟨hitems ▸ hlast,hlastm.trans hmarks⟩

/-- The latest mark that is left after some operations was set after the given ones. -/
def Open (T : Track α) (os before : List Op) : Prop := ∃ ms, os = before++T.push::ms ∧ T.Nested ms

theorem Open.restored (h : T.Open os before) (c : Chain) :
    ∃ d, T.undo (c.after os) = some d ∧ T.items d = T.items (c.after before) := by
  obtain ⟨ms,rfl,hms⟩ := h
  obtain ⟨hi,hm⟩ := T.act_push (c.after before)
  obtain ⟨hi',hm'⟩ := hms.run ((c.after before).act T.push).2
  rw [after_append,after_cons]
  obtain ⟨d,hd,hitems,_⟩ := undo_of_prefix (hm'.trans hm) (hi ▸ hi')
  exact ⟨d,hd,hitems⟩

/-- So many marks are left after some operations, one before the other. -/
inductive Opens (T : Track α) : List Op → Nat → Prop
  | none (os : List Op) : Opens T os 0
  | some {before ms : List Op} {n : Nat} (h : Opens T before n) (hms : T.Nested ms) : Opens T (before++T.push::ms) (n+1)

theorem Opens.other (h : T.Opens os n) (hpush : o ≠ T.push) (hpop : o ≠ T.pop) (hclear : ¬ T.clears o) :
    T.Opens (os++[o]) n := by
  cases h with
  | none => exact .none _
  | some h hms =>
    rw [List.append_assoc,List.cons_append]
    exact .some h (hms.append (.other hpush hpop hclear .nil))

theorem Opens.pop (h : T.Opens os (n+1)) : T.Opens (os++[T.pop]) n := by
  cases h with
  | some h hms =>
    cases h with
    | none => exact .none _
    | @some first qs _ h hqs =>
      -- what stood between the two marks goes on with a closed pair
      rw [List.append_assoc,List.append_assoc,List.cons_append,List.cons_append]
      exact .some h (hqs.append (.pair hms .nil))

theorem opens_after (hnew : T.marks c = []) (os : List Op) : T.Opens os (T.marks (c.after os)).length := by
  induction os using List.reverseRecOn with
  | nil =>
    rw [after_nil,hnew]
    exact .none _
  | append_singleton os o ih =>
    rw [after_append,after_cons,after_nil]
    by_cases hpush : o = T.push
    · rw [hpush,(T.act_push _).2]
      exact .some ih .nil
    by_cases hpop : o = T.pop
    · rw [hpop,T.act_pop]
      cases h : T.undo (c.after os) with
      | none =>
        rw [Option.getD_none,(T.undo_none _).mp h]
        exact .none _
      | some d =>
        obtain ⟨n,hn,_⟩ := T.undo_some _ d h
        rw [hn] at ih
        exact ih.pop
    by_cases hclear : T.clears o
    · rw [(T.act_clears _ o hclear).2]
      exact .none _
    · rw [(T.act_other _ o hpush hpop hclear).2]
      exact ih.other hpush hpop hclear

/-- No mark lies beyond the end, nor beyond a later mark. -/
structure Ordered (T : Track α) (c : Chain) : Prop where
  marks : (T.marks c).Pairwise (· ≥ ·)
  bounded : ∀ n ∈ T.marks c, n ≤ (T.items c).length

theorem Ordered.act (h : T.Ordered c) (o : Op) : T.Ordered (c.act o).2 := by
  by_cases hpush : o = T.push
  · obtain ⟨hi,hm⟩ := T.act_push c
    rw [← hpush] at hi hm
    constructor
    · rw [hm]
      exact List.pairwise_cons.mpr ⟨h.bounded,h.marks⟩
    · rw [hi,hm]
      exact List.forall_mem_cons.mpr ⟨Nat.le_refl _,h.bounded⟩
  by_cases hpop : o = T.pop
  · rw [hpop,T.act_pop]
    cases hd : T.undo c with
    | none => exact h
    | some d =>
      obtain ⟨n,hn,hi⟩ := T.undo_some c d hd
      obtain ⟨hm,hb⟩ := h
      rw [hn] at hm hb
      obtain ⟨hle,hm⟩ := List.pairwise_cons.mp hm
      refine ⟨hm,fun k hk => ?_⟩
      have hn' := hb n List.mem_cons_self
      have hk' := hle k hk
      rw [Option.getD_some,hi,List.length_take]
      omega
  by_cases hclear : T.clears o
  · obtain ⟨_,hm⟩ := T.act_clears c o hclear
    exact ⟨hm ▸ .nil,by rw [hm]; exact nofun⟩
  · obtain ⟨hi,hm⟩ := T.act_other c o hpush hpop hclear
    refine ⟨hm ▸ h.marks,fun n hn => ?_⟩
    rw [hm] at hn
    exact Nat.le_trans (h.bounded n hn) hi.length_le

theorem Ordered.after (h : T.Ordered c) (os : List Op) : T.Ordered (c.after os) := by
  induction os generalizing c with
  | nil => exact h
  | cons o os ih => exact ih (h.act o)

/-- What marks are good for: going back is refused where no mark is left, and else gives the items that were there when the
mark was set. -/
structure Kept (T : Track α) (c : Chain) (os : List Op) : Prop where
  ordered : T.Ordered (c.after os)
  refused : T.undo (c.after os) = none ↔ ∀ before, ¬ T.Open os before
  restored : ∀ before, T.Open os before → ∃ d, T.undo (c.after os) = some d ∧ T.items d = T.items (c.after before)

theorem kept_after (hnew : T.marks c = []) (os : List Op) : T.Kept c os := by
  refine ⟨Ordered.after ⟨hnew ▸ .nil,by rw [hnew]; exact nofun⟩ os,⟨fun h before hopen => ?_,fun h => ?_⟩,
    fun before hopen => hopen.restored c⟩
  · obtain ⟨d,hd,_⟩ := hopen.restored c
    rw [h] at hd
    contradiction
  · refine (T.undo_none _).mpr ?_
    have hopens := opens_after hnew os
    cases hm : T.marks (c.after os) with
    | nil => rfl
    | cons n ns =>
      rw [hm] at hopens
      cases hopens with
      | some _ hms => exact absurd ⟨_,rfl,hms⟩ (h _)

end Track

/-! Distinct links -/

section Links
variable {c : Chain} {l : Link} {ls : List Link}

theorem act_nodup (h : (c.links.map Link.key).Nodup) (o : Op) : ((c.act o).2.links.map Link.key).Nodup := by
  cases o with
  | add l =>
    obtain ⟨_,_,he⟩ | ⟨hne,_,he⟩ := c.add_eq l
    · rw [act,he]
      exact h
    · rw [act,he,List.map_append,List.nodup_append]
      refine ⟨h,by simp,fun k hk k' hk' => ?_⟩
      obtain ⟨x,hx,rfl⟩ := List.mem_map.mp hk
      rw [List.map_singleton,List.mem_singleton] at hk'
      exact hk' ▸ hne x hx
  | rewind =>
    rw [act]
    cases hd : c.rewind with
    | none => exact h
    | some d =>
      obtain ⟨n,_,hi⟩ := linkTrack.undo_some c d hd
      exact h.sublist ((hi ▸ List.take_sublist n c.links).map _)
  | report =>
    obtain ⟨r,he⟩ := c.reportAll_eq
    rw [act,he]
    exact h
  | rewindErrors =>
    have he : (c.act .rewindErrors).2.links = c.links := by cases he : c.errorMarks <;> simp [act,rewindErrors,he]
    rw [he]
    exact h
  | mark | markErrors => exact h
  | reset => exact .nil

theorem after_nodup (h : (c.links.map Link.key).Nodup) (os : List Op) : ((c.after os).links.map Link.key).Nodup := by
  induction os generalizing c with
  | nil => exact h
  | cons o os ih => exact ih (act_nodup h o)

theorem dropWhile_closes (h : ∃ x ∈ ls, x.key = l.key) :
    ∃ x z, ls.dropWhile (·.key != l.key) = x::z ∧ x.key = l.key ∧ x::z <:+ ls := by
  cases hz : ls.dropWhile (·.key != l.key) with
  | nil =>
    obtain ⟨x,hx,hk⟩ := h
    simpa [hk] using List.dropWhile_eq_nil_iff.mp hz x hx
  | cons x z =>
    have hx := List.head_dropWhile_not (fun x : Link => x.key != l.key) (show ls.dropWhile _ ≠ [] by simp [hz])
    simp only [hz,List.head_cons,bne_eq_false_iff_eq] at hx
    exact ⟨x,z,rfl,hx,hz ▸ List.dropWhile_suffix _⟩

/-- No link is on the chain twice: one that is there is refused, and closes a cycle that begins with it. -/
structure Guarded (c : Chain) : Prop where
  distinct : (c.links.map Link.key).Nodup
  refused : ∀ l, (c.add l).1 = false ↔ ∃ x ∈ c.links, x.key = l.key
  closes : ∀ l, (c.add l).1 = false → ∃ x z, x.key = l.key ∧ x::z <:+ c.links ∧
    (c.add l).2 = {c with cycles := c.cycles++[x::z]}

theorem guarded_of_nodup (h : (c.links.map Link.key).Nodup) : c.Guarded := by
  refine ⟨h,fun l => ?_,fun l hl => ?_⟩ <;> obtain ⟨hmem,hfalse,he⟩ | ⟨hne,htrue,_⟩ := c.add_eq l
  · exact iff_of_true hfalse hmem
  · rw [htrue]
    exact iff_of_false nofun fun ⟨x,hx,hk⟩ => hne x hx hk
  · obtain ⟨x,z,hz,hk,hsuffix⟩ := dropWhile_closes hmem
    exact ⟨x,z,hk,hsuffix,hz ▸ he⟩
  · rw [htrue] at hl
    contradiction

end Links

/-- Whatever is done to a new chain, its links are guarded against repetition, and the marks of its links and of its cycles
are kept. -/
theorem checkpoints_nested (description : String) (os : List Op) : ((new description).after os).Guarded ∧
    linkTrack.Kept (new description) os ∧ cycleTrack.Kept (new description) os :=
  ⟨guarded_of_nodup (after_nodup (c := new description) .nil os),Track.kept_after rfl os,Track.kept_after rfl os⟩

end InfoObject.Chain
