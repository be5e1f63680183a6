import InfoObject.Chain
import Mathlib.Data.List.Rotate
import Mathlib.Data.String.Basic

/-! The canonical form of a cycle, which is the same from whichever link the cycle is entered, and what is told of a list of
cycles by it. -/
namespace InfoObject

namespace Cycle

section Rotations
variable {K : Type} [Ord K] {key : List Link → K} {c d cycle : List Link}

theorem leastBy_eq (key : List Link → K) (a b : List Link) : leastBy key a b = a ∨ leastBy key a b = b := by
  unfold leastBy
  split
  · exact .inr rfl
  · exact .inl rfl

theorem foldl_leastBy_mem (key : List Link → K) (ls : List (List Link)) (a : List Link) : ls.foldl (leastBy key) a ∈ a::ls := by
  induction ls generalizing a with
  | nil => simp
  | cons b ls ih =>
    have hmem := ih (leastBy key a b)
    rcases List.mem_cons.mp hmem with he | hm
    · rw [List.foldl_cons,he]
      rcases leastBy_eq key a b with h | h <;> simp [h]
    · simp [hm]

theorem canonicalBy_isRotated (c : List Link) : c ~r canonicalBy key c := by
  rcases List.mem_cons.mp (foldl_leastBy_mem key (rotations c) c) with h | h
  · rw [canonicalBy,h]
  · obtain ⟨n,hn,hrotation⟩ := List.mem_map.mp h
    have hle : n ≤ c.length := (List.mem_range.mp hn).le
    exact ⟨n,by rw [List.rotate_eq_drop_append_take hle,hrotation,canonicalBy]⟩

theorem canonical_isRotated (c : List Link) : c ~r canonical c := canonicalBy_isRotated c

theorem canonical_ne_nil (h : cycle ≠ []) : canonical cycle ≠ [] := fun he =>
  h (List.isRotated_nil_iff.mp (he ▸ canonical_isRotated cycle))

/-! The order of rotations -/

theorem compareBy_eq : compareBy key = compareLex (compareOn names) (compareOn key) := rfl

variable [Std.TransOrd K]

instance : Std.TransCmp (compareBy key) := by
  rw [compareBy_eq]
  infer_instance

theorem compare_lt {a b : List String} : compare a b = .lt ↔ a < b := by
  rw [List.compare_eq_compareLex]
  induction a generalizing b with
  | nil => cases b <;> simp [List.compareLex]
  | cons x a ih =>
    cases b with
    | nil => simp [List.compareLex]
    | cons y b =>
      rw [List.cons_lt_cons_iff,List.compareLex_cons_cons,Ordering.then_eq_lt,ih,Std.LawfulEqCmp.compare_eq_iff_eq]
      exact or_congr_left compare_lt_iff_lt

theorem compareBy_self (a : List Link) : (compareBy key a a).isLE := by
  have h : compareBy key a a = .eq := Std.ReflCmp.compare_self
  rw [h]
  rfl

theorem leastBy_le (a b : List Link) :
    (compareBy key (leastBy key a b) a).isLE ∧ (compareBy key (leastBy key a b) b).isLE := by
  unfold leastBy
  split
  · rename_i h
    exact ⟨by rw [h]; rfl,compareBy_self b⟩
  · rename_i h
    refine ⟨compareBy_self a,?_⟩
    have hswap : compareBy key a b = (compareBy key b a).swap := Std.OrientedCmp.eq_swap
    cases hc : compareBy key b a with
    | lt => exact absurd hc h
    | eq | gt => rw [hswap,hc]; rfl

theorem foldl_leastBy_le (ls : List (List Link)) (a : List Link) :
    ∀ b ∈ a::ls, (compareBy key (ls.foldl (leastBy key) a) b).isLE := by
  induction ls generalizing a with
  | nil =>
    intro b hb
    rw [List.mem_singleton.mp hb]
    exact compareBy_self a
  | cons c ls ih =>
    intro b hb
    have hmin := ih (leastBy key a c) (leastBy key a c) List.mem_cons_self
    rcases List.mem_cons.mp hb with rfl | hb
    · exact Std.TransCmp.isLE_trans hmin (leastBy_le b c).1
    · rcases List.mem_cons.mp hb with rfl | hb
      · exact Std.TransCmp.isLE_trans hmin (leastBy_le a b).2
      · exact ih (leastBy key a c) b (List.mem_cons_of_mem _ hb)

theorem canonicalBy_le (h : c ~r d) : (compareBy key (canonicalBy key c) d).isLE := by
  refine foldl_leastBy_le (rotations c) c d ?_
  obtain ⟨n,hn,rfl⟩ := List.isRotated_iff_mod.mp h
  rcases Nat.lt_or_eq_of_le hn with hlt | rfl
  · refine List.mem_cons_of_mem _ (List.mem_map.mpr ⟨n,List.mem_range.mpr hlt,?_⟩)
    rw [List.rotate_eq_drop_append_take hn]
  · rw [List.rotate_length]
    exact List.mem_cons_self

theorem names_canonicalBy_le (h : c ~r d) : names (canonicalBy key c) ≤ names d := by
  refine le_of_not_gt fun hlt => ?_
  have hswap : compareBy key (canonicalBy key c) d = (compareBy key d (canonicalBy key c)).swap := Std.OrientedCmp.eq_swap
  have hle : (compareBy key (canonicalBy key c) d).isLE := canonicalBy_le h
  rw [hswap,compareBy,compare_lt.mpr hlt] at hle
  simp at hle

theorem names_canonical_le (h : c ~r d) : names (canonical c) ≤ names d := names_canonicalBy_le h

theorem key_canonicalBy [Std.LawfulEqOrd K] (h : c ~r d) : key (canonicalBy key c) = key (canonicalBy key d) := by
  have hcd : compareBy key (canonicalBy key c) (canonicalBy key d) = .eq :=
    Std.OrientedCmp.isLE_antisymm (canonicalBy_le (h.trans (canonicalBy_isRotated d)))
      (canonicalBy_le (h.symm.trans (canonicalBy_isRotated c)))
  exact Std.LawfulEqCmp.eq_of_compare (Ordering.then_eq_eq.mp hcd).2

/-- Rotations of one cycle have one canonical form. -/
theorem keys_canonical (h : c ~r d) : keys (canonical c) = keys (canonical d) := key_canonicalBy h

/-- `f` finds one rotation of a cycle, by its names the least, from whichever link the cycle is entered. -/
structure Normal (f : List Link → List Link) (c : List Link) : Prop where
  rotated : c ~r f c
  least : ∀ d, c ~r d → names (f c) ≤ names d
  same : ∀ d, c ~r d → f d = f c

theorem normal_canonicalBy [Std.LawfulEqOrd K] (hkey : Set.InjOn key {d | c ~r d}) : Normal (canonicalBy key) c where
  rotated := canonicalBy_isRotated c
  least _ := names_canonicalBy_le
  same d h := hkey (h.trans (canonicalBy_isRotated d)) (canonicalBy_isRotated c) (key_canonicalBy h.symm)

theorem eq_of_keys {L : Link → Prop} (hL : ∀ l l', L l → L l' → l.key = l'.key → l = l') (hz : ∀ l ∈ z, L l)
    (hw : ∀ l ∈ w, L l) (h : keys z = keys w) : z = w := by
  induction z generalizing w with
  | nil => exact (List.map_eq_nil_iff.mp h.symm).symm
  | cons l z ih =>
    cases w with
    | nil => contradiction
    | cons m w =>
      obtain ⟨hk,hks⟩ := List.cons.inj h
      rw [hL l m (hz l List.mem_cons_self) (hw m List.mem_cons_self) hk,
        ih (fun x hx => hz x (List.mem_cons_of_mem l hx)) (fun x hx => hw x (List.mem_cons_of_mem m hx)) hks]

theorem keys_injOn (h : (keys c).Nodup) : Set.InjOn keys {d | c ~r d} := fun _ hd _ he =>
  eq_of_keys (L := (· ∈ c)) (fun _ _ hl hm => List.inj_on_of_nodup_map h hl hm) (fun _ => hd.mem_iff.mpr) fun _ =>
    he.mem_iff.mpr

end Rotations

/-- Whatever tells the rotations of a cycle apart, the least of them is the cycle's canonical form: it has the least names of
all, and every rotation has the same one. The keys of the links are enough, if no two are the same; their names may be. -/
theorem rotations_normalized (cycle : List Link) :
    (∀ (K : Type) [Ord K] [Std.TransOrd K] [Std.LawfulEqOrd K] (key : List Link → K),
      Set.InjOn key {d | cycle ~r d} → Normal (canonicalBy key) cycle) ∧
    ((keys cycle).Nodup → Normal canonical cycle) :=
  ⟨fun _ _ _ _ _ => normal_canonicalBy,fun h => normal_canonicalBy (keys_injOn h)⟩

/-- Four links of two names, so that two rotations have the least names. -/
def alternating : List Link :=
  [(12,"B"),(3,"A"),(4,"B"),(10,"A")].map fun (key,name) => ⟨key,name,⟨"m.asn",⟨0,1⟩⟩⟩

/-- The keys written one after the other, which are in another order than as numbers. -/
def keyText (c : List Link) : String := String.join (c.map fun l => toString l.key++"/")

theorem rotations_normalized_alternating : Normal (canonicalBy keyText) alternating ∧ Normal canonical alternating ∧
    keys (canonicalBy keyText alternating) = [10,12,3,4] ∧ keys (canonical alternating) = [3,4,10,12] := by
  have hkey : Set.InjOn keyText {d | alternating ~r d} := by
    have hapart : ∀ d ∈ (List.range 5).map alternating.rotate, ∀ e ∈ (List.range 5).map alternating.rotate,
        keyText d = keyText e → d = e := by
      decide +kernel
    intro d hd e he
    exact hapart d (List.isRotated_iff_mem_map_range.mp hd) e (List.isRotated_iff_mem_map_range.mp he)
  obtain ⟨hby,hkeys⟩ := rotations_normalized alternating
  exact ⟨hby String keyText hkey,hkeys (by decide),by decide +kernel,by decide +kernel⟩

end Cycle

namespace Chain
variable {c : Chain} {l : List (List Link)}

theorem reportCycle_silent (hc : cycle ≠ []) (h : (c.reportCycle cycle).1 = []) : (c.reportCycle cycle).2 = c ∧
    c.reported ≠ [] := by
  unfold reportCycle at h ⊢
  by_cases hr : Cycle.keys (Cycle.canonical cycle) ∈ c.reported
  · simp only [hr,if_true]
    exact ⟨trivial,List.ne_nil_of_mem hr⟩
  · simp only [hr,if_false] at h
    cases hcan : Cycle.canonical cycle with
    | nil => exact absurd hcan (Cycle.canonical_ne_nil hc)
    | cons x xs => simp [hcan,Cycle.report?] at h

theorem reportCycles_silent (hl : ∀ x ∈ l, x ≠ []) (h : (c.reportCycles l).1 = []) :
    (c.reportCycles l).2 = c ∧ (c.reported = [] → l = []) := by
  induction l generalizing c with
  | nil => exact ⟨rfl,fun _ => rfl⟩
  | cons x l ih =>
    simp only [reportCycles,List.append_eq_nil_iff] at h ⊢
    obtain ⟨hx,hrep⟩ := reportCycle_silent (hl x (List.mem_cons_self ..)) h.1
    rw [hx] at h ⊢
    exact ⟨(ih (fun y hy => hl y (List.mem_cons_of_mem _ hy)) h.2).1,fun he => absurd he hrep⟩

/-! What is told of a list of cycles -/

/-- The least rotations of `told` are told of now, each for the first time. -/
structure Tells (c : Chain) (l told : List (List Link)) : Prop where
  errors : (c.reportCycles l).1 = told.filterMap Cycle.report?
  rest : (c.reportCycles l).2 = {c with reported := (told.map Cycle.keys).reverse++c.reported}
  origin : ∀ x ∈ told, ∃ y ∈ l, x = Cycle.canonical y
  all : ∀ y ∈ l, Cycle.keys (Cycle.canonical y) ∈ (told.map Cycle.keys).reverse++c.reported
  fresh : c.reported.Nodup → ((told.map Cycle.keys).reverse++c.reported).Nodup

theorem exists_tells (c : Chain) (l : List (List Link)) : ∃ told, Tells c l told := by
  induction l generalizing c with
  | nil => exact ⟨[],rfl,rfl,nofun,nofun,id⟩
  | cons y l ih =>
    by_cases hy : Cycle.keys (Cycle.canonical y) ∈ c.reported
    · have hone : c.reportCycle y = ([],c) := by simp only [reportCycle,hy,if_true]
      obtain ⟨told,h⟩ := ih c
      have hmany : c.reportCycles (y::l) = ([]++(c.reportCycles l).1,(c.reportCycles l).2) := by
        simp only [reportCycles,hone]
      refine ⟨told,by rw [hmany]; exact h.errors,by rw [hmany]; exact h.rest,fun x hx => ?_,fun z hz => ?_,h.fresh⟩
      · obtain ⟨z,hz,hxz⟩ := h.origin x hx
        exact ⟨z,List.mem_cons_of_mem _ hz,hxz⟩
      · rcases List.mem_cons.mp hz with rfl | hz
        · exact List.mem_append_right _ hy
        · exact h.all z hz
    · obtain ⟨d,hd⟩ : ∃ d : Chain, d = {c with reported := Cycle.keys (Cycle.canonical y)::c.reported} := ⟨_,rfl⟩
      have hone : c.reportCycle y = ((Cycle.report? (Cycle.canonical y)).toList,d) := by
        simp only [reportCycle,hy,if_false,hd]
      obtain ⟨told,h⟩ := ih d
      have hmany : c.reportCycles (y::l) =
          ((Cycle.report? (Cycle.canonical y)).toList++(d.reportCycles l).1,(d.reportCycles l).2) := by
        simp only [reportCycles,hone]
      have hreported : ((Cycle.canonical y::told).map Cycle.keys).reverse++c.reported =
          (told.map Cycle.keys).reverse++d.reported := by
        simp [hd]
      refine ⟨Cycle.canonical y::told,?_,?_,fun x hx => ?_,fun z hz => ?_,fun hn => ?_⟩
      · rw [hmany,h.errors]
        cases hr : Cycle.report? (Cycle.canonical y) <;> simp [hr]
      · rw [hmany,hreported]
        exact h.rest.trans (by rw [hd])
      · rcases List.mem_cons.mp hx with rfl | hx
        · exact ⟨y,List.mem_cons_self,rfl⟩
        · obtain ⟨z,hz,hxz⟩ := h.origin x hx
          exact ⟨z,List.mem_cons_of_mem _ hz,hxz⟩
      · rw [hreported]
        rcases List.mem_cons.mp hz with rfl | hz
        · exact List.mem_append_right _ (hd ▸ List.mem_cons_self)
        · exact h.all z hz
      · rw [hreported]
        exact h.fresh (hd ▸ List.nodup_cons.mpr ⟨hy,hn⟩)

end Chain

end InfoObject
