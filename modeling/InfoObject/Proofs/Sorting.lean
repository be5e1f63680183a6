import InfoObject.Project
import Mathlib.Data.List.Basic

/-! The order in which a result lists what was reported: by file, then by place, and as reported where both are
the same. Main statement: both lists of a result are in it. -/
namespace InfoObject

/-- What diagnostics are put in order by. -/
def Location.rank (l : Location) : String × UInt32 := (l.file,l.span.start)

namespace Project

theorem notAfter_iff : notAfter a b = true ↔ a.file < b.file ∨ a.file = b.file ∧ a.span.start ≤ b.span.start := by
  simp [notAfter]

theorem notAfter_trans (hab : notAfter a b = true) (hbc : notAfter b c = true) : notAfter a c = true := by
  rw [notAfter_iff] at *
  rcases hab with hab | ⟨hab,hle⟩ <;> rcases hbc with hbc | ⟨hbc,hle'⟩
  · exact .inl (String.lt_trans hab hbc)
  · exact .inl (hbc ▸ hab)
  · exact .inl (hab ▸ hbc)
  · exact .inr ⟨hab.trans hbc,UInt32.le_trans hle hle'⟩

theorem notAfter_total (a b : Location) : (notAfter a b || notAfter b a) = true := by
  simp only [Bool.or_eq_true,notAfter_iff]
  by_cases hab : a.file < b.file
  · exact .inl (.inl hab)
  by_cases hba : b.file < a.file
  · exact .inr (.inl hba)
  have hfile : a.file = b.file := String.le_antisymm hba hab
  rcases UInt32.le_total a.span.start b.span.start with h | h
  · exact .inl (.inr ⟨hfile,h⟩)
  · exact .inr (.inr ⟨hfile.symm,h⟩)

theorem notAfter_of_rank_eq (h : a.rank = b.rank) : notAfter a b = true := by
  obtain ⟨hfile,hstart⟩ := Prod.mk.inj h
  exact notAfter_iff.mpr (.inr ⟨hfile,UInt32.le_of_eq hstart⟩)

/-- A list in the order of places, in which what has one place stands in the order of another list. -/
structure StableSort {α : Type} (place : α → Location) (l sorted : List α) : Prop where
  perm : sorted.Perm l
  ordered : sorted.Pairwise fun a b => notAfter (place a) (place b)
  stable : ∀ r, sorted.filter (fun a => (place a).rank = r) = l.filter fun a => (place a).rank = r

theorem stableSort_mergeSort (place : α → Location) (l : List α) :
    StableSort place l (l.mergeSort fun a b => notAfter (place a) (place b)) := by
  have htrans : ∀ a b c : α, notAfter (place a) (place b) = true → notAfter (place b) (place c) = true →
      notAfter (place a) (place c) = true := fun _ _ _ => notAfter_trans
  have htotal : ∀ a b : α, (notAfter (place a) (place b) || notAfter (place b) (place a)) = true :=
    fun _ _ => notAfter_total _ _
  have hperm := List.mergeSort_perm l fun a b => notAfter (place a) (place b)
  refine ⟨hperm,List.pairwise_mergeSort htrans htotal l,fun r => ?_⟩
  have heq : (l.filter fun a => (place a).rank = r).Pairwise fun a b => notAfter (place a) (place b) := by
    refine List.Pairwise.imp_of_mem (R := fun _ _ => True) (fun ha hb _ => notAfter_of_rank_eq ?_)
      (List.pairwise_of_forall fun _ _ => trivial)
    exact (by simpa using List.of_mem_filter ha : _ = r).trans (by simpa using List.of_mem_filter hb : _ = r).symm
  have hsub := (List.sublist_mergeSort htrans htotal heq List.filter_sublist).filter fun a => (place a).rank = r
  rw [List.filter_filter] at hsub
  simp only [Bool.and_self] at hsub
  exact (hsub.eq_of_length (hperm.filter _).length_eq.symm).symm

theorem stableSort_sortErrors (es : List CheckError) : StableSort CheckError.location es (sortErrors es) :=
  stableSort_mergeSort _ _

theorem stableSort_sortWarnings (ws : List Warning) : StableSort Warning.location ws (sortWarnings ws) :=
  stableSort_mergeSort _ _

end Project

end InfoObject
