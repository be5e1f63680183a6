import InfoObject.Diagnostic

/-! How many diagnostics of each code were reported. -/
namespace InfoObject

structure Tally where
  errors : List (Nat × Nat)
  warnings : List (Nat × Nat)
deriving DecidableEq, Repr

namespace Tally

def empty : Tally := ⟨[],[]⟩

def count (code : Nat) : List (Nat × Nat) → List (Nat × Nat)
  | [] => [(code,1)]
  | (c,n)::r => if c = code then (c,n+1)::r else (c,n)::count code r

def add (t : Tally) : Diagnostic → Tally
  | .error e => {t with errors := count e.fault.code t.errors}
  | .warning w => {t with warnings := count w.concern.code t.warnings}

def ofReports (ds : List Diagnostic) : Tally := ds.foldl add empty

def sum (counts : List (Nat × Nat)) : Nat := counts.foldr (fun c n => c.2+n) 0

def total (t : Tally) : Nat := sum t.errors+sum t.warnings

theorem sum_count (code : Nat) (counts : List (Nat × Nat)) : sum (count code counts) = sum counts+1 := by
  induction counts with
  | nil => rfl
  | cons c r ih =>
    simp only [count]
    split
    · simp only [sum,List.foldr_cons]
      omega
    · simp only [sum,List.foldr_cons] at ih ⊢
      omega

theorem total_add (t : Tally) (d : Diagnostic) : (t.add d).total = t.total+1 := by
  cases d <;> simp only [add,total,sum_count] <;> omega

end Tally

end InfoObject
