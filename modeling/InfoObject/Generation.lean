/-! Generations of checking. A result that carries the marker of the current generation need not be computed
again. -/
namespace InfoObject

/-- The number of a generation; zero is before all of them. -/
structure Marker where
  value : UInt64
deriving DecidableEq, Repr, Inhabited

namespace Marker

def zero : Marker := ⟨0⟩

def before (m n : Marker) : Bool := m.value < n.value

def isZero (m : Marker) : Bool := m.value == 0

def next (m : Marker) : Marker := ⟨m.value+1⟩

def render (m : Marker) : String := s!"gen{m.value.toNat}"

theorem before_irrefl (m : Marker) : m.before m = false := by
  simp [before,UInt64.lt_irrefl]

end Marker

end InfoObject
