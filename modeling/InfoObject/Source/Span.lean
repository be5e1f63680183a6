/-! Byte ranges of a source file. Offsets are 32-bit words; sources stay below half of that range, so within
one source no sum wraps. -/
namespace InfoObject

structure Span where
  start : UInt32
  length : UInt32
deriving DecidableEq, Repr, Inhabited

def Span.stop (s : Span) : UInt32 := s.start+s.length

def Span.through (first last : Span) : Span := ⟨first.start,last.stop-first.start⟩

def Span.render (s : Span) : String := s!"[{s.start.toNat}, {s.stop.toNat})"

structure Location where
  file : String
  span : Span
deriving DecidableEq, Repr, Inhabited

def Location.render (l : Location) : String := s!"{l.file}@{l.span.start.toNat}"

end InfoObject
