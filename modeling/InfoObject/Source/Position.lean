import InfoObject.Text.Utf8

/-! Lines and columns of byte offsets, both counted from one. A line ends after its line feed. -/
namespace InfoObject

structure Position where
  line : Nat
  column : Nat
deriving DecidableEq, Repr

namespace Position

def advance (p : Position) (b : UInt8) : Position :=
  if b = 0x0A then ⟨p.line+1,1⟩ else ⟨p.line,p.column+1⟩

/-- The position of an offset, columns counting bytes. An offset past the end stands for the end. -/
def ofOffset (src : List UInt8) (offset : Nat) : Position :=
  (src.take offset).foldl advance ⟨1,1⟩

def lastLine (s : List UInt8) : List UInt8 := (s.reverse.takeWhile (· ≠ 0x0A)).reverse

def ofOffsetInCharacters (src : List UInt8) (offset : Nat) : Position :=
  let before := src.take offset
  ⟨before.count 0x0A+1,Utf8.count (lastLine before)+1⟩

end Position

end InfoObject
