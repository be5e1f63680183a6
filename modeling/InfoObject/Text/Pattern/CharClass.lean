import InfoObject.Text.Letter

/-! Sets of characters: ranges in order, and groups that are known by their names only. -/
namespace InfoObject.Pattern

abbrev Range := Nat × Nat

def maxChar : Nat := 0x10FFFF

def joinRanges : List Range → List Range
  | a::b::r => if b.1 ≤ a.2+1 then joinRanges ((a.1,max a.2 b.2)::r) else a::joinRanges (b::r)
  | r => r
termination_by r => r.length

def orderRanges (r : List Range) : List Range :=
  joinRanges (r.mergeSort fun a b => decide (a.1 < b.1) || (a.1 == b.1 && decide (b.2 ≤ a.2)))

/-- What lies between ranges that are in order, from a number on. -/
def gaps (start : Nat) : List Range → List Range
  | [] => if start ≤ maxChar then [(start,maxChar)] else []
  | (low,high)::r => if start < low then (start,low-1)::gaps (high+1) r else gaps (high+1) r

structure CharClass where
  ranges : List Range := []
  groups : List String := []
deriving DecidableEq

namespace CharClass

def ofRanges (r : List Range) : CharClass := {ranges := orderRanges r}

def ofGroup (name : String) : CharClass := {groups := [name]}

def union (a b : CharClass) : CharClass := ⟨orderRanges (a.ranges++b.ranges),a.groups++b.groups⟩

def name (c : CharClass) : String :=
  " ".intercalate (c.groups++c.ranges.map fun (low,high) => toString low++"-"++toString high)

def negate (c : CharClass) : CharClass :=
  if c.groups.isEmpty then {ranges := gaps 0 c.ranges} else .ofGroup ("^ "++c.name)

def holds (c : CharClass) (n : Nat) : Bool := c.ranges.any fun (low,high) => low ≤ n && n ≤ high

end CharClass

def shifted (source : Range) (shift : Int) (r : Range) : List Range :=
  let low := max r.1 source.1
  let high := min r.2 source.2
  if low ≤ high then [((low+shift).toNat,(high+shift).toNat)] else []

/-- The range with the same letters in the other case. Two letters have a third form: the long s and the sign for kelvin. -/
def foldedRange (r : Range) : List Range :=
  let has (n : Nat) := r.1 ≤ n && n ≤ r.2
  let upper := if r.1 = r.2 ∧ 0x80 ≤ r.1 then (Text.toUpper (Char.ofNat r.1)).toNat else r.1
  [r,(upper,if upper = r.1 then r.2 else upper)]++shifted (0x41,0x5A) 32 r++shifted (0x61,0x7A) (-32) r ++
    (if has 0x53 || has 0x73 then [(0x17F,0x17F)] else [])++(if has 0x4B || has 0x6B then [(0x212A,0x212A)] else []) ++
    (if has 0x17F then [(0x53,0x53),(0x73,0x73)] else [])++(if has 0x212A then [(0x4B,0x4B),(0x6B,0x6B)] else [])

def foldedChar (n : Nat) : Nat :=
  if 0x61 ≤ n ∧ n ≤ 0x7A then n-32
  else if n = 0x17F then 0x53
  else if n = 0x212A then 0x4B
  else min n (Text.toUpper (Char.ofNat n)).toNat

/-- Whether the two are all the forms of one letter, the first of them standing for both. -/
def isCasePair (a b : Nat) : Bool := a < b && foldedChar b == a && !(foldedRange (a,a)).any fun r => r.1 != a && r.1 != b

namespace CharClass

def single? (c : CharClass) : Option Nat :=
  match c.ranges, c.groups with
  | [(low,high)], [] => if low = high then some low else none
  | _, _ => none

def pair? (c : CharClass) : Option Nat :=
  match c.ranges, c.groups with
  | [(a,b),(c,d)], [] => if a = b ∧ c = d ∧ isCasePair a c then some a else none
  | [(a,b)], [] => if a+1 = b ∧ isCasePair a b then some a else none
  | _, _ => none

end CharClass

end InfoObject.Pattern
