import InfoObject.Text.Pattern.CharClass

/-! The parts of an expression, and what of them decides whether it is too large: how high it is, how many steps a
matcher would take for it, and how often its innermost parts are repeated. -/
namespace InfoObject.Pattern

structure Flags where
  ignoreCase : Bool := false
  perLine : Bool := false
  dotAll : Bool := false
  isLazy : Bool := false
deriving DecidableEq

inductive Leaf where
  | empty
  | never
  | literal (text : Array Nat) (flags : Flags)
  | charClass (c : CharClass)
  | anyButNewline
  | any
  | place
deriving DecidableEq

inductive Wrapping where
  | capture
  | star
  | plus
  | quest
  | times (low : Nat) (high : Option Nat) (isLazy : Bool)
deriving DecidableEq

structure Measure where
  height : Nat := 1
  size : Nat := 1
  /-- The greatest product of repetition counts that are one inside the other. -/
  factor : Nat := 1
deriving DecidableEq

inductive Part where
  | leaf (l : Leaf)
  | within (w : Wrapping) (part : Part) (measure : Measure)
  | sequence (parts : List Part) (measure : Measure)
  | choice (parts : List Part) (measure : Measure)

def Leaf.measure : Leaf → Measure
  | literal text _ => {size := max 1 text.size}
  | _ => {}

def Leaf.numbers : Leaf → Nat
  | literal text _ => text.size
  | charClass c => 2*c.ranges.length
  | _ => 0

/-- Single characters and sets of them, the more complex the greater. -/
def Leaf.rank? : Leaf → Option Nat
  | literal text _ => if text.size = 1 then some 0 else none
  | charClass _ => some 1
  | anyButNewline => some 2
  | any => some 3
  | _ => none

def Leaf.isClass (l : Leaf) : Bool := l.rank?.isSome

namespace Part

def measure : Part → Measure
  | leaf l => l.measure
  | within _ _ m => m
  | sequence _ m => m
  | choice _ m => m

def numbers : Part → Nat
  | leaf l => l.numbers
  | _ => 0

def class? : Part → Option Leaf
  | leaf l => if l.isClass then some l else none
  | _ => none

def literal (text : Array Nat) (flags : Flags) : Part := leaf (.literal text flags)

def greatest (f : Measure → Nat) (parts : List Part) : Nat := parts.foldl (fun n p => max n (f p.measure)) 0

def measureOf (parts : List Part) (joints : Nat) : Measure where
  height := 1+greatest Measure.height parts
  size := max 1 (parts.foldl (fun n p => n+p.measure.size) joints)
  factor := max 1 (greatest Measure.factor parts)

def sequenceOf (parts : List Part) : Part := sequence parts (measureOf parts 0)

def choiceOf (parts : List Part) : Part := choice parts (measureOf parts (parts.length-1))

end Part

def Wrapping.size (w : Wrapping) (size : Nat) : Nat :=
  match w with
  | capture => 2+size
  | star => 2+size
  | plus => 1+size
  | quest => 1+size
  | times 0 none _ => 2+size
  | times low none _ => 1+low*size
  | times low (some high) _ => max 1 (high*size+(high-low))

def Wrapping.factor (w : Wrapping) (factor : Nat) : Nat :=
  match w with
  | times _ (some 0) _ => 1
  | times low high _ => max 1 (high.getD low)*factor
  | _ => factor

def Part.wrap (w : Wrapping) (p : Part) : Part :=
  .within w p ⟨p.measure.height+1,w.size p.measure.size,w.factor p.measure.factor⟩

end InfoObject.Pattern
