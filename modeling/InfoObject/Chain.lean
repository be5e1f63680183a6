import InfoObject.Diagnostic

/-! The chain of entities under resolution. An entity that is met again while it is on the chain closes a
cycle; the cycle is kept until it is reported, and reported once whatever its entry. -/
namespace InfoObject

/-- An entity under resolution. Its key tells it from all others, whatever its name. -/
structure Link where
  key : Nat
  name : String
  location : Location
deriving DecidableEq, Repr

structure Chain where
  description : String
  links : List Link
  marks : List Nat
  cycles : List (List Link)
  errorMarks : List Nat
  reported : List (List Nat)
deriving Repr

namespace Chain

def new (description : String) : Chain := ⟨description,[],[],[],[],[]⟩

def render (c : Chain) : String :=
  c.description++": ["++String.intercalate ", " (c.links.map Link.name)++"]"

def holds (c : Chain) (l : Link) : Bool := c.links.any (·.key == l.key)

def add (c : Chain) (l : Link) : Bool × Chain :=
  if c.holds l then
    (false,{c with cycles := c.cycles++[c.links.dropWhile (·.key != l.key)]})
  else (true,{c with links := c.links++[l]})

def mark (c : Chain) : Chain := {c with marks := c.links.length::c.marks}

def rewind (c : Chain) : Option Chain :=
  match c.marks with
  | [] => none
  | n::marks => some {c with links := c.links.take n, marks}

def markErrors (c : Chain) : Chain := {c with errorMarks := c.cycles.length::c.errorMarks}

def rewindErrors (c : Chain) : Option Chain :=
  match c.errorMarks with
  | [] => none
  | n::errorMarks => some {c with cycles := c.cycles.take n, errorMarks}

def reset (c : Chain) : Chain := {c with links := [], marks := [], cycles := [], errorMarks := []}

end Chain

/-! Rotations -/

namespace Cycle

def names (cycle : List Link) : List String := cycle.map Link.name
def keys (cycle : List Link) : List Nat := cycle.map Link.key

/-- Names first; the key of the whole sequence decides where they are the same. -/
def compareBy {K : Type} [Ord K] (key : List Link → K) (a b : List Link) : Ordering :=
  (compare (names a) (names b)).then (compare (key a) (key b))

def rotations (cycle : List Link) : List (List Link) :=
  (List.range cycle.length).map fun n => cycle.drop n++cycle.take n

def leastBy {K : Type} [Ord K] (key : List Link → K) (a b : List Link) : List Link :=
  if compareBy key b a = .lt then b else a

/-- The least of all rotations, which is the same from whichever link the cycle is entered. -/
def canonicalBy {K : Type} [Ord K] (key : List Link → K) (cycle : List Link) : List Link :=
  (rotations cycle).foldl (leastBy key) cycle

def canonical (cycle : List Link) : List Link := canonicalBy keys cycle

def report? (cycle : List Link) : Option CheckError :=
  match cycle with
  | [] => none
  | first::_ =>
    some ⟨.circularReference (names cycle++[first.name]),first.location,none⟩

end Cycle

namespace Chain

def reportCycle (c : Chain) (cycle : List Link) : List CheckError × Chain :=
  let cycle := Cycle.canonical cycle
  if Cycle.keys cycle ∈ c.reported then ([],c)
  else ((Cycle.report? cycle).toList,{c with reported := Cycle.keys cycle::c.reported})

def reportCycles (c : Chain) : List (List Link) → List CheckError × Chain
  | [] => ([],c)
  | cycle::rest =>
    let (es,c) := c.reportCycle cycle
    let (fs,c) := c.reportCycles rest
    (es++fs,c)

def reportAll (c : Chain) : List CheckError × Chain :=
  let (es,c) := c.reportCycles c.cycles
  (es,{c with cycles := [], errorMarks := []})

end Chain

end InfoObject
