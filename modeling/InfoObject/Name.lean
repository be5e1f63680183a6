/-! Names and how they are spelled. Two languages share them: one writes hyphens where the other writes low
lines. A registry keeps each name once, in the spelling it was first seen in. -/
namespace InfoObject

inductive Dialect where
  | asn
  | ttcn
  | other (number : Nat)
deriving DecidableEq, Repr, Inhabited

def Dialect.ofNumber : Nat → Dialect
  | 0 => asn
  | 1 => ttcn
  | n => other n

def Dialect.render : Dialect → String
  | asn => "ASN.1"
  | ttcn => "TTCN-3"
  | other n => s!"Dialect({n})"

def replaceChar (a b : Char) (s : String) : String :=
  String.ofList (s.toList.map fun c => if c = a then b else c)

/-- The spelling that all dialects share: low lines for hyphens. -/
def Dialect.canonical : Dialect → String → String
  | asn, name => replaceChar '-' '_' name
  | _, name => name

/-- A registered name. Within one registry, identifiers with equal names are equal. -/
structure Identifier where
  name : String
  origin : Dialect
deriving DecidableEq, Repr, Inhabited

def Identifier.asnName (i : Identifier) : String := replaceChar '_' '-' i.name

def Identifier.display (i : Identifier) : String :=
  if i.origin = .asn then i.asnName else i.name

def Identifier.isUpper (i : Identifier) : Bool :=
  match i.name.toList with
  | c::_ => 'A' ≤ c && c ≤ 'Z'
  | [] => false

/-- Upper case throughout, as the names of classes are written. -/
def Identifier.isAllUpper (i : Identifier) : Bool :=
  i.isUpper && i.name.toList.all fun c => !('a' ≤ c && c ≤ 'z')

/-- The names seen so far, the latest first. -/
structure Registry where
  entries : List Identifier
deriving Repr, Inhabited

def Registry.empty : Registry := ⟨[]⟩

def Registry.size (r : Registry) : Nat := r.entries.length

def Registry.find? (r : Registry) (canonical : String) : Option Identifier :=
  r.entries.find? (·.name == canonical)

def Registry.lookup (r : Registry) (name : String) (d : Dialect) : Option Identifier :=
  r.find? (d.canonical name)

def Registry.intern (r : Registry) (name : String) (d : Dialect) : Identifier × Registry :=
  match r.lookup name d with
  | some i => (i,r)
  | none =>
    let i : Identifier := ⟨d.canonical name,d⟩
    (i,⟨i::r.entries⟩)

theorem Registry.lookup_intern (r : Registry) (name : String) (d : Dialect) :
    (r.intern name d).2.lookup name d = some (r.intern name d).1 := by
  simp only [intern]
  split
  · assumption
  · simp [lookup,find?]

end InfoObject
