import InfoObject.Text.Hex

/-! Number literals of Go: which texts are, and how a file spells them. -/
namespace InfoObject.GoSource

inductive Radix where
  | decimal
  /-- Octal by a leading zero alone. -/
  | zero
  | binary
  | octal
  | hex
deriving DecidableEq

def radix : List Char → Radix × Nat
  | '0'::c::_ =>
    match c.toLower with
    | 'x' => (.hex,2)
    | 'o' => (.octal,2)
    | 'b' => (.binary,2)
    | _ => (.zero,0)
  | ['0'] => (.zero,0)
  | _ => (.decimal,0)

def Radix.isDigit (r : Radix) (c : Char) : Bool := if r = .hex then Text.isHexDigit c else c.isDigit

def Radix.base : Radix → Nat
  | decimal => 10
  | zero => 8
  | binary => 2
  | octal => 8
  | hex => 16

def hasDigit (cs : List Char) : Bool := cs.any (· != '_')

/-- What may stand before and behind a low line: digits, of which the letters for the radix count as one. -/
inductive Neighbour where
  | digit
  | line
  | other
deriving DecidableEq

def isSeparated (r : Radix) (before : Neighbour) : List Char → Bool
  | [] => before != .line
  | c::cs =>
    if c = '_' then before == .digit && isSeparated r .line cs
    else if c.isDigit || (r == .hex && Text.isHexDigit c) then isSeparated r .digit cs
    else before != .line && isSeparated r .other cs

def exponent? (r : Radix) (cs : List Char) : Option (List Char × List Char) :=
  match cs with
  | [] => some ([],[])
  | c::cs =>
    let l := c.toLower
    if l = 'e' ∨ l = 'p' then
      if (l == 'e' && (r == .decimal || r == .zero)) || (l == 'p' && r == .hex) then
        let (sign,cs) := match cs with
          | '+'::cs => (['+'],cs)
          | '-'::cs => (['-'],cs)
          | cs => ([],cs)
        let (digits,rest) := cs.span fun c => c.isDigit || c == '_'
        if hasDigit digits then some (c::sign++digits,rest) else none
      else none
    else some ([],c::cs)

def number? (cs : List Char) : Option (List Char × List Char) := do
  let (r,width) := radix cs
  let isPart := fun c => r.isDigit c || c == '_'
  let (whole,rest) := (cs.drop width).span isPart
  let (fraction,rest) := match rest with
    | '.'::rest => let (digits,rest) := rest.span isPart; ('.'::digits,rest)
    | rest => ([],rest)
  if !fraction.isEmpty && (r == .binary || r == .octal) then none
  if !hasDigit whole && !hasDigit (fraction.drop 1) then none
  let (power,rest) ← exponent? r rest
  if r == .hex && !fraction.isEmpty && power.isEmpty then none
  let (unit,rest) := match rest with
    | 'i'::rest => (['i'],rest)
    | rest => ([],rest)
  if fraction.isEmpty && power.isEmpty && unit.isEmpty &&
      !whole.all fun c => c == '_' || (Text.hexValue? c).all (· < r.base) then none
  let digits := whole++fraction++power++unit
  if isSeparated r (if width = 0 then .other else .digit) digits then return (cs.take width++digits,rest) else none

/-- The last of a letter in lower case, the others as they are. -/
def lowerLast (upper lower : Char) (cs : List Char) : List Char :=
  match cs.reverse.span (· != upper) with
  | (after,_::before) => before.reverse++lower::after.reverse
  | _ => cs

/-- The literal as a file has it: letters in lower case but for digits, and no leading zeros before an imaginary unit. -/
def spellNumber (cs : List Char) : List Char :=
  match cs with
  | '0'::c::r =>
    match c.toLower with
    | 'x' => '0':: 'x'::lowerLast 'P' 'p' r
    | 'o' => '0':: 'o'::r
    | 'b' => '0':: 'b'::r
    | _ => plain
  | _ => plain
where
  plain : List Char :=
    if cs.length < 2 then cs
    else if cs.contains 'E' then lowerLast 'E' 'e' cs
    else if cs.getLast? = some 'i' ∧ !cs.contains '.' ∧ !cs.contains 'e' then
      match cs.dropWhile fun c => c == '0' || c == '_' with
      | ['i'] => ['0','i']
      | cs => cs
    else cs

end InfoObject.GoSource
