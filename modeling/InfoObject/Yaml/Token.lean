/-! The tokens of a YAML document, and the place in a text up to which it has been read. -/
namespace InfoObject.Yaml

inductive Token where
  | streamStart
  | documentStart
  | documentEnd
  /-- What stands in the same column makes a list, or a map, up to the end of the block. -/
  | blockList
  | blockMap
  | blockEnd
  | openList
  | closeList
  | openMap
  | closeMap
  | dash
  | comma
  | key
  | value
  | scalar (text : String) (quoted : Bool)
  | streamEnd
deriving DecidableEq, Repr

def isBlank (c : Char) : Bool := c == ' ' || c == '\t'

/-- Five characters end a line: two in use today, and three that Unicode has for it. -/
def isBreak (c : Char) : Bool :=
  c == '\n' || c == '\r' || c == Char.ofNat 0x85 || c == Char.ofNat 0x2028 || c == Char.ofNat 0x2029

def endsWord (next : Option Char) : Bool := next.all fun c => isBlank c || isBreak c

def isAllowed (c : Char) : Bool :=
  let n := c.toNat
  n == 0x09 || n == 0x0A || n == 0x0D || (0x20 ≤ n && n ≤ 0x7E) || n == 0x85 || (0xA0 ≤ n && n ≤ 0xFFFD) || 0x10000 ≤ n

structure Cursor where
  rest : List Char
  index : Nat := 0
  line : Nat := 0
  column : Nat := 0
  fresh : Bool := false
  /-- Whether the text goes on, but cannot be read any farther. -/
  isCut : Bool := false
  reach : Nat := 0
  /-- Whether that piece is still held, and starts with a byte order mark. -/
  marked : Bool := false

namespace Cursor

def skip (p : Cursor) : Cursor :=
  match p.rest with
  | c::r => {p with rest := r, index := p.index+1, column := p.column+1, fresh := p.fresh && isBlank c}
  | [] => p

/-- Past a line break, which may be two characters. -/
def skipBreak (p : Cursor) : Cursor :=
  match p.rest with
  | '\r':: '\n'::r => {p with rest := r, index := p.index+2, line := p.line+1, column := 0, fresh := true}
  | _::r => {p with rest := r, index := p.index+1, line := p.line+1, column := 0, fresh := true}
  | [] => p

/-- The break as it counts in a text: those of Unicode's own stay, the others become one. -/
def breakHere (p : Cursor) : Char :=
  match p.rest with
  | c::_ => if c = Char.ofNat 0x2028 ∨ c = Char.ofNat 0x2029 then c else '\n'
  | [] => '\n'

def isMark (mark : Char) : List Char → Bool
  | a::b::c::r => a == mark && b == mark && c == mark && endsWord r.head?
  | _ => false

/-- Three dashes or three points at the start of a line stand between documents. -/
def atMark (p : Cursor) : Bool := p.column == 0 && (isMark '-' p.rest || isMark '.' p.rest)

def isMarked (p : Cursor) : Bool := p.marked && p.index < p.reach

/-- At the start of a token four characters are looked at, and for them more may be read. -/
def atToken (p : Cursor) : Cursor := {p with marked := p.marked && p.index+4 ≤ p.reach}

def skipMany : Nat → Cursor → Cursor
  | 0, p => p
  | n+1, p =>
    match p.rest with
    | c::_ => skipMany n (if isBreak c then p.skipBreak else p.skip)
    | [] => p

def skipLine (p : Cursor) : Cursor := skipMany (p.rest.takeWhile fun c => !isBreak c).length p

def maxAhead : Nat := 512

def skipComments : Nat → Cursor → Cursor
  | 0, p => p
  | fuel+1, p =>
    let p := p.skipLine
    let gap := p.rest.takeWhile fun c => isBlank c || c == '\n' || c == '\r'
    if gap.length < maxAhead ∧ (p.rest.drop gap.length).head? = some '#' then
      skipComments fuel (skipMany gap.length p)
    else p

def skipLineComment (p : Cursor) : Cursor :=
  let gap := p.rest.takeWhile isBlank
  if !p.fresh ∧ gap.length < maxAhead ∧ (p.rest.drop gap.length).head? = some '#' then p.skipLine else p

end Cursor

end InfoObject.Yaml
