import InfoObject.Text.Hex
import InfoObject.Text.Pattern.Assembly
import InfoObject.Text.Pattern.Group

/-! Which texts are regular expressions, in the dialect without backreferences and look-around. Only the form is
judged; nothing is matched here. -/
namespace InfoObject.Pattern

open Text (hexValue?)

def isOctal (c : Char) : Bool := '0' ≤ c && c ≤ '7'

def bracedHex? (value : Nat) (some? : Bool) : List Char → Option (Nat × List Char)
  | '\x7d'::r => if some? then some (value,r) else none
  | c::r => do
    let value := value*16+(← hexValue? c)
    if value > 0x10FFFF then none else bracedHex? value true r
  | [] => none

def octal (value : Nat) (left : Nat) : List Char → Nat × List Char
  | c::r =>
    match left with
    | left+1 => if isOctal c then octal (value*8+(c.toNat - '0'.toNat)) left r else (value,c::r)
    | 0 => (value,c::r)
  | [] => (value,[])

def escapedChar? : List Char → Option (Nat × List Char)
  | 'x':: '\x7b'::r => bracedHex? 0 false r
  | 'x'::a::b::r => do return ((← hexValue? a)*16+(← hexValue? b),r)
  | '0'::r => some (octal 0 2 r)
  | c::r =>
    if '1' ≤ c && c ≤ '7' then
      if r.head?.any isOctal then some (octal (c.toNat - '0'.toNat) 2 r) else none
    else
      match c with
      | 'a' => some (0x07,r)
      | 'f' => some (0x0C,r)
      | 'n' => some (0x0A,r)
      | 'r' => some (0x0D,r)
      | 't' => some (0x09,r)
      | 'v' => some (0x0B,r)
      | _ => if c.toNat < 0x80 && !c.isAlphanum then some (c.toNat,r) else none
  | [] => none

def digits : List Range := [(0x30,0x39)]

def blanks : List Range := [(0x09,0x0A),(0x0C,0x0D),(0x20,0x20)]

def wordChars : List Range := [(0x30,0x39),(0x41,0x5A),(0x5F,0x5F),(0x61,0x7A)]

/-- Ranges as a class, in which case counts or does not. -/
def classOf (flags : Flags) (negated : Bool) (r : List Range) : CharClass :=
  let c := CharClass.ofRanges (if flags.ignoreCase then r.flatMap foldedRange else r)
  if negated then c.negate else c

/-- A class such as a digit, or a group of characters; nothing if the escape is none of these. -/
def classEscape (flags : Flags) (cs : List Char) : Option (Option (CharClass × List Char)) :=
  match cs with
  | c::r =>
    match c with
    | 'd' => some (some (classOf flags false digits,r))
    | 'D' => some (some (classOf flags true digits,r))
    | 's' => some (some (classOf flags false blanks,r))
    | 'S' => some (some (classOf flags true blanks,r))
    | 'w' => some (some (classOf flags false wordChars,r))
    | 'W' => some (some (classOf flags true wordChars,r))
    | _ =>
      if c = 'p' ∨ c = 'P' then
        some ((characterGroup? r).map fun (name,r) =>
          (.ofGroup (String.singleton c++name++if flags.ignoreCase then "/i" else ""),r))
      else none
  | [] => none

def classChar? : List Char → Option (Nat × List Char)
  | '\\'::r => escapedChar? r
  | c::r => some (c.toNat,r)
  | [] => none

def classRange? (cs : List Char) : Option (Range × List Char) := do
  let (low,r) ← classChar? cs
  match r with
  | '-'::c::r =>
    if c = ']' then return ((low,low),'-'::c::r)
    else
      let (high,r) ← classChar? (c::r)
      if high < low then none else return ((low,high),r)
  | r => return ((low,low),r)

def classItem? (flags : Flags) (cs : List Char) : Option (CharClass × List Char) :=
  let range := (classRange? cs).map fun (range,r) => (classOf flags false [range],r)
  match cs with
  | '[':: ':'::name =>
    match namedClass? name with
    | some (name,r) =>
      let negated := name.head? = some '^'
      (namedRanges? (if negated then name.tail else name)).map fun ranges => (classOf flags negated ranges,r)
    | none => range
  | '\\'::r => (classEscape flags r).getD range
  | _ => range

/-- A class, read behind its bracket, and what is behind it. A bracket that comes first does not close it. -/
def classEnd? (flags : Flags) : Nat → Bool → CharClass → List Char → Option (CharClass × List Char)
  | 0, _, _, _ => none
  | fuel+1, first, done, cs =>
    match cs with
    | [] => none
    | c::r =>
      if c = ']' ∧ !first then some (done,r)
      else do
        let (item,r) ← classItem? flags cs
        classEnd? flags fuel false (done.union item) r

def charClass? (flags : Flags) (cs : List Char) : Option (CharClass × List Char) :=
  match cs with
  | '^'::r => (classEnd? flags (r.length+1) true {} r).map fun (c,r) => (c.negate,r)
  | r => classEnd? flags (r.length+1) true {} r

def countValue? (ds : List Char) : Option Nat :=
  if ds.isEmpty || (ds.length > 1 && ds.head? == some '0') then none else (String.ofList ds).toNat?

/-- A repetition in braces, read behind the opening one: its bounds, of which the upper may be missing. -/
def repeatCount? (cs : List Char) : Option (Nat × Option Nat × List Char) := do
  let (low,r) := cs.span Char.isDigit
  let low ← countValue? low
  match r with
  | '\x7d'::r => return (low,some low,r)
  | ',':: '\x7d'::r => return (low,none,r)
  | ','::r =>
    let (high,r) := r.span Char.isDigit
    let high ← countValue? high
    match r with
    | '\x7d'::r => return (low,some high,r)
    | _ => none
  | _ => none

def isCount (low : Nat) (high : Option Nat) : Bool :=
  low ≤ maxRepeat && high.all fun h => h ≤ maxRepeat && low ≤ h

/-- What an opening parenthesis with a question mark starts: a group, or flags for what follows. -/
inductive Opening where
  | group
  | flags
deriving DecidableEq

def isWord (c : Char) : Bool := c == '_' || c.isAlphanum

def Flags.set? (f : Flags) (value : Bool) : Char → Option Flags
  | 'i' => some {f with ignoreCase := value}
  | 'm' => some {f with perLine := value}
  | 's' => some {f with dotAll := value}
  | 'U' => some {f with isLazy := value}
  | _ => none

def flagsOpening? (flags : Flags) (negated sawFlag : Bool) : List Char → Option (Opening × Flags × List Char)
  | ':'::r => if negated && !sawFlag then none else some (.group,flags,r)
  | ')'::r => if negated && !sawFlag then none else some (.flags,flags,r)
  | '-'::r => if negated then none else flagsOpening? flags true false r
  | c::r => (flags.set? (!negated) c).bind fun flags => flagsOpening? flags negated true r
  | [] => none

def groupName? (cs : List Char) : Option (List Char) :=
  match cs.span isWord with
  | (name,'>'::r) => if name.isEmpty then none else some r
  | _ => none

def quoted : List Char → List Char × List Char
  | '\\':: 'E'::r => ([],r)
  | c::r => let (text,r) := quoted r; (c::text,r)
  | [] => ([],[])

def lazyMark : List Char → Bool × List Char
  | '?'::r => (true,r)
  | r => (false,r)

/-- What a step has read: something, or a repetition, none of which may follow another one. -/
inductive Progress where
  | part (rest : List Char)
  | repetition (rest : List Char)

def Progress.rest : Progress → List Char
  | part r => r
  | repetition r => r

def readRepetition (afterRepetition : Bool) (w : Bool → Wrapping) (r : List Char) : Building Progress := do
  let (isLazy,r) := lazyMark r
  guard !afterRepetition
  repeatLast (w (isLazy != (← get).flags.isLazy))
  return .repetition r

def readEscape (r : List Char) : Building Progress := do
  match r with
  | 'Q'::r =>
    let (text,r) := quoted r
    text.forM fun c => pushLiteral c.toNat
    return .part r
  | c::rest =>
    if ['A','b','B','z'].contains c then
      pushLeaf .place
      return .part rest
    match classEscape (← get).flags r with
    | some found =>
      let (c,r) ← found
      pushLeaf (.charClass c)
      return .part r
    | none =>
      let (c,r) ← escapedChar? r
      pushLiteral c
      return .part r
  | [] => failure

def readGroup (r : List Char) : Building Progress := do
  let flags := (← get).flags
  match r with
  | '?':: 'P':: '<'::r =>
    let r ← groupName? r
    openGroup true
    return .part r
  | '?':: '<'::r =>
    let r ← groupName? r
    openGroup true
    return .part r
  | '?'::r =>
    let (opening,flags,r) ← flagsOpening? flags false false r
    if opening = .group then openGroup false
    modify fun b => {b with flags}
    return .part r
  | r =>
    openGroup true
    return .part r

def step (fuel : Nat) (afterRepetition : Bool) (c : Char) (r : List Char) : Building Progress := do
  match c with
  | '(' => readGroup r
  | ')' =>
    closeGroup fuel
    return .part r
  | '|' =>
    nextBranch
    return .part r
  | '[' =>
    let (c,r) ← charClass? (← get).flags r
    pushLeaf (.charClass c)
    return .part r
  | '\x7b' =>
    match repeatCount? r with
    | none =>
      pushLiteral c.toNat
      return .part r
    | some (low,high,r) =>
      guard (isCount low high)
      readRepetition afterRepetition (.times low high) r
  | '\\' => readEscape r
  | '*' => readRepetition afterRepetition (fun _ => .star) r
  | '+' => readRepetition afterRepetition (fun _ => .plus) r
  | '?' => readRepetition afterRepetition (fun _ => .quest) r
  | '.' =>
    pushLeaf (if (← get).flags.dotAll then .any else .anyButNewline)
    return .part r
  | '^' =>
    pushLeaf .place
    return .part r
  | '$' =>
    pushLeaf .place
    return .part r
  | c =>
    pushLiteral c.toNat
    return .part r

/-- The expression as a whole. Each step takes a character, so the length of the text is fuel enough. -/
def run (length : Nat) : Nat → Bool → List Char → Building Unit
  | _, _, [] => finish (2*length+2)
  | 0, _, _::_ => failure
  | fuel+1, afterRepetition, c::r => do
    match ← step (2*length+2) afterRepetition c r with
    | .part r => run length fuel false r
    | .repetition r => run length fuel true r

def isValid (pattern : String) : Bool :=
  let cs := pattern.toList
  ((run cs.length cs.length false cs).run {}).isSome

end InfoObject.Pattern
