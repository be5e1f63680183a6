import InfoObject.Text.Hex
import InfoObject.Yaml.Token

/-! Scalars, written plainly or in quotes. A scalar may go on over several lines, which are folded into one text. -/
namespace InfoObject.Yaml

open Text (hexValue?)

/-- A text that is being read, the latest character first. Blanks and breaks wait until something follows them. -/
structure Folding where
  text : List Char := []
  blanks : List Char := []
  broken : Bool := false
  /-- The break that ended it, unless that was escaped. -/
  first : Option Char := none
  breaks : List Char := []

namespace Folding

/-- The text with what was waiting: one break is a blank, and of more the first goes. -/
def flushed (f : Folding) : List Char :=
  if f.broken then
    match f.first with
    | some '\n' => if f.breaks.isEmpty then ' '::f.text else f.breaks++f.text
    | some c => f.breaks++c::f.text
    | none => f.breaks++f.text
  else f.blanks++f.text

def push (f : Folding) (c : Char) : Folding := {text := c::f.flushed}

def addBlank (f : Folding) (c : Char) : Folding := if f.broken then f else {f with blanks := c::f.blanks}

def addBreak (f : Folding) (c : Char) : Folding :=
  if f.broken then {f with breaks := c::f.breaks} else {f with blanks := [], broken := true, first := some c}

def escapeBreak (f : Folding) : Folding := {text := f.flushed, broken := true}

end Folding

def isFlowSign (c : Char) : Bool := c == ',' || c == '[' || c == ']' || c == '\x7b' || c == '\x7d'

def isIndicator (c : Char) : Bool := isFlowSign c || "-?:#&*!|>'\x22%@`".toList.contains c

def startsPlain (inFlow : Bool) (c : Char) (next : Option Char) : Bool :=
  if isBlank c || isBreak c then false
  else
    !isIndicator c || (c == '-' && !next.any isBlank) || (!inFlow && (c == '?' || c == ':') && !endsWord next)

def endsPlain (inFlow : Bool) (c : Char) (next : Option Char) : Bool :=
  (c == ':' && endsWord next) || (inFlow && (isFlowSign c || c == '?'))

/-- A plain scalar, none of whose lines starts before the margin unless it is in brackets. It ends where a comment or
another document begins, too. Each step takes a character, so the length of the text is fuel enough. -/
def plain (inFlow : Bool) (margin : Nat) : Nat → Bool → Folding → Cursor → Option Folding × Cursor
  | 0, _, f, p => (some f,p)
  | fuel+1, wordStart, f, p =>
    match p.rest with
    | [] => (if p.isCut then none else some f,p)
    | c::r =>
      if isBlank c then
        if f.broken && p.column < margin && c == '\t' then (none,p)
        else plain inFlow margin fuel true (f.addBlank c) p.skip
      else if isBreak c then plain inFlow margin fuel true (f.addBreak p.breakHere) p.skipBreak
      else if wordStart && (c == '#' || p.atMark || (!inFlow && p.column < margin)) then (some f,p)
      else if endsPlain inFlow c r.head? then (some f,p)
      else plain inFlow margin fuel false (f.push c) p.skip

def shortEscape? (c : Char) : Option Char :=
  match c with
  | '0' => some '\x00'
  | 'a' => some '\x07'
  | 'b' => some '\x08'
  | 't' => some '\t'
  | '\t' => some '\t'
  | 'n' => some '\n'
  | 'v' => some '\x0b'
  | 'f' => some '\x0c'
  | 'r' => some '\r'
  | 'e' => some '\x1b'
  | ' ' => some ' '
  | '\x22' => some '\x22'
  | '\x27' => some '\x27'
  | '\\' => some '\\'
  | 'N' => some (Char.ofNat 0x85)
  | '_' => some (Char.ofNat 0xA0)
  | 'L' => some (Char.ofNat 0x2028)
  | 'P' => some (Char.ofNat 0x2029)
  | _ => none

def escapeWidth? (c : Char) : Option Nat :=
  match c with
  | 'x' => some 2
  | 'u' => some 4
  | 'U' => some 8
  | _ => none

def hexChar? (width : Nat) (cs : List Char) : Option Char := do
  let digits := cs.take width
  if digits.length < width then none
  let value ← digits.foldlM (fun n c => do pure (n*16+(← hexValue? c))) 0
  if value.isValidChar then some (Char.ofNat value) else none

def escape? : List Char → Option (Char × Nat)
  | [] => none
  | c::r =>
    match shortEscape? c, escapeWidth? c with
    | some e, _ => some (e,1)
    | none, some width => (hexChar? width r).map (·,width+1)
    | none, none => none

def quoted (double : Bool) : Nat → Folding → Cursor → Option Folding × Cursor
  | 0, _, p => (none,p)
  | fuel+1, f, p =>
    match p.rest with
    | [] => (none,p)
    | c::r =>
      if p.atMark then (none,p)
      else if isBlank c then quoted double fuel (f.addBlank c) p.skip
      else if isBreak c then quoted double fuel (f.addBreak p.breakHere) p.skipBreak
      else if double then
        if c = '\x22' then (some {text := f.flushed},p.skip)
        else if c = '\\' then
          if r.head?.any isBreak then quoted double fuel f.escapeBreak p.skip.skipBreak
          else
            match escape? r with
            | some (e,n) => quoted double fuel (f.push e) (Cursor.skipMany (n+1) p)
            | none => (none,p)
        else quoted double fuel (f.push c) p.skip
      else if c = '\x27' then
        if r.head? = some '\x27' then quoted double fuel (f.push c) p.skip.skip
        else (some {text := f.flushed},p.skip)
      else quoted double fuel (f.push c) p.skip

end InfoObject.Yaml
