import InfoObject.Text.Printable

/-! Quoted text as diagnostics show it: quotes around the text, the quote and the backslash escaped, and a
spelled escape for each character that cannot be printed. -/
namespace InfoObject.Text

def hexDigit (n : Nat) : Char := Nat.digitChar (n%16)

def hexDigits : Nat → Nat → List Char
  | 0, _ => []
  | width+1, n => hexDigits width (n/16)++[hexDigit n]

theorem hexDigits_length (width n : Nat) : (hexDigits width n).length = width := by
  induction width generalizing n with
  | zero => rfl
  | succ width ih => simp [hexDigits,ih]

def shortEscape? (c : Char) : Option Char :=
  match c.toNat with
  | 0x07 => some 'a'
  | 0x08 => some 'b'
  | 0x09 => some 't'
  | 0x0A => some 'n'
  | 0x0B => some 'v'
  | 0x0C => some 'f'
  | 0x0D => some 'r'
  | _ => none

def spellEscape (c : Char) : List Char :=
  match shortEscape? c with
  | some e => ['\\',e]
  | none =>
    if c.toNat < 0x80 then ['\\','x']++hexDigits 2 c.toNat
    else if c.toNat < 0x10000 then ['\\','u']++hexDigits 4 c.toNat
    else ['\\','U']++hexDigits 8 c.toNat

def escapeChar (quote c : Char) : List Char :=
  if c = quote ∨ c = '\\' then ['\\',c]
  else if isPrintable c then [c]
  else spellEscape c

def quotedWith (quote : Char) (cs : List Char) : List Char :=
  quote::cs.flatMap (escapeChar quote)++[quote]

def quoted (s : String) : String := String.ofList (quotedWith '\x22' s.toList)

def quotedChar (c : Char) : String := String.ofList (quotedWith '\x27' [c])

end InfoObject.Text
