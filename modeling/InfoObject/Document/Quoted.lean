import InfoObject.Text.Quoted

/-! Text values in documents: between double quotes, with an escape for what would break the line. -/
namespace InfoObject.Document

def upperHex (n : Nat) : List Char := (Text.hexDigits 2 n).map Char.toUpper

def escape (c : Char) : List Char :=
  if c = '\\' ∨ c = '\x22' then ['\\',c]
  else if c = '\t' then ['\\','t']
  else if c = '\n' then ['\\','n']
  else if c.toNat < 0x20 ∨ c.toNat = 0x7F then ['\\','x']++upperHex c.toNat
  else [c]

def quote (cs : List Char) : List Char := '\x22'::cs.flatMap escape++['\x22']

def quoted (s : String) : String := String.ofList (quote s.toList)

end InfoObject.Document
