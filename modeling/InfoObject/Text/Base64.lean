/-! Base64 with padding: four characters for three bytes. Line breaks between them mean nothing. -/
namespace InfoObject.Base64

def value? (c : Char) : Option Nat :=
  if 'A' ≤ c ∧ c ≤ 'Z' then some (c.toNat - 'A'.toNat)
  else if 'a' ≤ c ∧ c ≤ 'z' then some (c.toNat - 'a'.toNat+26)
  else if '0' ≤ c ∧ c ≤ '9' then some (c.toNat - '0'.toNat+52)
  else if c = '+' then some 62
  else if c = '/' then some 63
  else none

/-- The bytes of a group; the last group may be padded, and what its last character says beyond a byte is not
looked at. -/
def decodeGroups : List Char → Option (List UInt8)
  | [] => some []
  | a::b::c::d::r => do
    let a ← value? a
    let b ← value? b
    let first := (a*4+b/16).toUInt8
    if c = '=' then
      if d = '=' ∧ r = [] then return [first] else none
    else
      let c ← value? c
      let second := (b%16*16+c/4).toUInt8
      if d = '=' then
        if r = [] then return [first,second] else none
      else
        let d ← value? d
        return first::second::(c%4*64+d).toUInt8::(← decodeGroups r)
  | _ => none

def decode (s : String) : Option (List UInt8) :=
  decodeGroups (s.toList.filter fun c => c != '\r' && c != '\n')

end InfoObject.Base64
