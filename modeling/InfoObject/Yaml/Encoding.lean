import InfoObject.Text.Utf8
import InfoObject.Yaml.Token

/-! The characters of a YAML file, which may be in UTF-8 or, behind a mark that says so, in UTF-16. A file is read in
pieces, and a piece with a bad character in it is not read at all. -/
namespace InfoObject.Yaml

inductive Encoding where
  | utf8
  | utf16 (lowFirst : Bool)
deriving DecidableEq

def pieceSize : Nat := 512

def Encoding.detect : List UInt8 → Encoding × Nat
  | 0xFF::0xFE::_ => (.utf16 true,2)
  | 0xFE::0xFF::_ => (.utf16 false,2)
  | 0xEF::0xBB::0xBF::_ => (.utf8,3)
  | _ => (.utf8,0)

def unit (lowFirst : Bool) (a b : UInt8) : Nat :=
  if lowFirst then a.toNat+256*b.toNat else 256*a.toNat+b.toNat

def Encoding.next? : Encoding → List UInt8 → Option (Char × Nat)
  | .utf8, bytes => (Utf8.decodeChar? bytes).map fun c => (c,c.utf8Size)
  | .utf16 lowFirst, a::b::r =>
    let high := unit lowFirst a b
    if high < 0xD800 ∨ 0xE000 ≤ high then some (Char.ofNat high,2)
    else
      match r with
      | a::b::_ =>
        let low := unit lowFirst a b
        if high < 0xDC00 ∧ 0xDC00 ≤ low ∧ low < 0xE000 then
          some (Char.ofNat (0x10000+(high-0xD800)*0x400+(low-0xDC00)),4)
        else none
      | _ => none
  | .utf16 _, _ => none

structure Reading where
  before : List Char := []
  piece : List Char := []
  bound : Nat := pieceSize
  reach : Option Nat := none

def Reading.close (r : Reading) (bound : Nat) : Reading :=
  {before := r.piece++r.before, bound, reach := some (r.reach.getD r.piece.length)}

/-- Each step takes a byte at least, so their number is fuel enough. Gives what was read, and whether that is all. -/
def Encoding.readFrom (e : Encoding) : Nat → Nat → Reading → List UInt8 → Reading × Bool
  | 0, _, r, _ => (r,true)
  | _, _, r, [] => (r,true)
  | fuel+1, offset, r, bytes =>
    match e.next? bytes with
    | none => (if bytes.length < 4 then r.close 0 else r,false)
    | some (c,size) =>
      let r := if offset+size > r.bound then r.close (offset+pieceSize) else r
      if isAllowed c then e.readFrom fuel (offset+size) {r with piece := c::r.piece} (bytes.drop size)
      else (r,false)

def start (bytes : List UInt8) : Cursor :=
  let (e,mark) := Encoding.detect bytes
  let (r,isWhole) := e.readFrom bytes.length mark {} (bytes.drop mark)
  let r := if isWhole then r.close 0 else r
  let chars := r.before.reverse
  {rest := chars, isCut := !isWhole, reach := r.reach.getD 0, marked := chars.head? = some (Char.ofNat 0xFEFF)}

end InfoObject.Yaml
