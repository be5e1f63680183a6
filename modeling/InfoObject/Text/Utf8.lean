/-! UTF-8 on lists of bytes: the character that begins a text, and the text as a whole or the offset of its
first bad byte. -/
namespace InfoObject.Utf8

def isContinuation (b : UInt8) : Bool := 0x80 ≤ b && b < 0xC0

/-- The low bits of continuation bytes, put behind the bits read so far. -/
def appendBits : Nat → List UInt8 → Option Nat
  | n, [] => some n
  | n, b::r => if isContinuation b then appendBits (n*64+(b.toNat-0x80)) r else none

/-- The number of bytes that a first byte announces, and the bits it carries itself. -/
def leading? (b : UInt8) : Option (Nat × Nat) :=
  if b < 0x80 then some (1,b.toNat)
  else if b < 0xC0 then none
  else if b < 0xE0 then some (2,b.toNat-0xC0)
  else if b < 0xF0 then some (3,b.toNat-0xE0)
  else if b < 0xF8 then some (4,b.toNat-0xF0)
  else none

/-- The character whose encoding begins the text. A longer form than needed and a surrogate are refused. -/
def decodeChar? : List UInt8 → Option Char
  | [] => none
  | a::r => do
    let (size,bits) ← leading? a
    let tail := r.take (size-1)
    if tail.length < size-1 then none
    let n ← appendBits bits tail
    if n.isValidChar ∧ (Char.ofNat n).utf8Size = size then some (Char.ofNat n) else none

def decodeFrom (offset : Nat) (done : List Char) : List UInt8 → Except Nat (List Char)
  | [] => .ok done.reverse
  | a::r =>
    match decodeChar? (a::r) with
    | none => .error offset
    | some c => decodeFrom (offset+c.utf8Size) (c::done) (r.drop (c.utf8Size-1))
termination_by s => s.length
decreasing_by simp only [List.length_drop,List.length_cons]; omega

/-- The characters of a text, or the offset of its first bad byte. -/
def decode (s : List UInt8) : Except Nat (List Char) := decodeFrom 0 [] s

def encode (cs : List Char) : List UInt8 := cs.flatMap String.utf8EncodeChar

def size (cs : List Char) : Nat := cs.foldr (fun c n => c.utf8Size+n) 0

@[simp] theorem size_nil : size [] = 0 := rfl

@[simp] theorem size_cons (c : Char) (cs : List Char) : size (c::cs) = c.utf8Size+size cs := rfl

@[simp] theorem size_append (cs ds : List Char) : size (cs++ds) = size cs+size ds := by
  induction cs with
  | nil => simp
  | cons c cs ih => simp [ih,Nat.add_assoc]

def countFrom (n : Nat) : List UInt8 → Nat
  | [] => n
  | a::r =>
    match decodeChar? (a::r) with
    | none => countFrom (n+1) r
    | some c => countFrom (n+1) (r.drop (c.utf8Size-1))
termination_by s => s.length
decreasing_by all_goals simp only [List.length_drop,List.length_cons]; omega

/-- The number of characters, a byte that begins none counting as one. -/
def count (s : List UInt8) : Nat := countFrom 0 s

/-- The characters, with U+FFFD in place of each byte that begins none. -/
def decodeLossyFrom (done : List Char) : List UInt8 → List Char
  | [] => done.reverse
  | a::r =>
    match decodeChar? (a::r) with
    | none => decodeLossyFrom ('�'::done) r
    | some c => decodeLossyFrom (c::done) (r.drop (c.utf8Size-1))
termination_by s => s.length
decreasing_by all_goals simp only [List.length_drop,List.length_cons]; omega

def decodeLossy (s : List UInt8) : List Char := decodeLossyFrom [] s

def ofString (s : String) : List UInt8 := encode s.toList

end InfoObject.Utf8
