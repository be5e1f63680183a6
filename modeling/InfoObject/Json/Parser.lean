import InfoObject.Json.Value
import InfoObject.Text.Hex
import InfoObject.Text.Utf8

/-! Reading JSON. Bytes that are no character are read as U+FFFD inside texts and refused elsewhere. -/
namespace InfoObject.Json

open Text (hexValue?)

def maxDepth : Nat := 10000

def isBlank (c : Char) : Bool := c == ' ' || c == '\t' || c == '\n' || c == '\r'

def skipBlanks (cs : List Char) : List Char := cs.dropWhile isBlank

def codeUnit? (a b c d : Char) : Option Nat := do
  return (((← hexValue? a)*16+(← hexValue? b))*16+(← hexValue? c))*16+(← hexValue? d)

def isSurrogate (n : Nat) : Bool := 0xD800 ≤ n && n < 0xE000

def joinSurrogates? (high low : Nat) : Option Char :=
  if 0xD800 ≤ high ∧ high < 0xDC00 ∧ 0xDC00 ≤ low ∧ low < 0xE000 then
    some (Char.ofNat (0x10000+(high-0xD800)*0x400+(low-0xDC00)))
  else none

def unescape? (c : Char) : Option Char :=
  match c with
  | 'b' => some '\x08'
  | 't' => some '\t'
  | 'n' => some '\n'
  | 'f' => some '\x0c'
  | 'r' => some '\r'
  | '/' => some '/'
  | '\\' => some '\\'
  | '\x22' => some '\x22'
  | _ => none

def pairedWith? (high : Nat) : List Char → Option (Char × List Char)
  | '\\':: 'u'::a::b::c::d::r => do
    let low ← codeUnit? a b c d
    let joined ← joinSurrogates? high low
    return (joined,r)
  | _ => none

/-- One character of a text, behind the opening quote; a surrogate that stands alone is read as U+FFFD. -/
def textChar? : List Char → Option (Char × List Char)
  | '\\':: 'u'::a::b::c::d::r => do
    let n ← codeUnit? a b c d
    if isSurrogate n then return (pairedWith? n r).getD ('�',r)
    else return (Char.ofNat n,r)
  | '\\'::e::r => (unescape? e).map (·,r)
  | c::r => if c.toNat < 0x20 ∨ c = '\\' then none else some (c,r)
  | [] => none

theorem textChar?_shorter {cs r : List Char} {c : Char} (h : textChar? cs = some (c,r)) : r.length < cs.length := by
  unfold textChar? at h
  split at h
  · rename_i a b c' d rest
    cases hu : codeUnit? a b c' d with
    | none => simp [hu] at h
    | some n =>
      simp only [hu,Option.bind_eq_bind,Option.bind_some] at h
      split at h
      · simp only [Option.pure_def,Option.some.injEq] at h
        cases hp : pairedWith? n rest with
        | none =>
          simp only [hp,Option.getD_none,Prod.mk.injEq] at h
          simp only [← h.2,List.length_cons]
          omega
        | some v =>
          obtain ⟨x,y⟩ := v
          simp only [hp,Option.getD_some,Prod.mk.injEq] at h
          unfold pairedWith? at hp
          split at hp
          · rename_i a2 b2 c2 d2 r2
            cases hu2 : codeUnit? a2 b2 c2 d2 with
            | none => simp [hu2] at hp
            | some m =>
              cases hj : joinSurrogates? n m with
              | none => simp [hu2,hj] at hp
              | some j =>
                simp only [hu2,hj,Option.bind_eq_bind,Option.bind_some,Option.pure_def,Option.some.injEq,
                  Prod.mk.injEq] at hp
                simp only [← h.2,← hp.2,List.length_cons]
                omega
          · simp at hp
      · simp only [Option.pure_def,Option.some.injEq,Prod.mk.injEq] at h
        simp only [← h.2,List.length_cons]
        omega
  · obtain ⟨x,_,hx⟩ := Option.map_eq_some_iff.1 h
    simp only [Prod.mk.injEq] at hx
    simp only [← hx.2,List.length_cons]
    omega
  · split at h
    · simp at h
    · simp only [Option.some.injEq,Prod.mk.injEq] at h
      simp [← h.2]
  · simp at h

def textBody? (done : List Char) (cs : List Char) : Option (List Char × List Char) :=
  if cs.head? = some '\x22' then some (done.reverse,cs.tail)
  else
    match h : textChar? cs with
    | none => none
    | some (c,r) =>
      have _shorter := textChar?_shorter h
      textBody? (c::done) r
termination_by cs.length

def digits (cs : List Char) : List Char × List Char := cs.span Char.isDigit

def wholePart? : List Char → Option (List Char × List Char)
  | '0'::r => some (['0'],r)
  | c::r => if c.isDigit then some (digits (c::r)) else none
  | [] => none

def fraction? : List Char → Option (List Char × List Char)
  | '.'::r =>
    match digits r with
    | ([],_) => none
    | (ds,r) => some ('.'::ds,r)
  | r => some ([],r)

def exponentSign : List Char → List Char × List Char
  | '+'::r => (['+'],r)
  | '-'::r => (['-'],r)
  | r => ([],r)

def exponent? : List Char → Option (List Char × List Char)
  | [] => some ([],[])
  | e::r =>
    if e = 'e' ∨ e = 'E' then
      let (sign,r) := exponentSign r
      match digits r with
      | ([],_) => none
      | (ds,r) => some (e::sign++ds,r)
    else some ([],e::r)

def numberSign : List Char → List Char × List Char
  | '-'::r => (['-'],r)
  | r => ([],r)

def number? (cs : List Char) : Option (Value × List Char) := do
  let (sign,r) := numberSign cs
  let (whole,r) ← wholePart? r
  let (frac,r) ← fraction? r
  let (exp,r) ← exponent? r
  return (.number (String.ofList (sign++whole++frac++exp)),r)

def word? (cs : List Char) : Option (Value × List Char) :=
  match cs with
  | 't':: 'r':: 'u':: 'e'::r => some (.bool true,r)
  | 'f':: 'a':: 'l':: 's':: 'e'::r => some (.bool false,r)
  | 'n':: 'u':: 'l':: 'l'::r => some (.null,r)
  | _ => none

def key? (cs : List Char) : Option (String × List Char) :=
  match cs with
  | '\x22'::r => do
    let (k,r) ← textBody? [] r
    match skipBlanks r with
    | ':'::r => return (String.ofList k,skipBlanks r)
    | _ => none
  | _ => none

mutual

/-- A value at the front of the text, without blanks before it. Each step takes at least one character, so the
length of the text is fuel enough. -/
def value? : Nat → Nat → List Char → Option (Value × List Char)
  | 0, _, _ => none
  | fuel+1, depth, cs =>
    match cs with
    | '\x22'::r => (textBody? [] r).map fun (s,r) => (.text (String.ofList s),r)
    | '['::r =>
      if depth = maxDepth then none
      else
        match skipBlanks r with
        | ']'::r => some (.list [],r)
        | r => (items? fuel (depth+1) r).map fun (vs,r) => (.list vs,r)
    | '\x7b'::r =>
      if depth = maxDepth then none
      else
        match skipBlanks r with
        | '\x7d'::r => some (.record [],r)
        | r => (members? fuel (depth+1) r).map fun (ms,r) => (.record ms,r)
    | _ =>
      match word? cs with
      | some v => some v
      | none => number? cs

def items? : Nat → Nat → List Char → Option (List Value × List Char)
  | 0, _, _ => none
  | fuel+1, depth, cs => do
    let (v,r) ← value? fuel depth cs
    match skipBlanks r with
    | ']'::r => return ([v],r)
    | ','::r =>
      let (vs,r) ← items? fuel depth (skipBlanks r)
      return (v::vs,r)
    | _ => none

def members? : Nat → Nat → List Char → Option (List (String × Value) × List Char)
  | 0, _, _ => none
  | fuel+1, depth, cs => do
    let (k,r) ← key? cs
    let (v,r) ← value? fuel depth r
    match skipBlanks r with
    | '\x7d'::r => return ([(k,v)],r)
    | ','::r =>
      let (ms,r) ← members? fuel depth (skipBlanks r)
      return ((k,v)::ms,r)
    | _ => none

end

def parsePrefix? (cs : List Char) : Option (Value × List Char) :=
  value? (cs.length+1) 0 (skipBlanks cs)

def parse? (cs : List Char) : Option Value := do
  let (v,r) ← parsePrefix? cs
  if (skipBlanks r).isEmpty then return v else none

def parseBytes? (bytes : List UInt8) : Option Value := parse? (Utf8.decodeLossy bytes)

end InfoObject.Json
