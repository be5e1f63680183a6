import InfoObject.GoSource.Place

/-! Comments of Go source, and what they say about the numbers of lines. -/
namespace InfoObject.GoSource

structure Comment where
  place : Place
  /-- The number that the line has by what comments say. -/
  line : Nat
  text : String
deriving DecidableEq, Repr, Inhabited

def Comment.lastLine (c : Comment) : Nat := c.line+c.text.toList.count '\n'

def Comment.isLine (c : Comment) : Bool := c.text.startsWith "//"

/-- Carriage returns are no part of a comment, but for one that keeps a star and a slash apart. -/
def withoutReturns (isBlock : Bool) (kept : List Char) : List Char → List Char
  | [] => kept.reverse
  | c::r =>
    if c != '\r' || (isBlock && kept.length > 2 && kept.head? == some '*' && r.head? == some '/') then
      withoutReturns isBlock (c::kept) r
    else withoutReturns isBlock kept r

def blockComment? : List Char → Option (List Char × List Char)
  | '*':: '/'::r => some (['*','/'],r)
  | c::r => (blockComment? r).map fun (l,r) => (c::l,r)
  | [] => none

def behindColon? (cs : List Char) : Option (List Char × List Char) :=
  match cs.reverse.span (· != ':') with
  | (after,_::before) => some (after.reverse,before.reverse)
  | _ => none

def count? (cs : List Char) : Option Nat :=
  if cs.isEmpty || !cs.all Char.isDigit then none
  else
    let n := cs.foldl (fun n c => 10*n+(c.toNat - '0'.toNat)) 0
    if n < UInt64.size then some n else none

def isLineNumber (n : Nat) : Bool := 0 < n && n ≤ 1073741824

/-- The line number that a text behind the mark gives, if it gives one; a bad number is a fault. -/
def markedLine? (cs : List Char) : Option (Option Nat) :=
  match behindColon? cs with
  | none => some none
  | some (last,before) => do
    let n ← count? last
    match (behindColon? before).bind fun (middle,_) => count? middle with
    | some line => if isLineNumber n && isLineNumber line then return some line else none
    | none => if isLineNumber n then return some n else none

end InfoObject.GoSource
