/-! Places in a text: how many bytes stand before, and in which line and column. -/
namespace InfoObject.GoSource

structure Place where
  offset : Nat
  /-- From one; zero where there is no place. -/
  line : Nat
  column : Nat
deriving DecidableEq, Repr, Inhabited

namespace Place

def none : Place := ⟨0,0,0⟩

def start : Place := ⟨0,1,1⟩

/-- Behind all of the text, wherever that ends. -/
def finish : Place := ⟨1073741824,1073741824,0⟩

def isSome (p : Place) : Bool := p.line > 0

def plus (p : Place) (n : Nat) : Place := ⟨p.offset+n,p.line,p.column+n⟩

def pastChar (p : Place) (c : Char) : Place :=
  if c = '\n' then ⟨p.offset+1,p.line+1,1⟩ else p.plus c.utf8Size

def past (p : Place) (cs : List Char) : Place := cs.foldl pastChar p

end Place

def lineStarts (text : String) : List Nat :=
  (text.toList.foldl (fun (here,starts) c =>
    let next := here+c.utf8Size
    (next,if c = '\n' then next::starts else starts)) (0,[0])).2.reverse

def placeAt (starts : List Nat) (size offset : Nat) : Place :=
  if offset > size then Place.none
  else
    let before := starts.takeWhile (· ≤ offset)
    ⟨offset,before.length,offset-before.getLastD 0+1⟩

end InfoObject.GoSource
