import InfoObject.GoSource.Tree
import InfoObject.Text.Utf8

/-! Laying out a file: what is written, where the writing stands in the source, and the white space that is still held
back because comments may come before it. -/
namespace InfoObject.GoSource

inductive Gap where
  | ignored
  | blank
  | tab
  | newline
  | sectionEnd
  | indent
  | unindent
deriving DecidableEq, Repr

def Gap.isLineEnd (g : Gap) : Bool := g == .newline || g == .sectionEnd

def Gap.isFlat (g : Gap) : Bool := g == .blank || g == .tab || g == .indent

structure Pen where
  starts : List Nat
  size : Nat
  /-- What is written; nothing stands for either end of a literal. -/
  output : Array (Option Char) := #[]
  place : Place := .start
  last : Place := .none
  column : Nat := 1
  indent : Nat := 0
  level : Nat := 0
  noExtraBlank : Bool := false
  noExtraLine : Bool := false
  mayEnd : Bool := false
  lastToken : String := ""
  prevOpen : String := ""
  gaps : List Gap := []
  comments : List CommentGroup := []
  takesOwnComments : Bool := false
  newConditions : List Nat := []
  oldConditions : List Nat := []
  sizes : List (Nat × Nat) := []

abbrev Layout := StateM Pen

namespace Layout

def placeOf (offset : Nat) : Layout Place := do return placeAt (← get).starts (← get).size offset

def setPlace (p : Place) : Layout Unit := if p.isSome then modify fun s => {s with place := p} else pure ()

def writeIndent : Layout Unit := modify fun s =>
  { s with output := s.output++Array.replicate s.indent (some '\t'), place := s.place.plus s.indent,
           column := s.column+s.indent}

def writeSpace (c : Char) (n : Nat) : Layout Unit := do
  if (← get).column = 1 then writeIndent
  modify fun s =>
    let output := s.output++Array.replicate n (some c)
    if c = '\n' ∨ c = '\x0c' then {s with output, place := ⟨s.place.offset+n,s.place.line+n,1⟩, column := 1}
    else {s with output, place := s.place.plus n, column := s.column+n}

/-- The place behind a text and the column of the output there. Form feeds end lines too. -/
def pastText (p : Place) (column : Nat) (cs : List Char) : Place × Nat :=
  let size := Utf8.size cs
  let isEnd := fun c => c == '\n' || c == '\x0c'
  let lines := cs.countP isEnd
  if lines = 0 then (p.plus size,column+size)
  else
    let tail := Utf8.size (cs.reverse.takeWhile fun c => !isEnd c)+1
    (⟨p.offset+size,p.line+lines,tail⟩,tail)

def writeText (p : Place) (text : String) (isLiteral : Bool) : Layout Unit := do
  if (← get).column = 1 then writeIndent
  setPlace p
  modify fun s =>
    let cs := text.toList
    let marked := if isLiteral then none::cs.map some++[none] else cs.map some
    let (place,column) := pastText s.place s.column cs
    {s with output := s.output++marked.toArray, place, column, last := place}

/-- Writes white space. The end of a line before less indentation comes behind that. -/
def writeGapList : Nat → List Gap → Layout Unit
  | 0, _ => pure ()
  | _, [] => pure ()
  | fuel+1, g::gs =>
    match g, gs with
    | .newline, .unindent::gs => writeGapList fuel (.unindent::.sectionEnd::gs)
    | .sectionEnd, .unindent::gs => writeGapList fuel (.unindent::.sectionEnd::gs)
    | g, gs => do
      match g with
      | .ignored => pure ()
      | .blank => writeSpace ' ' 1
      | .tab => writeSpace '\x0b' 1
      | .newline => writeSpace '\n' 1
      | .sectionEnd => writeSpace '\x0c' 1
      | .indent => modify fun s => {s with indent := s.indent+1}
      | .unindent => modify fun s => {s with indent := s.indent-1}
      writeGapList fuel gs

/-- Writes so many of the gaps. Each one is passed over once and swapped as often as there are others at most. -/
def writeGaps (n : Nat) : Layout Unit := do
  let gaps := (← get).gaps
  modify fun s => {s with gaps := gaps.drop n}
  writeGapList ((gaps.length+1)*(gaps.length+1)) (gaps.take n)

def writeAllGaps : Layout Unit := do writeGaps (← get).gaps.length

end Layout

end InfoObject.GoSource
