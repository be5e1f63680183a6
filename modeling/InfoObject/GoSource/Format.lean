import InfoObject.GoSource.Layout.Statement
import InfoObject.GoSource.Reading.Statement

/-! Go files in their standard layout, and the tokens they consist of. -/
namespace InfoObject.GoSource

open Layout

def Decl.keyword : Decl → String
  | group _ _ keyword _ _ _ => keyword
  | function _ _ _ _ _ => "func"

def Decl.doc : Decl → CommentGroup
  | group doc _ _ _ _ _ => doc
  | function doc _ _ _ _ => doc

namespace Layouts

/-- Declarations, with an empty line between those of different kinds and before those with documentation. -/
def declarations (r : Layouts) (last : String) : List Decl → Layout Unit
  | [] => pure ()
  | d::ds => do
    let _ ← lineBreak d.place.line (if last != d.keyword || !d.doc.isEmpty then 2 else 1) .ignored false
    r.declaration d
    r.declarations d.keyword ds

def file (r : Layouts) (f : FileTree) : Layout Unit := do
  tokenAt f.place "package"
  gap .blank
  r.expr (.ident f.package)
  r.declarations "" f.declarations
  gap .newline
  modify fun s => {s with mayEnd := false}
  let _ ← flush .finish ""

end Layouts

/-! ### Conditions for the file to be built -/

abbrev Output := List (Option Char)

def isLineEnd (c : Option Char) : Bool := c == some '\n' || c == some '\x0c'

/-- Where conditions may stand at the latest: behind the last empty line before anything but comments. -/
def latestPlace : Nat → Nat → Nat → Output → Nat
  | 0, found, _, _ => found
  | fuel+1, found, place, out =>
    let blanks := (out.takeWhile fun c => c == some ' ' || c == some '\t').length
    let out := out.drop blanks
    let isComment := match out with
      | none::some '/'::some '/'::_::_ => true
      | _ => false
    let text := if isComment then (out.takeWhile fun c => !isLineEnd c).length else 0
    match out.drop text with
    | c::rest =>
      if isLineEnd c then
        let next := place+blanks+text+1
        latestPlace fuel (if isComment then found else next) next rest
      else found
    | [] => found

def lineFrom (out : Output) (place : Nat) : Output :=
  let rest := out.drop place
  rest.take ((rest.takeWhile fun c => !isLineEnd c).length+1)

def commentFrom (out : Output) (place : Nat) : List Char :=
  let rest := match out.drop place with
    | none::rest => rest
    | rest => rest
  (rest.takeWhile fun c => c.isSome && !isLineEnd c).filterMap id

/-- Lines behind others, without a second empty line in a row. -/
def appendLines (out more : Output) : Output :=
  let atEmpty := match out.reverse with
    | [] => true
    | a::b::_ => isLineEnd a && isLineEnd b
    | _ => false
  if atEmpty && more.head?.any isLineEnd then out++more.tail else out++more

def literalLine (text : String) : Output := none::text.toList.map some++[none,some '\n']

def condition? (out : Output) (newConditions oldConditions : List Nat) : Option BuildCondition :=
  let read place := BuildCondition.ofComment? (commentFrom out place)
  match newConditions with
  | [place] => read place
  | [] =>
    match oldConditions.mapM read with
    | some (x::xs) => some (xs.foldl .and x)
    | _ => none
  | _ => none

def tooComplex : String := "// +build error: expression too complex for // +build lines"

/-- The lines that say when the file is built, in both forms if the old one is there. -/
def conditionLines (out : Output) (newConditions oldConditions : List Nat) : Output :=
  match condition? out newConditions oldConditions with
  | none => (newConditions++oldConditions).flatMap (lineFrom out)++[some '\n']
  | some x =>
    let old := if oldConditions.isEmpty then [] else x.oldLines?.getD [tooComplex]
    literalLine ("//go:build "++x.render)++old.flatMap literalLine++[some '\n']

/-- What comes behind a place, without the lines at the places. -/
def withoutLines (out : Output) : Nat → Output → List Nat → Output
  | start, done, [] => appendLines done (out.drop start)
  | start, done, place::places =>
    if place < start then withoutLines out start done places
    else
      let done := appendLines done ((out.drop start).take (place-start))
      withoutLines out (place+(lineFrom out place).length) done places

/-- The output with its conditions at the start, in both forms if it has the old one. -/
def placeConditions (out : Output) (newConditions oldConditions : List Nat) : Output :=
  if newConditions.isEmpty && oldConditions.isEmpty then out
  else
    let latest := latestPlace (out.length+1) 0 0 out
    let place := match newConditions, oldConditions with
      | n::_, o => if n < latest then n else match o with
        | o::_ => min o latest
        | [] => latest
      | [], o::_ => min o latest
      | [], [] => latest
    let places := (newConditions++oldConditions).mergeSort (· ≤ ·)
    let after := withoutLines out place [] places
    let after := match after.reverse with
      | a::b::_ => if isLineEnd a && isLineEnd b then after.dropLast else after
      | _ => after
    out.take place++conditionLines out newConditions oldConditions++after

/-- The text of an output: outside of literals, tabs that align are tabs, and form feeds end lines. -/
def outputText (inLiteral : Bool) : Output → List Char
  | [] => []
  | none::r => outputText (!inLiteral) r
  | some c::r =>
    (if inLiteral then c else if c = '\x0b' then '\t' else if c = '\x0c' then '\n' else c)::outputText inLiteral r

/-- A whole file in its standard layout, if it is one. No part is nested deeper than twice the number of lexemes. -/
def formatFile? (text : String) : Option String := do
  let source ← Source.ofText? text
  let tree ← FileTree.ofSource? source
  let pen : Pen := {starts := source.starts, size := source.size, comments := source.groups}
  let (_,pen) := ((Layouts.ofDepth (2*source.lexemes.length+10)).file tree).run pen
  let out := placeConditions pen.output.toList pen.newConditions pen.oldConditions
  return String.ofList (outputText false out)

/-- The layout of a text between two others, which are taken away again. -/
def formatBetween? (before shown text after close : String) : Option String := do
  let whole ← formatFile? (before++text++after)
  return String.ofList (Text.trim ((whole.toList.drop shown.length).take (whole.length-shown.length-close.length)))

def startsWithPackage (items : List Item) : Bool :=
  (items.findSome? fun
    | .lexeme l => some (l.is "package")
    | .comment _ => none).getD false

/-- A text in its standard layout: a file, or without a package what could stand in one or in a function. -/
def format? (text : String) : Option String :=
  formatFile? text <|> do
    if startsWithPackage (← items? text) then none
    formatBetween? "package p;" "package p\n" text "" "" <|>
      formatBetween? "package p; func _() \x7b" "package p\n\nfunc _() \x7b" text "\n\n\x7d" "\x7d\n"

end InfoObject.GoSource
