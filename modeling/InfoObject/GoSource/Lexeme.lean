import InfoObject.GoSource.Comment
import InfoObject.GoSource.Name
import InfoObject.GoSource.Number

/-! The lexemes of Go source, with the comments between them. At the end of a line a semicolon stands for itself behind
what can end a statement. -/
namespace InfoObject.GoSource

inductive LexemeKind where
  | name
  | keyword
  | int
  | float
  | imaginary
  | char
  | string
  | operator
  | finish
deriving DecidableEq, Repr

structure Lexeme where
  kind : LexemeKind
  text : String
  place : Place
  line : Nat
  /-- A semicolon that only the end of a line stands for. -/
  isImplied : Bool := false
  lead : List Comment := []
  trail : List Comment := []
deriving DecidableEq, Repr

/-- Where a reader of a literal stands: between characters, behind a backslash, or within digits, of which some are left. -/
inductive Escape where
  | none
  | backslash
  | digits (left base limit value : Nat)

def isCodePoint (limit n : Nat) : Bool := n ≤ limit && !(0xD800 ≤ n && n < 0xE000)

def quotedLiteral? (quote : Char) : Escape → List Char → Option (Nat × List Char × List Char)
  | _, [] => none
  | .none, c::r =>
    if c = quote then some (0,[c],r)
    else if c = '\n' then none
    else (quotedLiteral? quote (if c = '\\' then .backslash else .none) r).map fun (n,l,r) => (n+1,c::l,r)
  | .backslash, c::r => do
    let state ←
      if c = quote ∨ "abfnrtv\\".toList.contains c then some Escape.none
      else if c = 'x' then some (.digits 2 16 0xFF 0)
      else if c = 'u' then some (.digits 4 16 0x10FFFF 0)
      else if c = 'U' then some (.digits 8 16 0x10FFFF 0)
      else if '0' ≤ c ∧ c ≤ '7' then some (.digits 2 8 0xFF (c.toNat - '0'.toNat))
      else Option.none
    let (n,l,r) ← quotedLiteral? quote state r
    return (n,c::l,r)
  | .digits left base limit value, c::r => do
    let digit ← Text.hexValue? c
    let value := value*base+digit
    if digit ≥ base || (left ≤ 1 && !isCodePoint limit value) then Option.none
    let (n,l,r) ← quotedLiteral? quote (if left ≤ 1 then .none else .digits (left-1) base limit value) r
    return (n,c::l,r)

def operators : List String :=
  ["<<=",">>=","&^=","...","<<",">>","&^","+=","-=","*=","/=","%=","&=","|=","^=","&&","||","<-","++",
    "--","==","!=","<=",">=",":=","+","-","*","/","%","&","|","^","<",">","=","!","~","(",")","[","]",
    "\x7b","\x7d",",",".",";",":"]

def operator? (cs : List Char) : Option (String × List Char) :=
  (operators.find? fun o => o.toList.isPrefixOf cs).map fun o => (o,cs.drop o.length)

def isNameStart (c : Char) : Bool := c == '_' || Text.isLetter c

def isNameChar (c : Char) : Bool := isNameStart c || Text.isDecimalDigit c

def endsStatement (kind : LexemeKind) (text : String) : Bool :=
  match kind with
  | .keyword => ["break","continue","fallthrough","return"].contains text
  | .operator => ["++","--",")","]","\x7d"].contains text
  | .finish => false
  | _ => true

inductive Item where
  | lexeme (l : Lexeme)
  | comment (c : Comment)
deriving DecidableEq, Repr

def Item.line : Item → Nat
  | lexeme l => l.line
  | comment c => c.line

structure Lexer where
  items : List Item := []
  place : Place := .start
  told : Nat × Nat := (1,1)
  mayEnd : Bool := false

namespace Lexer

def line (s : Lexer) : Nat := s.told.2+(s.place.line-s.told.1)

/-- A lexeme with its text, which takes as much of the source as the second text. -/
def put (s : Lexer) (kind : LexemeKind) (text taken : List Char) : Lexer :=
  { s with
    items := .lexeme {kind, text := String.ofList text, place := s.place, line := s.line}::s.items
    place := s.place.past taken
    mayEnd := endsStatement kind (String.ofList text)}

def implied (s : Lexer) : Lexeme := {kind := .operator, text := ";", place := s.place, line := s.line, isImplied := true}

def endLine (s : Lexer) : Lexer :=
  if s.mayEnd then {s with items := .lexeme s.implied::s.items, mayEnd := false} else s

def putComment (s : Lexer) (text : List Char) : Lexer :=
  {s with items := .comment ⟨s.place,s.line,String.ofList text⟩::s.items}

/-- Behind a comment, with the number that it gives to the line there. -/
def passComment (s : Lexer) (taken mark : List Char) : Option Lexer := do
  let next := s.place.past taken
  match ← markedLine? mark with
  | some n => return {s with place := next, told := (next.line,n)}
  | none => return {s with place := next}

def lineMark : List Char := "line ".toList

def lineComment? (s : Lexer) (text : List Char) : Option Lexer :=
  let shown := if text.getLast? = some '\r' then text.dropLast else text
  let t := s.putComment (withoutReturns false [] shown)
  if s.place.column = 1 ∧ lineMark.isPrefixOf (shown.drop 2) then do
    let next ← t.passComment (text++['\n']) (shown.drop 7)
    return {next with place := t.place.past text}
  else some {t with place := t.place.past text}

/-- A comment of its own end. If it holds the end of a line, that comes behind the comment. -/
def blockComment? (s : Lexer) (text : List Char) : Option Lexer := do
  let t := s.putComment (withoutReturns true [] text)
  let t :=
    if text.contains '\n' ∧ s.mayEnd then
      let atEnd := {t with place := t.place.past (text.takeWhile (· != '\n'))}
      {t with items := .lexeme atEnd.implied::t.items, mayEnd := false}
    else t
  if lineMark.isPrefixOf (text.drop 2) then t.passComment text (text.dropLast.dropLast.drop 7)
  else return {t with place := t.place.past text}

def numberKind (cs : List Char) : LexemeKind :=
  let isHex := match cs with
    | '0':: 'x'::_ => true
    | '0':: 'X'::_ => true
    | _ => false
  if cs.getLast? = some 'i' then .imaginary
  else if cs.any fun c => c == '.' || c == 'p' || c == 'P' || (!isHex && (c == 'e' || c == 'E')) then .float
  else .int

def step? (s : Lexer) (c : Char) (r : List Char) : Option (Lexer × List Char) :=
  if c = ' ' ∨ c = '\t' ∨ c = '\r' then some ({s with place := s.place.pastChar c},r)
  else if c = '\n' then
    let t := s.endLine
    some ({t with place := t.place.pastChar c},r)
  else if c = '/' ∧ r.head? = some '/' then
    let (text,rest) := r.span (· != '\n')
    (s.lineComment? (c::text)).map (·,rest)
  else if c = '/' ∧ r.head? = some '*' then do
    let (text,rest) ← GoSource.blockComment? r.tail
    return (← s.blockComment? ('/':: '*'::text),rest)
  else if isNameStart c then
    let (more,rest) := r.span isNameChar
    some (s.put (if keywords.contains (String.ofList (c::more)) then .keyword else .name) (c::more) (c::more),rest)
  else if c.isDigit ∨ (c = '.' ∧ r.head?.any Char.isDigit) then
    (number? (c::r)).map fun (text,rest) => (s.put (numberKind text) text text,rest)
  else if c = '\x22' then
    (quotedLiteral? c .none r).map fun (_,text,rest) => (s.put .string (c::text) (c::text),rest)
  else if c = '\x27' then
    match quotedLiteral? c .none r with
    | some (1,text,rest) => some (s.put .char (c::text) (c::text),rest)
    | _ => none
  else if c = '\x60' then
    match r.span (· != c) with
    | (text,_::rest) =>
      some (s.put .string (c::text.filter (· != '\r')++[c]) (c::text++[c]),rest)
    | _ => none
  else (operator? (c::r)).map fun (text,rest) => (s.put .operator text.toList text.toList,rest)

/-- Each step takes a character, so the length of the text is fuel enough. -/
def run? : Nat → Lexer → List Char → Option (List Item)
  | _, s, [] => some (s.endLine.put .finish [] []).items.reverse
  | 0, _, _::_ => none
  | fuel+1, s, c::r => do
    let (s,r) ← s.step? c r
    run? fuel s r

end Lexer

/-- No source has a zero character or a byte order mark in it. -/
def isSourceChar (c : Char) : Bool := c.toNat != 0 && c.toNat != 0xFEFF

def items? (text : String) : Option (List Item) :=
  let cs := text.toList
  if cs.all isSourceChar then Lexer.run? cs.length {} cs else none

/-- The texts of lexemes and comments, without the semicolons that only the ends of lines stand for. -/
def itemTexts (items : List Item) : List String :=
  items.filterMap fun
    | .lexeme l => if l.isImplied || l.kind == .finish then none else some l.text
    | .comment c => some c.text

end InfoObject.GoSource
