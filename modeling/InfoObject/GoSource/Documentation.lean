import InfoObject.Text.Letter
import InfoObject.Text.Space
import InfoObject.Text.Upper
import InfoObject.Text.Utf8

/-! The text of comments that document a declaration, and how it is laid out: paragraphs, headings, lists, code, and lines
that say where names in brackets lead to. -/
namespace InfoObject.GoSource.Documentation

/-! ### Inside of a paragraph -/

def schemes : List String := ["file","ftp","gopher","http","https","mailto","nntp"]

def isHostChar (c : Char) : Bool := c.isAlphanum || "_@-.[]:".toList.contains c

def isPathChar (c : Char) : Bool := c.isAlphanum || "$'()*+&#=@~_/-[]\x7b\x7d%".toList.contains c

/-- May stand inside of an address but not at its end. -/
def isStop (c : Char) : Bool := ".,:;?!".toList.contains c

/-- How long the host of an address is; it ends with no stop. -/
def hostLength (length kept : Nat) : List Char → Nat
  | [] => kept
  | c::r => if isHostChar c then hostLength (length+1) (if isStop c then kept else length+1) r else kept

/-- How long the path of an address is. Brackets in it come in pairs. -/
def pathLength (awaited : List Char) (length kept : Nat) : List Char → Nat
  | [] => kept
  | c::r =>
    if isStop c then pathLength awaited (length+1) kept r
    else if !isPathChar c then kept
    else if c = '(' then pathLength (')'::awaited) (length+1) kept r
    else if c = '\x7b' then pathLength ('\x7d'::awaited) (length+1) kept r
    else if c = '[' then pathLength (']'::awaited) (length+1) kept r
    else if c = ')' ∨ c = '\x7d' ∨ c = ']' then
      match awaited with
      | o::os =>
        if o = c then pathLength os (length+1) (if os.isEmpty then length+1 else kept) r else kept
      | [] => kept
    else pathLength awaited (length+1) (if awaited.isEmpty then length+1 else kept) r

def addressLength? (cs : List Char) : Option Nat := do
  let scheme ← schemes.find? fun s => (s++"://").toList.isPrefixOf cs
  let start := scheme.length+3
  let rest := cs.drop start
  if rest.head?.any fun c => isHostChar c && !isStop c then
    let host := hostLength 1 1 rest.tail
    return start+host+pathLength [] 0 0 (rest.drop host)
  else none

def wordLength (cs : List Char) : Nat :=
  if cs.head?.any Char.isDigit then 0
  else (cs.takeWhile fun c => c == '_' || c.isDigit || Text.isLetter c).length

/-- How many characters make up so many bytes at least. -/
def charsFor : Nat → List Char → Nat
  | 0, _ => 0
  | _, [] => 0
  | n+1, c::r => 1+charsFor (n+1-c.utf8Size) r

/-- How many bytes are passed over where there are three back quotes: those, and as many as follow at twice the distance
from the start. -/
def backquotes (bytes : List UInt8) (place : Nat) : Nat :=
  3+((bytes.drop (2*place+3)).takeWhile (· == 0x60)).length

/-- A text in which two back quotes or apostrophes become quotation marks. Words and addresses stay as they are, unless
the text stands in brackets. Each step takes a character, so the length of the text is fuel enough. -/
def quoteMarks (inBrackets : Bool) (bytes : List UInt8) : Nat → Nat → List Char → List Char
  | 0, _, cs => cs
  | _, _, [] => []
  | fuel+1, place, c::r =>
    let keep (n : Nat) :=
      let kept := (c::r).take n
      kept++quoteMarks inBrackets bytes fuel (place+Utf8.size kept) ((c::r).drop n)
    match if inBrackets then none else addressLength? (c::r) with
    | some n => keep n
    | none =>
      if !inBrackets && wordLength (c::r) > 0 then keep (wordLength (c::r))
      else
        match c, r with
        | '\x60', '\x60':: '\x60'::_ => keep (charsFor (backquotes bytes place) (c::r))
        | '\x60', '\x60'::r => '“'::quoteMarks inBrackets bytes fuel (place+2) r
        | '\x27', '\x27'::r => '”'::quoteMarks inBrackets bytes fuel (place+2) r
        | _, _ => keep 1

def marked (inBrackets : Bool) (cs : List Char) : List Char :=
  quoteMarks inBrackets (cs.flatMap String.utf8EncodeChar) cs.length 0 cs

structure Link where
  name : List Char
  address : List Char
deriving DecidableEq, Repr

def link? (cs : List Char) : Option Link :=
  match cs with
  | '['::r => upToColon [] r
  | _ => none
where
  upToColon (name : List Char) : List Char → Option Link
    | ']':: ':'::r =>
      match r with
      | blank::c::r =>
        let address := Text.trim (c::r)
        if (blank = ' ' ∨ blank = '\t') ∧ schemes.any fun s => (s++"://").toList.isPrefixOf address then
          some ⟨name.reverse,address⟩
        else none
      | _ => none
    | c::r => upToColon (c::name) r
    | [] => none

structure LinkedText where
  done : List Char := []
  used : List (List Char) := []
  waiting : List Char := []
  /-- What was read since the last opening bracket, the latest first, if there is one. -/
  inner : Option (List Char) := none
  name : List Char := []

def LinkedText.read (links : List Link) (t : LinkedText) (c : Char) : LinkedText :=
  let waiting := c::t.waiting
  if c = '[' then {t with waiting, inner := some []}
  else if c = ']' then
    match t.inner with
    | none => {t with waiting, name := []}
    | some inner =>
      if links.any (·.name == t.name.reverse) then
        let before := (t.waiting.drop (inner.length+1)).reverse
        { done := t.done++marked false before ++ '['::marked true inner.reverse++[']']
          used := t.used++[t.name.reverse]}
      else {t with waiting, inner := none, name := []}
  else
    match t.inner with
    | none => {t with waiting}
    | some inner =>
      {t with waiting, inner := some (c::inner), name := (if c = '\n' ∨ c = '\t' then ' ' else c)::t.name}

def linkedText (links : List Link) (cs : List Char) : List Char × List (List Char) :=
  let t := cs.foldl (LinkedText.read links) {}
  (t.done++marked false t.waiting.reverse,t.used)

/-! ### Lines -/

def isIndentation (c : Char) : Bool := c == ' ' || c == '\t'

def isIndented (line : List Char) : Bool := line.head?.any isIndentation

def commonStart : List Char → List Char → List Char
  | a::as, b::bs => if a = b then a::commonStart as bs else []
  | _, _ => []

def trimEmpty (lines : List (List Char)) : List (List Char) :=
  ((lines.dropWhile List.isEmpty).reverse.dropWhile List.isEmpty).reverse

def unindent (lines : List (List Char)) : List (List Char) :=
  match trimEmpty lines with
  | [] => []
  | first::rest =>
    let shared := rest.foldl (fun shared line =>
      if line.isEmpty then shared else commonStart shared (line.takeWhile isIndentation)) (first.takeWhile isIndentation)
    trimEmpty ((first::rest).map fun line =>
      let line := if shared.isPrefixOf line then line.drop shared.length else line
      if (Text.trim line).isEmpty then [] else line)

/-- The number of a list item, nothing for a bullet, and the text behind it. -/
def item? (line : List Char) : Option (List Char × List Char) := do
  let (number,rest) ← match Text.trim line with
    | [] => none
    | c::r =>
      if ['•','*','+','-'].contains c then some ([],r)
      else
        match (c::r).span Char.isDigit with
        | ([],_) => none
        | (digits,stop::r) => if stop = '.' ∨ stop = ')' then some (digits,r) else none
        | _ => none
  if isIndented rest && !(Text.trim rest).isEmpty then return (number,rest) else none

def isItem (line : List Char) : Bool := (item? line).isSome

def isHeading (line : List Char) : Bool :=
  match line with
  | '#'::c::r => isIndentation c && !(Text.trim r).isEmpty
  | _ => false

/-- Every mark of a kind is followed by what it has to be. -/
def followed (mark : Char) (p : List Char → Bool) : List Char → Bool
  | [] => true
  | c::r => (c != mark || p r) && followed mark p r

/-- A line alone that looks like a heading: it starts with a capital and has no punctuation to speak of. -/
def looksLikeHeading (line : List Char) : Bool :=
  let line := Text.trim line
  line.head?.any (fun c => Text.isLetter c && Text.isUpper c) &&
    line.getLast?.any (fun c => Text.isLetter c || Text.isDecimalDigit c) &&
    !line.any (fun c => ";:!?+*/=[]\x7b\x7d_^°&§~%#@<\">\\".toList.contains c) &&
    followed '\x27' (fun r => r == ['s'] || "s ".toList.isPrefixOf r) line &&
    followed '.' (fun r => !r.isEmpty && r.head? != some ' ') line

/-! ### Spans of lines -/

inductive SpanKind where
  | code
  | list
  | heading
  | oldHeading
  | paragraph
deriving DecidableEq, Repr

structure Span where
  start : Nat
  finish : Nat
  kind : SpanKind
deriving DecidableEq, Repr

section
variable (lines : List (List Char))

def lineAt (i : Nat) : List Char := lines.getD i []

def pass (test : Nat → Bool) : Nat → Nat → Nat
  | 0, i => i
  | fuel+1, i => if i < lines.length && test i then pass test fuel (i+1) else i

/-- The last line up to here that the test does not hold for; not before the start. -/
def passBack (start : Nat) (test : Nat → Bool) : Nat → Nat
  | 0 => 0
  | i+1 => if i+1 > start && test i then passBack start test i else i+1

/-- Where lines end that are indented, or are to be treated so up to a line. -/
def indentedEnd (forced start : Nat) : Nat :=
  let isEmpty i := (lineAt lines i).isEmpty
  let firstEmpty := pass lines (fun i => !isEmpty i) lines.length (start+1)
  let mayBeList := isItem (lineAt lines start) && start < forced
  pass lines (fun i => isEmpty i || i < forced || isIndented (lineAt lines i) ||
    (mayBeList && i < firstEmpty && isItem (lineAt lines i))) lines.length (start+1)

def indentedSpan (forced start : Nat) : Span :=
  let finish := passBack start (fun i => (lineAt lines i).isEmpty) (indentedEnd lines forced start)
  let finish := if finish < lines.length && (lineAt lines finish).head? == some '\x7d' then finish+1 else finish
  ⟨start,finish,if isItem (lineAt lines start) then .list else .code⟩

def isOldHeading (i : Nat) : Bool :=
  0 < i && (lineAt lines (i-1)).isEmpty && i+2 < lines.length && (lineAt lines (i+1)).isEmpty &&
    !isIndented (lineAt lines (i+2)) && looksLikeHeading (lineAt lines i)

/-- Lines that are not indented, and up to which line more are to be treated as indented. -/
def plainSpan (forced start : Nat) : Span × Nat :=
  let finish := pass lines (fun i => !(lineAt lines i).isEmpty && !isIndented (lineAt lines i)) lines.length (start+1)
  let last := lineAt lines (finish-1)
  let (finish,forced) :=
    if finish < lines.length && !(lineAt lines finish).isEmpty && !isItem (lineAt lines finish) then
      if isItem last then (passBack start (fun i => isItem (lineAt lines i)) (finish-1),finish)
      else if last.getLast? = some '\x7b' ∨ last.getLast? = some '\\' then (finish-1,finish)
      else (finish,forced)
    else (finish,forced)
  let kind : SpanKind :=
    if finish = start+1 ∧ isHeading (lineAt lines start) then .heading
    else if finish = start+1 ∧ isOldHeading lines start then .oldHeading
    else .paragraph
  (⟨start,finish,kind⟩,forced)

/-- The spans from a line on. A line is looked at twice at most. -/
def spansFrom : Nat → Nat → Nat → List Span
  | 0, _, _ => []
  | fuel+1, forced, i =>
    if i ≥ lines.length then []
    else if (lineAt lines i).isEmpty then spansFrom fuel forced (i+1)
    else if i < forced || isIndented (lineAt lines i) then
      let s := indentedSpan lines forced i
      s::spansFrom fuel forced s.finish
    else
      let (s,forced) := plainSpan lines forced i
      if s.finish = s.start then spansFrom fuel forced i else s::spansFrom fuel forced s.finish

def spans : List Span := spansFrom lines (2*lines.length+1) 0 0

end

/-! ### Blocks -/

structure ListItem where
  number : List Char
  paragraphs : List (List Char)
deriving DecidableEq, Repr

inductive TextBlock where
  | paragraph (text : List Char)
  | heading (text : List Char)
  | code (lines : List (List Char))
  | list (blankBefore blankBetween : Bool) (items : List ListItem)
deriving DecidableEq, Repr

structure Body where
  blocks : List TextBlock := []
  links : List Link := []
deriving DecidableEq, Repr

def joinLines (lines : List (List Char)) : List Char := ['\n'].intercalate lines

def paragraphOrLinks (lines : List (List Char)) : Option (List Char) × List Link :=
  match lines.mapM link? with
  | some links => (none,links)
  | none => (some (joinLines lines),[])

structure ListReader where
  done : List ListItem := []
  item : Option ListItem := none
  lines : List (List Char) := []
  links : List Link := []
  blankBetween : Bool := false

namespace ListReader

def endParagraph (s : ListReader) : ListReader :=
  match s.item with
  | none => {s with lines := []}
  | some item =>
    let (p,links) := paragraphOrLinks s.lines
    {s with item := some {item with paragraphs := item.paragraphs++p.toList}, lines := [], links := s.links++links}

def line (isNumbered : Bool) (s : ListReader) (line : List Char) : ListReader :=
  let (s,line) := match item? line with
    | some (number,rest) =>
      if !number.isEmpty == isNumbered then
        let s := s.endParagraph
        ({s with done := s.done++s.item.toList, item := some ⟨number,[]⟩},rest)
      else (s,line)
    | none => (s,line)
  let text := Text.trim line
  if text.isEmpty then {s.endParagraph with blankBetween := true} else {s with lines := s.lines++[text]}

end ListReader

def listBlock (blankBefore : Bool) (lines : List (List Char)) : TextBlock × List Link :=
  let isNumbered := ((item? (lines.headD [])).map fun (number,_) => !number.isEmpty).getD false
  let s := (lines.foldl (ListReader.line isNumbered) {}).endParagraph
  let items := s.done++s.item.toList
  (.list blankBefore (s.blankBetween || items.any (·.paragraphs.length != 1)) items,s.links)

def blocksOf (lines : List (List Char)) (last : Nat) : List Span → Body
  | [] => {}
  | s::ss =>
    let own := (lines.drop s.start).take (s.finish-s.start)
    let (block,links) : Option TextBlock × List Link := match s.kind with
      | .code => (some (.code (unindent own)),[])
      | .list => let (b,links) := listBlock (last < s.start) own; (some b,links)
      | .heading => (some (.heading (Text.trim ((own.headD []).drop 1))),[])
      | .oldHeading => (some (.heading (Text.trim (own.headD []))),[])
      | .paragraph => let (p,links) := paragraphOrLinks own; (p.map .paragraph,links)
    let rest := blocksOf lines s.finish ss
    ⟨block.toList++rest.blocks,links++rest.links⟩

def bodyOf (cs : List Char) : Body :=
  let lines := unindent (Path.split '\n' cs)
  blocksOf lines 0 (spans lines)

/-! ### Layout -/

def fourBlanks : List Char := [' ',' ',' ',' ']

def indentLines (cs : List Char) : List Char :=
  cs.flatMap fun c => if c = '\n' then '\n'::fourBlanks else [c]

def itemLines (links : List Link) (i : ListItem) : List Char × List (List Char) :=
  let mark := ' '::(if i.number.isEmpty then [' ','-',' '] else i.number++['.',' '])
  let ps := i.paragraphs.map (linkedText links)
  (mark++('\n'::fourBlanks).intercalate (ps.map fun (cs,_) => indentLines cs++['\n']),ps.flatMap (·.2))

def blockLines (links : List Link) : TextBlock → List Char × List (List Char)
  | .paragraph cs => let (cs,used) := linkedText links cs; (cs++['\n'],used)
  | .heading cs => ('#':: ' '::cs++['\n'],[])
  | .code lines => (lines.flatMap fun l => (if l.isEmpty then [] else '\t'::l)++['\n'],[])
  | .list _ blankBetween items =>
    let items := items.map (itemLines links)
    ((if blankBetween then ['\n'] else []).intercalate (items.map (·.1)),items.flatMap (·.2))

def TextBlock.hasBlankBefore : TextBlock → Bool
  | list blankBefore blankBetween _ => blankBefore || blankBetween
  | _ => true

def linkLines (links : List Link) : List Char :=
  if links.isEmpty then []
  else '\n'::links.flatMap fun l => '['::l.name ++ ']':: ':':: ' '::l.address++['\n']

/-- Only the first of links with one name counts. -/
def isUsed (links : List Link) (used : List (List Char)) (i : Nat) (l : Link) : Bool :=
  used.contains l.name && !(links.take i).any (·.name == l.name)

def Body.render (t : Body) : List Char :=
  let blocks := t.blocks.map fun b => (b.hasBlankBefore,blockLines t.links b)
  let used := blocks.flatMap (·.2.2)
  let body := blocks.zipIdx.flatMap fun ((blank,cs,_),i) => if i > 0 && blank then '\n'::cs else cs
  let links := t.links.zipIdx
  let (first,second) := links.partition fun (l,i) => isUsed t.links used i l
  body++linkLines (first.map (·.1))++linkLines (second.map (·.1))

end InfoObject.GoSource.Documentation
