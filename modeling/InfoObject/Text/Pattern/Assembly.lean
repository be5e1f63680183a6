import InfoObject.Text.Pattern.Part

/-! How an expression is put together while it is read. Parts wait on a stack until the group or the branch that they are
in ends. Branches that start alike share what they start with. An expression that grows too large is refused on the way,
even if what is put together in the end is smaller. -/
namespace InfoObject.Pattern

/-- Repetition counts may not be greater, and neither may the product of counts one inside the other. -/
def maxRepeat : Nat := 1000

def maxHeight : Nat := 1000

def maxSize : Nat := 3355443

/-- How many numbers all parts that were ever put on the stack may be stored in. -/
def maxNumbers : Nat := 33554432

inductive Entry where
  | part (p : Part)
  | bar
  | group (captures : Bool) (flags : Flags)

def Entry.literal? : Entry → Option (Array Nat × Flags)
  | part (.leaf (.literal text flags)) => some (text,flags)
  | _ => none

def Entry.part? : Entry → Option Part
  | part p => some p
  | _ => none

def Entry.class? (e : Entry) : Option Leaf := e.part?.bind Part.class?

structure Builder where
  stack : List Entry := []
  flags : Flags := {}
  /-- How many parts were made, and how many of them are free to be used again. -/
  made : Nat := 0
  spare : Nat := 0
  numbers : Nat := 0
  repeats : Nat := 1
  /-- Whether sizes are looked at, which they are only once they could matter. -/
  isMeasured : Bool := false

abbrev Building := StateT Builder Option

def make : Building Unit :=
  modify fun b => if b.spare > 0 then {b with spare := b.spare-1} else {b with made := b.made+1}

def giveBack : Building Unit := modify fun b => {b with spare := b.spare+1}

def Entry.size : Entry → Nat
  | part p => p.measure.size
  | _ => 1

/-- The product of repetition counts, as far as it matters, with those of one more part. -/
def repeatsWith (repeats : Nat) : Part → Nat
  | .within (.times low high _) _ _ =>
    let n := max 1 (high.getD low)
    if n > maxSize/repeats then maxSize else repeats*n
  | _ => repeats

def checkSize (p : Part) : Building Unit := do
  let b ← get
  if !b.isMeasured then
    let repeats := repeatsWith b.repeats p
    set {b with repeats}
    if b.made < maxSize/repeats then return
    modify fun b => {b with isMeasured := true}
    guard (b.stack.all fun e => e.size ≤ maxSize)
  guard (p.measure.size ≤ maxSize)

def check (p : Part) : Building Unit := do
  guard ((← get).numbers ≤ maxNumbers)
  checkSize p
  guard (p.measure.height ≤ maxHeight)

/-- Joins the last two entries if they are literals. In their place the second of them becomes the next character, if one
is given; whether it did. -/
def join (next : Option (Nat × Flags)) : Building Bool := do
  match (← get).stack with
  | a::b::rest =>
    match a.literal?, b.literal? with
    | some (s,f), some (t,g) =>
      if f.ignoreCase = g.ignoreCase then
        let joined := Entry.part (.literal (t++s) g)
        match next with
        | some (c,flags) =>
          modify fun b => {b with stack := .part (.literal #[c] flags)::joined::rest}
          return true
        | none =>
          modify fun b => {b with stack := joined::rest}
          giveBack
          return false
      else return false
    | _, _ => return false
  | _ => return false

def put (e : Entry) : Building Unit := do
  modify fun b => {b with stack := e::b.stack}
  check (e.part?.getD (.leaf .empty))

def putChar (c : Nat) (flags : Flags) : Building Unit := do
  if !(← join (some (c,flags))) then put (.part (.literal #[c] flags))

def push (e : Entry) : Building Unit := do
  modify fun b => {b with numbers := b.numbers+(e.part?.elim 0 Part.numbers)}
  let flags := (← get).flags
  match e with
  | .part (.leaf (.charClass c)) =>
    match c.single?, c.pair? with
    | some c, _ => putChar c {flags with ignoreCase := false}
    | none, some c => putChar c {flags with ignoreCase := true}
    | none, none =>
      let _ ← join none
      put e
  | e =>
    let _ ← join none
    put e

def pushNew (e : Entry) : Building Unit := do
  make
  push e

def pushLeaf (l : Leaf) : Building Unit := pushNew (.part (.leaf l))

def pushLiteral (c : Nat) : Building Unit := do
  let flags := (← get).flags
  pushLeaf (.literal #[if flags.ignoreCase then foldedChar c else c] flags)

/-- A class of all characters, or of all but the newline, is known as such. -/
def Part.tidy : Part → Part
  | leaf (.charClass c) =>
    if c = {ranges := [(0,maxChar)]} then leaf .any
    else if c = {ranges := [(0,9),(11,maxChar)]} then leaf .anyButNewline
    else leaf (.charClass c)
  | p => p

def Leaf.toClass : Leaf → CharClass
  | literal text flags =>
    let r := (text.toList.map fun c => (c,c))
    .ofRanges (if flags.ignoreCase then r.flatMap foldedRange else r)
  | charClass c => c
  | _ => {}

def Leaf.holdsNewline : Leaf → Bool
  | literal text _ => text == #[10]
  | charClass c => c.holds 10
  | any => true
  | _ => false

def Leaf.ordered (a b : Leaf) : Leaf × Leaf := if b.rank?.getD 0 > a.rank?.getD 0 then (b,a) else (a,b)

def Leaf.merge (a b : Leaf) : Leaf :=
  match a with
  | any => any
  | anyButNewline => if b.holdsNewline then any else anyButNewline
  | charClass c => charClass (c.union b.toClass)
  | a => if a = b then a else charClass (a.toClass.union b.toClass)

def Part.leadingText : Part → Array Nat × Bool
  | leaf (.literal text flags) => (text,flags.ignoreCase)
  | sequence (leaf (.literal text flags)::_) _ => (text,flags.ignoreCase)
  | _ => (#[],false)

def commonLength : List Nat → List Nat → Nat
  | a::as, b::bs => if a = b then commonLength as bs+1 else 0
  | _, _ => 0

structure TextRun where
  parts : List Part
  text : List Nat
  ignoreCase : Bool

def textRuns : List Part → List TextRun
  | [] => []
  | p::ps =>
    let (text,ignoreCase) := p.leadingText
    extend ⟨[p],text.toList,ignoreCase⟩ ps
where
  extend (run : TextRun) : List Part → List TextRun
    | [] => [run]
    | p::ps =>
      let (text,ignoreCase) := p.leadingText
      let same := commonLength run.text text.toList
      if ignoreCase = run.ignoreCase ∧ same > 0 then
        extend {run with parts := run.parts++[p], text := run.text.take same} ps
      else run::extend ⟨[p],text.toList,ignoreCase⟩ ps

def dropText (n : Nat) : Part → Building Part
  | .leaf (.literal text flags) =>
    pure (if text.size ≤ n then .leaf .empty else .literal (text.extract n text.size) flags)
  | .sequence (.leaf (.literal text flags)::ps) _ => do
    if text.size ≤ n then
      giveBack
      match ps with
      | [] => return .leaf .empty
      | [p] =>
        giveBack
        return p
      | ps => return .sequenceOf ps
    else return .sequenceOf (.literal (text.extract n text.size) flags::ps)
  | p => pure p

def Part.leading? : Part → Option Part
  | leaf .empty => none
  | sequence (leaf .empty::_) _ => none
  | sequence (p::_) _ => some p
  | p => some p

/-- Literals are compared by their text alone. -/
def Leaf.mark : Leaf → Leaf
  | literal text _ => literal text {}
  | l => l

/-- What a class, or a class a fixed number of times, is told apart by. -/
def Part.leadMark? : Part → Option (Option Nat × Leaf)
  | leaf l => if l.isClass then some (none,l.mark) else none
  | within (.times low high isLazy) (leaf l) _ =>
    if high = some low ∧ l.isClass then some (some (2*low+if isLazy then 1 else 0),l.mark) else none
  | _ => none

def partRuns : List Part → List (List Part)
  | [] => []
  | p::ps => extend [p] (p.leading?.bind Part.leadMark?) ps
where
  extend (run : List Part) (mark : Option (Option Nat × Leaf)) : List Part → List (List Part)
    | [] => [run]
    | p::ps =>
      let next := p.leading?.bind Part.leadMark?
      if mark.isSome ∧ mark = next then extend (run++[p]) mark ps else run::extend [p] next ps

/-- A part without the part that it starts with, which is free unless it is kept. -/
def dropLeading (isKept : Bool) : Part → Building Part
  | .sequence (_::ps) _ => do
    if !isKept then giveBack
    match ps with
    | [] => return .leaf .empty
    | [p] =>
      giveBack
      return p
    | ps => return .sequenceOf ps
  | _ => do
    if !isKept then giveBack
    make
    return .leaf .empty

/-- Single characters and sets of them side by side become one set. -/
def mergeClasses : List Part → List (List Part × Option Leaf)
  | [] => []
  | p::ps =>
    match p.class?, mergeClasses ps with
    | some l, (parts,some _)::rest => (p::parts,some l)::rest
    | some l, rest => ([p],some l)::rest
    | none, rest => ([p],none)::rest

/-- The class of several: the first of the most complex ones, with the others merged into it in their order. -/
def mergedClass : List Leaf → Leaf
  | [] => .never
  | l::ls =>
    let weight (l : Leaf) : Nat × Nat := (l.rank?.getD 0,l.numbers)
    let isHeavier (a b : Leaf) : Bool :=
      decide ((weight b).1 < (weight a).1) || ((weight a).1 == (weight b).1 && decide ((weight b).2 < (weight a).2))
    let top := ls.foldl (fun m k => if isHeavier k m then k else m) l
    ((l::ls).erase top).foldl Leaf.merge top

def collapseClasses (parts : List Part) : Building (List Part) :=
  (mergeClasses parts).mapM fun (run,_) => do
    match run with
    | [p] => return p
    | run =>
      run.tail.forM fun _ => giveBack
      return (Part.leaf (mergedClass (run.filterMap Part.class?))).tidy

/-- Of empty branches side by side one is enough. -/
def dropEmpty : List Part → List Part
  | .leaf .empty::.leaf .empty::ps => dropEmpty (.leaf .empty::ps)
  | p::ps => p::dropEmpty ps
  | [] => []

/-- The parts without what they all start with, which the first of them keeps. -/
def dropEach (isKept : Bool) : List Part → Building (List Part)
  | [] => pure []
  | p::ps => do
    let p ← dropLeading isKept p
    check p
    return p::(← dropEach false ps)

mutual

/-- Branches with what they share factored out. Each level shortens them, so twice the length of the expression is fuel
enough. -/
def factored : Nat → List Part → Building (List Part)
  | 0, parts => pure parts
  | fuel+1, parts => do
    if parts.length < 2 then return parts
    let parts ← (textRuns parts).mapM fun run => do
      match run.parts with
      | [p] => return p
      | ps =>
        make
        let ps ← ps.mapM fun p => do
          let p ← dropText run.text.length p
          check p
          return p
        let rest ← choose fuel ps
        make
        return .sequenceOf [.literal run.text.toArray {ignoreCase := run.ignoreCase},rest]
    let parts ← (partRuns parts).mapM fun run => do
      match run with
      | p::q::ps =>
        let rest ← choose fuel (← dropEach true (p::q::ps))
        make
        return .sequenceOf [p.leading?.getD p,rest]
      | ps => return ps.headD (.leaf .empty)
    return dropEmpty (← collapseClasses parts)

/-- The choice between branches; choices among them are dissolved. -/
def choose : Nat → List Part → Building Part
  | 0, parts => pure (.choiceOf parts)
  | _+1, [p] => pure p
  | fuel+1, branches => do
    make
    let parts ← branches.mapM fun p => do
      match p with
      | .choice ps _ =>
        giveBack
        return ps
      | p => return [p]
    match ← factored fuel parts.flatten with
    | [p] =>
      giveBack
      return p
    | ps => return .choiceOf ps

end

def takeParts : Building (List Part) := do
  let stack := (← get).stack
  let parts := (stack.takeWhile fun e => e.part?.isSome).filterMap Entry.part?
  modify fun b => {b with stack := stack.drop parts.length}
  return parts.reverse

/-- Ends a branch: its parts become a sequence, in which sequences are dissolved. -/
def endBranch : Building Unit := do
  let _ ← join none
  match ← takeParts with
  | [] => pushLeaf .empty
  | [p] => push (.part p)
  | parts =>
    make
    let parts ← parts.mapM fun p => do
      match p with
      | .sequence ps _ =>
        giveBack
        return ps
      | p => return [p]
    push (.part (.sequenceOf parts.flatten))

/-- Brings the branch that has ended below the bar, or merges it with the branch before if both are sets of characters;
whether there is a bar. -/
def passBar : Building Bool := do
  match (← get).stack with
  | a::.bar::c::rest =>
    match a.class?, c.class? with
    | some x, some y =>
      let (x,y) := y.ordered x
      modify fun b => {b with stack := .bar::.part (.leaf (x.merge y))::rest}
      giveBack
    | _, _ =>
      let c := match c with
        | .part p => .part p.tidy
        | e => e
      modify fun b => {b with stack := .bar::a::c::rest}
    return true
  | [a,.bar] =>
    modify fun b => {b with stack := [.bar,a]}
    return true
  | _ => return false

def nextBranch : Building Unit := do
  endBranch
  if !(← passBar) then pushNew .bar

def endBranches (fuel : Nat) : Building Unit := do
  endBranch
  if ← passBar then modify fun b => {b with stack := b.stack.tail}
  let parts ← takeParts
  match parts.reverse with
  | [] => pushLeaf .never
  | last::before => push (.part (← choose fuel (before.reverse++[last.tidy])))

def openGroup (captures : Bool) : Building Unit := do
  pushNew (.group captures (← get).flags)

def closeGroup (fuel : Nat) : Building Unit := do
  endBranches fuel
  match (← get).stack with
  | .part p::.group captures flags::rest =>
    modify fun b => {b with stack := rest, flags}
    push (.part (if captures then p.wrap .capture else p))
  | _ => failure

/-- Only a part can be repeated. -/
def repeatLast (w : Wrapping) : Building Unit := do
  match (← get).stack with
  | .part p::rest =>
    let p := p.wrap w
    make
    modify fun b => {b with stack := .part p::rest}
    check p
    match w with
    | .times low high _ =>
      if low ≥ 2 || high.any (· ≥ 2) then guard (p.measure.factor ≤ maxRepeat)
    | _ => pure ()
  | _ => failure

def finish (fuel : Nat) : Building Unit := do
  endBranches fuel
  guard ((← get).stack.length = 1)

end InfoObject.Pattern
