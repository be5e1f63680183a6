import InfoObject.Yaml.Scalar

/-! From characters to tokens. Columns make blocks, and what stands before a colon turns out to be a key only when the
colon is reached. Anchors, tags, directives and block scalars are not read. -/
namespace InfoObject.Yaml

structure PendingKey where
  number : Nat
  index : Nat
  line : Nat
  column : Nat
  required : Bool
  possible : Bool := true
  awaited : Bool := true

def PendingKey.drop (k : PendingKey) : PendingKey := {k with possible := false, awaited := false}

structure Scanner where
  cursor : Cursor
  queue : List Token := [.streamStart]
  passed : Nat := 0
  /-- The first column that still belongs to the innermost block, and to the blocks around it. -/
  margin : Nat := 0
  margins : List Nat := []
  /-- What is pending in the innermost bracket that is open, or outside of all. -/
  pending : PendingKey
  outside : List PendingKey := []
  keyAllowed : Bool := true
  blocks : Nat := 0
  brackets : Nat := 0

abbrev Scanning := ExceptT Unit (StateM Scanner)

/-- Between a key and its colon there is room for so many characters. -/
def maxKey : Nat := 1024

def maxNesting : Nat := 10000

namespace Scanner

def inFlow (s : Scanner) : Bool := !s.outside.isEmpty

def nextNumber (s : Scanner) : Nat := s.passed+s.queue.length

def put (s : Scanner) (t : Token) : Scanner := {s with queue := s.queue++[t]}

/-- Puts a token before the one of that number, or behind all if that one was handed out. -/
def insert (s : Scanner) (number : Nat) (t : Token) : Scanner :=
  if number < s.passed then s.put t else {s with queue := s.queue.insertIdx (number-s.passed) t}

def roll (s : Scanner) (column number : Nat) (t : Token) : Scanner :=
  if !s.inFlow && s.margin ≤ column then
    {s.insert number t with margin := column+1, margins := s.margin::s.margins, blocks := s.blocks+1}
  else s

def unrollTo (margin : Nat) (s : Scanner) : List Nat → Scanner
  | [] => s
  | m::ms =>
    if s.margin > margin then
      unrollTo margin {s.put .blockEnd with margin := m, margins := ms, blocks := s.blocks-1} ms
    else s

def unroll (s : Scanner) (margin : Nat) : Scanner := if s.inFlow then s else unrollTo margin s s.margins

def isNear (s : Scanner) (k : PendingKey) : Bool := k.line == s.cursor.line && s.cursor.index ≤ k.index+maxKey

def openFlow (s : Scanner) : Scanner :=
  let p := s.cursor
  { s with
    outside := s.pending::s.outside, keyAllowed := true, brackets := s.brackets+1
    pending := { number := s.nextNumber, index := p.index, line := p.line, column := p.column, required := false
                 possible := false, awaited := false} }

/-- Without a key inside, the bracket itself does not wait any longer. -/
def closeFlow (s : Scanner) : Scanner :=
  match s.outside with
  | k::ks =>
    { s with
      pending := {k with awaited := k.awaited && k.number != s.pending.number}, outside := ks, keyAllowed := false
      brackets := s.brackets-1}
  | [] => {s with keyAllowed := false}

def afterToken (s : Scanner) (cursor : Cursor) : Scanner := {s with cursor := cursor.skipLineComment}

/-- To where the next token starts. Tabs may not indent what could be a key. In a text that starts with a byte order mark
the first character of each line counts as one. -/
def skipGap : Nat → Scanner → Scanner
  | 0, s => s
  | fuel+1, s =>
    if s.cursor.column = 0 ∧ s.cursor.isMarked then skipGap fuel {s with cursor := s.cursor.skip}
    else
      match s.cursor.rest with
      | [] => s
      | c::_ =>
        if c = ' ' ∨ (c = '\t' ∧ (s.inFlow || !s.keyAllowed)) then skipGap fuel {s with cursor := s.cursor.skip}
        else if c = '#' then skipGap fuel {s with cursor := s.cursor.skipComments s.cursor.rest.length}
        else if isBreak c then
          skipGap fuel {s with cursor := s.cursor.skipBreak, keyAllowed := s.keyAllowed || !s.inFlow}
        else s

end Scanner

open Scanner

def dropKey : Scanning Unit := do
  let k := (← get).pending
  if k.possible && k.required then throw ()
  modify fun s => {s with pending := k.drop}

/-- Whether a key is near enough to be one. If nothing else can stand there, it has to be. -/
def canBeKey (k : PendingKey) : Scanning Bool := do
  let isNear := (← get).isNear k
  if k.possible && k.required && !isNear then throw ()
  return k.possible && isNear

def saveKey : Scanning Unit := do
  let s ← get
  if s.keyAllowed then
    let p := s.cursor
    let required := !s.inFlow && s.margin == p.column+1
    dropKey
    modify fun s => {s with pending := ⟨s.nextNumber,p.index,p.line,p.column,required,true,true⟩}

def emit (t : Token) (width : Nat) : Scanning Unit :=
  modify fun s => (s.put t).afterToken (s.cursor.skipMany width)

def rollTo (column number : Nat) (t : Token) : Scanning Unit := do
  modify (·.roll column number t)
  if (← get).blocks > maxNesting then throw ()

def startBlock (t : Token) : Scanning Unit := do
  let s ← get
  if !s.inFlow then
    if !s.keyAllowed then throw ()
    rollTo s.cursor.column s.nextNumber t

def scanDash : Scanning Unit := do
  startBlock .blockList
  dropKey
  modify fun s => {s.put .dash with cursor := s.cursor.skip, keyAllowed := true}

def scanKey : Scanning Unit := do
  startBlock .blockMap
  dropKey
  modify fun s => {s with keyAllowed := !s.inFlow}
  emit .key 1

def scanValue : Scanning Unit := do
  let k := (← get).pending
  if ← canBeKey k then
    modify (·.insert k.number .key)
    rollTo k.column k.number .blockMap
    modify fun s => {s with pending := k.drop, keyAllowed := false}
  else
    modify fun s => {s with pending := k.drop}
    startBlock .blockMap
    modify fun s => {s with keyAllowed := !s.inFlow}
  emit .value 1

def scanScalar (isQuoted : Bool) (read : Option Folding × Cursor) : Scanning Unit := do
  modify fun s => {s with cursor := read.2, keyAllowed := false}
  match read.1 with
  | none => throw ()
  | some f =>
    modify fun s =>
      { s.put (.scalar (String.ofList f.text.reverse) isQuoted) with
        cursor := s.cursor.skipLineComment, keyAllowed := f.broken}

def scanNext : Scanning Unit := do
  modify fun s => s.skipGap (s.cursor.rest.length+1)
  modify fun s => {s with cursor := s.cursor.atToken}
  modify fun s => s.unroll (s.cursor.column+1)
  let s ← get
  let p := s.cursor
  if p.isCut && (p.rest.drop 3).isEmpty then throw ()
  match p.rest with
  | [] =>
    modify fun s => {s with cursor := {p with column := 0, line := if p.column = 0 then p.line else p.line+1} }
    modify (·.unroll 0)
    dropKey
    modify fun s => {s.put .streamEnd with keyAllowed := false}
  | c::r =>
    if p.atMark then
      modify (·.unroll 0)
      dropKey
      modify fun s =>
        {s.put (if c = '-' then .documentStart else .documentEnd) with cursor := p.skip.skip.skip, keyAllowed := false}
    else if p.column = 0 ∧ c = '%' then throw ()
    else if c = '[' ∨ c = '\x7b' then
      saveKey
      modify openFlow
      if (← get).brackets > maxNesting then throw ()
      emit (if c = '[' then .openList else .openMap) 1
    else if c = ']' ∨ c = '\x7d' then
      dropKey
      modify closeFlow
      emit (if c = ']' then .closeList else .closeMap) 1
    else if c = ',' then
      dropKey
      modify fun s => {s with keyAllowed := true}
      emit .comma 1
    else if c = '-' ∧ endsWord r.head? then scanDash
    else if c = '?' ∧ (s.inFlow || endsWord r.head?) then scanKey
    else if c = ':' ∧ (s.inFlow || endsWord r.head?) then scanValue
    else if c = '\x22' ∨ c = '\x27' then
      saveKey
      scanScalar true (quoted (c == '\x22') (r.length+1) {} p.skip)
    else if startsPlain s.inFlow c r.head? then
      saveKey
      scanScalar false (plain s.inFlow s.margin (r.length+2) false {} p)
    else throw ()

/-- Whether the first token of the queue can be handed out. It waits for two more, and if it may turn out to be a key it
waits for the colon. -/
def isSettled : Scanning Bool := do
  let s ← get
  if s.queue.length < 3 then return false
  match (s.pending::s.outside).find? fun k => k.awaited && k.number == s.passed with
  | none => return true
  | some k =>
    let waits ← canBeKey k
    if !waits then
      let drop := fun (other : PendingKey) => if other.awaited && other.number == k.number then other.drop else other
      modify fun s => {s with pending := drop s.pending, outside := s.outside.map drop}
    return !waits

/-- Hands out a token, or reads one more if the first cannot be handed out yet. -/
def scanStep : Scanning (Option Token) := do
  if ← isSettled then
    let s ← get
    set {s with queue := s.queue.tail, passed := s.passed+1}
    return s.queue.head?
  else
    scanNext
    return none

/-- The tokens handed out, up to the last of all or to a failure. -/
def scanAll : Nat → Scanner → List Token
  | 0, _ => []
  | fuel+1, s =>
    match scanStep.run s with
    | (.ok (some .streamEnd),_) => [.streamEnd]
    | (.ok (some t),s) => t::scanAll fuel s
    | (.ok none,s) => scanAll fuel s
    | (.error _,_) => []

/-- The tokens of a text, up to its end or to where they can no longer be told. A character gives at most four tokens, and
each is read and handed out, so ten steps for each character and the end are enough. -/
def scan (p : Cursor) : List Token :=
  let nowhere : PendingKey := ⟨0,0,0,0,false,false,false⟩
  (scanAll (10*p.rest.length+50) {cursor := p, pending := nowhere}).drop 1

end InfoObject.Yaml
