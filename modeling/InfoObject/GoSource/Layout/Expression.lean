import InfoObject.GoSource.Layout.Token
import InfoObject.GoSource.Reading.Declaration

/-! Laying out expressions and types. -/
namespace InfoObject.GoSource

open Layout

structure Layouts where
  /-- An expression between operators that bind so tight, at a depth. -/
  expression : Expr → Nat → Nat → Layout Unit
  statement : Stmt → Bool → Layout Unit

/-! ### Sizes -/

/-- What is counted of an output: white space at the end of a line is not. -/
structure Counter where
  inLiteral : Bool := false
  waiting : Nat := 0
  size : Nat := 0
  hasLineEnd : Bool := false

def Counter.count (s : Counter) (c : Option Char) : Counter :=
  match c with
  | none =>
    if s.inLiteral then {s with inLiteral := false}
    else {s with inLiteral := true, size := s.size+s.waiting, waiting := 0}
  | some c =>
    let isEnd := c == '\n' || c == '\x0c'
    if s.inLiteral then {s with size := s.size+c.utf8Size, hasLineEnd := s.hasLineEnd || isEnd}
    else if isEnd then {s with waiting := 0, size := s.size+1, hasLineEnd := true}
    else if c = ' ' ∨ c = '\t' ∨ c = '\x0b' then {s with waiting := s.waiting+1}
    else {s with size := s.size+s.waiting+c.utf8Size, waiting := 0}

namespace Layout

/-- The size of a part that is laid out alone, or one more than the limit if it does not fit on a line. -/
def sizeOf (part : Layout Unit) (indent key limit : Nat) : Layout Nat := do
  let s ← get
  match s.sizes.find? (·.1 == key) with
  | some (_,size) => return size
  | none =>
    let fresh : Pen := {starts := s.starts, size := s.size, indent, takesOwnComments := true, sizes := s.sizes}
    let whole : Layout Unit := do
      part
      modify fun s => {s with mayEnd := false}
      let _ ← flush .finish ""
    let (_,t) := whole.run fresh
    let c := t.output.foldl Counter.count {}
    let size := if c.hasLineEnd || c.size > limit then limit+1 else c.size
    modify fun s => {s with sizes := (key,size)::t.sizes}
    return size

/-- The size of the comments before a place, each with those that are written with it. -/
def commentSizeBefore (p : Place) : Layout Nat := do
  let s ← get
  let before := s.comments.takeWhile fun g =>
    (g.head?.map (·.place.offset)).getD 0 < p.offset && (!s.mayEnd || !groupEndsLine g)
  return before.flatten.foldl (fun n c => n+c.text.utf8ByteSize) 0

end Layout

/-! ### Operators -/

/-- Operators and operands that blanks keep apart: whether some bind at four or five, and what has to be kept apart. -/
structure Spacing where
  has4 : Bool := false
  has5 : Bool := false
  problem : Nat := 0

def Spacing.merge (a b : Spacing) : Spacing := ⟨a.has4 || b.has4,a.has5 || b.has5,max a.problem b.problem⟩

def spacing : Expr → Spacing
  | .binary x _ operator y =>
    let p := precedence operator
    let own : Spacing := ⟨p == 4,p == 5,0⟩
    let left : Spacing := match x with
      | .binary _ _ inner _ => if precedence inner < p then {} else spacing x
      | _ => {}
    let right : Spacing := match y with
      | .binary _ _ inner _ => if precedence inner ≤ p then {} else spacing y
      | .star _ _ => if operator = "/" then ⟨false,false,5⟩ else {}
      | .unary _ inner _ =>
        if ["/*","&&","&^"].contains (operator++inner) then ⟨false,false,5⟩
        else if ["++","--"].contains (operator++inner) then ⟨false,false,4⟩
        else {}
      | _ => {}
    own.merge (left.merge right)
  | _ => {}

/-- Operators that bind less tight than this have blanks around them. -/
def cutoff (x : Expr) (depth : Nat) : Nat :=
  let s := spacing x
  if s.problem > 0 then s.problem+1
  else if s.has4 && s.has5 then (if depth = 1 then 5 else 4)
  else if depth = 1 then 6
  else 4

namespace Expr

def isBinary : Expr → Bool
  | binary _ _ _ _ => true
  | _ => false

def bindsAt (p : Nat) : Expr → Bool
  | binary _ _ operator _ => precedence operator == p
  | _ => false

def joinsName : Expr → Bool
  | star _ x => !x.isTypeOnly
  | binary x _ _ y => x.joinsName && !y.isTypeOnly
  | parens _ x _ => !x.isTypeOnly
  | _ => false

end Expr

def lowest : Nat := 0

def unaryPrecedence : Nat := 6

def highest : Nat := 7

namespace Layouts

variable (r : Layouts)

def expr0 (x : Expr) (depth : Nat) : Layout Unit := r.expression x lowest depth

def expr (x : Expr) : Layout Unit := r.expr0 x 1

/-- Expressions with commas between them, on the lines that the source has them on. With a comma at the end of the last line
if one may stand there. -/
def exprList (prev : Place) (list : List Expr) (depth : Nat) (endsWithComma indents : Bool) (next : Place) : Layout Unit := do
  match list with
  | [] => return
  | first::_ =>
    let line := first.start.line
    let lastLine := (list.getLastD first).finish.line
    if prev.isSome && prev.line == line && line == lastLine then
      list.zipIdx.forM fun (x,i) => do
        if i > 0 then
          tokenAt x.start ","
          gap .blank
        r.expr0 x depth
    else
      let mut before : Gap := if indents then .indent else .ignored
      if prev.isSome && decide (prev.line < line) then
        if ← lineBreak line 0 before true then before := .ignored
      let mut prevLine := prev.line
      for (x,i) in list.zipIdx do
        let line := x.start.line
        let breaks := decide (0 < prevLine) && decide (prevLine < line)
        if i > 0 then
          if !breaks then setPlace x.start
          token ","
          if breaks then
            if ← lineBreak line 0 before true then before := .ignored else gap .blank
          else gap .blank
        r.expr0 x depth
        prevLine := line
      let unindents := indents && before == .ignored
      if endsWithComma && next.isSome && decide ((← get).place.line < next.line) then
        token ","
        if unindents then gap .unindent
        gap .sectionEnd
      else if unindents then gap .unindent

def identList (names : List Ident) (indents : Bool) : Layout Unit :=
  r.exprList .none (names.map .ident) 1 false indents .none

def parameters (fields : FieldList) (opening close : String) (ofType : Bool) : Layout Unit := do
  tokenAt fields.left opening
  if !fields.fields.isEmpty then
    let mut prevLine := fields.left.line
    let mut before : Gap := .indent
    for (f,i) in fields.fields.zipIdx do
      let line := f.start.line
      let breaks := decide (0 < prevLine) && decide (prevLine < line)
      if i > 0 then
        if !breaks then setPlace f.start
        token ","
      let broke ← if breaks then lineBreak line 0 before true else pure false
      if broke then before := .ignored else if i > 0 then gap .blank
      if !f.names.isEmpty then
        r.identList f.names (before == .indent)
        gap .blank
      r.expr f.type.bare
      prevLine := f.finish.line
    let close := fields.right.line
    if 0 < prevLine ∧ prevLine < close then
      token ","
      let _ ← lineBreak close 0 .ignored true
    else if ofType ∧ fields.count = 1 ∧ (fields.fields.head?.any (·.type.bare.joinsName)) = true then token ","
    if before = .ignored then gap .unindent
  tokenAt fields.right close

/-- What a function takes and gives. A single result without a name stands without parentheses. -/
def signature : Signature → Layout Unit
  | .mk _ typeParameters parameters results => do
    match typeParameters with
    | some fs => r.parameters fs "[" "]" false
    | none => pure ()
    r.parameters parameters "(" ")" false
    match results with
    | none => pure ()
    | some fs =>
      if fs.count > 0 then
        gap .blank
        match fs.count, fs.fields with
        | 1, [.mk _ [] type _ _] => r.expr type.bare
        | _, _ => r.parameters fs "(" ")" false

def maxFieldSize : Nat := 30

/-- Whether fields are few and short enough for a line: one, without a tag or comment. -/
def fitOnLine (fields : List Field) : Layout Bool := do
  match fields with
  | [f] =>
    if f.tag.isSome || !f.comment.isEmpty then return false
    let size ← sizeOf (r.expr f.type) 0 (2*f.type.start.offset+1) maxFieldSize
    return (if f.names.isEmpty then 0 else 1)+size ≤ maxFieldSize
  | _ => return false

def member (f : Field) : Layout Unit := do
  match f.names, f.type with
  | x::_, .funcType t => do
    r.expr (.ident x)
    r.signature t
  | _, t => r.expr t

def structField (isOnly : Bool) (f : Field) : Layout Unit := do
  let separator : Gap := if isOnly then .blank else .tab
  setComment f.doc
  if !f.names.isEmpty then
    r.identList f.names false
    gap separator
  r.expr f.type
  match f.tag with
  | some (p,text) =>
    if !f.names.isEmpty && !isOnly then gap separator
    gap separator
    setPlace p
    literal .string text
  | none => pure ()
  if !f.comment.isEmpty then
    let tabs := if f.tag.isSome then 0 else if f.names.isEmpty then 2 else 1
    (List.range tabs).forM fun _ => gap separator
    setComment f.comment

def fieldList (fields : FieldList) (isStruct : Bool) : Layout Unit := do
  let list := fields.fields
  let hasComments ← isCommentBefore fields.right
  let onOneLine ←
    if !hasComments && fields.left.line == fields.right.line then
      if list.isEmpty then pure true else r.fitOnLine list
    else pure false
  if onOneLine then
    tokenAt fields.left "\x7b"
    match list with
    | f::_ =>
      gap .blank
      if isStruct then
        f.names.zipIdx.forM fun (x,i) => do
          if i > 0 then
            token ","
            gap .blank
          r.expr (.ident x)
        if !f.names.isEmpty then gap .blank
        r.expr f.type
      else r.member f
      gap .blank
    | [] => pure ()
    tokenAt fields.right "\x7d"
  else
    gap .blank
    tokenAt fields.left "\x7b"
    gap .indent
    if hasComments || !list.isEmpty then gap .sectionEnd
    list.zipIdx.forM fun (f,i) => do
      if i > 0 then
        let _ ← lineBreak f.start.line 1 .ignored false
      if isStruct then r.structField (list.length == 1) f
      else
        setComment f.doc
        r.member f
        setComment f.comment
    gap .unindent
    gap .sectionEnd
    tokenAt fields.right "\x7d"

def binary (x : Expr) (place : Place) (operator : String) (y : Expr) (prec cut depth : Nat) : Layout Unit := do
  let own := precedence operator
  if own < prec then
    token "("
    r.expr0 (.binary x place operator y) (max (depth-1) 1)
    token ")"
  else
    let blanks := decide (own < cut)
    r.expression x own (depth+if x.bindsAt own then 0 else 1)
    if blanks then gap .blank
    let line := (← get).place.line
    let nextLine := y.start.line
    tokenAt place operator
    let broke ← if line != nextLine && line > 0 && nextLine > 0 then lineBreak nextLine 1 .indent true else pure false
    if blanks && !broke then gap .blank
    r.expression y (own+1) (depth+1)
    if broke then gap .unindent

/-- A part of something. Whether it stands on a line of its own, which stays indented for what is called there. -/
def selector (x : Expr) (part : Ident) (depth : Nat) (isCalled : Bool) : Layout Bool := do
  r.expression x highest depth
  token "."
  if (← get).place.line < part.place.line then
    gap .indent
    gap .newline
    setPlace part.place
    Layout.ident part
    if !isCalled then gap .unindent
    return true
  else
    setPlace part.place
    Layout.ident part
    return false

def call (f : Expr) (left : Place) (arguments : List Expr) (dots right : Place) (depth : Nat) : Layout Unit := do
  let depth := if arguments.length > 1 then depth+1 else depth
  let inParens := match f with
    | .funcType _ => true
    | .chan _ _ .receive _ => true
    | _ => false
  if inParens then token "("
  let indented ← match f with
    | .selector x part => r.selector x part depth true
    | f => do
      r.expression f highest depth
      pure false
  if inParens then token ")"
  tokenAt left "("
  if dots.isSome then
    r.exprList left arguments depth false true dots
    tokenAt dots "..."
    if dots.line < right.line then
      token ","
      gap .sectionEnd
  else r.exprList left arguments depth true true right
  tokenAt right ")"
  if indented then gap .unindent

def slice (x : Expr) (left : Place) (low high max : Option Expr) (right : Place) (depth : Nat) : Layout Unit := do
  r.expression x highest 1
  tokenAt left "["
  let ends := [low,high]++(match max with
    | some m => [some m]
    | none => [])
  let given := ends.filterMap id
  let blanks := depth ≤ 1 && given.length > 1 && given.any Expr.isBinary
  ends.zipIdx.forM fun (x,i) => do
    if i > 0 then
      if blanks && ((ends.getD (i-1) none).isSome) then gap .blank
      token ":"
      if blanks && x.isSome then gap .blank
    match x with
    | some x => r.expr0 x (depth+1)
    | none => pure ()
  tokenAt right "]"

def composite (type : Option Expr) (left : Place) (elements : List Expr) (right : Place) (depth : Nat) : Layout Unit := do
  match type with
  | some t => r.expression t highest depth
  | none => pure ()
  modify fun s => {s with level := s.level+1}
  tokenAt left "\x7b"
  r.exprList left elements 1 true true right
  gap .indent
  gap .unindent
  toggle (!elements.isEmpty)
  tokenAt right "\x7d"
  toggle (!elements.isEmpty)
  modify fun s => {s with level := s.level-1}

def maxBodySize : Nat := 100

def Stmt.sizeKey (s : Stmt) : Nat := 2*s.start.offset

def Stmt.isLabeled : Stmt → Bool
  | .labeled _ _ _ => true
  | _ => false

def bodySize (b : Block) : Layout Nat := do
  if b.left.line != b.right.line || b.statements.length > 5 then return maxBodySize+1
  let mut size ← commentSizeBefore b.right
  for (s,i) in b.statements.zipIdx do
    if size ≤ maxBodySize then
      let own ← sizeOf (r.statement s false) (if Stmt.isLabeled s then 1 else 0) (Stmt.sizeKey s) maxBodySize
      size := size+(if i > 0 then 2 else 0)+own
  return size

/-- Statements, each on a line of its own; empty ones are left out. -/
def statements (list : List Stmt) (indents beforeBrace : Bool) : Layout Unit := do
  if indents then gap .indent
  let shown := list.filter fun
    | .empty _ _ => false
    | _ => true
  shown.zipIdx.forM fun (s,i) => do
    if !(← get).output.isEmpty then
      let _ ← lineBreak s.start.line 1 .ignored true
    r.statement s (beforeBrace && i+1 == list.length)
  if indents then gap .unindent

/-- A block, which takes two lines at least. -/
def block (b : Block) (indents : Bool) : Layout Unit := do
  tokenAt b.left "\x7b"
  r.statements b.statements indents true
  let _ ← lineBreak b.right.line 1 .ignored true
  tokenAt b.right "\x7d"

/-- The body of a function behind a header of a size; on one line if it was so and fits there. -/
def body (headerSize : Nat) (separator : Gap) (b : Block) : Layout Unit := do
  let level := (← get).level
  modify fun s => {s with level := 0}
  let size ← r.bodySize b
  if headerSize+size ≤ maxBodySize then
    gap separator
    tokenAt b.left "\x7b"
    if !b.statements.isEmpty then
      gap .blank
      b.statements.zipIdx.forM fun (s,i) => do
        if i > 0 then
          token ";"
          gap .blank
        r.statement s (i+1 == b.statements.length)
      gap .blank
    toggle false
    tokenAt b.right "\x7d"
    toggle false
  else
    gap .blank
    r.block b true
  modify fun s => {s with level}

def distance (start : Place) (column : Int) : Layout Nat := do
  let s ← get
  if start.isSome && start.line == s.place.line then return (s.column-column).toNat else return maxBodySize+1

def function (type : Signature) (b : Block) : Layout Unit := do
  tokenAt type.place "func"
  let column := (← get).column-4
  r.signature type
  r.body (← distance type.place column) .blank b

def expressionStep (x : Expr) (prec depth : Nat) : Layout Unit := do
  setPlace x.start
  match x with
  | .ident x => Layout.ident x
  | .literal _ kind text =>
    let isNumber := kind == .int || kind == .float || kind == .imaginary
    literal kind (if isNumber then String.ofList (spellNumber text.toList) else text)
  | .dots _ item =>
    token "..."
    match item with
    | some t => r.expr t
    | none => pure ()
  | .function type b => r.function type b
  | .composite type left elements right => r.composite type left elements right depth
  | .parens _ inner right =>
    if inner.isParens then r.expr0 inner depth
    else
      token "("
      r.expr0 inner (max (depth-1) 1)
      tokenAt right ")"
  | .selector x part =>
    let _ ← r.selector x part depth false
  | .index x left indices right =>
    r.expression x highest 1
    tokenAt left "["
    match indices with
    | [i] => r.expr0 i (depth+1)
    | indices => r.exprList left indices (depth+1) true true right
    tokenAt right "]"
  | .slice x left low high max right => r.slice x left low high max right depth
  | .assertion x left type right =>
    r.expression x highest depth
    token "."
    tokenAt left "("
    match type with
    | some t => r.expr t
    | none => token "type"
    tokenAt right ")"
  | .call f left arguments dots right => r.call f left arguments dots right depth
  | .star _ x =>
    if unaryPrecedence < prec then
      token "("
      token "*"
      r.expr x
      token ")"
    else
      token "*"
      r.expr x
  | .unary p operator x =>
    if unaryPrecedence < prec then
      token "("
      r.expr (.unary p operator x)
      token ")"
    else
      token operator
      r.expression x unaryPrecedence depth
  | .binary a place operator b => r.binary a place operator b prec (cutoff x depth) depth
  | .keyed key colon value =>
    r.expr key
    tokenAt colon ":"
    gap .tab
    r.expr value
  | .array _ length item =>
    token "["
    match length with
    | some n => r.expr n
    | none => pure ()
    token "]"
    r.expr item
  | .struct _ fields =>
    token "struct"
    r.fieldList fields true
  | .funcType type =>
    token "func"
    r.signature type
  | .interface _ members =>
    token "interface"
    r.fieldList members false
  | .map _ key value =>
    token "map"
    token "["
    r.expr key
    token "]"
    r.expr value
  | .chan _ arrow direction value =>
    match direction with
    | .both => token "chan"
    | .receive =>
      token "<-"
      token "chan"
    | .send =>
      token "chan"
      tokenAt arrow "<-"
    gap .blank
    r.expr value

end Layouts

end InfoObject.GoSource
