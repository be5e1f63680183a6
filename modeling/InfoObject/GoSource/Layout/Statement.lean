import InfoObject.GoSource.Layout.Expression

/-! Laying out statements and declarations. -/
namespace InfoObject.GoSource

open Layout

/-! ### Parentheses around a condition -/

namespace FieldList

def types (fs : FieldList) : List Expr := fs.fields.map Field.type

end FieldList

abbrev Parts := List (Expr ⊕ Stmt)

def Parts.of (xs : List Expr) (ss : List Stmt) : Parts := xs.map .inl++ss.map .inr

def Signature.parts : Signature → Parts
  | mk _ typeParameters parameters results =>
    Parts.of ((typeParameters.map FieldList.types).getD []++parameters.types++(results.map FieldList.types).getD []) []

def Expr.parts : Expr → Parts
  | ident _ => []
  | literal _ _ _ => []
  | dots _ item => Parts.of item.toList []
  | function type b => type.parts++Parts.of [] b.statements
  | composite type _ elements _ => Parts.of (type.toList++elements) []
  | parens _ x _ => Parts.of [x] []
  | selector x _ => Parts.of [x] []
  | index x _ indices _ => Parts.of (x::indices) []
  | slice x _ low high max _ => Parts.of (x::low.toList++high.toList++max.toList) []
  | assertion x _ type _ => Parts.of (x::type.toList) []
  | call f _ arguments _ _ => Parts.of (f::arguments) []
  | star _ x => Parts.of [x] []
  | unary _ _ x => Parts.of [x] []
  | binary x _ _ y => Parts.of [x,y] []
  | keyed key _ value => Parts.of [key,value] []
  | array _ length item => Parts.of (length.toList++[item]) []
  | struct _ fields => Parts.of fields.types []
  | funcType type => type.parts
  | interface _ members => Parts.of members.types []
  | map _ key value => Parts.of [key,value] []
  | chan _ _ _ value => Parts.of [value] []

def Spec.parts : Spec → Parts
  | imported _ _ _ _ => []
  | value _ _ t values _ => Parts.of (t.toList++values) []
  | type _ _ parameters _ t _ => Parts.of ((parameters.map FieldList.types).getD []++[t]) []

def Decl.parts : Decl → Parts
  | group _ _ _ _ specs _ => specs.flatMap Spec.parts
  | function _ receiver _ type body =>
    Parts.of ((receiver.map FieldList.types).getD []) []++type.parts++Parts.of [] ((body.map Block.statements).getD [])

def Stmt.parts : Stmt → Parts
  | declaration d => d.parts
  | empty _ _ => []
  | labeled _ _ s => Parts.of [] [s]
  | expression x => Parts.of [x] []
  | send c _ v => Parts.of [c,v] []
  | increment x _ _ => Parts.of [x] []
  | assign left _ _ right => Parts.of (left++right) []
  | go _ call => Parts.of [call] []
  | defer _ call => Parts.of [call] []
  | returns _ results => Parts.of results []
  | branch _ _ _ => []
  | block b => Parts.of [] b.statements
  | conditional _ start condition body otherwise =>
    Parts.of [condition] (start.toList++body.statements++otherwise.toList)
  | clause _ expressions _ body => Parts.of (expressions.getD []) body
  | switch _ start tag body => Parts.of tag.toList (start.toList++body.statements)
  | typeSwitch _ start question body => Parts.of [] (start.toList++question::body.statements)
  | communication _ c _ body => Parts.of [] (c.toList++body)
  | select _ body => Parts.of [] body.statements
  | loop _ start condition post body => Parts.of condition.toList (start.toList++post.toList++body.statements)
  | range _ key value _ _ x body => Parts.of (key.toList++value.toList++[x]) body.statements

def Expr.isTypeName : Expr → Bool
  | ident _ => true
  | selector x _ => x.isTypeName
  | _ => false

/-- Whether a literal of a named type stands outside of parentheses, so deep at most. -/
def showsLiteral : Nat → Expr ⊕ Stmt → Bool
  | 0, _ => false
  | depth+1, part =>
    match part with
    | .inl (.parens _ _ _) => false
    | .inl (.composite type _ _ _) => type.any Expr.isTypeName
    | .inl x => x.parts.any (showsLiteral depth)
    | .inr s => s.parts.any (showsLiteral depth)

/-- Without parentheses around it, unless they keep a literal from being taken for a block. -/
def Expr.unwrapped (depth : Nat) : Expr → Expr
  | parens left x right => if showsLiteral depth (.inl x) then .parens left x right else x.unwrapped depth
  | x => x

namespace Layouts

variable (r : Layouts)

/-- A condition; no part of the source is nested deeper than it is long. -/
def condition (x : Expr) : Layout Unit := do r.expr (x.unwrapped ((← get).size+1))

/-- The header of a statement. Semicolons stand in it only if it has more than a condition. -/
def controlClause (isLoop : Bool) (start : Option Stmt) (x : Option Expr) (post : Option Stmt) : Layout Unit := do
  gap .blank
  let condition : Layout Bool := do
    match x with
    | some x =>
      r.condition x
      return true
    | none => return false
  let statement (s : Option Stmt) : Layout Unit := do
    match s with
    | some s => r.statement s false
    | none => pure ()
  let needsBlank ←
    if start.isNone && post.isNone then condition
    else do
      statement start
      token ";"
      gap .blank
      let given ← condition
      if isLoop then
        token ";"
        gap .blank
        statement post
        pure post.isSome
      else pure given
  if needsBlank then gap .blank

/-- Whether a list looks better with all of it indented: several elements take more than a line, or one starts on another
line than the one before ends on. -/
def looksIndented (list : List Expr) : Bool :=
  match list with
  | first::_::_ =>
    let b := first.start.line
    let e := (list.getLastD first).finish.line
    if 0 < b && b < e then
      let isLong := fun (x : Expr) => decide (x.start.line < x.finish.line)
      let (_,starts) := list.foldl (fun (line,starts) x => (x.finish.line,starts || line < x.start.line)) (b,false)
      starts || list.countP isLong > 1
    else false
  | _ => false

def labeled (label : Ident) (colon : Place) (s : Stmt) (beforeBrace : Bool) : Layout Unit := do
  gap .unindent
  r.expr (.ident label)
  tokenAt colon ":"
  gap .indent
  match s with
  | .empty p _ =>
    if !beforeBrace then
      gap .newline
      tokenAt p ";"
    else r.statement s beforeBrace
  | s =>
    let _ ← lineBreak s.start.line 1 .ignored true
    r.statement s beforeBrace

/-! ### Declarations -/

def valueSpec (keepsType : Bool) (doc : CommentGroup) (names : List Ident) (type : Option Expr) (values : List Expr)
    (comment : CommentGroup) : Layout Unit := do
  setComment doc
  r.identList names false
  if type.isSome || keepsType then gap .tab
  match type with
  | some t => r.expr t
  | none => pure ()
  if !values.isEmpty then
    gap .tab
    token "="
    gap .blank
    r.exprList .none values 1 false true .none
  if !comment.isEmpty then
    let tabs := 3-(if type.isSome || keepsType then 1 else 0)-(if values.isEmpty then 0 else 1)
    (List.range tabs).forM fun _ => gap .tab
    setComment comment

def spec (isOnly indents : Bool) (s : Spec) : Layout Unit := do
  match s with
  | .imported doc name (p,path) comment =>
    setComment doc
    match name with
    | some x =>
      r.expr (.ident x)
      gap .blank
    | none => pure ()
    r.expr (.literal p .string path)
    setComment comment
  | .value doc names type values comment =>
    setComment doc
    r.identList names indents
    match type with
    | some t =>
      gap .blank
      r.expr t
    | none => pure ()
    if !values.isEmpty then
      gap .blank
      token "="
      gap .blank
      r.exprList .none values 1 false true .none
    setComment comment
  | .type doc name parameters equals type comment =>
    setComment doc
    r.expr (.ident name)
    match parameters with
    | some fs => r.parameters fs "[" "]" true
    | none => pure ()
    gap (if isOnly then .blank else .tab)
    if equals.isSome then
      token "="
      gap .blank
    r.expr type
    setComment comment

def hasValues : Spec → Bool
  | .value _ _ _ values _ => !values.isEmpty
  | _ => false

def hasType : Spec → Bool
  | .value _ _ type _ _ => type.isSome
  | _ => false

/-- For each of several declarations, whether the column of types is kept: in a run of those with values where one has a
type. -/
def keptTypes (specs : List Spec) : List Bool :=
  specs.zipIdx.map fun (s,i) =>
    hasValues s &&
      (((specs.take i).reverse.takeWhile hasValues).any hasType || ((specs.drop i).takeWhile hasValues).any hasType)

def declaration : Decl → Layout Unit
  | .group doc place keyword left specs right => do
    setComment doc
    tokenAt place keyword
    gap .blank
    if left.isSome || specs.length != 1 then
      tokenAt left "("
      if !specs.isEmpty then
        gap .indent
        gap .sectionEnd
        let several := specs.length > 1 && (keyword == "const" || keyword == "var")
        (specs.zip (keptTypes specs)).zipIdx.forM fun ((s,keeps),i) => do
          if i > 0 then
            let _ ← lineBreak s.start.line 1 .ignored false
          match several, s with
          | true, .value doc names type values comment => r.valueSpec keeps doc names type values comment
          | _, s => r.spec (specs.length == 1) false s
        gap .unindent
        gap .sectionEnd
      tokenAt right ")"
    else specs.forM (r.spec true true)
  | .function doc receiver name type b => do
    setComment doc
    tokenAt type.place "func"
    gap .blank
    let column : Int := (← get).column-5
    match receiver with
    | some fs =>
      r.parameters fs "(" ")" false
      gap .blank
    | none => pure ()
    r.expr (.ident name)
    r.signature type
    match b with
    | some b => r.body (← distance type.place column) .tab b
    | none => pure ()

/-! ### Statements -/

def statementStep (s : Stmt) (beforeBrace : Bool) : Layout Unit := do
  setPlace s.start
  match s with
  | .declaration d => r.declaration d
  | .empty _ _ => pure ()
  | .labeled label colon s => r.labeled label colon s beforeBrace
  | .expression x => r.expr x
  | .send channel arrow value =>
    r.expr channel
    gap .blank
    tokenAt arrow "<-"
    gap .blank
    r.expr value
  | .increment x p operator =>
    r.expr0 x 2
    tokenAt p operator
  | .assign left p operator right =>
    let depth := if left.length > 1 ∧ right.length > 1 then 2 else 1
    r.exprList s.start left depth false true p
    gap .blank
    tokenAt p operator
    gap .blank
    r.exprList p right depth false true .none
  | .go _ call =>
    token "go"
    gap .blank
    r.expr call
  | .defer _ call =>
    token "defer"
    gap .blank
    r.expr call
  | .returns _ results =>
    token "return"
    if !results.isEmpty then
      gap .blank
      if looksIndented results then
        gap .indent
        r.exprList .none results 1 false false .none
        gap .unindent
      else r.exprList .none results 1 false true .none
  | .branch _ keyword label =>
    token keyword
    match label with
    | some x =>
      gap .blank
      r.expr (.ident x)
    | none => pure ()
  | .block b => r.block b true
  | .conditional _ start x b otherwise =>
    token "if"
    r.controlClause false start (some x) none
    r.block b true
    match otherwise with
    | some e =>
      gap .blank
      token "else"
      gap .blank
      r.statement e beforeBrace
    | none => pure ()
  | .clause p expressions colon b =>
    match expressions with
    | some xs =>
      token "case"
      gap .blank
      r.exprList p xs 1 false true colon
    | none => token "default"
    tokenAt colon ":"
    r.statements b true beforeBrace
  | .switch _ start tag b =>
    token "switch"
    r.controlClause false start tag none
    r.block b false
  | .typeSwitch _ start question b =>
    token "switch"
    match start with
    | some s =>
      gap .blank
      r.statement s false
      token ";"
    | none => pure ()
    gap .blank
    r.statement question false
    gap .blank
    r.block b false
  | .communication _ c colon b =>
    match c with
    | some c =>
      token "case"
      gap .blank
      r.statement c false
    | none => token "default"
    tokenAt colon ":"
    r.statements b true beforeBrace
  | .select _ b =>
    token "select"
    gap .blank
    if b.statements.isEmpty && !(← isCommentBefore b.right) then
      tokenAt b.left "\x7b"
      tokenAt b.right "\x7d"
    else r.block b false
  | .loop _ start x post b =>
    token "for"
    r.controlClause true start x post
    r.block b true
  | .range _ key value p operator x b =>
    token "for"
    gap .blank
    match key with
    | some k =>
      r.expr k
      match value with
      | some v =>
        setPlace v.start
        token ","
        gap .blank
        r.expr v
      | none => pure ()
      gap .blank
      tokenAt p operator
      gap .blank
    | none => pure ()
    token "range"
    gap .blank
    r.condition x
    gap .blank
    r.block b true

def ofDepth : Nat → Layouts
  | 0 => ⟨fun _ _ _ => pure (),fun _ _ => pure ()⟩
  | depth+1 =>
    let r := ofDepth depth
    ⟨r.expressionStep,r.statementStep⟩

end Layouts

end InfoObject.GoSource
