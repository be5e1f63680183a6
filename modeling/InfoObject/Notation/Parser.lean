import InfoObject.Notation.Cursor

/-! Reading modules, and the bodies of objects and object sets. Each function follows one rule of the grammar. -/
namespace InfoObject.Notation

open InfoObject.Notation.Parser

def sigil (s : Sigil) : Parser Span := do
  let (_,span) ← expect (·.kind == s.kind) (.expectedSigil s)
  pure span

theorem sigil_progresses (s : Sigil) : (sigil s).Progresses :=
  (expect_progresses _ _).bind fun _ => neverGrows_pure _

def Token.isWord (t : Token) (word : String) : Bool :=
  t.kind == .ident && String.ofList t.text == word

def keyword (word : String) : Parser Span := do
  let (_,span) ← expect (·.isWord word) (.expectedKeyword word)
  pure span

theorem keyword_progresses (word : String) : (keyword word).Progresses :=
  (expect_progresses _ _).bind fun _ => neverGrows_pure _

def atKeyword (word : String) : Parser Bool := do
  let t ← peek
  pure (t.isWord word)

theorem atKeyword_neverGrows (word : String) : (atKeyword word).NeverGrows :=
  peek_neverGrows.bind fun _ => neverGrows_pure _

def atKind (kind : TokenKind) : Parser Bool := do
  let t ← peek
  pure (t.kind == kind)

def optionalKeyword (word : String) : Parser (Option Span) := do
  if ← atKeyword word then
    let span ← keyword word
    pure (some span)
  else pure none

theorem optionalKeyword_neverGrows (word : String) : (optionalKeyword word).NeverGrows :=
  (atKeyword_neverGrows word).bind fun _ =>
    neverGrows_ite ((keyword_progresses word).neverGrows.bind fun _ => neverGrows_pure _)
      (neverGrows_pure _)

def ident : Parser Ident := do
  let (t,span) ← expect (·.kind == .ident) .expectedIdentifier
  pure ⟨String.ofList t.text,span⟩

theorem ident_progresses : ident.Progresses :=
  (expect_progresses _ _).bind fun _ => neverGrows_pure _

def reference : Parser Reference := do
  let first ← ident
  if ← accept .dot then
    let second ← ident
    pure ⟨some first,second⟩
  else pure ⟨none,first⟩

theorem reference_progresses : reference.Progresses :=
  ident_progresses.bind fun _ => (accept_neverGrows _).bind fun _ =>
    neverGrows_ite (ident_progresses.neverGrows.bind fun _ => neverGrows_pure _) (neverGrows_pure _)

/-! Literals -/

def digitsValue (ds : List Char) : Nat := ds.foldl (fun n d => n*10+(d.toNat - '0'.toNat)) 0

def intValue : List Char → Int
  | '-'::ds => -(digitsValue ds : Int)
  | ds => digitsValue ds

def inRange (n : Int) : Bool := -9223372036854775808 ≤ n && n < 9223372036854775808

def intLit : Parser IntLit := do
  let (t,span) ← expect (·.kind == .intLit) .expectedPayload
  if inRange (intValue t.text) then pure ⟨String.ofList t.text,intValue t.text,span⟩
  else throw ⟨.integerOutOfRange t.text,span⟩

theorem intLit_progresses : intLit.Progresses :=
  (expect_progresses _ _).bind fun _ => neverGrows_ite (neverGrows_pure _) (neverGrows_throw _)

def textLit : Parser TextLit := do
  let (t,span) ← expect (·.kind == .textLit) .expectedPayload
  pure ⟨t.text,span⟩

theorem textLit_progresses : textLit.Progresses :=
  (expect_progresses _ _).bind fun _ => neverGrows_pure _

/-! Raw blocks -/

def depthAfter (depth : Nat) (t : Token) : Nat :=
  match t.kind with
  | .openCurl => depth+1
  | .closeCurl => depth-1
  | _ => depth

def closeBlock (start : UInt32) (error : Option SyntaxError) :
    Nat → List Char → UInt32 → List Token → Except SyntaxError (List Char × Cursor)
  | _, _, offset, [] => .error (error.getD ⟨.unclosedBlock,⟨start,offset-start⟩⟩)
  | depth, done, offset, t::r =>
    if depthAfter depth t = 0 then
      .ok ((t.text.reverse++done).reverse,⟨r,offset+t.size.toUInt32,error⟩)
    else
      closeBlock start error (depthAfter depth t) (t.text.reverse++done) (offset+t.size.toUInt32) r

theorem closeBlock_length (start : UInt32) (error : Option SyntaxError) (depth : Nat) (done : List Char)
    (offset : UInt32) (ts : List Token) (text : List Char) (c : Cursor)
    (h : closeBlock start error depth done offset ts = .ok (text,c)) : c.rest.length < ts.length := by
  induction ts generalizing depth done offset with
  | nil => simp [closeBlock] at h
  | cons t r ih =>
    simp only [closeBlock] at h
    split at h
    · cases h
      exact Nat.lt_succ_self _
    · exact Nat.lt_succ_of_lt (ih _ _ _ h)

def rawBlock : Parser RawBlock := fun c =>
  match closeBlock c.skip.offset c.error 0 [] c.skip.offset c.skip.rest with
  | .ok (text,d) => .ok (⟨text,c.skip.offset⟩,d)
  | .error e => .error e

theorem rawBlock_progresses : rawBlock.Progresses := by
  intro c a c' h
  have hs := c.skip_length
  simp only [rawBlock] at h
  split at h
  · rename_i text d hd
    cases h
    exact Nat.lt_of_lt_of_le (closeBlock_length _ _ _ _ _ _ _ _ hd) hs
  · cases h

def payload : Parser Payload := do
  let t ← peek
  match t.kind with
  | .ident => Payload.reference <$> reference
  | .textLit => Payload.text <$> textLit
  | .openCurl => Payload.block <$> rawBlock
  | _ => Payload.int <$> intLit

theorem Parser.Progresses.map {α β : Type} {p : Parser α} (hp : p.Progresses) (f : α → β) : (f <$> p).Progresses := by
  intro c b c' h
  simp only [Functor.map,StateT.map] at h
  cases hv : p c with
  | error e => rw [hv] at h; cases h
  | ok v => rw [hv] at h; cases h; exact hp _ _ _ hv

theorem payload_progresses : payload.Progresses := by
  refine peek_neverGrows.bind_progresses fun t => ?_
  split
  · exact reference_progresses.map _
  · exact textLit_progresses.map _
  · exact rawBlock_progresses.map _
  · exact intLit_progresses.map _

/-! Lists -/

def notAt (kind : TokenKind) : Parser Bool := do
  let t ← peek
  pure (t.kind != kind)

theorem notAt_neverGrows (kind : TokenKind) : (notAt kind).NeverGrows :=
  peek_neverGrows.bind fun _ => neverGrows_pure _

/-- A separator that was read counts only if the end does not follow at once. -/
def moreAfter (separator : Parser Bool) (close : TokenKind) : Parser Bool := do
  if ← separator then notAt close else pure false

theorem moreAfter_neverGrows {separator : Parser Bool} (h : separator.NeverGrows) (close : TokenKind) :
    (moreAfter separator close).NeverGrows :=
  h.bind fun _ => neverGrows_ite (notAt_neverGrows close) (neverGrows_pure _)

/-- Items with separators between them, a last separator being allowed, up to the closing token. -/
def separated {α : Type} (separator : Parser Bool) (close : TokenKind) (item : Parser α)
    (hs : separator.NeverGrows) (hi : item.Progresses) : Parser (List α) := do
  if ← notAt close then
    let first ← item
    many (moreAfter separator close) item (moreAfter_neverGrows hs close) hi [first]
  else pure []

theorem separated_neverGrows {α : Type} (separator : Parser Bool) (close : TokenKind) (item : Parser α)
    (hs : separator.NeverGrows) (hi : item.Progresses) : (separated separator close item hs hi).NeverGrows :=
  (notAt_neverGrows close).bind fun _ =>
    neverGrows_ite (hi.neverGrows.bind fun _ => many_neverGrows _ _ _ _ _) (neverGrows_pure _)

/-! Classes -/

def isFieldWord (t : Token) : Bool :=
  t.isWord "UNIQUE" || t.isWord "OPTIONAL" || t.isWord "DEFAULT"

def fieldGovernor : Parser (Option Reference) := do
  let t ← peek
  if t.kind = .ident ∧ isFieldWord t = false then some <$> reference else pure none

theorem fieldGovernor_neverGrows : fieldGovernor.NeverGrows :=
  peek_neverGrows.bind fun _ =>
    neverGrows_ite (reference_progresses.map _).neverGrows (neverGrows_pure _)

def fieldDefault (optional : Bool) : Parser (Option Payload) :=
  if optional then pure none
  else do
    if (← optionalKeyword "DEFAULT").isSome then some <$> payload else pure none

theorem fieldDefault_neverGrows (optional : Bool) : (fieldDefault optional).NeverGrows :=
  neverGrows_ite (neverGrows_pure _) ((optionalKeyword_neverGrows _).bind fun _ =>
    neverGrows_ite (payload_progresses.map _).neverGrows (neverGrows_pure _))

def fieldEnd (name : Ident) (governor : Option Reference) (unique optional : Option Span) (default : Option Payload) : Span :=
  (default.map Payload.span <|> optional <|> unique <|> governor.map Reference.span).getD name.span

def fieldRest (start : Span) (name : Ident) : Parser FieldDecl := do
  let governor ← fieldGovernor
  let unique ← optionalKeyword "UNIQUE"
  let optional ← optionalKeyword "OPTIONAL"
  let default ← fieldDefault optional.isSome
  pure ⟨name,governor,unique.isSome,optional.isSome,default,
    start.through (fieldEnd name governor unique optional default)⟩

theorem fieldRest_neverGrows (start : Span) (name : Ident) : (fieldRest start name).NeverGrows :=
  fieldGovernor_neverGrows.bind fun _ => (optionalKeyword_neverGrows _).bind fun _ =>
    (optionalKeyword_neverGrows _).bind fun _ =>
      (fieldDefault_neverGrows _).bind fun _ => neverGrows_pure _

def fieldDecl : Parser FieldDecl := do
  let start ← sigil .amp
  let name ← ident
  fieldRest start name

theorem fieldDecl_progresses : fieldDecl.Progresses :=
  (sigil_progresses _).bind fun _ => ident_progresses.neverGrows.bind fun _ => fieldRest_neverGrows _ _

def classBody : Parser Assigned := do
  let start ← keyword "CLASS"
  let _ ← sigil .openCurl
  let fields ← separated (accept .comma) .closeCurl fieldDecl (accept_neverGrows _) fieldDecl_progresses
  let stop ← sigil .closeCurl
  pure (.classBody fields (start.through stop))

def classOf : Parser Assigned := do
  let start ← keyword "CLASS-OF"
  let _ ← sigil .openParen
  let object ← reference
  let stop ← sigil .closeParen
  pure (.classOf object (start.through stop))

/-! Assignments and modules -/

def assigned : Parser Assigned := do
  let t ← peek
  if t.isWord "CLASS" then classBody
  else if t.isWord "CLASS-OF" then classOf
  else Assigned.payload <$> payload

theorem assigned_progresses : assigned.Progresses := by
  refine peek_neverGrows.bind_progresses fun t => progresses_ite ?_ (progresses_ite ?_ ?_)
  · exact (keyword_progresses _).bind fun _ => (sigil_progresses _).neverGrows.bind fun _ =>
      (separated_neverGrows _ _ _ _ _).bind fun _ => (sigil_progresses _).neverGrows.bind fun _ =>
        neverGrows_pure _
  · exact (keyword_progresses _).bind fun _ => (sigil_progresses _).neverGrows.bind fun _ =>
      reference_progresses.neverGrows.bind fun _ => (sigil_progresses _).neverGrows.bind fun _ =>
        neverGrows_pure _
  · exact payload_progresses.map _

def governor : Parser (Option Reference) := do
  if ← notAt .assign then some <$> reference else pure none

theorem governor_neverGrows : governor.NeverGrows :=
  (notAt_neverGrows _).bind fun _ =>
    neverGrows_ite (reference_progresses.map _).neverGrows (neverGrows_pure _)

def assignment : Parser Assignment := do
  let (t,span) ← expect (·.kind == .ident) .expectedAssignment
  let governor ← governor
  let _ ← sigil .assign
  let value ← assigned
  pure ⟨⟨String.ofList t.text,span⟩,governor,value⟩

theorem assignment_progresses : assignment.Progresses :=
  (expect_progresses _ _).bind fun _ => governor_neverGrows.bind fun _ =>
    (sigil_progresses _).neverGrows.bind fun _ => assigned_progresses.neverGrows.bind fun _ =>
      neverGrows_pure _

def importDecl : Parser Import := do
  let first ← ident
  let names ← many (accept .comma) ident (accept_neverGrows _) ident_progresses [first]
  let _ ← keyword "FROM"
  let source ← ident
  pure ⟨names,source,first.span.through source.span⟩

theorem importDecl_progresses : importDecl.Progresses :=
  ident_progresses.bind fun _ => (many_neverGrows _ _ _ _ _).bind fun _ =>
    (keyword_progresses _).neverGrows.bind fun _ => ident_progresses.neverGrows.bind fun _ =>
      neverGrows_pure _

def untilKind (kind : TokenKind) : Parser Bool := do
  let found ← accept kind
  pure (!found)

theorem untilKind_neverGrows (kind : TokenKind) : (untilKind kind).NeverGrows :=
  (accept_neverGrows kind).bind fun _ => neverGrows_pure _

def imports : Parser (List Import) := do
  if (← optionalKeyword "IMPORTS").isSome then
    many (untilKind .semicolon) importDecl (untilKind_neverGrows _) importDecl_progresses []
  else pure []

def notAtKeyword (word : String) : Parser Bool := do
  let found ← atKeyword word
  pure (!found)

theorem notAtKeyword_neverGrows (word : String) : (notAtKeyword word).NeverGrows :=
  (atKeyword_neverGrows word).bind fun _ => neverGrows_pure _

/-- Nothing but blanks and comments may follow. -/
def atEnd : Parser Unit := fun c =>
  match c.skip.rest, c.error with
  | t::_, _ => .error ⟨.trailingInput ⟨t.kind,t.text⟩,⟨c.skip.offset,t.size.toUInt32⟩⟩
  | [], none => .ok ((),c.skip)
  | [], some e => .error e

def module (file : String) (source : List Char) : Parser Module := do
  let name ← ident
  let _ ← keyword "DEFINITIONS"
  let _ ← sigil .assign
  let _ ← keyword "BEGIN"
  let imports ← imports
  let assignments ←
    many (notAtKeyword "END") assignment (notAtKeyword_neverGrows _) assignment_progresses []
  let stop ← keyword "END"
  atEnd
  pure ⟨file,name,imports,assignments,source,name.span.through stop⟩

def setting : Parser SettingDecl := do
  let start ← sigil .amp
  let name ← ident
  let value ← payload
  pure ⟨name,value,start.through value.span⟩

theorem setting_progresses : setting.Progresses :=
  (sigil_progresses _).bind fun _ => ident_progresses.neverGrows.bind fun _ =>
    payload_progresses.neverGrows.bind fun _ => neverGrows_pure _

def objectBody : Parser ObjectBody := do
  let start ← sigil .openCurl
  let settings ← separated (accept .comma) .closeCurl setting (accept_neverGrows _) setting_progresses
  let stop ← sigil .closeCurl
  atEnd
  pure ⟨settings,start.through stop⟩

/-- An element, or nothing for the mark that the set may be extended. -/
def element : Parser (Option ElementDecl) := do
  let t ← peek
  match t.kind with
  | .ident => (some ∘ .reference) <$> reference
  | .openCurl => (some ∘ .block) <$> rawBlock
  | _ =>
    let _ ← expect (·.kind == .ellipsis) .expectedElement
    pure none

theorem element_progresses : element.Progresses := by
  refine peek_neverGrows.bind_progresses fun t => ?_
  split
  · exact reference_progresses.map _
  · exact rawBlock_progresses.map _
  · exact (expect_progresses _ _).bind fun _ => neverGrows_pure _

def elementSeparator : Parser Bool := do
  if ← accept .pipe then pure true else accept .comma

theorem elementSeparator_neverGrows : elementSeparator.NeverGrows :=
  (accept_neverGrows _).bind fun _ => neverGrows_ite (neverGrows_pure _) (accept_neverGrows _)

def setBody : Parser SetBody := do
  let start ← sigil .openCurl
  let elements ←
    separated elementSeparator .closeCurl element elementSeparator_neverGrows element_progresses
  let stop ← sigil .closeCurl
  atEnd
  pure ⟨elements.filterMap id,elements.any Option.isNone,start.through stop⟩

def Parser.run {α : Type} (p : Parser α) (text : List Char) (offset : UInt32) : Except SyntaxError α :=
  match p ((scan text offset).cursor offset) with
  | .ok (a,_) => .ok a
  | .error e => .error e

def Module.parse (bytes : List UInt8) (file : String) : Except SyntaxError Module := do
  let source ← decodeSource bytes
  (module file source).run source 0

def RawBlock.decode (bytes : List UInt8) (start : UInt32) : Except SyntaxError RawBlock := do
  let text ← decodeSource bytes
  pure ⟨text,start⟩

def RawBlock.parseObject (b : RawBlock) : Except SyntaxError ObjectBody := objectBody.run b.text b.start

def RawBlock.parseSet (b : RawBlock) : Except SyntaxError SetBody := setBody.run b.text b.start

end InfoObject.Notation
