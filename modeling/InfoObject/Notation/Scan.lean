import InfoObject.Notation.SyntaxError

/-! Cutting a source into tokens. Each token is the longest one of its kind that begins at its place; the
scanner for a kind is chosen by the first character. -/
namespace InfoObject.Notation

/-- A fault inside a token: it begins `skip` bytes behind the token's start. -/
structure ScanFault where
  fault : SyntaxFault
  skip : Nat
  length : Nat
deriving DecidableEq, Repr

abbrev Scanned := Except ScanFault Token

def scanFault (fault : SyntaxFault) (skip length : Nat) : Scanned := .error ⟨fault,skip,length⟩

def bounded (kind : TokenKind) (text : List Char) : Scanned :=
  if maxTokenSize < Utf8.size text then
    scanFault (.tokenTooLong (Utf8.size text)) 0 (Utf8.size text)
  else .ok ⟨kind,text⟩

def scanSpace (src : List Char) : Scanned := bounded .space (src.takeWhile isBlank)

def scanComment (src : List Char) : Scanned := bounded .comment (src.takeWhile (!isLineEnd ·))

def isWordChar (c : Char) : Bool := isAlphanumeric c || c == '_'

def isNumeral (word : List Char) : Bool :=
  word.all isDigit && (word.length ≤ 1 || word.head? != some '0')

/-- A number takes in the letters that follow it, and is malformed if there are any. -/
def scanNumber (sign src : List Char) : Scanned :=
  let word := src.takeWhile isWordChar
  let text := sign++word
  if isNumeral word then bounded .intLit text
  else scanFault (.malformedInteger text) 0 (Utf8.size text)

/-- One hyphen alone is malformed, whatever follows it. -/
def scanHyphen : List Char → Scanned
  | '-'::r => scanComment ('-':: '-'::r)
  | d::r => if isDigit d then scanNumber ['-'] (d::r) else scanFault (.malformedInteger ['-']) 0 1
  | [] => scanFault (.malformedInteger ['-']) 0 1

/-- What a control character inside a text is: a line end or a forbidden one. -/
def textFault (skip : Nat) (c : Char) (r : List Char) : Scanned :=
  if c = '\n' then scanFault .newlineInText skip 1
  else if c = '\r' ∧ r.head? = some '\n' then scanFault .newlineInText skip 2
  else scanFault (.controlCharacter c) skip 1

/-- The text literal behind its opening quote; `done` holds what was read, last character first. -/
def scanText (done : List Char) : List Char → Scanned
  | [] => scanFault .unterminatedText 0 (Utf8.size done)
  | '\x22':: '\x22'::r => scanText ('\x22':: '\x22'::done) r
  | c::r =>
    if c = '\x22' then bounded .textLit (c::done).reverse
    else if isControl c && c != '\t' then textFault (Utf8.size done) c r
    else scanText (c::done) r

/-- The rest of an identifier: alphanumerics, and single hyphens in front of one. -/
def identTail (done : List Char) : List Char → List Char
  | '-'::d::r => if isAlphanumeric d then identTail (d:: '-'::done) r else done.reverse
  | c::r => if isAlphanumeric c then identTail (c::done) r else done.reverse
  | [] => done.reverse

def scanIdent (c : Char) (r : List Char) : Scanned := bounded .ident (identTail [c] r)

def sigil? : Char → Option TokenKind
  | '\n' => some .newline
  | '&' => some .amp
  | ',' => some .comma
  | '|' => some .pipe
  | ';' => some .semicolon
  | '\x7b' => some .openCurl
  | '\x7d' => some .closeCurl
  | '(' => some .openParen
  | ')' => some .closeParen
  | _ => none

def scanDot : List Char → Scanned
  | '.':: '.'::_ => .ok ⟨.ellipsis,['.','.','.']⟩
  | _ => .ok ⟨.dot,['.']⟩

def scanColon : List Char → Scanned
  | ':':: '='::_ => .ok ⟨.assign,[':',':','=']⟩
  | _ => scanFault (.unexpectedCharacter ':') 0 1

def scanReturn : List Char → Scanned
  | '\n'::_ => .ok ⟨.newline,['\r','\n']⟩
  | _ => scanFault (.controlCharacter '\r') 0 1

def scanOther (c : Char) : Scanned :=
  if isControl c then scanFault (.controlCharacter c) 0 1
  else scanFault (.unexpectedCharacter c) 0 c.utf8Size

def scanToken (c : Char) (r : List Char) : Scanned :=
  match sigil? c with
  | some kind => .ok ⟨kind,[c]⟩
  | none =>
    if isBlank c then scanSpace (c::r)
    else if isLetter c then scanIdent c r
    else if isDigit c then scanNumber [] (c::r)
    else if c = '-' then scanHyphen r
    else if c = '.' then scanDot r
    else if c = ':' then scanColon r
    else if c = '\x22' then scanText ['\x22'] r
    else if c = '\r' then scanReturn r
    else scanOther c

structure Tokens where
  tokens : List Token
  stop : UInt32
  error : Option SyntaxError
deriving Repr

def ScanFault.at (f : ScanFault) (offset : UInt32) : SyntaxError :=
  ⟨f.fault,offset+f.skip.toUInt32,f.length.toUInt32⟩

/-- A source that is being cut: what is left of it, and the offset of what is left. -/
structure Tokenizer where
  rest : List Char
  offset : UInt32
deriving DecidableEq, Repr

/-- Cuts off the next token, which at the end is an empty one. Where no token begins nothing is cut off. -/
def Tokenizer.next (t : Tokenizer) : Except SyntaxError Token × Tokenizer :=
  match t.rest with
  | [] => (.ok ⟨.eof,[]⟩,t)
  | c::r =>
    match scanToken c r with
    | .error f => (.error (f.at t.offset),t)
    | .ok token => (.ok token,⟨r.drop (token.text.length-1),t.offset+token.size.toUInt32⟩)

theorem Tokenizer.next_shortens {t t' : Tokenizer} {token : Token} (h : t.next = (.ok token,t'))
    (hk : token.kind ≠ .eof) : t'.rest.length < t.rest.length := by
  unfold next at h
  split at h
  · cases h
    contradiction
  · rename_i c r hr
    split at h
    · cases h
    · cases h
      simp only [hr,List.length_drop,List.length_cons]
      omega

/-- Cuts token after token; `done` holds what was cut, the latest first. -/
def Tokenizer.drain (done : List Token) (t : Tokenizer) : Tokens :=
  match h : t.next with
  | (.error e,_) => ⟨done.reverse,t.offset,some e⟩
  | (.ok token,t') =>
    if hk : token.kind = .eof then ⟨done.reverse,t.offset,none⟩
    else
      have _shorter := next_shortens h hk
      drain (token::done) t'
termination_by t.rest.length
decreasing_by exact _shorter

def scan (src : List Char) (offset : UInt32) : Tokens := Tokenizer.drain [] ⟨src,offset⟩

def checkSize (size : Nat) : Except SyntaxError Unit :=
  if maxSourceSize < size then
    .error ⟨.sourceTooLong size,⟨0,(min size 0xFFFFFFFF).toUInt32⟩⟩
  else .ok ()

/-- The characters of a source, if it is neither too long nor ill-encoded. -/
def decodeSource (bytes : List UInt8) : Except SyntaxError (List Char) := do
  checkSize bytes.length
  match Utf8.decode bytes with
  | .ok cs => pure cs
  | .error p => throw ⟨.invalidEncoding,⟨p.toUInt32,1⟩⟩

end InfoObject.Notation
