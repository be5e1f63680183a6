import InfoObject.Text.Utf8

/-! Tokens of the notation. A token keeps its spelling, so the spellings of a source put together are the
source itself. -/
namespace InfoObject.Notation

inductive TokenKind where
  | eof
  | space
  | newline
  | comment
  | amp
  | comma
  | pipe
  | semicolon
  | dot
  | ellipsis
  | assign
  | openCurl
  | closeCurl
  | openParen
  | closeParen
  | intLit
  | textLit
  | ident
deriving DecidableEq, Repr, Inhabited

def TokenKind.name : TokenKind → String
  | eof => "EOF"
  | space => "SPACE"
  | newline => "NEWLINE"
  | comment => "COMMENT"
  | amp => "AMP"
  | comma => "COMMA"
  | pipe => "PIPE"
  | semicolon => "SEMICOLON"
  | dot => "DOT"
  | ellipsis => "ELLIPSIS"
  | assign => "ASSIGN"
  | openCurl => "OPEN_CURL"
  | closeCurl => "CLOSE_CURL"
  | openParen => "OPEN_PAREN"
  | closeParen => "CLOSE_PAREN"
  | intLit => "INT_LIT"
  | textLit => "TEXT_LIT"
  | ident => "IDENT"

def TokenKind.all : List TokenKind :=
  [eof,space,newline,comment,amp,comma,pipe,semicolon,dot,ellipsis,assign,openCurl,closeCurl,
   openParen,closeParen,intLit,textLit,ident]

def TokenKind.nameOfNumber (n : Nat) : String :=
  match all[n]? with
  | some k => k.name
  | none => s!"TokenKind({n})"

/-- Blanks, line ends and comments separate tokens and mean nothing else. -/
def TokenKind.isTrivia : TokenKind → Bool
  | space | newline | comment => true
  | _ => false

structure Token where
  kind : TokenKind
  text : List Char
deriving DecidableEq, Repr, Inhabited

def Token.size (t : Token) : Nat := Utf8.size t.text

def isUpper (c : Char) : Bool := 'A' ≤ c && c ≤ 'Z'
def isLower (c : Char) : Bool := 'a' ≤ c && c ≤ 'z'
def isLetter (c : Char) : Bool := isUpper c || isLower c
def isDigit (c : Char) : Bool := '0' ≤ c && c ≤ '9'
def isAlphanumeric (c : Char) : Bool := isLetter c || isDigit c

def isBlank (c : Char) : Bool := c == ' ' || c == '\t' || c == '\u00A0'
def isLineEnd (c : Char) : Bool := c == '\n' || c == '\r'
def isControl (c : Char) : Bool := c.toNat < 0x20 || c.toNat == 0x7F

end InfoObject.Notation
