import InfoObject.Notation.Token
import InfoObject.Source.Span
import InfoObject.Text.Quoted

/-! What can be wrong with a source, and how it is said. -/
namespace InfoObject.Notation

structure Found where
  kind : TokenKind
  text : List Char
deriving DecidableEq, Repr

def Found.render (f : Found) : String :=
  s!"({f.kind.name} "++Text.quoted (String.ofList f.text)++")"

inductive Sigil where
  | amp
  | assign
  | openCurl
  | closeCurl
  | openParen
  | closeParen
deriving DecidableEq, Repr

def Sigil.kind : Sigil → TokenKind
  | amp => .amp
  | assign => .assign
  | openCurl => .openCurl
  | closeCurl => .closeCurl
  | openParen => .openParen
  | closeParen => .closeParen

def Sigil.spelling : Sigil → String
  | amp => "&"
  | assign => "::="
  | openCurl => "\x7b"
  | closeCurl => "\x7d"
  | openParen => "("
  | closeParen => ")"

inductive SyntaxFault where
  | sourceTooLong (size : Nat)
  | invalidEncoding
  | unexpectedCharacter (c : Char)
  | controlCharacter (c : Char)
  | tokenTooLong (size : Nat)
  | malformedInteger (text : List Char)
  | unterminatedText
  | newlineInText
  | integerOutOfRange (text : List Char)
  | expectedSigil (want : Sigil) (got : Found)
  | expectedIdentifier (got : Found)
  | expectedKeyword (word : String) (got : Found)
  | expectedAssignment (got : Found)
  | expectedPayload (got : Found)
  | unclosedBlock
  | trailingInput (got : Found)
  | expectedElement (got : Found)
deriving DecidableEq, Repr

def maxSourceSize : Nat := 0x7FFFFFFF

def maxTokenSize : Nat := 0xFFFF

def SyntaxFault.code : SyntaxFault → Nat
  | sourceTooLong _ => 1000
  | invalidEncoding => 1001
  | unexpectedCharacter _ => 1002
  | controlCharacter _ => 1003
  | tokenTooLong _ => 1004
  | malformedInteger _ => 1005
  | unterminatedText => 1006
  | newlineInText => 1007
  | integerOutOfRange _ => 1008
  | expectedSigil .amp _ => 2000
  | expectedSigil .assign _ => 2004
  | expectedSigil .openCurl _ => 2005
  | expectedSigil .closeCurl _ => 2006
  | expectedSigil .openParen _ => 2007
  | expectedSigil .closeParen _ => 2008
  | expectedIdentifier _ => 2010
  | expectedKeyword _ _ => 2011
  | expectedAssignment _ => 2012
  | expectedPayload _ => 2013
  | unclosedBlock => 2014
  | trailingInput _ => 2015
  | expectedElement _ => 2016

def SyntaxFault.message : SyntaxFault → String
  | sourceTooLong size =>
    s!"Source file size ({size} bytes) exceeds maximum ({maxSourceSize} bytes)"
  | invalidEncoding => "Source is not valid UTF-8"
  | unexpectedCharacter c => "Unexpected character "++Text.quotedChar c
  | controlCharacter c =>
    "Forbidden control character 0x"++String.ofList ((Text.hexDigits 2 c.toNat).map Char.toUpper)
  | tokenTooLong size => s!"Token length ({size} bytes) exceeds maximum ({maxTokenSize} bytes)"
  | malformedInteger text => "Invalid integer literal "++Text.quoted (String.ofList text)
  | unterminatedText => "Unterminated text literal"
  | newlineInText => "Text literal contains a newline"
  | integerOutOfRange text => s!"Integer literal {String.ofList text} is out of range"
  | expectedSigil want got => s!"Expected '{want.spelling}', got {got.render}"
  | expectedIdentifier got => s!"Expected identifier, got {got.render}"
  | expectedKeyword word got => s!"Expected keyword '{word}', got {got.render}"
  | expectedAssignment got => s!"Expected assignment or 'END', got {got.render}"
  | expectedPayload got => s!"Expected a reference, literal or block, got {got.render}"
  | unclosedBlock => "Block is missing its closing '\x7d'"
  | trailingInput got => s!"Unexpected {got.render} after end of input"
  | expectedElement got => s!"Expected object set element, got {got.render}"

structure SyntaxError where
  fault : SyntaxFault
  span : Span
deriving DecidableEq, Repr

def SyntaxError.code (e : SyntaxError) : Nat := e.fault.code
def SyntaxError.message (e : SyntaxError) : String := e.fault.message
def SyntaxError.render (e : SyntaxError) : String := s!"E{e.code}: {e.message}"

end InfoObject.Notation
