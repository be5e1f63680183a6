import InfoObject.Text.Quoted

/-! Builtin types and the literal values they accept. -/
namespace InfoObject.Model

inductive Literal where
  | integer (n : Int)
  | text (s : String)
  | boolean (b : Bool)
  | null
deriving DecidableEq, Repr

def Literal.render : Literal → String
  | integer n => toString n
  | text s => Text.quoted s
  | boolean true => "TRUE"
  | boolean false => "FALSE"
  | null => "NULL"

inductive BuiltinType where
  | integer
  | real
  | boolean
  | null
  | utf8String
  | ia5String
  | visibleString
  | printableString
deriving DecidableEq, Repr

namespace BuiltinType

def all : List BuiltinType :=
  [integer,real,boolean,null,utf8String,ia5String,visibleString,printableString]

def name : BuiltinType → String
  | integer => "INTEGER"
  | real => "REAL"
  | boolean => "BOOLEAN"
  | null => "NULL"
  | utf8String => "UTF8String"
  | ia5String => "IA5String"
  | visibleString => "VisibleString"
  | printableString => "PrintableString"

def ofName? (s : String) : Option BuiltinType := all.find? (·.name == s)

def isVisible (c : Char) : Bool := 0x20 ≤ c.toNat && c.toNat < 0x7F

def isPrintableLetter (c : Char) : Bool :=
  c.isAlphanum || " '()+,-./:=?".toList.contains c

def accepts : BuiltinType → Literal → Bool
  | integer, .integer _ => true
  | real, .integer _ => true
  | boolean, .boolean _ => true
  | null, .null => true
  | utf8String, .text _ => true
  | ia5String, .text s => s.toList.all (·.toNat < 0x80)
  | visibleString, .text s => s.toList.all isVisible
  | printableString, .text s => s.toList.all isPrintableLetter
  | _, _ => false

end BuiltinType

/-- What a type name stands for in the end; nothing if it stands for no type. -/
abbrev TypeTarget := Option BuiltinType

/-- What a value name stands for in the end; nothing if it stands for no value. -/
abbrev ValueTarget := Option Literal

def erroneousName : String := "<erroneous>"

def TypeTarget.name (t : TypeTarget) : String := t.elim erroneousName BuiltinType.name
def ValueTarget.render (v : ValueTarget) : String := v.elim erroneousName Literal.render

end InfoObject.Model
