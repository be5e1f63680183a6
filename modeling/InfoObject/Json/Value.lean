import InfoObject.Text.Quoted

/-! JSON values and the two ways they are written: on one line, and indented by tabs. -/
namespace InfoObject.Json

/-- A number is kept as it is spelled. -/
inductive Value where
  | null
  | bool (b : Bool)
  | number (literal : String)
  | text (s : String)
  | list (items : List Value)
  | record (members : List (String × Value))
deriving Repr, Inhabited

def Value.nat (n : Nat) : Value := .number (toString n)

def shortEscape? (c : Char) : Option Char :=
  match c.toNat with
  | 0x08 => some 'b'
  | 0x09 => some 't'
  | 0x0A => some 'n'
  | 0x0C => some 'f'
  | 0x0D => some 'r'
  | 0x22 => some '\x22'
  | 0x5C => some '\\'
  | _ => none

/-- Characters that are spelled by number, so that the text can stand inside a web page. -/
def isHidden (c : Char) : Bool :=
  c.toNat < 0x20 || c == '<' || c == '>' || c == '&' || c.toNat == 0x2028 || c.toNat == 0x2029

def escape (c : Char) : List Char :=
  match shortEscape? c with
  | some e => ['\\',e]
  | none => if isHidden c then ['\\','u']++Text.hexDigits 4 c.toNat else [c]

def renderText (s : String) : List Char := '\x22'::s.toList.flatMap escape++['\x22']

def renderBool : Bool → List Char
  | true => ['t','r','u','e']
  | false => ['f','a','l','s','e']

def renderNull : List Char := ['n','u','l','l']

mutual

def renderValue : Value → List Char
  | .null => renderNull
  | .bool b => renderBool b
  | .number n => n.toList
  | .text s => renderText s
  | .list vs => '['::renderItems vs++[']']
  | .record ms => '\x7b'::renderMembers ms++['\x7d']

def renderItems : List Value → List Char
  | [] => []
  | [v] => renderValue v
  | v::w::vs => renderValue v ++ ','::renderItems (w::vs)

def renderMembers : List (String × Value) → List Char
  | [] => []
  | [(k,v)] => renderText k ++ ':'::renderValue v
  | (k,v)::m::ms => renderText k ++ ':'::renderValue v ++ ','::renderMembers (m::ms)

end

def newLine (depth : Nat) : List Char := '\n'::List.replicate depth '\t'

mutual

def indentValue (depth : Nat) : Value → List Char
  | .null => renderNull
  | .bool b => renderBool b
  | .number n => n.toList
  | .text s => renderText s
  | .list [] => ['[',']']
  | .list (v::vs) => '['::indentItems (depth+1) (v::vs)++newLine depth++[']']
  | .record [] => ['\x7b','\x7d']
  | .record (m::ms) => '\x7b'::indentMembers (depth+1) (m::ms)++newLine depth++['\x7d']

def indentItems (depth : Nat) : List Value → List Char
  | [] => []
  | [v] => newLine depth++indentValue depth v
  | v::w::vs => newLine depth++indentValue depth v ++ ','::indentItems depth (w::vs)

def indentMembers (depth : Nat) : List (String × Value) → List Char
  | [] => []
  | [(k,v)] => newLine depth++renderText k ++ ':':: ' '::indentValue depth v
  | (k,v)::m::ms =>
    newLine depth++renderText k ++ ':':: ' '::indentValue depth v ++ ','::indentMembers depth (m::ms)

end

def Value.render (v : Value) : String := String.ofList (renderValue v)

def Value.renderIndented (v : Value) : String := String.ofList (indentValue 0 v)

end InfoObject.Json
