import InfoObject.GoSource.Format
import InfoObject.Text.Quoted

/-! Generated Go files as declarations, and their text before it is laid out. -/
namespace InfoObject.GoSource

inductive FieldType where
  | int64
  | float64
  | bool
  | emptyStruct
  | string
  | any
  | strings
deriving DecidableEq, Repr

def FieldType.render : FieldType → String
  | int64 => "int64"
  | float64 => "float64"
  | bool => "bool"
  | emptyStruct => "struct\x7b\x7d"
  | string => "string"
  | any => "any"
  | strings => "[]string"

inductive Value where
  | truth (b : Bool)
  | emptyStruct
  | written (source : String)
  | text (s : String)
  | strings (ss : List String)
deriving DecidableEq, Repr

def renderStrings (ss : List String) : String := "[]string\x7b"++", ".intercalate (ss.map Text.quoted)++"\x7d"

def Value.render : Value → String
  | truth true => "true"
  | truth false => "false"
  | emptyStruct => "struct\x7b\x7d\x7b\x7d"
  | written source => source
  | text s => Text.quoted s
  | strings ss => renderStrings ss

inductive Content where
  | struct (type : String) (fields : List (String × Value))
  | map (fields : List (String × Value))
  | strings (ss : List String)
deriving DecidableEq, Repr

def renderEntry (key : String) (v : Value) : String := "\t"++key++": "++v.render++",\n"

def Content.render : Content → String
  | struct type fields => type++"\x7b\n"++String.join (fields.map fun (f,v) => renderEntry f v)++"\x7d"
  | map fields => "map[string]any\x7b\n"++String.join (fields.map fun (f,v) => renderEntry (Text.quoted f) v)++"\x7d"
  | strings ss => renderStrings ss

inductive Declaration where
  | struct (name : String) (fields : List (String × FieldType))
  | binding (comment : Option String) (name : String) (content : Content)
deriving DecidableEq, Repr

def Declaration.name : Declaration → String
  | struct name _ => name
  | binding _ name _ => name

def renderComment (text : String) : String := "// "++text++"\n"

def Declaration.render : Declaration → String
  | struct name fields =>
    "\ntype "++name++" struct \x7b\n"++String.join (fields.map fun (f,t) => "\t"++f++" "++t.render++"\n") ++
      "\x7d\n"
  | binding comment name content =>
    "\n"++comment.elim "" renderComment++"var "++name++" = "++content.render++"\n"

structure File where
  package : String
  comment : String
  declarations : List Declaration
deriving DecidableEq, Repr

def File.path (f : File) : List String := [f.package,f.package++".go"]

def File.render (f : File) : String :=
  renderComment f.comment++"\npackage "++f.package++"\n"++String.join (f.declarations.map Declaration.render)

end InfoObject.GoSource
