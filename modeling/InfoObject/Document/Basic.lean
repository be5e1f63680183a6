import InfoObject.Json.Reader

/-! The resolved content of one module, with all names written out, and its form in JSON. -/
namespace InfoObject.Document

/-- One field setting. Which of `type`, `value`, `object` and `objects` says something depends on the kind. -/
structure Setting where
  field : String := ""
  kind : String := ""
  type : String := ""
  value : String := ""
  object : String := ""
  objects : List String := []
deriving DecidableEq, Repr

structure Field where
  name : String := ""
  kind : String := ""
  isOptional : Bool := false
  isUnique : Bool := false
  type : String := ""
  className : String := ""
  default : Option Setting := none
deriving DecidableEq, Repr

/-- A list that is always written may be absent in a document that was read, and is then written `null`. -/
structure ClassEntry where
  name : String := ""
  fields : Option (List Field) := none
deriving DecidableEq, Repr

structure ObjectEntry where
  name : String := ""
  className : String := ""
  settings : Option (List Setting) := none
deriving DecidableEq, Repr

structure SetEntry where
  name : String := ""
  className : String := ""
  extensible : Bool := false
  objects : Option (List String) := none
deriving DecidableEq, Repr

end InfoObject.Document

namespace InfoObject

structure Document where
  module : String := ""
  file : String := ""
  classes : List Document.ClassEntry := []
  objects : List Document.ObjectEntry := []
  sets : List Document.SetEntry := []
deriving DecidableEq, Repr

end InfoObject

namespace InfoObject.Document

open Json (Value Reader)

def textMember (key text : String) : List (String × Value) :=
  if text.isEmpty then [] else [(key,.text text)]

def flagMember (key : String) (holds : Bool) : List (String × Value) :=
  if holds then [(key,.bool true)] else []

def listMember (key : String) (items : List Value) : List (String × Value) :=
  if items.isEmpty then [] else [(key,.list items)]

def listOrNull (items : Option (List Value)) : Value := items.elim .null .list

namespace Setting

def toJson (s : Setting) : Value :=
  .record ([("field",.text s.field),("kind",.text s.kind)]++textMember "type" s.type ++
    textMember "value" s.value++textMember "object" s.object++listMember "objects" (s.objects.map .text))

def readMember (s : Setting) (key : String) (v : Value) : Option Setting :=
  match key with
  | "field" => (Json.readText s.field v).map fun field => {s with field}
  | "kind" => (Json.readText s.kind v).map fun kind => {s with kind}
  | "type" => (Json.readText s.type v).map fun type => {s with type}
  | "value" => (Json.readText s.value v).map fun value => {s with value}
  | "object" => (Json.readText s.object v).map fun object => {s with object}
  | "objects" => (Json.readList Json.readText "" s.objects v).map fun objects => {s with objects}
  | _ => some s

def read : Reader Setting := Json.readRecord readMember

end Setting

namespace Field

def toJson (f : Field) : Value :=
  .record ([("name",.text f.name),("kind",.text f.kind)]++flagMember "optional" f.isOptional ++
    flagMember "unique" f.isUnique++textMember "type" f.type++textMember "class" f.className ++
    f.default.toList.map fun s => ("default",s.toJson))

def readDefault (old : Option Setting) : Value → Option (Option Setting)
  | .null => some none
  | v => (Setting.read (old.getD {}) v).map some

def readMember (f : Field) (key : String) (v : Value) : Option Field :=
  match key with
  | "name" => (Json.readText f.name v).map fun name => {f with name}
  | "kind" => (Json.readText f.kind v).map fun kind => {f with kind}
  | "optional" => (Json.readBool f.isOptional v).map fun isOptional => {f with isOptional}
  | "unique" => (Json.readBool f.isUnique v).map fun isUnique => {f with isUnique}
  | "type" => (Json.readText f.type v).map fun type => {f with type}
  | "class" => (Json.readText f.className v).map fun className => {f with className}
  | "default" => (readDefault f.default v).map fun default => {f with default}
  | _ => some f

def read : Reader Field := Json.readRecord readMember

end Field

namespace ClassEntry

def toJson (c : ClassEntry) : Value :=
  .record [("name",.text c.name),("fields",listOrNull (c.fields.map (·.map Field.toJson)))]

def readMember (c : ClassEntry) (key : String) (v : Value) : Option ClassEntry :=
  match key with
  | "name" => (Json.readText c.name v).map fun name => {c with name}
  | "fields" => (Json.readList? Field.read {} c.fields v).map fun fields => {c with fields}
  | _ => some c

def read : Reader ClassEntry := Json.readRecord readMember

end ClassEntry

namespace ObjectEntry

def toJson (o : ObjectEntry) : Value :=
  .record [("name",.text o.name),("class",.text o.className),
    ("settings",listOrNull (o.settings.map (·.map Setting.toJson)))]

def readMember (o : ObjectEntry) (key : String) (v : Value) : Option ObjectEntry :=
  match key with
  | "name" => (Json.readText o.name v).map fun name => {o with name}
  | "class" => (Json.readText o.className v).map fun className => {o with className}
  | "settings" => (Json.readList? Setting.read {} o.settings v).map fun settings => {o with settings}
  | _ => some o

def read : Reader ObjectEntry := Json.readRecord readMember

end ObjectEntry

namespace SetEntry

def toJson (s : SetEntry) : Value :=
  .record ([("name",.text s.name),("class",.text s.className)]++flagMember "extensible" s.extensible ++
    [("objects",listOrNull (s.objects.map (·.map .text)))])

def readMember (s : SetEntry) (key : String) (v : Value) : Option SetEntry :=
  match key with
  | "name" => (Json.readText s.name v).map fun name => {s with name}
  | "class" => (Json.readText s.className v).map fun className => {s with className}
  | "extensible" => (Json.readBool s.extensible v).map fun extensible => {s with extensible}
  | "objects" => (Json.readList? Json.readText "" s.objects v).map fun objects => {s with objects}
  | _ => some s

def read : Reader SetEntry := Json.readRecord readMember

end SetEntry

def toJson (d : Document) : Value :=
  .record ([("module",.text d.module),("file",.text d.file)] ++
    listMember "classes" (d.classes.map ClassEntry.toJson) ++
    listMember "objects" (d.objects.map ObjectEntry.toJson) ++
    listMember "object_sets" (d.sets.map SetEntry.toJson))

def readMember (d : Document) (key : String) (v : Value) : Option Document :=
  match key with
  | "module" => (Json.readText d.module v).map fun module => {d with module}
  | "file" => (Json.readText d.file v).map fun file => {d with file}
  | "classes" => (Json.readList ClassEntry.read {} d.classes v).map fun classes => {d with classes}
  | "objects" => (Json.readList ObjectEntry.read {} d.objects v).map fun objects => {d with objects}
  | "object_sets" => (Json.readList SetEntry.read {} d.sets v).map fun sets => {d with sets}
  | _ => some d

def ofJson? (v : Value) : Option Document := Json.readRecord readMember {} v

def renderJson (d : Document) : String := d.toJson.renderIndented++"\n"

end InfoObject.Document
