import InfoObject.Document.Basic
import InfoObject.GoSource.Declaration

/-! A Go file for each document: a struct per class, a variable per object, and a list of names per set. -/
namespace InfoObject.GoSource

open Document (Setting ClassEntry ObjectEntry SetEntry)

inductive Fault where
  | unknownKind (kind : String)
  | malformed (module : String)
deriving DecidableEq, Repr

def valueType : String → FieldType
  | "INTEGER" => .int64
  | "REAL" => .float64
  | "BOOLEAN" => .bool
  | "NULL" => .emptyStruct
  | "UTF8String" => .string
  | "IA5String" => .string
  | "VisibleString" => .string
  | "PrintableString" => .string
  | _ => .any

def fieldType (f : Document.Field) : FieldType :=
  match f.kind with
  | "value" => valueType f.type
  | "object set" => .strings
  | _ => .string

def settingValue (s : Setting) : Except Fault Value :=
  match s.kind with
  | "type" => .ok (.text s.type)
  | "value" =>
    match s.value with
    | "TRUE" => .ok (.truth true)
    | "FALSE" => .ok (.truth false)
    | "NULL" => .ok .emptyStruct
    | text => .ok (.written text)
  | "object" => .ok (.text s.object)
  | "object set" => .ok (.strings s.objects)
  | kind => .error (.unknownKind kind)

def structOf (c : ClassEntry) : Declaration :=
  .struct (exportedName c.name) ((c.fields.getD []).map fun f => (fieldName f.name,fieldType f))

def namedValues (name : String → String) (ss : List Setting) : Except Fault (List (String × Value)) :=
  ss.mapM fun s => do pure (name s.field,← settingValue s)

/-- An object with its settings. One of a class of another module has no struct to be a value of, and keeps the names of
its fields. -/
def objectOf (classes : List ClassEntry) (o : ObjectEntry) : Except Fault Declaration := do
  let settings := o.settings.getD []
  if classes.any (·.name == o.className) then
    return .binding none (exportedName o.name) (.struct (exportedName o.className) (← namedValues fieldName settings))
  else
    return .binding (some (o.name++" is an object of class "++o.className++".")) (exportedName o.name)
      (.map (← namedValues id settings))

def setOf (s : SetEntry) : Declaration :=
  .binding (some (s.name++" is a set of "++s.className++" objects.")) (exportedName s.name)
    (.strings (s.objects.getD []))

/-- The package of a module, behind the package of the chosen prefix if there is one. -/
def packageOf (packagePrefix module : String) : String :=
  (if packagePrefix.isEmpty then "" else packageName packagePrefix)++packageName module

def fileOf (packagePrefix : String) (d : Document) : Except Fault File := do
  let objects ← d.objects.mapM (objectOf d.classes)
  return {
    package := packageOf packagePrefix d.module
    comment := "Code generated by infosem-emit-go from "++d.file++". DO NOT EDIT."
    declarations := d.classes.map structOf++objects++d.sets.map setOf}

structure Generated where
  path : List String
  text : String
deriving DecidableEq, Repr

def Generated.tokens (g : Generated) : List String := ((items? g.text).map itemTexts).getD []

def generatedOf (packagePrefix : String) (d : Document) : Except Fault Generated := do
  let f ← fileOf packagePrefix d
  match format? f.render with
  | some text => return ⟨f.path,text⟩
  | none => throw (.malformed d.module)

/-- The files of documents up to the first that has none, and why that has none. -/
def generate (packagePrefix : String) : List Document → List Generated × Option Fault
  | [] => ([],none)
  | d::ds =>
    match generatedOf packagePrefix d with
    | .error fault => ([],some fault)
    | .ok g =>
      let (gs,fault) := generate packagePrefix ds
      (g::gs,fault)

end InfoObject.GoSource
