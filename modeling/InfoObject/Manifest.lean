import InfoObject.Path
import InfoObject.Text.Quoted
import InfoObject.Yaml.Node

/-! Project manifests: which files make up a project, and how it is checked and emitted. -/
namespace InfoObject

open Yaml (Node)

structure Manifest where
  modules : List String := []
  pluginPath : String := ""
  warningsAsErrors : Bool := false
  lang : String := ""
  output : String := ""
  directory : Option String := none
deriving DecidableEq, Repr

namespace Manifest

inductive Fault where
  | empty
  | noModules
  | emptyModulePath
  | repeatedModule (path : String)
  /-- Not YAML, or not the keys and values of a manifest. -/
  | malformed
  /-- Entries are merged into a map that has keys which are no texts. -/
  | crash
deriving DecidableEq, Repr

def Fault.message : Fault → String
  | empty => "manifest is empty"
  | noModules => "manifest lists no modules"
  | emptyModulePath => "manifest lists an empty module path"
  | repeatedModule path => "module "++Text.quoted path++" is listed more than once"
  | malformed => "yaml: malformed manifest"
  | crash => "yaml: keys cannot be compared"

def fileName : String := "infosem.yaml"

inductive Stop where
  | malformed
  | crash
deriving DecidableEq, Repr

/-- Reading goes on behind most mistakes; whether there was one is remembered. -/
abbrev Decoding := ExceptT Stop (StateM Bool)

def mistake : Decoding Unit := set true

def readText : Node → Decoding (Option String)
  | .scalar text quoted => pure (if (Node.scalar text quoted).isNull then none else some text)
  | _ => do
    mistake
    return none

def readFlag (n : Node) : Decoding (Option Bool) := do
  match n with
  | .scalar text quoted =>
    if n.isNull then return none
    if !quoted && ["true","True","TRUE"].contains text then return some true
    if !quoted && ["false","False","FALSE"].contains text then return some false
    if ["y","Y","yes","Yes","YES","on","On","ON"].contains text then return some true
    if ["n","N","no","No","NO","off","Off","OFF"].contains text then return some false
  | _ => pure ()
  mistake
  return none

/-- The texts of a list; items without a value count for nothing. -/
def readTexts (n : Node) : Decoding (List String) := do
  match n with
  | .list items => items.filterMapM readText
  | n =>
    if !n.isNull then mistake
    return []

def isMerge : Node → Bool
  | .scalar "<<" false => true
  | _ => false

def isScalar : Node → Bool
  | .scalar _ _ => true
  | _ => false

/-- What keys are compared by: two that are no texts are told apart by their kind alone. -/
def keyMark : Node → Nat × String
  | .scalar text _ => (0,text)
  | .list _ => (1,"")
  | .map _ => (2,"")

def hasRepeatedKey (entries : List (Node × Node)) : Bool := !decide (entries.map fun (k,_) => keyMark k).Nodup

mutual

/-- Reads a node of which nothing is known; whether there is a value. Only texts can be keys. -/
def readAny : Node → Decoding Bool
  | .scalar _ _ => pure true
  | .list items => do
    readAnyItems items
    return true
  | .map entries => do
    if hasRepeatedKey entries then
      mistake
      return false
    readAnyEntries entries
    readAnyMerges entries
    return true

def readAnyItems : List Node → Decoding Unit
  | [] => pure ()
  | n::ns => do
    let _ ← readAny n
    readAnyItems ns

def readAnyEntries : List (Node × Node) → Decoding Unit
  | [] => pure ()
  | e::es => do
    readAnyEntry e
    readAnyEntries es

def readAnyEntry : Node × Node → Decoding Unit
  | (k,v) => do
    if isMerge k then return
    if ← readAny k then
      if !isScalar k then throw .malformed
      let _ ← readAny v

def readAnyMerges : List (Node × Node) → Decoding Unit
  | [] => pure ()
  | e::es => do
    readAnyMerge e
    readAnyMerges es

/-- Maps, or a list of maps, can be merged. -/
def readAnyMerge : Node × Node → Decoding Unit
  | (k,v) => do
    if isMerge k then
      match v with
      | .scalar _ _ => throw .malformed
      | .list items =>
        if !items.all Node.isMap then throw .malformed
        readAnyItems items
      | .map entries => let _ ← readAny (.map entries)

end

/-- Of a map that others are merged into, the keys are looked up by what they are, which only texts can be. -/
def checkKeys (entries : List (Node × Node)) : Decoding Unit :=
  entries.forM fun (k,_) => do
    if (← readAny k) && !isScalar k then throw .crash

abbrev FieldReader (α : Type) := α → String → Node → Decoding α

/-- The fields that a map says itself, but for those that were said before, and which have been said then. An entry
without a key counts for nothing. -/
def readOwn {α : Type} (field : FieldReader α) (said : List String) (a : α) : List (Node × Node) → Decoding (α × List String)
  | [] => pure (a,said)
  | (k,v)::es => do
    if isMerge k then readOwn field said a es
    else
      match ← readText k with
      | none => readOwn field said a es
      | some name =>
        if name ∈ said then readOwn field said a es
        else readOwn field (name::said) (← field a name v) es

mutual

/-- The fields that a map says beyond those that were said before: its own, and then those merged into it. -/
def readMap {α : Type} (field : FieldReader α) (isOuter : Bool) (said : List String) (a : α) : Node → Decoding (α × List String)
  | .map entries => do
    if hasRepeatedKey entries then
      mistake
      return (a,said)
    let (a,said) ← readOwn field said a entries
    if isOuter && entries.any fun (k,_) => isMerge k then checkKeys entries
    readMerges field said a entries
  | _ => throw .malformed

/-- Several maps, of which an earlier one wins. -/
def readItems {α : Type} (field : FieldReader α) (said : List String) (a : α) : List Node → Decoding (α × List String)
  | [] => pure (a,said)
  | n::ns => do
    let (a,said) ← readMap field false said a n
    readItems field said a ns

def readMerges {α : Type} (field : FieldReader α) (said : List String) (a : α) : List (Node × Node) → Decoding (α × List String)
  | [] => pure (a,said)
  | e::es => do
    let (a,said) ← readMerge field said a e
    readMerges field said a es

def readMerge {α : Type} (field : FieldReader α) (said : List String) (a : α) : Node × Node → Decoding (α × List String)
  | (k,v) =>
    if isMerge k then
      match v with
      | .list items => readItems field said a items
      | .map entries => readMap field false said a (.map entries)
      | .scalar _ _ => throw .malformed
    else pure (a,said)

end

/-- A record; where there is no value, nothing is said. -/
def readRecord {α : Type} (field : FieldReader α) (a : α) (n : Node) : Decoding α := do
  if n.isMap then return (← readMap field true [] a n).1
  if !n.isNull then mistake
  return a

def readEmitField : FieldReader Manifest
  | m, "lang", n => do return {m with lang := (← readText n).getD m.lang}
  | m, "output", n => do return {m with output := (← readText n).getD m.output}
  | m, _, _ => do
    mistake
    return m

def readField : FieldReader Manifest
  | m, "modules", n => do return {m with modules := ← readTexts n}
  | m, "plugin_path", n => do return {m with pluginPath := (← readText n).getD m.pluginPath}
  | m, "warnings_as_errors", n => do return {m with warningsAsErrors := (← readFlag n).getD m.warningsAsErrors}
  | m, "emit", n => readRecord readEmitField m n
  | m, _, _ => do
    mistake
    return m

def ofNode (n : Node) : Except Fault Manifest :=
  match (readRecord readField {} n).run false with
  | (.error .crash,_) => .error .crash
  | (.error .malformed,_) => .error .malformed
  | (.ok _,true) => .error .malformed
  | (.ok m,false) => .ok m

def checkModules (seen : List String) : List String → Except Fault Unit
  | [] => .ok ()
  | m::ms =>
    if m.isEmpty then .error .emptyModulePath
    else if m ∈ seen then .error (.repeatedModule m)
    else checkModules (m::seen) ms

def validate (m : Manifest) : Except Fault Unit :=
  if m.modules.isEmpty then .error .noModules else checkModules [] m.modules

def parse (bytes : List UInt8) : Except Fault Manifest := do
  match Yaml.parse? bytes with
  | none => throw .malformed
  | some .empty => throw .empty
  | some (.node n) =>
    let m ← ofNode n
    m.validate
    return m

def parseFile (name : String) (bytes : List UInt8) : Except Fault Manifest := do
  let m ← parse bytes
  return {m with directory := some (Path.directory name)}

def resolve (m : Manifest) (path : String) : String :=
  match m.directory with
  | none => path
  | some d => if Path.isAbsolute path then path else Path.join [d,path]

def modulePaths (m : Manifest) : List String := m.modules.map m.resolve

def resolvedPluginPath (m : Manifest) : String := if m.pluginPath.isEmpty then "" else m.resolve m.pluginPath

def resolvedOutput (m : Manifest) : String := if m.output.isEmpty then "" else m.resolve m.output

end Manifest

end InfoObject
