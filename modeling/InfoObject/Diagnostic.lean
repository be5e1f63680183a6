import InfoObject.Notation.SyntaxError

/-! What a check can find, and how it is said. -/
namespace InfoObject

inductive Kind where
  | erroneous
  | objectClass
  | object
  | objectSet
  | type
  | value
deriving DecidableEq, Repr, Inhabited

namespace Kind

def name : Kind → String
  | erroneous => "erroneous"
  | objectClass => "object class"
  | object => "object"
  | objectSet => "object set"
  | type => "type"
  | value => "value"

def article : Kind → String
  | objectClass => "an object class"
  | objectSet => "an object set"
  | erroneous => "an erroneous"
  | k => "a "++k.name

def ofNumber : Nat → Kind
  | 1 => objectClass
  | 2 => object
  | 3 => objectSet
  | 4 => type
  | 5 => value
  | _ => erroneous

end Kind

inductive FieldKind where
  | erroneous
  | type
  | value
  | object
  | objectSet
deriving DecidableEq, Repr, Inhabited

namespace FieldKind

def name : FieldKind → String
  | erroneous => "erroneous"
  | type => "type"
  | value => "value"
  | object => "object"
  | objectSet => "object set"

def article : FieldKind → String
  | type => "a type"
  | value => "a value"
  | k => "an "++k.name

def ofNumber : Nat → FieldKind
  | 1 => type
  | 2 => value
  | 3 => object
  | 4 => objectSet
  | _ => erroneous

end FieldKind

inductive Fault where
  | circularReference (names : List String)
  | assignmentNotFound (name : String)
  | kindMismatch (name : String) (want got : Kind)
  | duplicateAssignment (name : String)
  | duplicateField (field owner : String)
  | missingField (field object : String)
  | unknownField (field owner : String)
  | settingKindMismatch (field : String) (want got : FieldKind)
  | fieldNameNotFound (field owner : String)
  | fieldIndexOutOfRange (index : Int) (count : Nat) (owner : String)
  | classMismatch (name got want : String)
  | malformedField (field : String)
  | deferredSyntax (fault : Notation.SyntaxFault)
  | valueTypeMismatch (value type : String)
  | duplicateUniqueValue (field value object : String)
  | moduleNotFound (module : String)
  | importNotFound (name module : String)
  | duplicateSetting (field : String)
  | duplicateModule (module : String)
  | malformedAssignment (name : String)
  | uniqueNotValueField (field : String)
  | unsupportedPayload (field : String)
  | importConflict (name : String)
deriving DecidableEq, Repr

namespace Fault

/-- A fault in a body keeps the code it has as a fault of the notation. -/
def code : Fault → Nat
  | circularReference _ => 3000
  | assignmentNotFound _ => 3001
  | kindMismatch _ _ _ => 3002
  | duplicateAssignment _ => 3003
  | duplicateField _ _ => 3004
  | missingField _ _ => 3005
  | unknownField _ _ => 3006
  | settingKindMismatch _ _ _ => 3007
  | fieldNameNotFound _ _ => 3008
  | fieldIndexOutOfRange _ _ _ => 3009
  | classMismatch _ _ _ => 3010
  | malformedField _ => 3011
  | deferredSyntax f => f.code
  | valueTypeMismatch _ _ => 3013
  | duplicateUniqueValue _ _ _ => 3014
  | moduleNotFound _ => 3015
  | importNotFound _ _ => 3016
  | duplicateSetting _ => 3017
  | duplicateModule _ => 3018
  | malformedAssignment _ => 3019
  | uniqueNotValueField _ => 3020
  | unsupportedPayload _ => 3021
  | importConflict _ => 3022

def message : Fault → String
  | circularReference names => "Circular reference: "++String.intercalate " -> " names
  | assignmentNotFound name => s!"No assignment named '{name}'"
  | kindMismatch name want got => s!"'{name}' is {got.article}, expected {want.article}"
  | duplicateAssignment name => s!"Duplicate assignment '{name}'"
  | duplicateField field owner => s!"Duplicate field '&{field}' in class {owner}"
  | missingField field object => s!"Object '{object}' is missing required field '&{field}'"
  | unknownField field owner => s!"Class {owner} has no field '&{field}'"
  | settingKindMismatch field want got =>
    s!"Field '&{field}' takes {want.article}, but is set to {got.article}"
  | fieldNameNotFound field owner => s!"No field '&{field}' in class {owner}"
  | fieldIndexOutOfRange index count owner =>
    s!"Field index {index} is out of range for class {owner} ({count} fields)"
  | classMismatch name got want => s!"'{name}' is governed by class {got}, expected {want}"
  | malformedField field => s!"Field specification '&{field}' has no recognizable kind"
  | deferredSyntax f => f.message
  | valueTypeMismatch value type => s!"Value {value} is not a valid {type}"
  | duplicateUniqueValue field value object =>
    s!"Object '{object}' repeats value {value} of unique field '&{field}'"
  | moduleNotFound module => s!"Module '{module}' not found"
  | importNotFound name module => s!"Name '{name}' not found in module '{module}'"
  | duplicateSetting field => s!"Field '&{field}' is set more than once"
  | duplicateModule module => s!"Duplicate module '{module}'"
  | malformedAssignment name => s!"Assignment '{name}' has no recognizable kind"
  | uniqueNotValueField field => s!"Field '&{field}' is marked UNIQUE but is not a value field"
  | unsupportedPayload field => s!"Field '&{field}' can't be set from a block"
  | importConflict name => s!"Imported name '{name}' conflicts with a local assignment"

end Fault

structure CheckError where
  fault : Fault
  location : Location
  related : Option Location
deriving DecidableEq, Repr

def CheckError.code (e : CheckError) : Nat := e.fault.code
def CheckError.message (e : CheckError) : String := e.fault.message
def CheckError.render (e : CheckError) : String := s!"E{e.code}: {e.message}"

inductive Concern where
  | declaredHere (field : String)
  | unusedImport (name module : String)
  | emptySet (name : String)
  | shadowsBuiltin (name : String)
deriving DecidableEq, Repr

namespace Concern

def code : Concern → Nat
  | declaredHere _ => 4000
  | unusedImport _ _ => 4001
  | emptySet _ => 4002
  | shadowsBuiltin _ => 4003

def message : Concern → String
  | declaredHere field => s!"Field '&{field}' first declared here"
  | unusedImport name module => s!"Import '{name}' from module '{module}' is unused"
  | emptySet name => s!"Object set '{name}' is empty"
  | shadowsBuiltin name => s!"Assignment '{name}' shadows a builtin type"

end Concern

structure Warning where
  concern : Concern
  location : Location
deriving DecidableEq, Repr

def Warning.code (w : Warning) : Nat := w.concern.code
def Warning.message (w : Warning) : String := w.concern.message
def Warning.render (w : Warning) : String := s!"W{w.code}: {w.message}"

inductive Diagnostic where
  | error (e : CheckError)
  | warning (w : Warning)
deriving DecidableEq, Repr

namespace Diagnostic

def error? : Diagnostic → Option CheckError
  | error e => some e
  | warning _ => none

def warning? : Diagnostic → Option Warning
  | error _ => none
  | warning w => some w

end Diagnostic

end InfoObject
