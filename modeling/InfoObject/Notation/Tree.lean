import InfoObject.Notation.Token
import InfoObject.Source.Span

/-! The tree of a module. The bodies of objects and object sets stay raw blocks: what they mean depends on
the class that governs them, which is known only later. -/
namespace InfoObject.Notation

structure Ident where
  name : String
  span : Span
deriving DecidableEq, Repr, Inhabited

structure Reference where
  qualifier : Option Ident
  name : Ident
deriving DecidableEq, Repr, Inhabited

def Reference.span (r : Reference) : Span :=
  match r.qualifier with
  | some q => q.span.through r.name.span
  | none => r.name.span

def Reference.render (r : Reference) : String :=
  match r.qualifier with
  | some q => q.name++"."++r.name.name
  | none => r.name.name

structure IntLit where
  raw : String
  value : Int
  span : Span
deriving DecidableEq, Repr

structure TextLit where
  raw : List Char
  span : Span
deriving DecidableEq, Repr

def undouble : List Char → List Char
  | [] => []
  | '\x22'::r => '\x22'::undouble (r.drop 1)
  | c::r => c::undouble r
termination_by cs => cs.length
decreasing_by all_goals simp only [List.length_drop,List.length_cons]; omega

/-- The text between the quotes, each doubled quote standing for one. -/
def TextLit.content (l : TextLit) : String :=
  String.ofList (undouble ((l.raw.drop 1).dropLast))

/-- The text of a body from its opening to its closing brace, both included. -/
structure RawBlock where
  text : List Char
  start : UInt32
deriving DecidableEq, Repr, Inhabited

def RawBlock.span (b : RawBlock) : Span := ⟨b.start,(Utf8.size b.text).toUInt32⟩

def RawBlock.length (b : RawBlock) : Nat := b.text.length

inductive Payload where
  | reference (r : Reference)
  | int (l : IntLit)
  | text (l : TextLit)
  | block (b : RawBlock)
deriving DecidableEq, Repr

def Payload.span : Payload → Span
  | reference r => r.span
  | int l => l.span
  | text l => l.span
  | block b => b.span

def Payload.bodyLength : Payload → Nat
  | block b => b.length
  | _ => 0

structure FieldDecl where
  name : Ident
  governor : Option Reference
  unique : Bool
  optional : Bool
  default : Option Payload
  span : Span
deriving DecidableEq, Repr

inductive Assigned where
  | classBody (fields : List FieldDecl) (span : Span)
  | classOf (object : Reference) (span : Span)
  | payload (p : Payload)
deriving DecidableEq, Repr

def Assigned.span : Assigned → Span
  | classBody _ s => s
  | classOf _ s => s
  | payload p => p.span

structure Assignment where
  name : Ident
  governor : Option Reference
  value : Assigned
deriving DecidableEq, Repr

def Assignment.span (a : Assignment) : Span := a.name.span.through a.value.span

/-- Names taken from one other module. There is at least one name. -/
structure Import where
  names : List Ident
  source : Ident
  span : Span
deriving DecidableEq, Repr

structure Module where
  file : String
  name : Ident
  imports : List Import
  assignments : List Assignment
  source : List Char
  span : Span
deriving Repr

structure SettingDecl where
  name : Ident
  payload : Payload
  span : Span
deriving DecidableEq, Repr

structure ObjectBody where
  settings : List SettingDecl
  span : Span
deriving DecidableEq, Repr

inductive ElementDecl where
  | reference (r : Reference)
  | block (b : RawBlock)
deriving DecidableEq, Repr

def ElementDecl.span : ElementDecl → Span
  | reference r => r.span
  | block b => b.span

structure SetBody where
  elements : List ElementDecl
  extensible : Bool
  span : Span
deriving DecidableEq, Repr

end InfoObject.Notation
