import InfoObject.Json.Parser
import InfoObject.Json.Reader
import InfoObject.Source.Span
import InfoObject.Text.Pattern

/-! Catalogs of diagnostics, and the diagnostics that a file expects by their names in a catalog. -/
namespace InfoObject.Catalog

inductive Subject where
  | syntaxErrors
  | errors
  | warnings
deriving DecidableEq, Repr

def Subject.name : Subject → String
  | syntaxErrors => "syntax error"
  | errors => "semantic error"
  | warnings => "semantic warning"

structure Entry where
  key : String
  code : UInt32
  message : String
  pattern : Option String
deriving DecidableEq, Repr

def Entry.name (e : Entry) : String := if e.message.isEmpty then e.key else e.message

inductive Fault where
  | noCode (key : String)
  | duplicateCode (code : UInt32)
  | malformed
deriving DecidableEq, Repr

def Fault.message (s : Subject) : Fault → String
  | noCode key => s.name++" "++Text.quoted key++" has no code"
  | duplicateCode code => "duplicate "++s.name++" code "++toString code.toNat
  | malformed => "malformed "++s.name++" catalog"

def readNumber : Json.Reader UInt32
  | old, .null => some old
  | _, .number n => do
    let n ← if n.toList.all Char.isDigit then n.toNat? else none
    if n < UInt32.size then some n.toUInt32 else none
  | _, _ => none

structure Draft where
  code : UInt32 := 0
  message : String := ""
  pattern : String := ""

def Draft.readMember (d : Draft) (key : String) (v : Json.Value) : Option Draft :=
  match key with
  | "code" => (readNumber d.code v).map fun code => {d with code}
  | "message" => (Json.readText d.message v).map fun message => {d with message}
  | "message_pattern" => (Json.readText d.pattern v).map fun pattern => {d with pattern}
  | _ => some d

def drafts? : Json.Value → Option (List (String × Draft)) := Json.readEntries (Json.readRecord Draft.readMember {})

def addEntry (done : List Entry) (key : String) (d : Draft) : Except Fault (List Entry) :=
  if d.code = 0 then .error (.noCode key)
  else if done.any (·.code == d.code) then .error (.duplicateCode d.code)
  else if d.pattern.isEmpty then .ok (done++[⟨key,d.code,d.message,none⟩])
  else if Pattern.isValid d.pattern then .ok (done++[⟨key,d.code,d.message,some d.pattern⟩])
  else .error .malformed

/-- The entries of a catalog. What stands behind its JSON value is not looked at. -/
def load (text : List UInt8) : Except Fault (List Entry) := do
  match (Json.parsePrefix? (Utf8.decodeLossy text)).bind (drafts? ·.1) with
  | none => throw .malformed
  | some drafts => drafts.foldlM (fun done (key,d) => addEntry done key d) []

structure Expected where
  entry : Entry
  location : Location
deriving DecidableEq, Repr

structure Expectation where
  name : String := ""
  file : String := ""
  start : UInt32 := 0
  length : UInt32 := 0

def Expectation.readSpanMember (e : Expectation) (key : String) (v : Json.Value) : Option Expectation :=
  match key with
  | "start" => (readNumber e.start v).map fun start => {e with start}
  | "len" => (readNumber e.length v).map fun length => {e with length}
  | _ => some e

def Expectation.readMember (e : Expectation) (key : String) (v : Json.Value) : Option Expectation :=
  match key with
  | "name" => (Json.readText e.name v).map fun name => {e with name}
  | "file" => (Json.readText e.file v).map fun file => {e with file}
  | "span" => Json.readRecord Expectation.readSpanMember e v
  | _ => some e

/-- By file, then by place, then by code. -/
def notAfter (a b : Expected) : Bool :=
  if a.location.file ≠ b.location.file then a.location.file < b.location.file
  else if a.location.span.start ≠ b.location.span.start then a.location.span.start < b.location.span.start
  else a.entry.code ≤ b.entry.code

def expected? (catalog : List Entry) (text : List UInt8) (key : String) : Option (List Expected) := do
  let lists ← Json.readEntries (Json.readList (Json.readRecord Expectation.readMember) {} []) (← Json.parseBytes? text)
  let found ← ((lists.lookup key).getD []).mapM fun e => do
    let entry ← catalog.find? (·.key == e.name)
    pure (⟨entry,⟨e.file,⟨e.start,e.length⟩⟩⟩ : Expected)
  return found.mergeSort notAfter

end InfoObject.Catalog
