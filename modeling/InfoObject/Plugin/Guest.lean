import InfoObject.Document.Basic
import InfoObject.Json.Parser
import InfoObject.Text.Base64

/-! The exchange with a plugin: the host puts a request into the memory of its guest, lets it generate, and takes the
response from there. Both are a length of four bytes, lowest first and counting themselves, and JSON. -/
namespace InfoObject.Plugin

structure Request where
  lang : String
  documents : List Document
  options : List (String × String)

def Request.toJson (r : Request) : Json.Value :=
  let documents : Json.Value := if r.documents.isEmpty then .null else .list (r.documents.map Document.toJson)
  let options := r.options.mergeSort fun a b => decide (a.1 ≤ b.1)
  .record ([("lang",.text r.lang),("documents",documents)] ++
    if options.isEmpty then [] else [("options",.record (options.map fun (k,v) => (k,.text v)))])

namespace Request

/-- There is no document in the place of which `null` is given. -/
def readDocument : Json.Value → Option Document
  | .null => none
  | v => Document.ofJson? v

def readMember (r : Request) (key : String) (v : Json.Value) : Option Request :=
  match key with
  | "lang" => (Json.readText r.lang v).map fun lang => {r with lang}
  | "documents" => (Json.readList (fun _ => readDocument) {} r.documents v).map fun documents => {r with documents}
  | "options" => (Json.readEntries (Json.readText "") v).map fun options => {r with options}
  | _ => some r

def ofJson? (v : Json.Value) : Option Request := Json.readRecord readMember ⟨"",[],[]⟩ v

def option (r : Request) (key : String) : String := (r.options.lookup key).getD ""

end Request

/-- Bytes that were written one over the other. Those behind the length are not said, but are there to be read over. -/
structure Buffer where
  memory : List UInt8 := []
  length : Nat := 0
deriving DecidableEq, Repr

namespace Buffer

def bytes (b : Buffer) : List UInt8 := b.memory.take b.length

def put (b : Buffer) (bytes : List UInt8) : Buffer := ⟨bytes++b.memory.drop bytes.length,bytes.length⟩

end Buffer

structure OutputFile where
  /-- The components of the path below the output directory; a plugin may leave them out. -/
  path : Option (List String) := none
  content : Buffer := {}
deriving DecidableEq, Repr

structure Response where
  error : String := ""
  files : List OutputFile := []
deriving DecidableEq, Repr

def readByte : Json.Reader UInt8
  | old, .null => some old
  | _, .number n => do
    let n ← if n.toList.all Char.isDigit then n.toNat? else none
    if n < 256 then some n.toUInt8 else none
  | _, _ => none

/-- Bytes one by one, each read over the one that is there. -/
def readEachByte : List UInt8 → List Json.Value → Option (List UInt8)
  | _, [] => some []
  | old, v::vs => do return (← readByte (old.headD 0) v)::(← readEachByte old.tail vs)

def readBytes : Json.Reader Buffer
  | _, .null => some {}
  | _, .list [] => some {}
  | b, .text s => (Base64.decode s).map b.put
  | b, .list vs => (readEachByte b.memory vs).map b.put
  | _, _ => none

def OutputFile.readMember (f : OutputFile) (key : String) (v : Json.Value) : Option OutputFile :=
  match key with
  | "path" => (Json.readList? Json.readText "" f.path v).map fun path => {f with path}
  | "content" => (readBytes f.content v).map fun content => {f with content}
  | _ => some f

def Response.readMember (r : Response) (key : String) (v : Json.Value) : Option Response :=
  match key with
  | "error" => (Json.readText r.error v).map fun error => {r with error}
  | "files" => (Json.readList (Json.readRecord OutputFile.readMember) {} r.files v).map fun files => {r with files}
  | _ => some r

def Response.ofJson? (v : Json.Value) : Option Response := Json.readRecord readMember {} v

def word (n : UInt32) : List UInt8 := [n.toUInt8,(n >>> 8).toUInt8,(n >>> 16).toUInt8,(n >>> 24).toUInt8]

def ofWord? : List UInt8 → Option UInt32
  | [a,b,c,d] => some (a.toUInt32 ||| b.toUInt32 <<< 8 ||| c.toUInt32 <<< 16 ||| d.toUInt32 <<< 24)
  | _ => none

def frame (body : List UInt8) : List UInt8 := word (4+body.length).toUInt32++body

/-- The memory of a guest: so many bytes, all zero but for those that were written, the latest writing first. -/
structure Memory where
  size : Nat
  writes : List (Nat × List UInt8)

namespace Memory

def zeros (size : Nat) : Memory := ⟨size,[]⟩

def holds (m : Memory) (start length : Nat) : Bool := start+length ≤ m.size

def write? (m : Memory) (start : UInt32) (bytes : List UInt8) : Option Memory :=
  if m.holds start.toNat bytes.length then some {m with writes := (start.toNat,bytes)::m.writes} else none

/-- What `bytes` from `start` on become when `patch` was written over them at `offset`. -/
def overlay (bytes : List UInt8) (start offset : Nat) (patch : List UInt8) : List UInt8 :=
  if offset ≤ start then
    let patch := (patch.drop (start-offset)).take bytes.length
    patch++bytes.drop patch.length
  else
    let front := bytes.take (offset-start)
    let rest := bytes.drop (offset-start)
    let patch := patch.take rest.length
    front++patch++rest.drop patch.length

def read? (m : Memory) (start : UInt32) (length : Nat) : Option (List UInt8) :=
  if m.holds start.toNat length then
    some (m.writes.foldr (fun (offset,patch) bytes => overlay bytes start.toNat offset patch) (List.replicate length 0))
  else none

def readWord? (m : Memory) (start : UInt32) : Option UInt32 := (m.read? start 4).bind ofWord?

end Memory

/-- A plugin that is loaded. Its functions may be missing, and each call may fail. -/
structure Guest where
  memory : Memory
  /-- The address of a buffer, by how many were asked for before and by the size. -/
  allocate : Option (Nat → UInt32 → Option UInt32)
  /-- Generates from the request at the first address, stores the address of the response at the second, and gives
  a status. -/
  generate : Option (Memory → UInt32 → UInt32 → Option (UInt32 × Memory))

inductive Fault where
  | crash
  | missingExport (name : String)
  | requestNotWritten
  | noResponseAddress
  | noResponseLength
  | noResponse
  | malformedResponse
deriving DecidableEq, Repr

def Fault.message : Fault → String
  | crash => "wasm error"
  | missingExport name => "plugin does not export "++name
  | requestNotWritten => "Failed to write request message"
  | noResponseAddress => "Failed to read response message address"
  | noResponseLength => "Failed to read response message length"
  | noResponse => "Failed to read response message"
  | malformedResponse => "decoding response"

def orFault {α : Type} (o : Option α) (f : Fault) : Except Fault α :=
  match o with
  | some a => .ok a
  | none => .error f

def readResponse (memory : Memory) (slot : UInt32) : Except Fault (List UInt8) := do
  let address ← orFault (memory.readWord? slot) .noResponseAddress
  let length ← orFault (memory.readWord? address) .noResponseLength
  if length < 4 then throw .noResponseLength
  let framed ← orFault (memory.read? address length.toNat) .noResponse
  return framed.drop 4

/-- A status other than zero is an error, though the plugin may not say which. -/
def Response.withStatus (r : Response) (status : UInt8) : Response :=
  if status != 0 && r.error.isEmpty then {r with error := "plugin failed with status "++toString status.toNat} else r

def call (g : Guest) (request : List UInt8) : Except Fault Response := do
  let allocate ← orFault g.allocate (.missingExport "infosem_emit_allocate")
  let generate ← orFault g.generate (.missingExport "infosem_emit_generate")
  let address ← orFault (allocate 0 request.length.toUInt32) .crash
  let memory ← orFault (g.memory.write? address request) .requestNotWritten
  let slot ← orFault (allocate 1 4) .crash
  let (status,memory) ← orFault (generate memory address slot) .crash
  let body ← readResponse memory slot
  let response ← orFault ((Json.parseBytes? body).bind Response.ofJson?) .malformedResponse
  return response.withStatus status.toUInt8

end InfoObject.Plugin
