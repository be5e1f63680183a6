import InfoObject.Files.Access
import InfoObject.GoSource.Generate
import InfoObject.Plugin.Guest

/-! The generator as a program, which reads documents from files and prints the Go files made of them, and as a plugin, which
takes the documents from a request. -/
namespace InfoObject.GoSource

inductive ProgramFault where
  | noArguments
  | unread (path : String) (f : Files.Failure)
  | undecoded (path : String)
  | generation (f : Fault)
deriving DecidableEq, Repr

def Fault.message : Fault → String
  | unknownKind kind => "unknown kind "++Text.quoted kind
  | malformed module => "module "++module

def ProgramFault.message : ProgramFault → String
  | noArguments => "usage: infosem-emit-go MODULE_JSON...\n"
  | unread path f => "ReadFile("++Text.quoted path++"): "++f.message++"\n"
  | undecoded path => "Unmarshal("++Text.quoted path++")"
  | generation f => f.message

section
variable {m : Type → Type} [Monad m] [Files.Access m]

def readDocument (path : String) : ExceptT ProgramFault m Document := do
  match ← (Files.Access.read path : m _) with
  | .error f => throw (.unread path f)
  | .ok bytes =>
    match (Json.parseBytes? bytes).bind Document.ofJson? with
    | none => throw (.undecoded path)
    | some d => return d

def program (paths : List String) : m (Except ProgramFault (List Generated)) := ExceptT.run do
  if paths.isEmpty then throw .noArguments
  let documents ← paths.mapM readDocument
  match generate "" documents with
  | (files,none) => return files
  | (_,some f) => throw (.generation f)

end

/-- What the plugin makes of the JSON of a request; nothing if it cannot be read. -/
def answer (body : List UInt8) : Option (List Generated × Option Fault) := do
  let r ← (Json.parseBytes? body).bind Plugin.Request.ofJson?
  return generate (r.option "package_prefix") r.documents

end InfoObject.GoSource
