import InfoObject.Command.Program
import InfoObject.GoSource.Program

/-! The programs on real files. Which of the two runs is told by the name it was called by. -/
namespace InfoObject

def causeOf : IO.Error → Files.Cause
  | .noFileOrDirectory _ _ _ => .notFound
  | .alreadyExists _ _ _ => .alreadyExists
  | .inappropriateType _ 20 _ => .notDirectory
  | .inappropriateType _ _ _ => .isDirectory
  | .invalidArgument _ 36 _ => .nameTooLong
  | .invalidArgument _ _ _ => .invalidName
  | _ => .notFound

def attemptIn {α : Type} (action path : String) (run : IO α) : IO (Except Files.Failure α) := do
  if path.toList.contains '\x00' then return .error ⟨action,path,.invalidName⟩
  try return .ok (← run) catch e => return .error ⟨action,path,causeOf e⟩

def readIn (path : String) : IO (Except Files.Failure (List UInt8)) := do
  match ← attemptIn "open" path (IO.FS.readBinFile path) with
  | .ok bytes => return .ok bytes.toList
  | .error f => return .error (if f.cause = .isDirectory then {f with action := "read" } else f)

def examineIn (path : String) : IO (Except Files.Cause Files.Entry) := do
  match ← readIn path with
  | .ok _ => return .ok .file
  | .error f => return if f.cause = .isDirectory then .ok .directory else .error f.cause

instance : Files.Access IO where
  examine := examineIn
  read := readIn
  write path content := attemptIn "open" path (IO.FS.writeBinFile path ⟨content.toArray⟩)
  makeDirectory path := attemptIn "mkdir" path (IO.FS.createDir path)

def runInfosem (args : List String) : IO UInt32 := do
  let pluginPath := (← IO.getEnv "INFOSEM_PLUGIN_PATH").getD ""
  let outcome ← Command.program ⟨pluginPath,false,fun _ => none⟩ args
  IO.print outcome.output.stdout
  IO.eprint outcome.output.stderr
  return outcome.status.toUInt32

def runGenerator (paths : List String) : IO UInt32 := do
  match ← (GoSource.program paths : IO _) with
  | .ok files =>
    files.forM fun f => IO.print f.text
    return 0
  | .error f =>
    IO.eprintln f.message
    return 1

end InfoObject

def main (args : List String) : IO UInt32 := do
  if (← IO.appPath).fileName == some "infosem-emit-go" then InfoObject.runGenerator args else InfoObject.runInfosem args
