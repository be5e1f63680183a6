import InfoObject.Files.Access
import InfoObject.Manifest
import InfoObject.Plugin.Guest

/-! Running a plugin: where it is looked for, what it is told, and where the files go that it generates. -/
namespace InfoObject.Plugin

structure Job where
  lang : String
  options : List (String × String)
  searchPath : String
  outputDirectory : String

inductive PathFault where
  | empty
  | badComponent (c : String)
  | absoluteComponent (c : String)
  | separator (c : String)
deriving DecidableEq, Repr

def PathFault.message : PathFault → String
  | empty => "empty"
  | badComponent c => "bad path component "++Text.quoted c
  | absoluteComponent c => "absolute path component "++Text.quoted c
  | separator c => "component "++Text.quoted c++" contains a separator"

def checkComponent (c : String) : Except PathFault Unit :=
  if c = "" ∨ c = "." ∨ c = ".." then .error (.badComponent c)
  else if Path.isAbsolute c then .error (.absoluteComponent c)
  else if c.toList.any fun x => x == '/' || x == '\\' then .error (.separator c)
  else .ok ()

/-- The path of a generated file. A component may lead neither out of the output directory nor deeper by itself. -/
def outputPath (directory : String) (components : List String) : Except PathFault String := do
  if components.isEmpty then throw .empty
  components.forM checkComponent
  return Path.join (directory::components)

def renderComponents : Option (List String) → String
  | none => "[]string(nil)"
  | some cs => "[]string\x7b"++", ".intercalate (cs.map Text.quoted)++"\x7d"

inductive RunFault where
  | noOutputDirectory
  | noSearchPath
  | notFound (name : String)
  | file (f : Files.Failure)
  | guest (path : String) (f : Fault)
  | reported (path text : String)
  | noFiles
  | badPath (components : Option (List String)) (f : PathFault)
deriving DecidableEq, Repr

def trimNewlines (s : String) : String := String.ofList (s.toList.reverse.dropWhile (· == '\n')).reverse

def RunFault.message : RunFault → String
  | noOutputDirectory => "No output directory specified (set --output=)"
  | noSearchPath => "No plugin path set, use --plugin-path= or $INFOSEM_PLUGIN_PATH"
  | notFound name => "Emit plugin "++name++" not found in plugin path"
  | file f => f.message
  | guest path f => path++": "++f.message
  | reported path text => path++": "++trimNewlines text
  | noFiles => "Plugin did not generate any output files"
  | badPath components f => "Invalid output path "++renderComponents components++": "++f.message

/-- Where plugins are looked for: where the command line says, or the environment, or the manifest. -/
def chooseSearchPath (flag environment : String) (manifest : Option Manifest) : String :=
  if !flag.isEmpty then flag
  else if !environment.isEmpty then environment
  else manifest.elim "" Manifest.resolvedPluginPath

/-- Options are given as `KEY=VALUE`; of those with one key the last counts. -/
def parseOption? (s : String) : Option (String × String) :=
  let key := s.toList.takeWhile (· != '=')
  match s.toList.drop key.length with
  | '='::value => if key.isEmpty then none else some (String.ofList key,String.ofList value)
  | _ => none

def putOption (options : List (String × String)) (key value : String) : List (String × String) :=
  if options.any (·.1 == key) then options.map fun (k,v) => if k = key then (k,value) else (k,v)
  else options++[(key,value)]

def parseOptions : List String → Except String (List (String × String)) :=
  List.foldlM (fun options s =>
    match parseOption? s with
    | some (key,value) => .ok (putOption options key value)
    | none => .error s) []

def optionMessage (s : String) : String := "Invalid plugin option "++Text.quoted s++" (expected KEY=VALUE)"

def pluginName (lang : String) : String := "infosem-emit-"++lang++".wasm"

section
variable {m : Type → Type} [Monad m] [Files.Access m]

def search (name : String) : List String → m (Option String)
  | [] => pure none
  | d::ds => do
    let path := Path.join [d,name]
    match ← Files.Access.examine path with
    | .ok _ => pure (some path)
    | .error _ => search name ds

def find (job : Job) : ExceptT RunFault m String := do
  if job.searchPath.isEmpty then throw .noSearchPath
  match ← search (m := m) (pluginName job.lang) (Path.splitList job.searchPath) with
  | some path => return path
  | none => throw (.notFound (pluginName job.lang))

def attempt {α : Type} (action : m (Except Files.Failure α)) : ExceptT RunFault m α := do
  match ← action with
  | .ok a => return a
  | .error f => throw (.file f)

def writeFile (directory : String) (f : OutputFile) : ExceptT RunFault m String := do
  match outputPath directory (f.path.getD []) with
  | .error e => throw (.badPath f.path e)
  | .ok path =>
    attempt (m := m) (Files.ensureDirectory (Path.directory path))
    attempt (m := m) (Files.Access.write path f.content.bytes)
    return path

def writeFiles (directory : String) : List OutputFile → m (List String × Option RunFault)
  | [] => pure ([],none)
  | f::fs => do
    match ← (writeFile (m := m) directory f).run with
    | .error e => pure ([],some e)
    | .ok path =>
      let (paths,fault) ← writeFiles directory fs
      pure (path::paths,fault)

abbrev Loader := List UInt8 → Option Guest

def generate (load : Loader) (job : Job) (documents : List Document) : ExceptT RunFault m (List OutputFile) := do
  if job.outputDirectory.isEmpty then throw .noOutputDirectory
  let path ← find (m := m) job
  let program ← attempt (m := m) (Files.Access.read path)
  let request : Request := ⟨job.lang,documents,job.options⟩
  let framed := frame (Json.renderValue request.toJson |> Utf8.encode)
  let response ← match (orFault (load program) .crash).bind (call · framed) with
    | .ok r => pure r
    | .error f => throw (.guest path f)
  if !response.error.isEmpty then throw (.reported path response.error)
  if response.files.isEmpty then throw .noFiles
  return response.files

/-- Runs a plugin: the paths of the files written, and what went wrong. -/
def run (load : Loader) (job : Job) (documents : List Document) : m (List String × Option RunFault) := do
  match ← (generate (m := m) load job documents).run with
  | .error e => pure ([],some e)
  | .ok files => writeFiles job.outputDirectory files

end

end InfoObject.Plugin
