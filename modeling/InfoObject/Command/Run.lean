import InfoObject.Command.Report
import InfoObject.Command.Usage
import InfoObject.Document.Collector
import InfoObject.Document.Dump
import InfoObject.Plugin.Run

/-! The commands: each loads a project, checks it, and prints or writes what it is for. -/
namespace InfoObject.Command

open Document (Collector)

structure Output where
  stdout : String := ""
  stderr : String := ""
deriving DecidableEq, Repr

structure Environment where
  pluginPath : String
  colored : Bool
  load : Plugin.Loader

/-- A command prints as it goes, and may end early with a message. -/
abbrev Run (m : Type → Type) := ExceptT String (StateT Output m)

structure Loaded where
  project : Project
  manifest : Option Manifest
  style : Style
  syntaxErrors : Nat

section
variable {m : Type → Type} [Monad m] [Files.Access m]

def print (s : String) : Run m Unit := modify fun o => {o with stdout := o.stdout++s}

def printError (s : String) : Run m Unit := modify fun o => {o with stderr := o.stderr++s}

def attempt {α : Type} (action : m (Except Files.Failure α)) : Run m α := do
  match ← action with
  | .ok a => return a
  | .error f => throw f.message

def chooseColor (env : Environment) (mode : String) : Run m Bool :=
  match mode with
  | "" => pure env.colored
  | "auto" => pure env.colored
  | "always" => pure true
  | "never" => pure false
  | _ => throw ("Unsupported color mode "++Text.quoted mode)

/-- The manifest that the flags name, or the default one when no files are given either. -/
def loadManifest (flags : FlagValues) (files : List String) : Run m (Option Manifest) := do
  let named := flags.text "project" ""
  if named.isEmpty && !files.isEmpty then return none
  let name := if named.isEmpty then Manifest.fileName else named
  match ← (Files.Access.read name : m _) with
  | .error f =>
    if f.cause = .notFound ∧ named.isEmpty then
      throw ("No module files given and no "++Manifest.fileName++" found")
    else throw f.message
  | .ok bytes =>
    match Manifest.parseFile name bytes with
    | .error f => throw (name++": "++f.message)
    | .ok manifest => return some manifest

def loadModule (l : Loaded) (file : String) : Run m Loaded := do
  let source ← attempt (Files.Access.read file : m _)
  let style := {l.style with sources := (file,source)::l.style.sources}
  match Notation.Module.parse source file with
  | .error e =>
    printError (style.line (syntaxNotice file e))
    return {l with style, syntaxErrors := l.syntaxErrors+1}
  | .ok node =>
    match l.project.addModule node with
    | .ok (_,project) => return {l with style, project}
    | .error _ => throw "The module could not be added"

/-- Reads the files of the manifest and those given. A file with a syntax error is reported and left out. -/
def loadProject (colored : Bool) (flags : FlagValues) (files : List String) : Run m Loaded := do
  let manifest ← loadManifest flags files
  let werror := flags.switch "werror" || manifest.any Manifest.warningsAsErrors
  let files := manifest.elim [] Manifest.modulePaths++files
  files.foldlM loadModule ⟨Project.new werror,manifest,⟨colored,[]⟩,0⟩

def checkProject (l : Loaded) : Run m (CheckResult × List Document) :=
  match l.project.check (some Collector.emitter) none with
  | .ok (c,collector) => pure (c.result,collector.documents)
  | .error _ => throw "The check could not be completed"

/-- The documents of a project that has no faults; its diagnostics are printed in any case. -/
def collectDocuments (l : Loaded) : Run m (Option (List Document)) := do
  let (result,documents) ← checkProject l
  printError (l.style.result result)
  if l.syntaxErrors > 0 || result.failed then return none
  match result.emitError with
  | some e => throw e
  | none => return some documents

def writeOutput (path content : String) : Run m Unit := do
  if path = "" ∨ path = "-" then print content
  else
    attempt (Files.ensureDirectory (Path.directory path) : m _)
    attempt (Files.Access.write path (Utf8.ofString content) : m _)

def runCheck (env : Environment) (flags : FlagValues) (files : List String) : Run m Bool := do
  let format := flags.text "format" "text"
  if format ≠ "text" ∧ format ≠ "json" then throw ("Unsupported output format "++Text.quoted format)
  let colored ← chooseColor env (flags.text "color" "auto")
  let l ← loadProject colored flags files
  let (result,_) ← checkProject l
  if format = "json" then writeOutput "" (l.style.resultJson result) else printError (l.style.result result)
  return l.syntaxErrors = 0 && !result.failed

def runDump (env : Environment) (flags : FlagValues) (files : List String) : Run m Bool := do
  let colored ← chooseColor env (flags.text "color" "auto")
  let l ← loadProject colored flags files
  match ← collectDocuments l with
  | none => return false
  | some documents =>
    writeOutput (flags.text "output" "") (Document.dump documents)
    return true

def writeDocuments (directory : String) (documents : List Document) : Run m Unit := do
  attempt (Files.ensureDirectory directory : m _)
  documents.forM fun d =>
    attempt (Files.Access.write (Path.join [directory,d.module++".json"]) (Utf8.ofString d.renderJson) : m _)

def orElse (first second : String) : String := if first.isEmpty then second else first

def runEmit (env : Environment) (flags : FlagValues) (files : List String) : Run m Bool := do
  let colored ← chooseColor env (flags.text "color" "auto")
  let l ← loadProject colored flags files
  let directory := orElse (flags.text "output" "") (l.manifest.elim "" Manifest.resolvedOutput)
  let lang := orElse (flags.text "lang" "") (l.manifest.elim "" Manifest.lang)
  if directory.isEmpty then throw (Plugin.RunFault.message .noOutputDirectory)
  let options ← match Plugin.parseOptions (flags.texts "plugin-opt") with
    | .ok options => pure options
    | .error s => throw (Plugin.optionMessage s)
  match ← collectDocuments l with
  | none => return false
  | some documents =>
    if lang.isEmpty then
      writeDocuments directory documents
      return true
    let searchPath := Plugin.chooseSearchPath (flags.text "plugin-path" "") env.pluginPath l.manifest
    let (written,fault) ← (Plugin.run env.load ⟨lang,options,searchPath,directory⟩ documents : m _)
    match fault with
    | some f => throw ("emit "++lang++": "++f.message)
    | none =>
      written.forM fun path => printError (path++"\n")
      return true

structure Outcome where
  status : Nat
  output : Output
deriving DecidableEq, Repr

/-- The message of a command that ended early is its last line. -/
def finish (run : Run m Bool) : m Outcome := do
  match ← run.run.run {} with
  | (.ok success,output) => pure ⟨if success then 0 else 1,output⟩
  | (.error e,output) => pure ⟨1,{output with stderr := output.stderr++e++"\n" }⟩

def Name.run (n : Name) (env : Environment) (flags : FlagValues) (files : List String) : m Outcome :=
  match n with
  | .check => finish (runCheck env flags files)
  | .dump => finish (runDump env flags files)
  | .emit => finish (runEmit env flags files)
  | .help => pure ⟨0,{}⟩

end

end InfoObject.Command
