import InfoObject.Files.Tree
import InfoObject.Manifest
import InfoObject.Project

/-! A project made of a directory: of the modules that its manifest lists, or else of all module files in it. -/
namespace InfoObject.Directory

inductive Fault where
  | manifest (f : Manifest.Fault)
  | file (f : Files.Failure)
  | source (file : String) (e : Notation.SyntaxError)
  | stuck (s : Check.Stuck)
deriving Repr

def fileNames (t : Files.Tree) (directory : Files.Place) : List String :=
  (t.files.filterMap fun (p,_) =>
    if p.dropLast = directory then p.getLast? else none).mergeSort fun a b => decide (a ≤ b)

def isModuleFile (name : String) : Bool := ".asn".toList.isSuffixOf name.toList

def manifestOf (t : Files.Tree) (directory : String) : Except Fault (Option Manifest) :=
  let name := Path.join [directory,Manifest.fileName]
  match t.read name with
  | .error f => if f.cause = .notFound then .ok none else .error (.file f)
  | .ok bytes =>
    match Manifest.parseFile name bytes with
    | .ok m => .ok (some m)
    | .error f => .error (.manifest f)

def modulePaths (t : Files.Tree) (directory : String) (manifest : Option Manifest) : List String :=
  match manifest with
  | some m => m.modulePaths
  | none =>
    let place := (Path.split '/' directory.toList).map String.ofList
    ((fileNames t place).filter isModuleFile).map fun n => Path.join [directory,n]

def relative (directory path : String) : String :=
  let above := (directory++"/").toList
  if above.isPrefixOf path.toList then String.ofList (path.toList.drop above.length) else path

def addFile (t : Files.Tree) (directory : String) (p : Project) (path : String) : Except Fault Project := do
  let source ← (t.read path).mapError .file
  let file := relative directory path
  let node ← (Notation.Module.parse source file).mapError (.source file)
  let (_,p) ← (p.addModule node).mapError .stuck
  return p

def load (t : Files.Tree) (directory : String) : Except Fault Project := do
  let manifest ← manifestOf t directory
  let start := Project.new (manifest.any Manifest.warningsAsErrors)
  (modulePaths t directory manifest).foldlM (addFile t directory) start

end InfoObject.Directory
