/-! What programs do with files, whatever holds them, and how that fails. -/
namespace InfoObject.Files

inductive Cause where
  | notFound
  | notDirectory
  | isDirectory
  | alreadyExists
  | nameTooLong
  | invalidName
deriving DecidableEq, Repr

def Cause.message : Cause → String
  | notFound => "no such file or directory"
  | notDirectory => "not a directory"
  | isDirectory => "is a directory"
  | alreadyExists => "file exists"
  | nameTooLong => "file name too long"
  | invalidName => "invalid argument"

structure Failure where
  action : String
  path : String
  cause : Cause
deriving DecidableEq, Repr

def Failure.message (f : Failure) : String := f.action++" "++f.path++": "++f.cause.message

inductive Entry where
  | file
  | directory
deriving DecidableEq, Repr

class Access (m : Type → Type) where
  examine : String → m (Except Cause Entry)
  read : String → m (Except Failure (List UInt8))
  write : String → List UInt8 → m (Except Failure Unit)
  makeDirectory : String → m (Except Failure Unit)

def parentPath (path : List Char) : List Char :=
  ((path.reverse.dropWhile (· == '/')).dropWhile (· != '/')).tail.reverse

section
variable {m : Type → Type} [Monad m] [Access m]

/-- Makes a directory and those above it, as far as they are missing. Each path above is shorter, so the length of the
path is fuel enough. -/
def makeDirectories : Nat → List Char → m (Except Failure Unit)
  | 0, _ => pure (.ok ())
  | fuel+1, path => do
    let name := String.ofList path
    match ← Access.examine name with
    | .ok .directory => pure (.ok ())
    | .ok .file => pure (.error ⟨"mkdir",name,.notDirectory⟩)
    | .error _ =>
      let above := parentPath path
      let made ← if above.isEmpty then pure (.ok ()) else makeDirectories fuel above
      match made with
      | .error e => pure (.error e)
      | .ok () =>
        match ← Access.makeDirectory name with
        | .ok () => pure (.ok ())
        | .error e =>
          match ← Access.examine name with
          | .ok .directory => pure (.ok ())
          | _ => pure (.error e)

def ensureDirectory (path : String) : m (Except Failure Unit) :=
  makeDirectories (path.length+1) path.toList

end

end InfoObject.Files
