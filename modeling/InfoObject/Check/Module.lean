import InfoObject.Check.Definition

/-! Checking the assignments and imports of a module. -/
namespace InfoObject.Check

open Model

def checkDeclared (a : Assignment) : Checking Unit := do
  match a.declared with
  | .objectClass (.definition id) => check (.objectClass id)
  | .objectClass (.reference id) => checkClassRef id
  | .object (.definition id) => check (.object id)
  | .object (.reference id) => checkObjectRef id
  | .objectSet (.definition id) => check (.objectSet id)
  | .objectSet (.reference id) => checkSetRef id
  | .type t => let _ ← resolveType t
  | .value t v => checkValue v t a.location
  | .malformed => reportError (.malformedAssignment a.identifier.display) a.location none

/-- A module that is checked visits each of its assignments once, so that none was stamped before in the generation. -/
def visitAssignment (module : Id .module) (index : Nat) : Checking Unit := do
  let m ← load module
  match m.assignments[index]? with
  | none => throw (.dangling module.key)
  | some a =>
    let now ← marker
    save module {m with assignments := m.assignments.modify index fun a => {a with checked := now} }
    checkDeclared a

def checkAssignment (module : Id .module) (index : Nat) : Checking Unit := do
  visitAssignment module index
  finishAssignment

def checkName (m : Module) (a : Assignment) (index : Nat) : Checking Unit := do
  let first ← orStuck (m.find? a.identifier) .unnamed
  if m.assignments.findIdx? (·.identifier == a.identifier) ≠ some index then
    reportError (.duplicateAssignment a.identifier.display) a.location (some first.location)
  if (BuiltinType.ofName? a.identifier.asnName).isSome then
    reportWarning (.shadowsBuiltin a.identifier.display) a.location

def imported? (i : ImportedName) : Checking (Option (Option Assignment)) := do
  match (← get).store.moduleNamed? i.source with
  | none => pure none
  | some m => pure (some ((← load m).find? i.name))

def checkImport (m : Module) (i : ImportedName) : Checking Unit := do
  let location := m.locate i.span
  match ← imported? i with
  | none => reportError (.moduleNotFound i.source.display) location none
  | some found =>
    if found.isNone then
      reportError (.importNotFound i.name.display i.source.display) location none
    if (m.find? i.name).isSome then reportError (.importConflict i.name.display) location none

/-- Tells of an import that is in order but that no name in the module led to. -/
def checkUse (m : Module) (i : ImportedName) : Checking Unit := do
  match ← imported? i with
  | some (some _) =>
    if (m.find? i.name).isNone && (← isDue i.used) then
      reportWarning (.unusedImport i.name.display i.source.display) (m.locate i.span)
  | _ => pure ()

/-- A module in use is listed once, so it is checked once in a generation. -/
def checkModule (id : Id .module) : Checking Unit := do
  let m ← load id
  m.assignments.zipIdx.forM fun (a,i) => checkName m a i
  m.imports.forM (checkImport m)
  (List.range m.assignments.length).forM (checkAssignment id)
  let m ← load id
  m.imports.forM (checkUse m)

end InfoObject.Check
