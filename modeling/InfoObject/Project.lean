import InfoObject.Check.Module

/-! A set of modules that are checked together. Only a change starts a new generation; without one the last
result stands. -/
namespace InfoObject

open Model

structure CheckResult where
  marker : Marker
  errors : List CheckError
  warnings : List Warning
  emitError : Option String
  warningsAsErrors : Bool
deriving Repr

def CheckResult.failed (r : CheckResult) : Bool :=
  !r.errors.isEmpty || (r.warningsAsErrors && !r.warnings.isEmpty)

structure Project where
  store : Store
  /-- Modules of a name that another file supplied first. -/
  duplicates : List (Id .module)
  dirty : Bool
  marker : Marker
  result : Option CheckResult
  warningsAsErrors : Bool
  /-- The definitions that an emitter was given, with the generation in which it was given them last. -/
  emissions : List (Definition × Marker)
deriving Repr

/-- Takes definitions one by one, and may refuse one with a reason. -/
structure Emitter (σ : Type) where
  emit : Store → Definition → Marker → σ → σ × Option String

namespace Project

def new (warningsAsErrors : Bool) : Project :=
  ⟨Store.empty,[],true,Marker.zero,none,warningsAsErrors,[]⟩

def row (s : Store) (id : Id .module) : Except Check.Stuck Module :=
  match s.get? id with
  | some m => pure m
  | none => throw (.dangling id.key)

/-- Adds a module. One of the same name from the same file is replaced; from another file the first one stays,
and it is what is returned. -/
def addModule (p : Project) (node : Notation.Module) : Except Check.Stuck (Id .module × Project) := do
  let (id,store) := (newModule node).run p.store
  let p := {p with store, dirty := true}
  let m ← row store id
  match store.moduleNamed? m.name with
  | none => pure (id,{p with store := {store with kept := store.kept.append m.name id} })
  | some previous =>
    if (← row store previous).file = node.file then
      match store.kept.replace? m.name previous id with
      | some kept => pure (id,{p with store := {store with kept} })
      | none => throw .unlisted
    else pure (previous,{p with duplicates := p.duplicates++[id]})

def invalidate (p : Project) : Project := {p with dirty := true}

def modules (p : Project) : List Module := p.store.keptModules

def module? (p : Project) (name : String) : Option (Id .module) := do
  let i ← p.store.registry.lookup name .asn
  p.store.moduleNamed? i

/-- The length of all bodies that may have to be read, and the number of fields that may have a default. -/
def bodies (s : Store) : Nat :=
  let total {α : Type} (length : α → Nat) (l : List α) := l.foldr (fun a n => length a+n) 0
  total (fun c => total (fun f => 1+f.declaredDefault.elim 0 Notation.Payload.bodyLength) c.fields) s.classes.toList +
    total (fun o => o.block.elim 0 Notation.RawBlock.length) s.objects.toList +
    total (fun d => d.block.elim 0 Notation.RawBlock.length) s.sets.toList

/-- A bound on the depth of a check: each step of a descent is made for an entity of the store, or for one that
is built from a part of some body. -/
def budget (s : Store) : Nat := 8*(s.size+bodies s)+64

def reportDuplicate (id : Id .module) : Check.Checking Unit := do
  let m ← Check.load id
  let first ← Check.load (← Check.orStuck ((← get).store.moduleNamed? m.name) .unlisted)
  Check.reportError (.duplicateModule m.name.display) (m.locate m.node.name.span)
    (some (first.locate first.node.name.span))

def checkAll (duplicates : List (Id .module)) : Check.Checking Unit := do
  duplicates.forM reportDuplicate
  (← get).store.kept.modules.forM Check.checkModule

def startPass (p : Project) : Check.Pass :=
  ⟨p.marker.next,budget p.store,p.store,Chain.new "project",[],[]⟩

def notAfter (a b : Location) : Bool :=
  a.file < b.file || (a.file == b.file && a.span.start ≤ b.span.start)

def sortErrors (es : List CheckError) : List CheckError :=
  es.mergeSort fun a b => notAfter a.location b.location

def sortWarnings (ws : List Warning) : List Warning :=
  ws.mergeSort fun a b => notAfter a.location b.location

def isErroneous (s : Store) : Definition → Bool
  | .objectClass id => (s.get? id).any ClassDef.erroneous
  | .object id => (s.get? id).any ObjectDef.erroneous
  | .objectSet id => (s.get? id).any SetDef.erroneous

/-- The definitions of the modules in use, in the order of modules and of declaration. -/
def definitions (s : Store) : List Definition := s.keptModules.flatMap Module.definitions

def lastEmitted (emissions : List (Definition × Marker)) (d : Definition) : Marker :=
  (emissions.lookup d).getD Marker.zero

/-- A definition is given once in a generation, and a stand-in never. -/
def shouldEmit (s : Store) (m : Marker) (emissions : List (Definition × Marker)) (d : Definition) : Bool :=
  !isErroneous s d && (lastEmitted emissions d).before m

/-- Hands over definitions until one is refused. Each is stamped before it is handed over. -/
def emitAll {σ : Type} (e : Emitter σ) (s : Store) (m : Marker) :
    List Definition → List (Definition × Marker) → σ → List (Definition × Marker) × σ × Option String
  | [], emissions, st => (emissions,st,none)
  | d::rest, emissions, st =>
    if shouldEmit s m emissions d then
      let emissions := (d,m)::emissions.filter (·.1 ≠ d)
      match e.emit s d m st with
      | (st,none) => emitAll e s m rest emissions st
      | (st,some reason) => (emissions,st,some reason)
    else emitAll e s m rest emissions st

/-- The outcome of a check that was run: the project behind it, its result, and what was reported in order. -/
structure Checked where
  project : Project
  result : CheckResult
  reports : List Diagnostic

def runCheck (p : Project) : Except Check.Stuck Checked := do
  let (_,pass) ← (checkAll p.duplicates).run p.startPass
  let reports := pass.reports.reverse
  let result : CheckResult :=
    { marker := pass.marker, errors := sortErrors (reports.filterMap Diagnostic.error?),
      warnings := sortWarnings (reports.filterMap Diagnostic.warning?), emitError := none,
      warningsAsErrors := p.warningsAsErrors}
  pure ⟨{p with store := pass.store, dirty := false, marker := pass.marker, result := some result},
    result,reports⟩

/-- Hands the definitions of a checked project to the emitter, unless the check failed. -/
def emitChecked {σ : Type} (e : Emitter σ) (c : Checked) (st : σ) : Checked × σ :=
  if c.result.failed then (c,st)
  else
    let (emissions,st,emitError) :=
      emitAll e c.project.store c.result.marker (definitions c.project.store) c.project.emissions st
    let result := {c.result with emitError}
    ({c with result, project := {c.project with result := some result, emissions} },st)

/-- Checks the project. If nothing changed since the last check, its result stands, and nothing is reported or
emitted again. -/
def check {σ : Type} (p : Project) (e : Option (Emitter σ)) (st : σ) : Except Check.Stuck (Checked × σ) :=
  match p.dirty, p.result with
  | false, some result => .ok (⟨p,result,[]⟩,st)
  | _, _ => do
    let c ← p.runCheck
    match e with
    | none => pure (c,st)
    | some e => pure (emitChecked e c st)

end Project

end InfoObject
