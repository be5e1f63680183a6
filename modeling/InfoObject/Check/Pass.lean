import InfoObject.Chain
import InfoObject.Model.Build

/-! One generation of checking: the store as it changes, the chain of entities under resolution, and what was
found so far. -/
namespace InfoObject.Check

open Model

/-- Two objects that share the value of a unique field, by class, position of the field and objects. -/
structure Conflict where
  owner : Id .classDef
  field : Nat
  first : Id .objectDef
  second : Id .objectDef
deriving DecidableEq, Repr

structure Pass where
  marker : Marker
  budget : Nat
  store : Store
  chain : Chain
  reports : List Diagnostic
  conflicts : List Conflict

/-- Why a pass could not go on. A store that was built from modules gives no reason for any of these. -/
inductive Stuck where
  | outOfFuel
  | dangling (key : Nat)
  | unmarked
  | noModule
  | noBody
  | unnamed
  | unlisted
  | emptyCycle
deriving DecidableEq, Repr

abbrev Checking := StateT Pass (Except Stuck)

def marker : Checking Marker := do pure (← get).marker
def budget : Checking Nat := do pure (← get).budget

def build {α : Type} (b : Build α) : Checking α :=
  modifyGet fun p =>
    let (a,store) := b.run p.store
    (a,{p with store})

def orStuck {α : Type} (a : Option α) (e : Stuck) : Checking α :=
  match a with
  | some a => pure a
  | none => throw e

def load {t : EntityType} {α : Type} [Stored t α] (i : Id t) : Checking α := do
  orStuck ((← get).store.get? i) (.dangling i.key)

def save {t : EntityType} {α : Type} [Stored t α] (i : Id t) (a : α) : Checking Unit :=
  modify fun p => {p with store := p.store.put i a}

def report (d : Diagnostic) : Checking Unit := modify fun p => {p with reports := d::p.reports}

def reportError (fault : Fault) (location : Location) (related : Option Location) : Checking Unit :=
  report (.error ⟨fault,location,related⟩)

def reportWarning (concern : Concern) (location : Location) : Checking Unit :=
  report (.warning ⟨concern,location⟩)

def reportConflict (c : Conflict) (fault : Fault) (location related : Location) : Checking Unit := do
  if c ∈ (← get).conflicts then pure ()
  else
    modify fun p => {p with conflicts := c::p.conflicts}
    reportError fault location (some related)

def lookup (scope : Id .module) (r : Notation.Reference) : Checking (Option Assignment) := do
  let p ← get
  let (a,store) ← orStuck (p.store.lookup? scope r p.marker) (.dangling scope.key)
  modify fun p => {p with store}
  pure a

/-- Puts an entity on the chain; false if it is there already. -/
def enter {t : EntityType} (i : Id t) (name : String) (location : Location) : Checking Bool :=
  modifyGet fun p =>
    let (fresh,chain) := p.chain.add ⟨i.key,name,location⟩
    (fresh,{p with chain})

def rewindChain : Checking Unit := do
  let chain ← orStuck (← get).chain.rewind .unmarked
  modify fun p => {p with chain}

def restoringChain {α : Type} (step : Checking α) : Checking α := do
  modify fun p => {p with chain := p.chain.mark}
  let a ← step
  rewindChain
  pure a

def current? {τ : Type} (r : Option (Resolution τ)) : Checking (Option τ) := do
  let m ← marker
  match r with
  | some r => pure (if r.marker.before m then none else some r.target)
  | none => pure none

/-- Tells of the cycles that were found. A cycle has a first link, by which it is told of. -/
def finishAssignment : Checking Unit := do
  let found := (← get).chain
  let (errors,chain) ← orStuck (if [] ∈ found.cycles then none else some found.reportAll) .emptyCycle
  errors.forM fun e => report (.error e)
  modify fun p => {p with chain := chain.reset}

end InfoObject.Check
