import InfoObject.Model.Entity

/-! Searching a class for a field by its name or by its place. A search that fails tells so and gives a field that stands for
all those not found. -/
namespace InfoObject.Model

/-- What a search that fails gives. It belongs to no module, and nothing is built for it. -/
def erroneousField : Field :=
  { name := ⟨erroneousName,.ttcn⟩, location := ⟨"",⟨0,0⟩⟩, shape := .malformed, declaredOptional := false,
    declaredUnique := false, declaredDefault := none, scope := ⟨0⟩, defaultSetting := none}

/-- A class that is searched, with what was told of it, the latest first. -/
structure Search where
  owner : ClassDef
  told : List CheckError

abbrev Searching := StateM Search

def notFound (fault : Fault) (location : Location) : Searching Field := do
  modify fun s => {s with told := ⟨fault,location,none⟩::s.told}
  pure erroneousField

def lookupField (name : Identifier) : Searching (Option Field) := do
  modify fun s => {s with owner := s.owner.searched}
  pure ((← get).owner.field? name)

def fieldNamed (name : Identifier) (location : Location) : Searching Field := do
  match ← lookupField name with
  | some f => pure f
  | none => notFound (.fieldNameNotFound name.display (← get).owner.name) location

def fieldAt (index : Int) (location : Location) : Searching Field := do
  let c := (← get).owner
  match if index < 0 then none else c.fields[index.toNat]? with
  | some f => pure f
  | none => notFound (.fieldIndexOutOfRange index c.fields.length c.name) location

end InfoObject.Model
