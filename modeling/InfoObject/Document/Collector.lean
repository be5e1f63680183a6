import InfoObject.Document.Basic
import InfoObject.Document.Quoted
import InfoObject.Project

/-! Collects the definitions of a checked project into one document per module. Objects written inside settings
and sets become objects of their module, behind the definition that holds them. -/
namespace InfoObject.Document

open Model

/-- The document in work and the objects that some document lists already. -/
structure Draft where
  document : Document
  listed : List (Id .objectDef)

/-- Collecting fails only on what no check has resolved. -/
abbrev Collect := StateT Draft Option

def find {t : EntityType} {α : Type} [Stored t α] (s : Store) (id : Id t) : Collect α := s.get? id

def className (s : Store) (id : Id .classDef) : Collect String := ClassDef.name <$> find s id

def objectName (s : Store) (id : Id .objectDef) : Collect String := ObjectDef.name <$> find s id

def governorName (s : Store) (id : Id .classRef) : Collect String := do
  let r ← find s id
  className s (← r.target?)

def typeName (s : Store) (id : Id .typeRef) : Collect String := do
  let r ← find s id
  TypeTarget.name <$> r.target?

def literalText : Literal → String
  | .text s => quoted s
  | l => l.render

def valueText (s : Store) : ValueExpr → Collect String
  | .literal _ _ l => pure (literalText l)
  | .reference id => do
    let r ← find s id
    let target ← r.target?
    pure (target.elim erroneousName literalText)

def objectNames (s : Store) (d : SetDef) : Collect (List String) := d.objects.mapM (objectName s)

def inlineObjects (d : SetDef) : List (Id .objectDef) :=
  d.elements.filterMap fun
    | .literal id => some id
    | _ => none

/-- A setting, where `list` puts an object written in it into the document. -/
def settingEntry (s : Store) (list : Id .objectDef → Collect Unit) (x : Model.Setting) : Collect Setting := do
  let entry : Setting := {field := "&"++x.name.display, kind := x.kind.name}
  match x.value with
  | .type id => return {entry with type := (← typeName s id)}
  | .value v => return {entry with value := (← valueText s v)}
  | .object (.definition id) =>
    list id
    return {entry with object := (← objectName s id)}
  | .object (.reference id) =>
    let r ← find s id
    return {entry with object := (← objectName s (← r.target?))}
  | .set (.definition id) =>
    let d ← find s id
    (inlineObjects d).forM list
    return {entry with objects := (← objectNames s d)}
  | .set (.reference id) =>
    let r ← find s id
    let d ← find s (← r.target?)
    return {entry with objects := (← objectNames s d)}

def addObjectEntry (o : ObjectEntry) : Collect Nat := do
  let d ← get
  set {d with document := {d.document with objects := d.document.objects++[o]} }
  return d.document.objects.length

def addSetting (index : Nat) (x : Setting) : Collect Unit :=
  modify fun d =>
    { d with document := { d.document with
      objects := d.document.objects.modify index fun o => {o with settings := some (o.settings.getD []++[x])} } }

/-- Lists an object, unless it is listed, and behind it the objects written in its settings. Each object is
listed once, so the number of objects bounds the descent. -/
def listObject (s : Store) : Nat → Id .objectDef → Collect Unit
  | 0, _ => failure
  | fuel+1, id => do
    if id ∈ (← get).listed then return
    modify fun d => {d with listed := id::d.listed}
    let o ← find s id
    let index ← addObjectEntry {name := o.name, className := (← className s (← o.objectClass)), settings := some []}
    o.settings.forM fun x => do addSetting index (← settingEntry s (listObject s fuel) x)

def list (s : Store) (id : Id .objectDef) : Collect Unit := listObject s (s.objects.size+1) id

def fieldEntry (s : Store) (f : Model.Field) : Collect Field := do
  let entry : Field := {name := "&"++f.name.display, kind := f.kind.name, isOptional := f.isOptional}
  let entry ← match f.shape with
    | .value type unique => do pure {entry with type := (← typeName s type), isUnique := unique}
    | .object governor => do pure {entry with className := (← governorName s governor)}
    | .objectSet governor => do pure {entry with className := (← governorName s governor)}
    | _ => pure entry
  return {entry with default := (← f.defaultSetting.mapM (settingEntry s (list s)))}

def addClass (s : Store) (c : ClassDef) : Collect Unit := do
  let fields ← (c.fields.filter (!·.isErroneous)).mapM (fieldEntry s)
  modify fun d => { d with document := { d.document with
    classes := d.document.classes++[{name := c.name, fields := some fields}]} }

def addSet (s : Store) (x : SetDef) : Collect Unit := do
  (inlineObjects x).forM (list s)
  let className ← className s (← x.setClass)
  let objects ← objectNames s x
  modify fun d => { d with document := { d.document with
    sets := d.document.sets++[{name := x.name, className, extensible := x.extensible, objects := some objects}]} }

def addDefinition (s : Store) : Definition → Collect Unit
  | .objectClass id => do addClass s (← find s id)
  | .object id => list s id
  | .objectSet id => do addSet s (← find s id)

def moduleOf? (s : Store) : Definition → Option (Id .module)
  | .objectClass id => (s.get? id).bind ClassDef.module
  | .object id => (s.get? id).bind ObjectDef.module
  | .objectSet id => (s.get? id).bind SetDef.module

/-- What was collected in one generation; the documents stand in the order in which their modules came up. -/
structure Collection where
  marker : Marker
  documents : List (Id .module × Document)
  listed : List (Id .objectDef)

def Collection.new (marker : Marker) : Collection := ⟨marker,[],[]⟩

def Collection.document (c : Collection) (id : Id .module) (m : Module) : Document :=
  (c.documents.lookup id).getD {module := m.name.display, file := m.file}

def Collection.put (c : Collection) (id : Id .module) (d : Document) : Collection :=
  let documents :=
    if c.documents.any (·.1 == id) then c.documents.map fun (i,e) => if i = id then (i,d) else (i,e)
    else c.documents++[(id,d)]
  {c with documents}

def Collection.add (c : Collection) (s : Store) (x : Definition) : Option Collection := do
  let id ← moduleOf? s x
  let m ← s.get? id
  let (_,draft) ← (addDefinition s x).run ⟨c.document id m,c.listed⟩
  return {c.put id draft.document with listed := draft.listed}

abbrev Collector := Option Collection

def Collector.documents (c : Collector) : List Document := c.elim [] fun c => c.documents.map (·.2)

/-- What a definition of this generation is added to: a newer generation starts anew. -/
def Collector.current (c : Collector) (marker : Marker) : Collection :=
  match c with
  | none => Collection.new marker
  | some c => if c.marker.before marker then Collection.new marker else c

def Collector.collect? (c : Collector) (s : Store) (x : Definition) (marker : Marker) : Option Collector :=
  ((c.current marker).add s x).map some

def Collector.emitter : Emitter Collector where
  emit s x marker c :=
    match c.collect? s x marker with
    | some c => (c,none)
    | none => (c,some "unresolved reference")

end InfoObject.Document
