import InfoObject.Notation.Tree

/-! A uniform view of a tree: labelled nodes with a span, attributes and children. -/
namespace InfoObject.Notation

inductive Attribute where
  | text (s : String)
  | holds
deriving DecidableEq, Repr

inductive Outline where
  | node (label : String) (span : Span) (attributes : List (String × Attribute)) (children : List Outline)
deriving Repr

def Ident.outline (i : Ident) : Outline := .node "ident" i.span [("value",.text i.name)] []

def Reference.outline (r : Reference) : Outline :=
  .node "reference" r.span [] ((r.qualifier.toList++[r.name]).map Ident.outline)

def RawBlock.outline (b : RawBlock) : Outline :=
  .node "raw-block" b.span [("source",.text (String.ofList b.text))] []

def Payload.outline : Payload → Outline
  | reference r => r.outline
  | int l => .node "int-lit" l.span [("value",.text (toString l.value))] []
  | text l => .node "text-lit" l.span [("value",.text l.content)] []
  | block b => b.outline

def flagged (name : String) (b : Bool) : List (String × Attribute) := if b then [(name,.holds)] else []

def FieldDecl.outline (f : FieldDecl) : Outline :=
  .node "field-spec" f.span (flagged "unique" f.unique++flagged "optional" f.optional)
    (f.name.outline::f.governor.toList.map Reference.outline++f.default.toList.map Payload.outline)

def Assigned.outline : Assigned → Outline
  | classBody fields span => .node "class-body" span [] (fields.map FieldDecl.outline)
  | classOf object span => .node "class-of" span [] [object.outline]
  | payload p => p.outline

def Assignment.outline (a : Assignment) : Outline :=
  .node "assignment" a.span []
    (a.name.outline::a.governor.toList.map Reference.outline++[a.value.outline])

def Import.outline (i : Import) : Outline :=
  .node "import" i.span [] ((i.names++[i.source]).map Ident.outline)

def Module.outline (m : Module) : Outline :=
  .node "module" m.span []
    (m.name.outline::m.imports.map Import.outline++m.assignments.map Assignment.outline)

def SettingDecl.outline (s : SettingDecl) : Outline :=
  .node "field-setting" s.span [] [s.name.outline,s.payload.outline]

def ObjectBody.outline (b : ObjectBody) : Outline :=
  .node "object-body" b.span [] (b.settings.map SettingDecl.outline)

def ElementDecl.outline : ElementDecl → Outline
  | reference r => r.outline
  | block b => b.outline

def SetBody.outline (b : SetBody) : Outline :=
  .node "object-set-body" b.span (flagged "extensible" b.extensible) (b.elements.map ElementDecl.outline)

end InfoObject.Notation
