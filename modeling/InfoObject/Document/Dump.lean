import InfoObject.Document.Basic

/-! Documents as an indented dump, written piece by piece to something that may fail. -/
namespace InfoObject.Document

def Setting.render (s : Setting) : String :=
  if !s.type.isEmpty then s.type
  else if !s.value.isEmpty then s.value
  else if !s.object.isEmpty then s.object
  else "\x7b"++", ".intercalate s.objects++"\x7d"

def spaced (word : String) : String := if word.isEmpty then "" else " "++word

def Field.render (f : Field) : String :=
  f.name++" "++f.kind++spaced f.type++spaced f.className++(if f.isUnique then " unique" else "") ++
    (if f.isOptional then " optional" else "")++f.default.elim "" fun s => " default "++s.render

structure Block where
  heading : String
  content : List String

def ClassEntry.block (c : ClassEntry) : Block := ⟨"class "++c.name,(c.fields.getD []).map Field.render⟩

def ObjectEntry.block (o : ObjectEntry) : Block :=
  ⟨"object "++o.name++" "++o.className,(o.settings.getD []).map fun s => s.field++" = "++s.render⟩

def SetEntry.block (s : SetEntry) : Block :=
  ⟨"set "++s.name++" "++s.className,s.objects.getD []++if s.extensible then ["..."] else []⟩

def blocks (d : Document) : List Block :=
  d.classes.map ClassEntry.block++d.objects.map ObjectEntry.block++d.sets.map SetEntry.block

def title (d : Document) : String := "module "++d.module++" ("++d.file++")"

/-- What text is written to. A write also tells whether it failed. -/
class Writer (σ : Type) where
  write : σ → String → σ × Bool

/-- A text takes whatever is written. -/
instance : Writer String where
  write text piece := (text++piece,false)

/-- A writer that takes a number of pieces and refuses all others. -/
structure Limited where
  room : Nat
  taken : List String := []
  refused : List String := []
deriving DecidableEq, Repr

instance : Writer Limited where
  write w piece :=
    match w.room with
    | 0 => ({w with refused := w.refused++[piece]},true)
    | n+1 => ({w with room := n, taken := w.taken++[piece]},false)

/-- A dump on its way to a writer. The flag stays set once a write has failed. -/
structure Encoder (σ : Type) where
  writer : σ
  indent : Nat := 0
  failed : Bool := false

section
variable {σ : Type} [Writer σ]

/-- Writes pieces up to the first that fails. -/
def writeAll (w : σ) : List String → σ × Bool
  | [] => (w,false)
  | p::ps =>
    match Writer.write w p with
    | (w,true) => (w,true)
    | (w,false) => writeAll w ps

/-- A line is written in up to three pieces: its indent if it has one, its text and the newline. -/
def linePieces (indent : Nat) (text : String) : List String :=
  (if indent = 0 then [] else [String.ofList (List.replicate indent '\t')])++[text,"\n"]

namespace Encoder

def put (pieces : List String) (e : Encoder σ) : Encoder σ :=
  if e.failed then e
  else
    let (w,failed) := writeAll e.writer pieces
    {e with writer := w, failed}

def line (text : String) (e : Encoder σ) : Encoder σ := e.put (linePieces e.indent text)

/-- What a step writes, one level deeper. -/
def indented (step : Encoder σ → Encoder σ) (e : Encoder σ) : Encoder σ :=
  let e := step {e with indent := e.indent+1}
  {e with indent := e.indent-1}

/-- One step for each item. The walk goes on when a write has failed. -/
def each {α : Type} (step : α → Encoder σ → Encoder σ) (items : List α) (e : Encoder σ) : Encoder σ :=
  items.foldl (fun e a => step a e) e

def block (b : Block) (e : Encoder σ) : Encoder σ :=
  line "\x7d" (indented (each line b.content) (e.line (b.heading++" \x7b")))

def document (d : Document) (e : Encoder σ) : Encoder σ := indented (each block d.blocks) (e.line d.title)

def documents : List Document → Encoder σ → Encoder σ
  | [], e => e
  | d::ds, e => if e.failed then e else documents ds (e.document d)

end Encoder

/-- The writer behind a dump, and whether a write failed. -/
def writeText (w : σ) (ds : List Document) : σ × Bool :=
  let e := Encoder.documents ds {writer := w}
  (e.writer,e.failed)

end

def dump (ds : List Document) : String := (writeText "" ds).1

end InfoObject.Document
