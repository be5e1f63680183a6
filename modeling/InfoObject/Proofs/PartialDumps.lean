import InfoObject.Document.Dump

/-! Dumps that are cut off. Whatever the writer does, a dump hands it the pieces of one list in order and stops at the first that
fails, although the walk over the documents goes on. -/
namespace InfoObject.Document

section
variable {σ : Type} [Writer σ]

theorem writeAll_append (w : σ) (ps qs : List String) : writeAll w (ps++qs) =
    if (writeAll w ps).2 then writeAll w ps else writeAll (writeAll w ps).1 qs := by
  induction ps generalizing w with
  | nil => rfl
  | cons p ps ih =>
    rw [List.cons_append,writeAll,writeAll]
    split
    · rfl
    · exact ih _

namespace Encoder

theorem put_nil (e : Encoder σ) : e.put [] = e := by
  unfold put
  split
  · rfl
  · rename_i h
    rw [writeAll,← Bool.eq_false_iff.mpr h]

/-- Pieces behind a failed write are not written, so two lists are written like one. -/
theorem put_put (e : Encoder σ) (ps qs : List String) : (e.put ps).put qs = e.put (ps++qs) := by
  unfold put
  split
  · rfl
  · rw [writeAll_append]
    dsimp only
    split <;> rfl

theorem put_indent (e : Encoder σ) (ps : List String) : (e.put ps).indent = e.indent := by
  unfold put
  split <;> rfl

theorem put_with_indent (e : Encoder σ) (n : Nat) (ps : List String) :
    put ps {e with indent := n} = {e.put ps with indent := n} := by
  unfold put
  dsimp only
  split <;> rfl

/-- At an indent, a step writes the given pieces. -/
def Puts (n : Nat) (step : Encoder σ → Encoder σ) (ps : List String) : Prop := ∀ e, e.indent = n → step e = e.put ps

theorem puts_line (n : Nat) (text : String) : Puts (σ := σ) n (line text) (linePieces n text) := by
  rintro e rfl
  rfl

theorem Puts.comp {f g : Encoder σ → Encoder σ} (hf : Puts n f ps) (hg : Puts n g qs) : Puts n (fun e => g (f e)) (ps++qs) := by
  intro e he
  show g (f e) = _
  rw [hf e he,hg _ ((put_indent e ps).trans he),put_put]

theorem Puts.each {step : α → Encoder σ → Encoder σ} (h : ∀ a, Puts n (step a) (ps a)) (items : List α) :
    Puts n (each step items) (items.flatMap ps) := by
  induction items with
  | nil => exact fun e _ => (put_nil e).symm
  | cons a items ih => exact (h a).comp ih

theorem Puts.indented {f : Encoder σ → Encoder σ} (h : Puts (n+1) f ps) : Puts n (indented f) ps := by
  rintro e rfl
  rw [Encoder.indented,h _ rfl,put_with_indent]
  simp [← put_indent e ps]

end Encoder

end

def blockPieces (n : Nat) (b : Block) : List String :=
  linePieces n (b.heading++" \x7b")++b.content.flatMap (linePieces (n+1))++linePieces n "\x7d"

def documentPieces (d : Document) : List String := linePieces 0 d.title++d.blocks.flatMap (blockPieces 1)

namespace Encoder
variable {σ : Type} [Writer σ]

theorem puts_block (n : Nat) (b : Block) : Puts (σ := σ) n (block b) (blockPieces n b) :=
  ((puts_line n _).comp (Puts.each (puts_line (n+1)) b.content).indented).comp (puts_line n _)

theorem puts_document (d : Document) : Puts (σ := σ) 0 (document d) (documentPieces d) :=
  (puts_line 0 _).comp (Puts.each (puts_block 1) d.blocks).indented

/-- Leaving out the documents behind a failed write leaves out no piece. -/
theorem puts_documents (ds : List Document) : Puts (σ := σ) 0 (documents ds) (ds.flatMap documentPieces) := by
  induction ds with
  | nil => exact fun e _ => (put_nil e).symm
  | cons d ds ih =>
    intro e he
    rw [documents]
    split
    · rename_i hfail
      exact (if_pos hfail).symm
    · exact (puts_document d).comp ih e he

/-- A dump writes one list of pieces, whatever the writer is. -/
theorem writeText_eq (w : σ) (ds : List Document) : writeText w ds = writeAll w (ds.flatMap documentPieces) := by
  rw [writeText,puts_documents ds _ rfl]
  rfl

end Encoder

/-- A list takes whatever is written, piece by piece. -/
instance : Writer (List String) where
  write pieces piece := (pieces++[piece],false)

theorem writeAll_list (taken ps : List String) : writeAll taken ps = (taken++ps,false) := by
  induction ps generalizing taken with
  | nil => simp [writeAll]
  | cons p ps ih => simp [writeAll,Writer.write,ih]

theorem writeAll_string (text : String) (ps : List String) : writeAll text ps = (text++String.join ps,false) := by
  induction ps generalizing text with
  | nil => simp [writeAll]
  | cons p ps ih => simp [writeAll,Writer.write,ih,String.append_assoc]

theorem writeAll_limited (w : Limited) (ps : List String) : writeAll w ps =
    ({room := w.room-ps.length, taken := w.taken++ps.take w.room, refused := w.refused++(ps.drop w.room).take 1},
      decide (w.room < ps.length)) := by
  induction ps generalizing w with
  | nil => simp [writeAll]
  | cons p ps ih =>
    obtain ⟨room,taken,refused⟩ := w
    cases room with
    | zero => simp [writeAll,Writer.write]
    | succ room => simp [writeAll,Writer.write,ih]

/-- A writer that takes `k` pieces holds the first `k` of those that a writer without a limit is given, and is given no more than one
piece that it refuses. The dump fails if and only if there is such a piece, and what was taken begins the whole dump. -/
theorem cut_dump_exact (k : Nat) (ds : List Document) :
    let all := (writeText ([] : List String) ds).1
    let (w,failed) := writeText ({room := k} : Limited) ds
    (failed = true ↔ k < all.length) ∧ w.taken = all.take k ∧ w.refused = (all.drop k).take 1 ∧
      (String.join w.taken).toList <+: (dump ds).toList := by
  simp only [dump,Encoder.writeText_eq,writeAll_list,writeAll_limited,writeAll_string]
  generalize ds.flatMap documentPieces = ps
  refine ⟨by simp,by simp,by simp,?_⟩
  have hsplit : String.join ps = String.join (ps.take k)++String.join (ps.drop k) := by
    rw [← String.join_append,List.take_append_drop]
  simp [hsplit]

end InfoObject.Document
