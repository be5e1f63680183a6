import InfoObject.Proofs.DeferredBlocks
import InfoObject.Proofs.Termination

/-! What the elements of a set are. -/
namespace InfoObject.Notation

def Reference.beginsUpper (r : Reference) : Bool := r.name.name.toList.head?.any isUpper

/-- What an element of a set names, as it is written. A body names nothing. -/
def ElementDecl.kind : ElementDecl → Option Kind
  | .block _ => none
  | .reference r => some (if r.beginsUpper then .objectSet else .object)

end InfoObject.Notation

namespace InfoObject.Model
open Check

def Element.kind : Element → Option Kind
  | .literal _ => none
  | .object _ => some .object
  | .set _ => some .objectSet

def Expansion.kinds (e : Expansion) : List (Option Kind) := e.elements.map Element.kind

/-- The kinds of the elements of a set as its body tells them. -/
def SetDef.kinds (d : SetDef) : Except Notation.SyntaxError (List (Option Kind)) :=
  match d.block with
  | none => .ok []
  | some b => b.parseSet.map fun body => body.elements.map Notation.ElementDecl.kind

theorem isUpper_asnIdentifier (r : Notation.Reference) : (asnIdentifier r.name.name).isUpper = r.beginsUpper := by
  simp only [Identifier.isUpper,asnIdentifier,Dialect.canonical,replaceChar,String.toList_ofList,Notation.Reference.beginsUpper]
  cases r.name.name.toList with
  | nil => rfl
  | cons c cs =>
    by_cases hc : c = '-'
    · subst hc
      rfl
    · simp [hc,Notation.isUpper]

theorem ElementsBuilt.kinds (h : ElementsBuilt s m d n xs es) : es.map Element.kind = xs.map Notation.ElementDecl.kind := by
  induction xs generalizing n es with
  | nil =>
    cases es with
    | nil => rfl
    | cons => exact h.elim
  | cons x xs ih =>
    cases es with
    | nil => exact h.elim
    | cons e es =>
      obtain ⟨hx,hxs⟩ := h
      rw [List.map_cons,List.map_cons,ih hxs]
      congr 1
      cases hx with
      | literal => rfl
      | object _ _ hu | set _ _ hu =>
        rw [isUpper_asnIdentifier] at hu
        simp [Element.kind,Notation.ElementDecl.kind,hu]

theorem ExpansionBuilt.kinds (h : ExpansionBuilt s d e) : e.map Expansion.kinds = d.kinds := by
  unfold ExpansionBuilt at h
  unfold SetDef.kinds
  cases hb : d.block with
  | none =>
    simp only [hb] at h
    exact h ▸ rfl
  | some b =>
    cases hparse : b.parseSet with
    | error x =>
      simp only [hb,hparse] at h ⊢
      exact h ▸ rfl
    | ok body =>
      simp only [hb,hparse] at h ⊢
      obtain ⟨_,_,es,_,_,rfl,hbuilt⟩ := h
      exact congrArg Except.ok hbuilt.kinds

end InfoObject.Model

namespace InfoObject.Project
open Model Check

/-- In every project, whatever a name finds, a name in a set is taken for a set just if it begins in upper case. The elements that
a set was given once are of the kinds that its body tells, and so are those that it would be given now, if it has a body. -/
theorem elements_of_written_kinds {n : Nat} {p : Project} (h : Reached n p) :
    (∀ (x : Pass) (m : Scope) (row : Module) (r : Notation.Reference), x.store = p.store → p.store.get? m.id = some row →
      ∃ q, Gives (namesSet m r) x r.beginsUpper q) ∧
    ∀ (i : Id .setDef) d e, p.store.get? i = some d → d.expansion = some e → e.map Expansion.kinds = d.kinds ∧
      (d.block.isSome → ∀ x : Pass, x.store = p.store →
        ∃ e' q, Gives (readElements d) x e' q ∧ e'.map Expansion.kinds = d.kinds) := by
  have hclosed := h.steady.closed
  have hsane := h.sane
  constructor
  · intro x m row r hx hm
    rw [← hx] at hclosed hsane hm
    obtain ⟨b,q,hb,_⟩ := builds_namesSet hclosed (.of_row hm) r
    rw [← isUpper_asnIdentifier,← hb.namesSet.2 hsane]
    exact ⟨q,hb⟩
  · intro i d e hd he
    have hbuilt := hsane.expansions i d e hd he
    refine ⟨hbuilt.kinds,fun hblock x hx => ?_⟩
    obtain ⟨b,hb⟩ := Option.isSome_iff_exists.mp hblock
    rw [← hx] at hclosed hsane hd
    obtain ⟨e',q,hread,_⟩ := builds_readElements hclosed hd hb fun body hbody => by
      simp only [ExpansionBuilt,hb,hbody] at hbuilt
      obtain ⟨j,_,_,hj,_⟩ := hbuilt
      simp [hj]
    exact ⟨e',q,hread,(hread.readElements.2.1 hsane).kinds⟩

/-- A set of two names that mean nothing and a body. -/
def strayElements : List UInt8 :=
  Utf8.ofString "M DEFINITIONS ::= BEGIN C ::= CLASS { &n INTEGER } S C ::= { T | x | { } } END"

theorem elements_of_written_kinds_strayElements : ∃ m i p c d e, Notation.Module.parse strayElements "m.asn" = .ok m ∧
    (new false).addModule m = .ok (i,p) ∧ p.check (none : Option (Emitter Unit)) () = .ok (c,()) ∧
    c.project.store.get? (⟨0⟩ : Id .setDef) = some d ∧ d.expansion = some e ∧
    d.kinds = .ok [some .objectSet,some .object,none] ∧ e.map Expansion.kinds = d.kinds := by
  have hrun : (Notation.Module.parse strayElements "m.asn").toOption.any (fun m =>
      ((new false).addModule m).toOption.any fun y =>
        (y.2.check (none : Option (Emitter Unit)) ()).toOption.any fun x =>
          (x.1.project.store.get? (⟨0⟩ : Id .setDef)).any fun d =>
            d.expansion.isSome && d.kinds.toOption == some [some .objectSet,some .object,none]) = true := by
    decide +kernel
  obtain ⟨m,hm,hrun⟩ := Notation.exists_of_toOption_any hrun
  obtain ⟨⟨i,p⟩,hp,hrun⟩ := Notation.exists_of_toOption_any hrun
  obtain ⟨⟨c,_⟩,hc,hrun⟩ := Notation.exists_of_toOption_any hrun
  obtain ⟨d,hd,hrun⟩ := (Option.any_eq_true _ _).mp hrun
  obtain ⟨hsome,hkinds⟩ := (Bool.and_eq_true _ _).mp hrun
  obtain ⟨e,he⟩ := Option.isSome_iff_exists.mp hsome
  have hwritten : d.kinds = .ok [some .objectSet,some .object,none] := by
    cases hd : d.kinds with
    | error x => simp [hd,Except.toOption] at hkinds
    | ok ks => simpa [hd,Except.toOption] using hkinds
  have hreached := ((Reached.new false).add hp).check hc
  exact ⟨m,i,p,c,d,e,hm,hp,hc,hd,he,hwritten,((elements_of_written_kinds hreached).2 ⟨0⟩ d e hd he).1⟩

end InfoObject.Project
