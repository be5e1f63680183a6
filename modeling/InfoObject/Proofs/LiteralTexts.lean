import InfoObject.Model.Literal
import InfoObject.Text.Hex
import Mathlib.Algebra.GroupWithZero.Nat

/-! Quoted texts and rendered literals tell what they stand for. -/
namespace InfoObject.Text

theorem hexValue?_hexDigit (n : Nat) : hexValue? (hexDigit n) = some (n%16) := by
  have hall : ∀ d < 16, hexValue? (Nat.digitChar d) = some d := by decide
  exact hall (n%16) (Nat.mod_lt n (by decide))

theorem hexDigits_inj (hm : m < 16^w) (hn : n < 16^w) (h : hexDigits w m = hexDigits w n) : m = n := by
  induction w generalizing m n with
  | zero => simp_all
  | succ w ih =>
    obtain ⟨h1,h2⟩ := List.append_inj' h rfl
    have hdiv := ih (by omega) (by omega) h1
    have hmod := congrArg hexValue? (List.singleton_inj.mp h2)
    rw [hexValue?_hexDigit,hexValue?_hexDigit,Option.some.injEq] at hmod
    omega

/-- The number of digits that follow a letter behind a backslash. -/
def digitsBehind : Char → Nat
  | 'x' => 2
  | 'u' => 4
  | 'U' => 8
  | _ => 0

/-- The character that a letter without digits stands for behind a backslash. -/
def escapedBy : Char → Nat
  | 'a' => 0x07
  | 'b' => 0x08
  | 't' => 0x09
  | 'n' => 0x0A
  | 'v' => 0x0B
  | 'f' => 0x0C
  | 'r' => 0x0D
  | c => c.toNat

/-- A character is shown as it is, or by a letter behind a backslash with the digits that the letter asks for. -/
theorem escapeChar_cases (c : Char) : ((c ≠ '"' ∧ c ≠ '\\') ∧ escapeChar '"' c = [c]) ∨
    ∃ l, escapeChar '"' c = '\\'::l::hexDigits (digitsBehind l) c.toNat ∧
      if digitsBehind l = 0 then c.toNat = escapedBy l else c.toNat < 16^digitsBehind l := by
  unfold escapeChar
  split
  · rename_i h
    rcases h with rfl | rfl <;> exact .inr ⟨_,rfl,rfl⟩
  · split
    · exact .inl ⟨not_or.mp ‹_›,rfl⟩
    · right
      have hc : c.toNat < 0x110000 := by
        have := c.valid
        simp only [Char.toNat,UInt32.isValidChar,Nat.isValidChar] at *
        omega
      unfold spellEscape shortEscape?
      split
      · rename_i h
        split at h <;> first | contradiction | (obtain rfl := Option.some.inj h; exact ⟨_,rfl,‹_›⟩)
      · split
        · exact ⟨'x',rfl,by simp [digitsBehind]; omega⟩
        · split
          · exact ⟨'u',rfl,by simpa [digitsBehind]⟩
          · exact ⟨'U',rfl,by simp [digitsBehind]; omega⟩

theorem escapeChar_told (h : escapeChar '"' c++r = escapeChar '"' d++r') : c = d ∧ r = r' := by
  rcases escapeChar_cases c with ⟨⟨-,hc⟩,ec⟩ | ⟨l,ec,hc⟩ <;> rcases escapeChar_cases d with ⟨⟨-,hd⟩,ed⟩ | ⟨k,ed,hd⟩ <;>
    rw [ec,ed] at h
  · simpa using h
  · exact absurd (List.cons.inj h).1 hc
  · exact absurd (List.cons.inj h).1.symm hd
  · simp only [List.cons_append,List.cons.injEq,true_and] at h
    obtain ⟨rfl,h⟩ := h
    obtain ⟨h,hr⟩ := List.append_inj h (by simp [hexDigits_length])
    refine ⟨Char.toNat_inj.mp ?_,hr⟩
    split at hc
    · rw [if_pos ‹_›] at hd
      rw [hc,hd]
    · rw [if_neg ‹_›] at hd
      exact hexDigits_inj hc hd h

theorem escapeChar_ne_quote (c : Char) (r : List Char) : escapeChar '"' c++r ≠ ['"'] := by
  intro h
  rcases escapeChar_cases c with ⟨⟨hc,-⟩,e⟩ | ⟨l,e,-⟩ <;> rw [e] at h
  · exact hc (List.cons.inj h).1
  · exact absurd (List.cons.inj h).1 (by decide)

theorem quoted_inj (h : quoted s = quoted t) : s = t := by
  have told : ∀ cs ds : List Char, cs.flatMap (escapeChar '"')++['"'] = ds.flatMap (escapeChar '"')++['"'] → cs = ds := by
    intro cs
    induction cs with
    | nil =>
      intro ds h
      cases ds with
      | nil => rfl
      | cons d ds => exact absurd (by simpa using h.symm) (escapeChar_ne_quote d _)
    | cons c cs ih =>
      intro ds h
      cases ds with
      | nil => exact absurd (by simpa using h) (escapeChar_ne_quote c _)
      | cons d ds =>
        simp only [List.flatMap_cons,List.append_assoc] at h
        obtain ⟨rfl,ht⟩ := escapeChar_told h
        rw [ih ds ht]
  exact String.toList_inj.mp (told _ _ (by simpa [quoted,quotedWith,String.ofList_inj] using h))

end InfoObject.Text

namespace InfoObject.Model

theorem repr_inj (h : Nat.repr a = Nat.repr b) : a = b := by
  rw [← Nat.ofDigitChars_ten_toDigits (n := a),← Nat.toList_repr,h,Nat.toList_repr,Nat.ofDigitChars_ten_toDigits]

theorem repr_head (n : Nat) : ∃ c cs, n.repr.toList = c::cs ∧ c.isDigit := by
  cases h : n.repr.toList with
  | nil => simp at h
  | cons c cs =>
    exact ⟨c,cs,rfl,Nat.isDigit_of_mem_toDigits (b := 10) (by decide) (by decide) (n := n) (by simp [← Nat.toList_repr,h])⟩

theorem toList_negSucc (n : Nat) : (toString (Int.negSucc n)).toList = '-'::(n+1).repr.toList := by
  simp [toString,Int.repr]

theorem toString_inj (h : toString (a : Int) = toString b) : a = b := by
  have he := congrArg String.toList h
  -- only the sign tells a negative number: digits come first otherwise
  rcases a with a | a <;> rcases b with b | b
  · exact congrArg Int.ofNat (repr_inj h)
  · obtain ⟨c,cs,e,hc⟩ := repr_head a
    rw [toList_negSucc] at he
    obtain rfl := (List.cons.inj (e.symm.trans he)).1
    cases hc
  · obtain ⟨c,cs,e,hc⟩ := repr_head b
    rw [toList_negSucc] at he
    obtain rfl := (List.cons.inj (e.symm.trans he.symm)).1
    cases hc
  · rw [toList_negSucc,toList_negSucc] at he
    have := repr_inj (String.toList_inj.mp (List.cons.inj he).2)
    rw [Nat.add_right_cancel this]

/-- What the first character of a shown literal tells of its kind. -/
def kindBehind (c : Char) : Nat :=
  if c = '"' then 1 else if c = 'T' then 2 else if c = 'F' then 3 else if c = 'N' then 4 else 0

def Literal.kind : Literal → Nat
  | integer _ => 0
  | text _ => 1
  | boolean true => 2
  | boolean false => 3
  | null => 4

theorem Literal.render_head (l : Literal) : ∃ c cs, l.render.toList = c::cs ∧ kindBehind c = l.kind := by
  match l with
  | integer (.ofNat n) =>
    obtain ⟨c,cs,e,hc⟩ := repr_head n
    have hk : kindBehind c = 0 := by
      unfold kindBehind
      repeat rw [if_neg (by rintro rfl; cases hc)]
    exact ⟨c,cs,e,hk⟩
  | integer (.negSucc n) => exact ⟨_,_,toList_negSucc n,rfl⟩
  | text s => exact ⟨'"',_,by simp [render,Text.quoted,Text.quotedWith]; rfl,rfl⟩
  | boolean true | boolean false | null => exact ⟨_,_,rfl,rfl⟩

theorem Literal.render_inj {a b : Literal} (h : a.render = b.render) : a = b := by
  obtain ⟨c,cs,e,hc⟩ := a.render_head
  obtain ⟨d,ds,e',hd⟩ := b.render_head
  rw [h,e'] at e
  obtain ⟨rfl,-⟩ := List.cons.inj e
  have hk := hc.symm.trans hd
  rcases a with m | s | (_ | _) | _ <;> rcases b with n | t | (_ | _) | _ <;> simp [kind] at hk
  · exact congrArg _ (toString_inj h)
  · exact congrArg _ (Text.quoted_inj h)
  all_goals rfl

end InfoObject.Model
