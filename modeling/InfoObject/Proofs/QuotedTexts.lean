import InfoObject.Document.Quoted
import InfoObject.GoSource.Generate
import InfoObject.Notation.Token
import InfoObject.Proofs.Encoding

/-! Quoted texts as string literals of Go: between its quotes a quoted text is read back, byte for byte, whatever the text. -/
namespace InfoObject.Document

open Notation (isControl)

def escapedByte? : Char → Option UInt8
  | '\\' => some 0x5C
  | '"' => some 0x22
  | 't' => some 0x09
  | 'n' => some 0x0A
  | _ => none

/-- The bytes that the inside of a string literal stands for. A quote, a backslash that begins no escape and a control character
are refused. -/
def literalBytes? : List Char → Option (List UInt8)
  | [] => some []
  | '\\':: 'x'::a::b::r =>
    match Text.hexValue? a,Text.hexValue? b with
    | some high,some low => (literalBytes? r).map (UInt8.ofNat (high*16+low)::·)
    | _,_ => none
  | '\\'::c::r =>
    match escapedByte? c with
    | some byte => (literalBytes? r).map (byte::·)
    | none => none
  | c::r => if c = '\\' ∨ c = '"' ∨ isControl c then none else (literalBytes? r).map (String.utf8EncodeChar c++·)

/-- How a character is written: as it is, by a letter behind a backslash, or by two digits. -/
inductive Escaped (c : Char) : List Char → Prop
  | plain : c ≠ '\\' → c ≠ '"' → isControl c = false → Escaped c [c]
  | letter : e ∈ ['\\','"','t','n'] → escapedByte? e = some byte → String.utf8EncodeChar c = [byte] → Escaped c ['\\',e]
  | digits : Text.hexValue? a = some (c.toNat/16) → Text.hexValue? b = some (c.toNat%16) → c.toNat < 128 →
    isControl a = false → isControl b = false → Escaped c ['\\','x',a,b]

theorem escaped_escape (c : Char) : Escaped c (escape c) := by
  unfold escape
  split
  · rename_i h
    rcases h with rfl | rfl <;> exact .letter (by decide) rfl rfl
  rename_i hquote
  split
  · rename_i h
    exact h ▸ .letter (by decide) rfl rfl
  split
  · rename_i h
    exact h ▸ .letter (by decide) rfl rfl
  split
  · have hall : ∀ n < 128, (upperHex n).map Text.hexValue? = [some (n/16),some (n%16)] ∧
        (upperHex n).map isControl = [false,false] := by decide
    have hlt : c.toNat < 128 := by omega
    obtain ⟨hv,hc⟩ := hall _ hlt
    generalize upperHex c.toNat = u at hv hc
    match u with
    | [a,b] =>
      simp only [List.map_cons,List.map_nil,List.cons.injEq,and_true] at hv hc
      exact .digits hv.1 hv.2 hlt hc.1 hc.2
    | [] | [_] | _::_::_::_ => simp at hv
  · exact .plain (fun e => hquote (.inl e)) (fun e => hquote (.inr e)) (by simp_all [isControl])

theorem Escaped.isControl (h : Escaped c w) (hx : x ∈ w) : isControl x = false := by
  cases h with
  | plain _ _ hc => rwa [List.mem_singleton.mp hx]
  | letter he =>
    rcases List.mem_cons.mp hx with rfl | hx
    · rfl
    · have hall : ∀ e ∈ ['\\','"','t','n'], Notation.isControl e = false := by simp [Notation.isControl]
      exact List.mem_singleton.mp hx ▸ hall _ he
  | digits _ _ _ ha hb =>
    simp only [List.mem_cons,List.not_mem_nil,or_false] at hx
    rcases hx with rfl | rfl | rfl | rfl
    · rfl
    · rfl
    · exact ha
    · exact hb

/-- What a character is written as is read as its bytes, whatever follows. -/
theorem Escaped.literalBytes? (h : Escaped c w) (r : List Char) :
    literalBytes? (w++r) = (Document.literalBytes? r).map (String.utf8EncodeChar c++·) := by
  cases h with
  | plain hback hquote hc =>
    rw [List.singleton_append,Document.literalBytes?,if_neg (by simp [hback,hquote,hc])]
    · exact fun _ _ _ e _ => hback e
    · exact fun _ _ e _ => hback e
  | letter he hbyte hc =>
    simp only [List.mem_cons,List.not_mem_nil,or_false] at he
    rw [hc]
    rcases he with rfl | rfl | rfl | rfl <;> simp [Document.literalBytes?,hbyte]
  | digits ha hb hlt =>
    rw [Utf8.utf8EncodeChar_eq,if_pos (by omega)]
    simp only [List.cons_append,List.nil_append,Document.literalBytes?,ha,hb,Nat.div_add_mod']

theorem literalBytes?_escapes (cs : List Char) : literalBytes? (cs.flatMap escape) = some (Utf8.encode cs) := by
  induction cs with
  | nil => rfl
  | cons c cs ih => rw [List.flatMap_cons,(escaped_escape c).literalBytes?,ih,Utf8.encode_cons,Option.map_some]

theorem quoted_inj (s t : String) : quoted s = quoted t ↔ s = t := by
  refine ⟨fun h => ?_,congrArg quoted⟩
  have hq : quote s.toList = quote t.toList := String.ofList_inj.mp h
  have hb : s.toList.flatMap escape = t.toList.flatMap escape := List.append_cancel_right (List.cons.inj hq).2
  have he : Utf8.encode s.toList = Utf8.encode t.toList := by
    rw [← Option.some.injEq,← literalBytes?_escapes,hb,literalBytes?_escapes]
  have hd := Utf8.decode_eq_ok.mpr he
  rw [Utf8.decode_eq_ok.mpr rfl] at hd
  exact String.toList_inj.mp (Except.ok.inj hd)

end InfoObject.Document

namespace InfoObject.GoSource

open Document
open Notation (isControl)

theorem quotedLiteral?_escaped (h : Escaped c w) (r : List Char) : quotedLiteral? '"' .none (w++r) =
    (quotedLiteral? '"' .none r).map fun (n,l,rest) => (n+1,w++l,rest) := by
  cases h with
  | plain hback hquote hc =>
    have hline : c ≠ '\n' := by
      rintro rfl
      contradiction
    simp [quotedLiteral?,hback,hquote,hline]
  | letter he hbyte hc =>
    simp only [List.mem_cons,List.not_mem_nil,or_false] at he
    rcases he with rfl | rfl | rfl | rfl <;> cases h : quotedLiteral? '"' .none r <;> simp [quotedLiteral?,h]
  | digits ha hb hlt =>
    have hhigh : ¬ 16 ≤ c.toNat/16 := by omega
    have hlow : ¬ (16 ≤ c.toNat%16 ∨ isCodePoint 255 c.toNat = false) := by simp [isCodePoint]; omega
    cases h : quotedLiteral? '"' .none r <;> simp [quotedLiteral?,ha,hb,h,hhigh,Nat.div_add_mod',hlow]

theorem quotedLiteral?_escapes (cs rest : List Char) : quotedLiteral? '"' .none (cs.flatMap escape++ '"'::rest) =
    some (cs.length,cs.flatMap escape++['"'],rest) := by
  induction cs with
  | nil => rfl
  | cons c cs ih => simp [quotedLiteral?_escaped (escaped_escape c),ih]

theorem settingValue_quoted (x : Setting) (s : String) :
    settingValue {x with kind := "value", value := quoted s} = .ok (.written (quoted s)) := by
  have hne : ∀ t : String, t.toList.head? ≠ some '"' → quoted s ≠ t := by
    rintro t ht rfl
    simp [quoted,quote] at ht
  simp only [settingValue]
  split
  · exact absurd ‹_› (hne _ (by decide))
  · exact absurd ‹_› (hne _ (by decide))
  · exact absurd ‹_› (hne _ (by decide))
  · rfl

/-- A quoted text is one string literal, whatever follows it, that stands for the bytes of the text: it shows no control character
and no bare quote. No two texts are quoted alike, and the generator takes a quoted text for no other value. -/
theorem quoted_texts_are_literals (s : String) :
    (∃ body, (quoted s).toList = '"'::body++['"'] ∧ literalBytes? body = some (Utf8.ofString s) ∧
      ∀ rest, quotedLiteral? '"' .none (body++ '"'::rest) = some (s.toList.length,body++['"'],rest)) ∧
    (∀ c ∈ (quoted s).toList, isControl c = false) ∧ (∀ t, quoted s = quoted t ↔ s = t) ∧
    ∀ x : Setting, settingValue {x with kind := "value", value := quoted s} = .ok (.written (quoted s)) ∧
      (Value.written (quoted s)).render = quoted s := by
  have htext : (quoted s).toList = '"'::s.toList.flatMap escape++['"'] := String.toList_ofList
  refine ⟨⟨_,htext,literalBytes?_escapes _,quotedLiteral?_escapes _⟩,fun c hc => ?_,quoted_inj s,
    fun x => ⟨settingValue_quoted x s,rfl⟩⟩
  simp only [htext,List.cons_append,List.mem_cons,List.mem_append,List.mem_flatMap,List.not_mem_nil,or_false] at hc
  rcases hc with rfl | ⟨x,-,hx⟩ | rfl
  · rfl
  · exact (escaped_escape x).isControl hx
  · rfl

end InfoObject.GoSource
