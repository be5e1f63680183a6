import InfoObject.Model.Build
import InfoObject.Proofs.DeferredBlocks
import InfoObject.Proofs.LiteralTexts
import InfoObject.Proofs.Spellings

/-! Literals as they are shown and as they are written. -/
namespace InfoObject.Notation
open InfoObject.Notation.Parser

/-- The payload that a text is, from its beginning to its end. -/
def Payload.read (text : List Char) : Except SyntaxError Payload := Parser.run (do
  let p ← payload
  atEnd
  pure p) text 0

section Read
variable {kind : TokenKind} {text : List Char} {p : Payload}

theorem read_token (hs : Spelled kind text) (hsize : Utf8.size text ≤ maxTokenSize) (hk : kind.isTrivia = false)
    (hp : PayloadOf [⟨⟨kind,text⟩,0,[]⟩] p) : Payload.read text = .ok p := by
  have hreads : Reads (do
      let p ← payload
      atEnd
      pure p) [⟨⟨kind,text⟩,0,[]⟩] p [] :=
    (reads_payload (v := []) hp (by decide)).bind (reads_atEnd.bind reads_pure)
  obtain ⟨c',hc',_⟩ := hreads ⟨[⟨kind,text⟩],0,none⟩ rfl (by simp [Cursor.view,significant,hk]; rfl)
  simp only [Payload.read,Parser.run,(hs.alone hsize).scan,Tokens.cursor,hc']

theorem read_text (h : Payload.read ('\x22'::r) = .ok (.text l)) : ∃ rest, '\x22'::r = enquote l.content.toList++rest := by
  simp only [Payload.read,Parser.run] at h
  split at h
  · rename_i hrun
    cases h
    obtain ⟨q,c₁,hq,hrun⟩ := bind_eq_ok hrun
    obtain ⟨_,c₂,hend,hrun⟩ := bind_eq_ok hrun
    cases hrun
    obtain ⟨herror,hview⟩ := atEnd_ok hend
    obtain ⟨ls,htook,hrule⟩ := derives_payload hq
    have hcuts : Cuts ('\x22'::r) (scan ('\x22'::r) 0).tokens [] := scan_cuts (htook.error.symm.trans herror)
    have hls : significant 0 (scan ('\x22'::r) 0).tokens = ls++c₁.view := htook.view
    generalize (scan ('\x22'::r) 0).tokens = ts at hcuts hls
    cases hcuts with
    | @cons _ _ t ts _ ht =>
      obtain ⟨_,_,_,_,hk,_⟩ := scanText_spelled (show scanText ['\x22'] r = .ok t from ht)
      obtain ⟨rest,hl⟩ := scanToken_lexed ht
      cases hrule with
      | @text l =>
        have htoken : t = l.token := by
          rw [significant,if_neg (by simp [hk,TokenKind.isTrivia])] at hls
          exact congrArg Lexeme.token (List.cons.inj hls).1
        subst htoken
        exact ⟨rest,((Spelled.content (hk ▸ hl.spelled) l.span).1).symm ▸ hl.text⟩
  · contradiction

end Read

/-! Numbers -/

theorem digitsValue_eq (ds : List Char) : digitsValue ds = Nat.ofDigitChars 10 ds 0 := by
  rw [Nat.ofDigitChars_eq_foldl,digitsValue]
  congr
  funext n d
  rw [Nat.mul_comm]

theorem intValue_of_numeral (h : Numeral ds) : intValue ds = digitsValue ds := by
  unfold intValue
  split
  · exact absurd h Numeral.not_hyphen
  · rfl

theorem digitChar_spec : ∀ d < 10, isDigit d.digitChar = true ∧ (d ≠ 0 → d.digitChar ≠ '0') := by decide

theorem numeral_toDigits (n : Nat) : Numeral (Nat.toDigits 10 n) := by
  rcases Nat.eq_zero_or_pos n with rfl | hn
  · exact .zero
  have hfirst : ∃ c r, Nat.toDigits 10 n = c::r ∧ isDigit c = true ∧ c ≠ '0' ∧ ∀ d ∈ r, isDigit d = true := by
    induction n using Nat.strong_induction_on with
    | _ n ih =>
      by_cases hlt : n < 10
      · obtain ⟨hd,h0⟩ := digitChar_spec n hlt
        exact ⟨_,[],Nat.toDigits_of_lt_base hlt,hd,h0 (by omega),nofun⟩
      · obtain ⟨c,r,hc,hd,h0,hr⟩ := ih (n/10) (by omega) (by omega)
        refine ⟨c,r++[(n%10).digitChar],by rw [Nat.toDigits_of_base_le (by decide) (by omega),hc]; rfl,hd,h0,fun d hmem => ?_⟩
        rcases List.mem_append.mp hmem with hmem | hmem
        · exact hr d hmem
        · exact List.mem_singleton.mp hmem ▸ (digitChar_spec _ (Nat.mod_lt n (by decide))).1
  obtain ⟨c,r,hc,hd,h0,hr⟩ := hfirst
  exact hc ▸ .digits hd h0 hr

theorem size_toDigits (h : k ≤ 2^63) : 1+Utf8.size (Nat.toDigits 10 k) ≤ maxTokenSize := by
  have hall : ∀ cs : List Char, Utf8.size cs ≤ 4*cs.length := by
    intro cs
    induction cs with
    | nil => simp
    | cons c cs ih =>
      have := c.utf8Size_le_four
      simp only [Utf8.size_cons,List.length_cons]
      omega
  have hlen : (Nat.toDigits 10 k).length ≤ 19 := (Nat.length_toDigits_le_iff (by decide) (by decide)).mpr (by omega)
  have := hall (Nat.toDigits 10 k)
  simp only [maxTokenSize]
  omega

end InfoObject.Notation

namespace InfoObject.Model
open InfoObject.Notation

/-- A literal is what a payload gives, whatever it is the value of. -/
def Literal.MadeOf (v : Literal) (p : Payload) : Prop :=
  ∀ m name l (s : Store), newValue m name p l s = (some (.literal name l v),s)

/-- A text that is a way to write a literal. -/
def Literal.Spells (text : List Char) (v : Literal) : Prop := ∃ p, Payload.read text = .ok p ∧ v.MadeOf p

/-- Characters that are shown in quotes as they are written. -/
def Plain (c : Char) : Prop := c ≠ '\x22' ∧ c ≠ '\\' ∧ Text.isPrintable c = true

section Spells
variable {v : Literal} {p : Payload} {s : String} {n : Int}

theorem spells_digits (hs : Spelled .intLit text) (hsize : Utf8.size text ≤ maxTokenSize) (hn : intValue text = n)
    (hlow : -2^63 ≤ n) (hhigh : n ≤ 2^63-1) : Literal.Spells text (.integer n) := by
  subst hn
  exact ⟨_,read_token hs hsize rfl (.int (l := ⟨⟨.intLit,text⟩,0,[]⟩) rfl hlow hhigh),fun _ _ _ _ => rfl⟩

theorem spells_integer (hlow : -2^63 ≤ n) (hhigh : n ≤ 2^63-1) : Literal.Spells (toString n).toList (.integer n) := by
  cases n with
  | ofNat k =>
    have hk : k ≤ 2^63 := by
      simp only [Int.ofNat_eq_natCast] at hhigh
      omega
    have hsize := size_toDigits hk
    rw [show (toString (Int.ofNat k)).toList = Nat.toDigits 10 k from Nat.toList_repr]
    refine spells_digits (.number (numeral_toDigits k)) (by omega) ?_ hlow hhigh
    rw [intValue_of_numeral (numeral_toDigits k),digitsValue_eq,Nat.ofDigitChars_ten_toDigits]
    rfl
  | negSucc k =>
    have hsize := size_toDigits (k := k+1) (by omega)
    rw [toList_negSucc,Nat.toList_repr]
    refine spells_digits (.negative (numeral_toDigits (k+1))) (by rw [Utf8.size_cons]; exact hsize) ?_ hlow hhigh
    rw [intValue,digitsValue_eq,Nat.ofDigitChars_ten_toDigits]
    rfl

theorem flatMap_escapeChar (h : ∀ c ∈ cs, Plain c) : cs.flatMap (Text.escapeChar '\x22') = doubled cs := by
  induction cs with
  | nil => rfl
  | cons c cs ih =>
    obtain ⟨⟨hq,hb,hp⟩,hcs⟩ := List.forall_mem_cons.mp h
    rw [doubled_cons hq,List.flatMap_cons,ih hcs]
    simp [Text.escapeChar,hq,hb,hp]

theorem toList_quoted (s : String) : (Text.quoted s).toList = '\x22'::(s.toList.flatMap (Text.escapeChar '\x22')++['\x22']) := by
  simp [Text.quoted,Text.quotedWith]

theorem spells_text (h : ∀ c ∈ s.toList, Plain c) (hc : ∀ c ∈ s.toList, isControl c = true → c = '\t')
    (hsize : Utf8.size (enquote s.toList) ≤ maxTokenSize) : Literal.Spells (Text.quoted s).toList (.text s) := by
  rw [toList_quoted,flatMap_escapeChar h]
  refine ⟨_,read_token (.text (textRest_doubled hc)) hsize rfl (.text rfl),fun _ _ _ _ => ?_⟩
  rw [newValue,show '\x22'::(doubled s.toList++['\x22']) = enquote s.toList from rfl,content_enquote,String.ofList_toList]
  rfl

theorem spells_keyword (hk : keywordLiteral? w = some v) : Literal.Spells w.toList v ∧ v.render = w ∧ ∀ s, v ≠ .text s := by
  have word : ∀ {c r v}, isLetter c = true → IdentRest r → Utf8.size (c::r) ≤ maxTokenSize →
      keywordLiteral? (String.ofList (c::r)) = some v → Literal.Spells (c::r) v := by
    intro c r v hc hr hsize hk
    refine ⟨_,read_token (.ident hc hr) hsize rfl (.reference (.plain rfl)),fun _ _ _ _ => ?_⟩
    rw [newValue,show referenceLiteral? ⟨none,Lexeme.ident ⟨⟨.ident,c::r⟩,0,[]⟩⟩ = some v from hk]
    rfl
  unfold keywordLiteral? at hk
  split at hk <;> cases hk
  · exact ⟨word (c := 'T') (r := ['R','U','E']) rfl (by repeat constructor) (by decide) rfl,rfl,nofun⟩
  · exact ⟨word (c := 'F') (r := ['A','L','S','E']) rfl (by repeat constructor) (by decide) rfl,rfl,nofun⟩
  · exact ⟨word (c := 'N') (r := ['U','L','L']) rfl (by repeat constructor) (by decide) rfl,rfl,nofun⟩

theorem spellEscape_head (c : Char) : ∃ r, Text.spellEscape c = '\\'::r := by
  unfold Text.spellEscape
  split
  · exact ⟨_,rfl⟩
  · split
    · exact ⟨_,rfl⟩
    · split <;> exact ⟨_,rfl⟩

/-- More backslashes than were doubled are never made up for. -/
theorem doubled_ne_escaped (k : Nat) (cs rest : List Char) :
    doubled cs ++ '\x22'::rest ≠ List.replicate (k+1) '\\'++(cs.flatMap (Text.escapeChar '\x22')++['\x22']) := by
  induction cs generalizing k with
  | nil => simp [doubled,List.replicate_succ]
  | cons c cs ih =>
    intro h
    by_cases hq : c = '\x22'
    · subst hq
      simp [doubled_quote,List.replicate_succ] at h
    · rw [doubled_cons hq,List.replicate_succ] at h
      obtain ⟨rfl,h⟩ := List.cons.inj h
      refine ih (k+1) (h.trans ?_)
      rw [List.flatMap_cons,show Text.escapeChar '\x22' '\\' = ['\\','\\'] from rfl]
      simp [List.replicate_succ']

theorem plain_of_doubled (h : doubled cs ++ '\x22'::rest = cs.flatMap (Text.escapeChar '\x22')++['\x22']) :
    ∀ c ∈ cs, Plain c := by
  induction cs with
  | nil => exact nofun
  | cons c cs ih =>
    by_cases hq : c = '\x22'
    · subst hq
      exact absurd (List.cons.inj h).1 (by decide)
    rw [doubled_cons hq,List.flatMap_cons] at h
    by_cases hb : c = '\\'
    · subst hb
      exact absurd (List.cons.inj h).2 (doubled_ne_escaped 0 cs rest)
    by_cases hp : Text.isPrintable c = true
    · rw [show Text.escapeChar '\x22' c = [c] by simp [Text.escapeChar,hq,hb,hp]] at h
      exact List.forall_mem_cons.mpr ⟨⟨hq,hb,hp⟩,ih (List.cons.inj h).2⟩
    · obtain ⟨r,hr⟩ := spellEscape_head c
      rw [show Text.escapeChar '\x22' c = '\\'::r by simp [Text.escapeChar,hq,hb,hp,hr]] at h
      exact absurd (List.cons.inj h).1 hb

theorem newValue_literal (h : (newValue m name p l st).1 = some (.literal name' l' v)) : (∃ i, p = .int i ∧ v = .integer i.value) ∨
    (∃ t, p = .text t ∧ v = .text t.content) ∨ ∃ r, p = .reference r ∧ keywordLiteral? r.name.name = some v := by
  cases p with
  | int i =>
    cases h
    exact .inl ⟨i,rfl,rfl⟩
  | text t =>
    cases h
    exact .inr (.inl ⟨t,rfl,rfl⟩)
  | block b => cases h
  | reference r =>
    rw [newValue] at h
    cases hr : referenceLiteral? r with
    | some w =>
      rw [hr] at h
      cases h
      rw [referenceLiteral?] at hr
      split at hr
      · exact .inr (.inr ⟨r,rfl,hr⟩)
      · contradiction
    | none =>
      rw [hr] at h
      cases h

theorem plain_of_spells (hq : Payload.read (Text.quoted s).toList = .ok p)
    (h : (newValue m name p l st).1 = some (.literal name' l' (.text s))) : ∀ x ∈ s.toList, Plain x := by
  obtain ⟨_,_,hi⟩ | ⟨t,rfl,ht⟩ | ⟨r,_,hr⟩ := newValue_literal h
  · contradiction
  · rw [toList_quoted] at hq
    obtain ⟨rest,hrest⟩ := read_text hq
    rw [← Literal.text.inj ht,enquote,List.cons_append,List.append_assoc] at hrest
    exact plain_of_doubled (List.cons.inj hrest).2.symm
  · exact absurd rfl ((spells_keyword hr).2.2 s)

/-- What is shown of a literal is a way to write it if and only if it is no text with characters that are not plain. -/
theorem literals_as_written {src left : List Char} {c c' : Cursor} {m : Scope} {name name' : String} {l l' : Location}
    {st : Store} (hc : Cuts src c.rest left) (hp : payload c = .ok (p,c'))
    (hv : (newValue m name p l st).1 = some (.literal name' l' v)) :
    v.Spells v.render.toList ↔ ∀ s, v = .text s → ∀ x ∈ s.toList, Plain x := by
  obtain ⟨ls,htook,hrule⟩ := derives_payload hp
  obtain ⟨i,rfl,rfl⟩ | ⟨t,rfl,rfl⟩ | ⟨r,rfl,hr⟩ := newValue_literal hv
  · cases hrule with
    | int _ hlow hhigh => exact iff_of_true (spells_integer hlow hhigh) nofun
  · cases hrule with
    | @text k hk =>
      have hmem : k ∈ c.view := htook.view ▸ List.mem_append_left _ (List.mem_singleton_self k)
      obtain ⟨_,_,hscan⟩ := hc.token (token_mem_of_significant hmem)
      obtain ⟨rest,hl⟩ := scanToken_lexed hscan
      have hspelled : Spelled .textLit k.token.text := (hk : k.token.kind = _) ▸ hl.spelled
      obtain ⟨hquotes,hcontrol⟩ := hspelled.content k.span
      refine ⟨?_,fun h => spells_text (h _ rfl) hcontrol (by rw [hquotes]; exact hl.size)⟩
      rintro ⟨q,hq,hmade⟩ s hs
      cases hs
      exact plain_of_spells hq (congrArg Prod.fst (hmade m name l st))
  · obtain ⟨hs,hw,hv⟩ := spells_keyword hr
    exact iff_of_true (hw ▸ hs) fun s h => absurd h (hv s)

/-- A quote that is doubled where it is written. -/
def quoteMark : Token := ⟨.textLit,enquote ['\x22']⟩

theorem literals_as_written_quote : Cuts quoteMark.text [quoteMark] [] ∧
    payload ⟨[quoteMark],0,none⟩ = .ok (.text ⟨quoteMark.text,⟨0,4⟩⟩,⟨[],4,none⟩) ∧
    (newValue ⟨⟨0⟩,""⟩ "q" (.text ⟨quoteMark.text,⟨0,4⟩⟩) default .empty).1 = some (.literal "q" default (.text "\x22")) ∧
    ¬ Literal.Spells (Literal.text "\x22").render.toList (.text "\x22") := by
  have hcuts : Cuts quoteMark.text [quoteMark] [] := Spelled.alone (.text (textRest_doubled (by simp [isControl]))) (by decide)
  have hpayload : payload ⟨[quoteMark],0,none⟩ = .ok (.text ⟨quoteMark.text,⟨0,4⟩⟩,⟨[],4,none⟩) := rfl
  have hvalue : (newValue ⟨⟨0⟩,""⟩ "q" (.text ⟨quoteMark.text,⟨0,4⟩⟩) default .empty).1 =
      some (.literal "q" default (.text "\x22")) := by
    rw [newValue,quoteMark,content_enquote]
    rfl
  refine ⟨hcuts,hpayload,hvalue,fun h => ?_⟩
  exact ((literals_as_written hcuts hpayload hvalue).mp h _ rfl '\x22' (by decide)).1 rfl

end Spells

end InfoObject.Model
