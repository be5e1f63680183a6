import InfoObject.Notation.Tree
import InfoObject.Proofs.Tokenization

/-! What tokens are spelled like. -/
namespace InfoObject.Notation

/-! Tokens alone -/

theorem Spelled.alone (h : Spelled kind cs) (hsize : Utf8.size cs ≤ maxTokenSize) : Cuts cs [⟨kind,cs⟩] [] := by
  obtain ⟨c,s,rfl⟩ := List.exists_cons_of_ne_nil h.ne_nil
  have hscan := h.scan apart_nil hsize
  rw [List.append_nil] at hscan
  exact .cons hscan (by simpa using .nil [])

/-- A token is the longest of its kind that a text begins with. -/
structure Longest (src : List Char) (t : Token) (rest : List Char) : Prop where
  text : src = t.text++rest
  spelled : Spelled t.kind t.text
  apart : Apart t.kind rest
  longest : ∀ p, Spelled t.kind p → p <+: src → p.length ≤ t.text.length
  alone : ∀ offset, scan t.text offset = ⟨[t],behind offset [t],none⟩

theorem Lexed.longest (h : Lexed src t rest) : Longest src t rest :=
  ⟨h.text,h.spelled,h.apart,fun _ hp hpre => h.spelled.longest h.apart hp (h.text ▸ hpre),(h.spelled.alone h.size).scan⟩

/-- Whatever token is given, it is the longest of its kind, or nothing is left. -/
theorem Tokenizer.tokens_longest (t : Tokenizer) (n : Nat) (token : Token) (h : t.answer n = .ok token) :
    token = ⟨.eof,[]⟩ ∧ (t.after n).rest = [] ∨ Longest (t.after n).rest token (t.after (n+1)).rest := by
  obtain ⟨hk,ht,hrest⟩ | ⟨_,_,hl⟩ := (cut_after h).size
  · obtain ⟨kind,text⟩ := token
    cases hk
    cases ht
    exact .inl ⟨rfl,hrest⟩
  · exact .inr hl.longest

/-- A hyphen within a name, and a comment behind it. -/
def hyphens : List Char := ['a','-','b','-','-','c']

theorem Tokenizer.tokens_longest_hyphens : (Tokenizer.mk hyphens 0).answer 0 = .ok ⟨.ident,['a','-','b']⟩ ∧
    Longest hyphens ⟨.ident,['a','-','b']⟩ ['-','-','c'] :=
  ⟨rfl,(tokens_longest ⟨hyphens,0⟩ 0 _ rfl).resolve_left nofun⟩

/-! Texts in quotes -/

/-- A text with each quote doubled. -/
def doubled (cs : List Char) : List Char := cs.flatMap fun c => if c = '\x22' then ['\x22','\x22'] else [c]

def enquote (cs : List Char) : List Char := '\x22'::(doubled cs++['\x22'])

section Quotes
variable {c : Char} {cs s rest : List Char} {token : Token}

theorem doubled_quote : doubled ('\x22'::cs) = '\x22':: '\x22'::doubled cs := rfl

theorem doubled_cons (h : c ≠ '\x22') : doubled (c::cs) = c::doubled cs := by simp [doubled,h]

theorem undouble_doubled (cs : List Char) : undouble (doubled cs) = cs := by
  induction cs with
  | nil => simp [doubled,undouble]
  | cons c cs ih =>
    by_cases hq : c = '\x22'
    · subst hq
      rw [doubled_quote,undouble,List.drop_one,List.tail_cons,ih]
    · rw [doubled_cons hq,undouble.eq_3 _ _ hq,ih]

theorem content_enquote (cs : List Char) (span : Span) : TextLit.content ⟨enquote cs,span⟩ = String.ofList cs := by
  simp [TextLit.content,enquote,undouble_doubled]

theorem textRest_doubled (h : ∀ c ∈ cs, isControl c = true → c = '\t') : TextRest (doubled cs++['\x22']) := by
  induction cs with
  | nil => exact .close
  | cons c cs ih =>
    obtain ⟨hc,hcs⟩ := List.forall_mem_cons.mp h
    by_cases hq : c = '\x22'
    · subst hq
      exact .quotes (ih hcs)
    · rw [doubled_cons hq]
      exact .char hq hc (ih hcs)

theorem TextRest.eq_doubled (h : TextRest s) : ∃ cs, s = doubled cs++['\x22'] ∧ ∀ c ∈ cs, isControl c = true → c = '\t' := by
  induction h with
  | close => exact ⟨[],rfl,nofun⟩
  | quotes _ ih =>
    obtain ⟨cs,rfl,hcs⟩ := ih
    exact ⟨'\x22'::cs,rfl,List.forall_mem_cons.mpr ⟨nofun,hcs⟩⟩
  | @char c r hq hc _ ih =>
    obtain ⟨cs,rfl,hcs⟩ := ih
    exact ⟨c::cs,by rw [doubled_cons hq]; rfl,List.forall_mem_cons.mpr ⟨hc,hcs⟩⟩

theorem next_enquote (h : ∀ c ∈ cs, isControl c = true → c = '\t') (hsize : Utf8.size (enquote cs) ≤ maxTokenSize)
    (hrest : rest.head? ≠ some '\x22') (offset : UInt32) : Tokenizer.next ⟨enquote cs++rest,offset⟩ =
      (.ok ⟨.textLit,enquote cs⟩,⟨rest,offset+(Utf8.size (enquote cs)).toUInt32⟩) := by
  have hscan := (Spelled.text (textRest_doubled h)).scan hrest hsize
  refine (next_ok hscan).trans ?_
  simp [enquote,Token.size]

theorem Spelled.content (h : Spelled .textLit s) (span : Span) : enquote (TextLit.content ⟨s,span⟩).toList = s ∧
    ∀ c ∈ (TextLit.content ⟨s,span⟩).toList, isControl c = true → c = '\t' := by
  cases h with
  | text h =>
    obtain ⟨cs,rfl,hcs⟩ := h.eq_doubled
    rw [show '\x22'::(doubled cs++['\x22']) = enquote cs from rfl,content_enquote,String.toList_ofList]
    exact ⟨rfl,hcs⟩
  | mark h => simp [marks] at h

end Quotes

/-- A text is read back from its quotes, and the quotes are those that the text is written with. -/
theorem texts_read_back :
    (∀ (text : String) (rest : List Char) (offset : UInt32), (∀ c ∈ text.toList, isControl c = true → c = '\t') →
      Utf8.size (enquote text.toList) ≤ 65535 → rest.head? ≠ some '\x22' → Tokenizer.next ⟨enquote text.toList++rest,offset⟩ =
        (.ok ⟨.textLit,enquote text.toList⟩,⟨rest,offset+(Utf8.size (enquote text.toList)).toUInt32⟩) ∧
      ∀ span, TextLit.content ⟨enquote text.toList,span⟩ = text) ∧
    ∀ (t : Tokenizer) (n : Nat) (token : Token), t.answer n = .ok token → token.kind = .textLit →
      ∀ span, enquote (TextLit.content ⟨token.text,span⟩).toList = token.text := by
  refine ⟨fun text rest offset hc hsize hrest => ⟨next_enquote hc hsize hrest offset,fun span => ?_⟩,
    fun t n token h hk span => ?_⟩
  · rw [content_enquote,String.ofList_toList]
  · obtain ⟨heof,_⟩ | ⟨_,_,hl⟩ := (Tokenizer.cut_after h).size
    · rw [hk] at heof
      contradiction
    · exact (Spelled.content (hk ▸ hl.spelled) span).1

/-- Quotes at both ends of a text and next to each other. -/
def quotes : String := "\x22\x22\t\x22"

theorem texts_read_back_quotes : (∀ c ∈ quotes.toList, isControl c = true → c = '\t') ∧
    Tokenizer.next ⟨enquote quotes.toList++['x'],0⟩ = (.ok ⟨.textLit,enquote quotes.toList⟩,⟨['x'],9⟩) ∧
    (∀ span, TextLit.content ⟨enquote quotes.toList,span⟩ = quotes) ∧
    (Tokenizer.mk (enquote quotes.toList) 0).answer 0 = .ok ⟨.textLit,enquote quotes.toList⟩ ∧
    enquote (TextLit.content ⟨enquote quotes.toList,⟨0,9⟩⟩).toList = enquote quotes.toList := by
  have hc : ∀ c ∈ quotes.toList, isControl c = true → c = '\t' := by simp [quotes,isControl]
  obtain ⟨hnext,hcontent⟩ := texts_read_back.1 quotes ['x'] 0 hc (by decide) (by decide)
  exact ⟨hc,hnext,hcontent,rfl,texts_read_back.2 ⟨enquote quotes.toList,0⟩ 0 _ rfl rfl ⟨0,9⟩⟩

end InfoObject.Notation
