import InfoObject.Notation.Scan
import Mathlib.Algebra.Group.Int.Defs
import Mathlib.Algebra.GroupWithZero.Nat
import Mathlib.Data.List.TakeWhile

/-! Tokens and the text they are cut from. Main statement: a token begins a text if it is spelled as its kind asks for and what
follows does not go on with it. So a token is a part of the text, no part of the text of its kind is longer, and a text cut off
behind a token has the same tokens up to there. -/
namespace InfoObject.Notation

/-! Spellings -/

/-- Digits, with no zero in front of others. -/
inductive Numeral : List Char → Prop
  | zero : Numeral ['0']
  | digits {c : Char} {r : List Char} (hc : isDigit c = true) (h0 : c ≠ '0') (hr : ∀ d ∈ r, isDigit d = true) : Numeral (c::r)

/-- What an identifier goes on with: alphanumerics, and single hyphens in front of one. -/
inductive IdentRest : List Char → Prop
  | nil : IdentRest []
  | char {c : Char} {r : List Char} (hc : isAlphanumeric c = true) (hr : IdentRest r) : IdentRest (c::r)
  | hyphen {c : Char} {r : List Char} (hc : isAlphanumeric c = true) (hr : IdentRest r) : IdentRest ('-'::c::r)

/-- A text literal behind its opening quote: quotes are doubled up to the closing one. -/
inductive TextRest : List Char → Prop
  | close : TextRest ['\x22']
  | quotes {r : List Char} (hr : TextRest r) : TextRest ('\x22':: '\x22'::r)
  | char {c : Char} {r : List Char} (hq : c ≠ '\x22') (hc : isControl c = true → c = '\t') (hr : TextRest r) : TextRest (c::r)

/-- Tokens of fixed spellings. -/
def marks : List (TokenKind × List Char) :=
  [(.newline,['\n']),(.newline,['\r','\n']),(.amp,['&']),(.comma,[',']),(.pipe,['|']),(.semicolon,[';']),(.openCurl,['\x7b']),
   (.closeCurl,['\x7d']),(.openParen,['(']),(.closeParen,[')']),(.dot,['.']),(.ellipsis,['.','.','.']),(.assign,[':',':','='])]

/-- The texts of the tokens of a kind. -/
inductive Spelled : TokenKind → List Char → Prop
  | space {r : List Char} (hr : r ≠ []) (h : ∀ c ∈ r, isBlank c = true) : Spelled .space r
  | comment {r : List Char} (h : ∀ c ∈ r, isLineEnd c = false) : Spelled .comment ('-':: '-'::r)
  | number {r : List Char} (h : Numeral r) : Spelled .intLit r
  | negative {r : List Char} (h : Numeral r) : Spelled .intLit ('-'::r)
  | text {r : List Char} (h : TextRest r) : Spelled .textLit ('\x22'::r)
  | ident {c : Char} {r : List Char} (hc : isLetter c = true) (h : IdentRest r) : Spelled .ident (c::r)
  | mark {kind : TokenKind} {r : List Char} (h : (kind,r) ∈ marks) : Spelled kind r

/-- What follows does not go on with a token of the kind. -/
def Apart : TokenKind → List Char → Prop
  | .space, rest => ∀ c ∈ rest.head?, isBlank c = false
  | .comment, rest => ∀ c ∈ rest.head?, isLineEnd c = true
  | .intLit, rest => ∀ c ∈ rest.head?, isWordChar c = false
  | .textLit, rest => rest.head? ≠ some '\x22'
  | .ident, rest => (∀ c ∈ rest.head?, isAlphanumeric c = false) ∧ ∀ c, ['-',c] <+: rest → isAlphanumeric c = false
  | .dot, rest => ¬ ['.','.'] <+: rest
  | _, _ => True

section Spellings
variable {c : Char} {p r s rest text : List Char} {kind : TokenKind} {f : Char → Bool}

theorem isWordChar_of_isDigit (h : isDigit c = true) : isWordChar c = true := by simp [isWordChar,isAlphanumeric,h]

theorem Numeral.isDigit_of_mem (h : Numeral r) (hc : c ∈ r) : isDigit c = true := by
  cases h with
  | zero =>
    obtain rfl := List.mem_singleton.mp hc
    rfl
  | digits hd _ hr =>
    rcases List.mem_cons.mp hc with rfl | hc
    · exact hd
    · exact hr c hc

theorem isNumeral_iff : isNumeral (c::r) = true ↔ Numeral (c::r) := by
  constructor
  · intro h
    simp only [isNumeral,List.all_cons,Bool.and_eq_true,Bool.or_eq_true,decide_eq_true_eq,List.length_cons] at h
    obtain ⟨⟨hc,hr⟩,hone⟩ := h
    by_cases h0 : c = '0'
    · subst h0
      obtain rfl : r = [] := List.length_eq_zero_iff.mp (by simpa using hone)
      exact .zero
    · exact .digits hc h0 (List.all_eq_true.mp hr)
  · intro h
    cases h with
    | zero => rfl
    | digits hc h0 hr => simpa [isNumeral,hc,h0] using hr

theorem Numeral.not_hyphen : ¬ Numeral ('-'::r) := fun h => absurd (h.isDigit_of_mem List.mem_cons_self) (by decide)

theorem apart_nil : Apart kind [] := by cases kind <;> simp [Apart]

theorem Apart.cut (h : Apart kind rest) (hr : r <+: rest) : Apart kind r := by
  have hhead : ∀ c ∈ r.head?, c ∈ rest.head? := by
    obtain ⟨u,rfl⟩ := hr
    cases r with
    | nil => nofun
    | cons a r => exact fun c hc => hc
  cases kind with
  | space | comment | intLit => exact fun c hc => h c (hhead c hc)
  | textLit => exact fun hc => h (hhead _ hc)
  | ident => exact ⟨fun c hc => h.1 c (hhead c hc),fun c hc => h.2 c (hc.trans hr)⟩
  | dot => exact fun hc => h (hc.trans hr)
  | _ => trivial

theorem run_longest (hp : ∀ c ∈ p, f c = true) (hs : ∀ c ∈ rest.head?, f c = false) (h : p <+: text++rest) :
    p.length ≤ text.length := by
  by_contra hlong
  obtain ⟨u,rfl⟩ := List.prefix_of_prefix_length_le ( List.prefix_append text rest) h (by omega)
  cases u with
  | nil => simp at hlong
  | cons c u =>
    obtain ⟨v,hv⟩ := (List.prefix_append_right_inj text).mp h
    have hc : f c = false := hs c (by simp [← hv])
    rw [hp c (by simp)] at hc
    contradiction

theorem comment_run (h : ∀ c ∈ r, isLineEnd c = false) (c : Char) (hc : c ∈ '-':: '-'::r) : (!isLineEnd c) = true := by
  simp only [List.mem_cons] at hc
  rcases hc with rfl | rfl | hc
  · rfl
  · rfl
  · simp [h c hc]

theorem IdentRest.longest (hs : IdentRest s) (hstop : Apart .ident rest) (hp : IdentRest p) (h : p <+: s++rest) :
    p.length ≤ s.length := by
  induction hs generalizing p with
  | nil =>
    cases hp with
    | nil => exact Nat.le_refl 0
    | char hc =>
      obtain ⟨v,rfl⟩ := h
      rw [hstop.1 _ rfl] at hc
      contradiction
    | @hyphen c r hc =>
      rw [hstop.2 c (.trans ⟨r,rfl⟩ h)] at hc
      contradiction
  | char hc _ ih =>
    cases hp with
    | nil => exact Nat.zero_le _
    | char _ hp => exact Nat.succ_le_succ (ih hp (List.cons_prefix_cons.mp h).2)
    | hyphen =>
      obtain ⟨rfl,_⟩ := List.cons_prefix_cons.mp h
      contradiction
  | hyphen _ _ ih =>
    cases hp with
    | nil => exact Nat.zero_le _
    | char hc =>
      obtain ⟨rfl,_⟩ := List.cons_prefix_cons.mp h
      contradiction
    | hyphen _ hp =>
      obtain ⟨_,h⟩ := List.cons_prefix_cons.mp (List.cons_prefix_cons.mp h).2
      exact Nat.succ_le_succ (Nat.succ_le_succ (ih hp h))

theorem TextRest.longest (hs : TextRest s) (hstop : Apart .textLit rest) (hp : TextRest p) (h : p <+: s++rest) :
    p.length ≤ s.length := by
  induction hs generalizing p with
  | close =>
    cases hp with
    | close => exact Nat.le_refl 1
    | quotes =>
      obtain ⟨v,rfl⟩ := (List.cons_prefix_cons.mp h).2
      exact absurd rfl hstop
    | char hq => exact absurd (List.cons_prefix_cons.mp h).1 hq
  | quotes _ ih =>
    cases hp with
    | close => exact Nat.succ_le_succ (Nat.zero_le _)
    | quotes hp =>
      obtain ⟨_,h⟩ := List.cons_prefix_cons.mp (List.cons_prefix_cons.mp h).2
      exact Nat.succ_le_succ (Nat.succ_le_succ (ih hp h))
    | char hq => exact absurd (List.cons_prefix_cons.mp h).1 hq
  | char hq _ _ ih =>
    cases hp with
    | close | quotes => exact absurd (List.cons_prefix_cons.mp h).1.symm hq
    | char _ _ hp => exact Nat.succ_le_succ (ih hp (List.cons_prefix_cons.mp h).2)

/-- Of two marks of one kind that begin a text, none goes on where the other ends. -/
theorem marks_apart : ∀ x ∈ marks, ∀ y ∈ marks, x.1 = y.1 → x.2.head? = y.2.head? → x = y := by decide

theorem marks_ne_nil : ∀ x ∈ marks, x.2 ≠ [] := by decide

theorem marks_size : ∀ x ∈ marks, Utf8.size x.2 ≤ maxTokenSize := by decide

theorem Spelled.mark_of (h : Spelled kind text) (hk : kind ∈ marks.map Prod.fst) : (kind,text) ∈ marks := by
  cases h with
  | mark h => exact h
  | _ => exact absurd hk (by decide)

theorem Spelled.ne_nil (h : Spelled kind text) : text ≠ [] := by
  cases h with
  | space hr => exact hr
  | number h =>
    rintro rfl
    contradiction
  | mark h => exact marks_ne_nil _ h
  | _ => exact List.cons_ne_nil _ _

theorem Spelled.longest (ht : Spelled kind text) (hstop : Apart kind rest) (hp : Spelled kind p) (h : p <+: text++rest) :
    p.length ≤ text.length := by
  by_cases hk : kind ∈ marks.map Prod.fst
  · obtain ⟨a,p,rfl⟩ := List.exists_cons_of_ne_nil (marks_ne_nil _ (hp.mark_of hk))
    obtain ⟨b,text,rfl⟩ := List.exists_cons_of_ne_nil (marks_ne_nil _ (ht.mark_of hk))
    have hhead : some a = some b := congrArg some (List.cons_prefix_cons.mp h).1
    cases marks_apart _ (hp.mark_of hk) _ (ht.mark_of hk) rfl hhead
    exact Nat.le_refl _
  have other : ∀ {q : List Char}, (kind,q) ∉ marks := fun hq => hk (List.mem_map_of_mem hq)
  cases hp with
  | mark hp => exact absurd hp other
  | space _ hp => exact run_longest hp hstop h
  | comment hp => exact run_longest (comment_run hp) (fun c hc => by simp [hstop c hc]) h
  | number hp =>
    exact run_longest (fun c hc => isWordChar_of_isDigit (hp.isDigit_of_mem hc)) hstop h
  | negative hp =>
    cases ht with
    | mark ht => exact absurd ht other
    | number ht =>
      cases ht with
      | zero => simp at h
      | digits hc => exact absurd hc (by rw [← (List.cons_prefix_cons.mp h).1]; decide)
    | negative ht =>
      exact Nat.succ_le_succ (run_longest (fun c hc => isWordChar_of_isDigit (hp.isDigit_of_mem hc)) hstop
        (List.cons_prefix_cons.mp h).2)
  | text hp =>
    cases ht with
    | mark ht => exact absurd ht other
    | text ht => exact Nat.succ_le_succ (ht.longest hstop hp (List.cons_prefix_cons.mp h).2)
  | ident hc hp =>
    cases ht with
    | mark ht => exact absurd ht other
    | ident _ ht => exact Nat.succ_le_succ (ht.longest hstop hp (List.cons_prefix_cons.mp h).2)

end Spellings

/-! One token -/

/-- A token begins a text: it is spelled as its kind asks for, and `rest` follows. -/
structure Lexed (src : List Char) (t : Token) (rest : List Char) : Prop where
  text : src = t.text++rest
  spelled : Spelled t.kind t.text
  apart : Apart t.kind rest
  size : t.size ≤ maxTokenSize

section Tokens
variable {c : Char} {t : Token} {f : Char → Bool} {done r s rest text : List Char} {kind : TokenKind}

theorem bounded_of_size (h : Utf8.size text ≤ maxTokenSize) : bounded kind text = .ok ⟨kind,text⟩ := if_neg (Nat.not_lt.mpr h)

theorem bounded_ok (h : bounded kind text = .ok t) : t = ⟨kind,text⟩ ∧ t.size ≤ maxTokenSize := by
  unfold bounded at h
  split at h
  · contradiction
  · obtain rfl := Except.ok.inj h
    exact ⟨rfl,Nat.le_of_not_lt ‹_›⟩

theorem bounded_lexed (h : bounded kind text = .ok t) (hs : Spelled kind text) (hstop : Apart kind s) :
    Lexed (text++s) t s := by
  obtain ⟨rfl,hsize⟩ := bounded_ok h
  exact ⟨rfl,hs,hstop,hsize⟩

theorem takeWhile_eq (ht : ∀ c ∈ text, f c = true) (hs : ∀ c ∈ rest.head?, f c = false) :
    (text++rest).takeWhile f = text := by
  rw [List.takeWhile_append_of_pos ht]
  cases rest with
  | nil => simp
  | cons c rest => simp [hs c rfl]

theorem dropWhile_head (c : Char) (h : c ∈ (r.dropWhile f).head?) : f c = false := by
  have := List.head?_dropWhile_not f r
  rw [Option.mem_def.mp h] at this
  simpa using this

/-! Identifiers -/

theorem identTail_stops (h : Apart .ident rest) : identTail done rest = done.reverse := by
  unfold identTail
  split
  · exact if_neg (by simp [h.2 _ ⟨_,rfl⟩])
  · exact if_neg (by simp [h.1 _ rfl])
  · rfl

theorem identTail_append (hs : IdentRest s) (h : Apart .ident rest) : identTail done (s++rest) = done.reverse++s := by
  induction hs generalizing done with
  | nil => simpa using identTail_stops h
  | @char c r hc _ ih =>
    rw [List.cons_append,identTail.eq_2,if_pos hc,ih]
    · simp
    · rintro d q rfl
      contradiction
  | hyphen hc _ ih => simp [identTail,hc,ih]

theorem identTail_spelled (done r : List Char) : ∃ s rest, r = s++rest ∧ identTail done r = done.reverse++s ∧
    IdentRest s ∧ Apart .ident rest := by
  fun_induction identTail done r with
  | case1 done d r hd ih =>
    obtain ⟨s,rest,rfl,hs,hrest,hstop⟩ := ih
    exact ⟨'-'::d::s,rest,rfl,by simp [hs],.hyphen hd hrest,hstop⟩
  | case2 done d r hd =>
    refine ⟨[],_,rfl,by simp,.nil,by simp; decide,fun c hc => ?_⟩
    obtain ⟨rfl,_⟩ := List.cons_prefix_cons.mp (List.cons_prefix_cons.mp hc).2
    simpa using hd
  | case3 done c r _ hc ih =>
    obtain ⟨s,rest,rfl,hs,hrest,hstop⟩ := ih
    exact ⟨c::s,rest,rfl,by simp [hs],.char hc hrest,hstop⟩
  | case4 done c r hshape hc =>
    refine ⟨[],_,rfl,by simp,.nil,by simpa using hc,fun d hd => ?_⟩
    obtain ⟨rfl,u,rfl⟩ := List.cons_prefix_cons.mp hd
    exact (hshape d u rfl rfl).elim
  | case5 => exact ⟨[],[],rfl,by simp,.nil,nofun,fun c hc => by simp at hc⟩

/-! Texts -/

theorem scanText_append (hs : TextRest s) (h : Apart .textLit rest) :
    scanText done (s++rest) = bounded .textLit (done.reverse++s) := by
  induction hs generalizing done with
  | close =>
    rw [List.singleton_append,scanText.eq_3,if_pos rfl,List.reverse_cons]
    rintro q _ rfl
    exact h rfl
  | quotes _ ih => simp [scanText,ih]
  | char hq hc _ ih =>
    rw [List.cons_append,scanText.eq_3,if_neg hq,if_neg (by simpa using hc),ih]
    · simp
    · exact fun _ h => absurd h hq

theorem scanText_spelled (h : scanText done r = .ok t) : ∃ s rest, r = s++rest ∧ t.text = done.reverse++s ∧ t.kind = .textLit ∧
    TextRest s ∧ Apart .textLit rest ∧ t.size ≤ maxTokenSize := by
  fun_induction scanText done r with
  | case1 => contradiction
  | case2 done r ih =>
    obtain ⟨s,rest,rfl,ht,hk,hs,h⟩ := ih h
    exact ⟨_,rest,rfl,by simp [ht],hk,.quotes hs,h⟩
  | case3 done r hshape =>
    obtain ⟨rfl,hsize⟩ := bounded_ok h
    refine ⟨['\x22'],r,rfl,by simp,rfl,.close,fun hr => ?_,hsize⟩
    obtain ⟨q,rfl⟩ := List.head?_eq_some_iff.mp hr
    exact hshape q rfl rfl
  | case4 done c r hshape hc hcontrol =>
    unfold textFault at h
    split at h
    · contradiction
    · split at h <;> contradiction
  | case5 done c r hshape hc hcontrol ih =>
    obtain ⟨s,rest,rfl,ht,hk,hs,h⟩ := ih h
    exact ⟨c::s,rest,rfl,by simp [ht],hk,.char hc (by simpa using hcontrol) hs,h⟩

/-! Numbers -/

theorem scanNumber_append (hs : Numeral (c::s)) (h : Apart .intLit rest) :
    scanNumber sign (c::s++rest) = bounded .intLit (sign++c::s) := by
  have hword : (c::s++rest).takeWhile isWordChar = c::s :=
    takeWhile_eq (fun d hd => isWordChar_of_isDigit (hs.isDigit_of_mem hd)) h
  simp only [scanNumber,hword]
  exact if_pos (isNumeral_iff.mpr hs)

theorem scanNumber_lexed (h : scanNumber sign (c::r) = .ok t) (hc : isDigit c = true)
    (hsign : ∀ {s}, Numeral s → Spelled .intLit (sign++s)) : ∃ rest, Lexed (sign++c::r) t rest := by
  simp only [scanNumber] at h
  split at h
  · rename_i hn
    rw [List.takeWhile_cons_of_pos (isWordChar_of_isDigit hc)] at h hn
    have hl := bounded_lexed h (hsign (isNumeral_iff.mp hn)) (s := r.dropWhile isWordChar) dropWhile_head
    rw [List.append_assoc,List.cons_append,List.takeWhile_append_dropWhile] at hl
    exact ⟨_,hl⟩
  · contradiction

theorem scanHyphen_lexed (h : scanHyphen r = .ok t) : ∃ rest, Lexed ('-'::r) t rest := by
  unfold scanHyphen at h
  split at h
  · rename_i r
    have hl := bounded_lexed (s := ('-':: '-'::r).dropWhile (!isLineEnd ·)) h (.comment (r := r.takeWhile (!isLineEnd ·))
      fun c hc => by simpa using List.mem_takeWhile_imp hc) fun c hc => by simpa using dropWhile_head c hc
    rw [List.takeWhile_append_dropWhile] at hl
    exact ⟨_,hl⟩
  · split at h
    · exact scanNumber_lexed h ‹_› .negative
    · contradiction
  · contradiction

/-! Any token -/

theorem sigil?_spelled (h : sigil? c = some kind) : (kind,[c]) ∈ marks ∧ Apart kind r := by
  unfold sigil? at h
  split at h <;> cases h <;> exact ⟨by decide,trivial⟩

theorem scanToken_of_blank (h : isBlank c = true) : scanToken c r = scanSpace (c::r) := by
  simp only [isBlank,Bool.or_eq_true,beq_iff_eq] at h
  rcases h with (rfl | rfl) | rfl <;> rfl

theorem not_blank (h : isAlphanumeric c = true) : isBlank c = false := by
  by_contra hb
  simp only [isBlank,Bool.not_eq_false,Bool.or_eq_true,beq_iff_eq] at hb
  rcases hb with (rfl | rfl) | rfl <;> contradiction

theorem sigil?_eq_none (h : isAlphanumeric c = true) : sigil? c = none := by
  unfold sigil?
  split <;> first | rfl | contradiction

theorem scanToken_of_letter (h : isLetter c = true) : scanToken c r = scanIdent c r := by
  have ha : isAlphanumeric c = true := by simp [isAlphanumeric,h]
  simp [scanToken,sigil?_eq_none ha,not_blank ha,h]

theorem scanToken_of_digit (h : isDigit c = true) : scanToken c r = scanNumber [] (c::r) := by
  have ha : isAlphanumeric c = true := by simp [isAlphanumeric,h]
  have hl : isLetter c = false := by
    simp only [isDigit,Bool.and_eq_true,decide_eq_true_eq] at h
    have hu : ¬ 'A' ≤ c := fun hc => absurd (Char.le_trans hc h.2) (by decide)
    have hd : ¬ 'a' ≤ c := fun hc => absurd (Char.le_trans hc h.2) (by decide)
    simp [isLetter,isUpper,isLower,hu,hd]
  simp [scanToken,sigil?_eq_none ha,not_blank ha,hl,h]

theorem scanToken_lexed (h : scanToken c r = .ok t) : ∃ rest, Lexed (c::r) t rest := by
  unfold scanToken at h
  split at h
  · rename_i kind hk
    obtain rfl := Except.ok.inj h
    obtain ⟨hmark,hstop⟩ := sigil?_spelled (r := r) hk
    exact ⟨r,rfl,.mark hmark,hstop,marks_size _ hmark⟩
  · repeat' split at h
    · have hl := bounded_lexed (s := (c::r).dropWhile isBlank) h (.space (by simp [*]) fun _ => List.mem_takeWhile_imp)
        dropWhile_head
      rw [List.takeWhile_append_dropWhile] at hl
      exact ⟨_,hl⟩
    · obtain ⟨s,rest,rfl,hs,hrest,hstop⟩ := identTail_spelled [c] r
      rw [scanIdent,hs] at h
      exact ⟨rest,bounded_lexed h (.ident ‹_› hrest) hstop⟩
    · exact scanNumber_lexed h ‹_› .number
    · subst c
      exact scanHyphen_lexed h
    · subst c
      unfold scanDot at h
      split at h
      · obtain rfl := Except.ok.inj h
        exact ⟨_,rfl,.mark (by decide),trivial,by decide⟩
      · obtain rfl := Except.ok.inj h
        refine ⟨r,rfl,.mark (by decide),?_,by decide⟩
        rintro ⟨q,rfl⟩
        exact ‹∀ q, _ = '.':: '.'::q → False› q rfl
    · subst c
      unfold scanColon at h
      split at h
      · obtain rfl := Except.ok.inj h
        exact ⟨_,rfl,.mark (by decide),trivial,by decide⟩
      · contradiction
    · subst c
      obtain ⟨s,rest,rfl,ht,hk,hs,hstop,hsize⟩ := scanText_spelled h
      obtain ⟨kind,text⟩ := t
      cases ht
      cases hk
      exact ⟨rest,rfl,.text hs,hstop,hsize⟩
    · subst c
      unfold scanReturn at h
      split at h
      · obtain rfl := Except.ok.inj h
        exact ⟨_,rfl,.mark (by decide),trivial,by decide⟩
      · contradiction
    · unfold scanOther at h
      split at h <;> contradiction

theorem Spelled.scan (hs : Spelled kind (c::s)) (hstop : Apart kind rest) (hsize : Utf8.size (c::s) ≤ maxTokenSize) :
    scanToken c (s++rest) = .ok ⟨kind,c::s⟩ := by
  cases hs with
  | space _ hs =>
    rw [scanToken_of_blank (hs c List.mem_cons_self),scanSpace,← List.cons_append,takeWhile_eq hs hstop,bounded_of_size hsize]
  | @comment s hs =>
    have hrun : ('-':: '-'::s++rest).takeWhile (!isLineEnd ·) = '-':: '-'::s :=
      takeWhile_eq (comment_run hs) fun c hc => by simp [hstop c hc]
    exact (congrArg (bounded .comment) hrun).trans (bounded_of_size hsize)
  | number hs =>
    rw [scanToken_of_digit (hs.isDigit_of_mem List.mem_cons_self),← List.cons_append,scanNumber_append hs hstop]
    exact bounded_of_size hsize
  | negative hs =>
    cases s with
    | nil => contradiction
    | cons d s =>
      have hd := hs.isDigit_of_mem List.mem_cons_self
      show scanHyphen (d::(s++rest)) = _
      rw [scanHyphen.eq_2,if_pos hd,← List.cons_append,scanNumber_append hs hstop]
      · exact bounded_of_size hsize
      · rintro rfl
        contradiction
  | text hs => exact (scanText_append hs hstop).trans (bounded_of_size hsize)
  | ident hc hs =>
    rw [scanToken_of_letter hc,scanIdent,identTail_append hs hstop]
    exact bounded_of_size hsize
  | mark h =>
    simp only [marks,List.mem_cons,Prod.mk.injEq,List.cons.injEq,List.not_mem_nil,or_false] at h
    rcases h with ⟨rfl,rfl,rfl⟩ | ⟨rfl,rfl,rfl⟩ | ⟨rfl,rfl,rfl⟩ | ⟨rfl,rfl,rfl⟩ | ⟨rfl,rfl,rfl⟩ | ⟨rfl,rfl,rfl⟩ |
      ⟨rfl,rfl,rfl⟩ | ⟨rfl,rfl,rfl⟩ | ⟨rfl,rfl,rfl⟩ | ⟨rfl,rfl,rfl⟩ | ⟨rfl,rfl,rfl⟩ | ⟨rfl,rfl,rfl⟩ | ⟨rfl,rfl,rfl⟩
    all_goals first | rfl | exact scanDot.eq_2 rest fun q hq => hstop ⟨q,hq.symm⟩

section
variable (h : scanToken c r = .ok t)
include h

theorem scanToken_text :
    ∃ s, t.text = c::s ∧ r = s++r.drop (t.text.length-1) ∧ Lexed (c::r) t (r.drop (t.text.length-1)) := by
  obtain ⟨rest,hl⟩ := scanToken_lexed h
  obtain ⟨d,s,hs⟩ := List.exists_cons_of_ne_nil hl.spelled.ne_nil
  have hsrc := hl.text
  rw [hs,List.cons_append] at hsrc
  obtain ⟨rfl,rfl⟩ := List.cons.inj hsrc
  have hdrop : (s++rest).drop (t.text.length-1) = rest := by simp [hs]
  exact ⟨s,hs,by rw [hdrop],by rwa [hdrop]⟩

theorem scanToken_size_pos : 0 < t.size := by
  obtain ⟨s,hs,_⟩ := scanToken_text h
  have hc := c.utf8Size_pos
  simp only [Token.size,hs,Utf8.size_cons]
  omega

theorem scanToken_ne_eof : t.kind ≠ .eof := by
  obtain ⟨rest,hl⟩ := scanToken_lexed h
  intro hk
  have hs : Spelled .eof t.text := hk ▸ hl.spelled
  cases hs with
  | mark hs => simp [marks] at hs

theorem openCurl_text (hk : t.kind = .openCurl) : t.text = ['\x7b'] := by
  obtain ⟨rest,hl⟩ := scanToken_lexed h
  simpa [hk,marks] using hl.spelled.mark_of (by rw [hk]; decide)

theorem closeCurl_text (hk : t.kind = .closeCurl) : t.text = ['\x7d'] := by
  obtain ⟨rest,hl⟩ := scanToken_lexed h
  simpa [hk,marks] using hl.spelled.mark_of (by rw [hk]; decide)

end

end Tokens

/-! The tokens of a text -/

/-- What tokens are spelled like. -/
def spelling (ts : List Token) : List Char := ts.flatMap Token.text

/-- Tokens are cut from a text one after another, and `rest` is left. -/
inductive Cuts : List Char → List Token → List Char → Prop
  | nil (src : List Char) : Cuts src [] src
  | cons {c : Char} {r : List Char} {t : Token} {ts : List Token} {rest : List Char} (ht : scanToken c r = .ok t)
      (hs : Cuts (r.drop (t.text.length-1)) ts rest) : Cuts (c::r) (t::ts) rest

section Cuts
variable {src rest : List Char} {t : Token} {ts us done : List Token} {offset : UInt32}

@[simp] theorem spelling_nil : spelling [] = [] := rfl

@[simp] theorem spelling_cons : spelling (t::ts) = t.text++spelling ts := by simp [spelling]

@[simp] theorem spelling_append : spelling (ts++us) = spelling ts++spelling us := by simp [spelling]

theorem Cuts.text (h : Cuts src ts rest) : src = spelling ts++rest := by
  induction h with
  | nil => rfl
  | @cons c r t ts rest ht _ ih =>
    obtain ⟨s,hs,hr,_⟩ := scanToken_text ht
    rw [ih] at hr
    simp [hs,← hr]

theorem Cuts.split (h : Cuts src (ts++us) rest) : ∃ mid, Cuts src ts mid ∧ Cuts mid us rest := by
  induction ts generalizing src with
  | nil => exact ⟨src,.nil src,h⟩
  | cons t ts ih =>
    cases h with
    | cons ht hs =>
      obtain ⟨mid,hmid,hus⟩ := ih hs
      exact ⟨mid,.cons ht hmid,hus⟩

/-- The spelling of tokens that were cut from a text, taken alone, is cut into the same tokens. -/
theorem Cuts.alone (h : Cuts src ts rest) : Cuts (spelling ts) ts [] := by
  induction h with
  | nil => exact .nil []
  | @cons c r t ts rest ht hs ih =>
    obtain ⟨kind,text⟩ := t
    obtain ⟨s,rfl,hr,hl⟩ := scanToken_text ht
    rw [hs.text] at hl
    have hcut := hl.spelled.scan (hl.apart.cut ( List.prefix_append _ rest)) hl.size
    refine spelling_cons ▸ Cuts.cons hcut ?_
    simpa using ih

/-- The place behind tokens that begin at an offset. -/
def behind (offset : UInt32) (ts : List Token) : UInt32 := offset+(Utf8.size (spelling ts)).toUInt32

@[simp] theorem behind_nil : behind offset [] = offset := by simp [behind]

theorem behind_cons : behind (offset+t.size.toUInt32) ts = behind offset (t::ts) := by
  simp only [behind,spelling_cons,Utf8.size_append,Token.size,Nat.toUInt32,UInt32.ofNat_add,UInt32.add_assoc]

theorem behind_append : behind (behind offset ts) us = behind offset (ts++us) := by
  simp only [behind,spelling_append,Utf8.size_append,Nat.toUInt32,UInt32.ofNat_add,UInt32.add_assoc]

theorem toNat_add_size (h : offset.toNat+n < 2^32) : (offset+n.toUInt32).toNat = offset.toNat+n := by
  rw [UInt32.toNat_add]
  simp only [Nat.toUInt32,UInt32.toNat_ofNat']
  omega

theorem toNat_behind (h : offset.toNat+Utf8.size (spelling ts) < 2^32) :
    (behind offset ts).toNat = offset.toNat+Utf8.size (spelling ts) := toNat_add_size h

theorem next_error (h : scanToken c r = .error f) : Tokenizer.next ⟨c::r,offset⟩ = (.error (f.at offset),⟨c::r,offset⟩) := by
  simp only [Tokenizer.next,h]

theorem next_ok (h : scanToken c r = .ok t) : Tokenizer.next ⟨c::r,offset⟩ =
    (.ok t,⟨r.drop (t.text.length-1),offset+t.size.toUInt32⟩) := by
  simp only [Tokenizer.next,h]

theorem drain_nil : Tokenizer.drain done ⟨[],offset⟩ = ⟨done.reverse,offset,none⟩ := by
  rw [Tokenizer.drain]
  rfl

theorem drain_error (h : scanToken c r = .error f) : Tokenizer.drain done ⟨c::r,offset⟩ =
    ⟨done.reverse,offset,some (f.at offset)⟩ := by
  rw [Tokenizer.drain]
  split
  · rename_i hn
    rw [next_error h] at hn
    cases hn
    rfl
  · rename_i hn
    rw [next_error h] at hn
    cases hn

theorem drain_ok (h : scanToken c r = .ok t) : Tokenizer.drain done ⟨c::r,offset⟩ =
    Tokenizer.drain (t::done) ⟨r.drop (t.text.length-1),offset+t.size.toUInt32⟩ := by
  rw [Tokenizer.drain]
  split
  · rename_i hn
    rw [next_ok h] at hn
    cases hn
  · rename_i hn
    rw [next_ok h] at hn
    cases hn
    rw [dif_neg (scanToken_ne_eof h)]

theorem drain_cuts (offset : UInt32) (done : List Token) (src : List Char) : ∃ ts rest, Cuts src ts rest ∧
    (rest = [] ∧ Tokenizer.drain done ⟨src,offset⟩ = ⟨done.reverse++ts,behind offset ts,none⟩ ∨
      ∃ c r f, rest = c::r ∧ scanToken c r = .error f ∧
        Tokenizer.drain done ⟨src,offset⟩ = ⟨done.reverse++ts,behind offset ts,some (f.at (behind offset ts))⟩) := by
  induction hlen : src.length using Nat.strong_induction_on generalizing offset done src with
  | _ n ih =>
    cases src with
    | nil => exact ⟨[],[],.nil [],.inl ⟨rfl,by simp [drain_nil]⟩⟩
    | cons c r =>
      cases ht : scanToken c r with
      | error f => exact ⟨[],c::r,.nil _,.inr ⟨c,r,f,rfl,ht,by simp [drain_error ht]⟩⟩
      | ok t =>
        have hshorter : (r.drop (t.text.length-1)).length < n := by
          rw [← hlen,List.length_drop,List.length_cons]
          omega
        obtain ⟨ts,rest,hcuts,hend⟩ := ih _ hshorter (offset+t.size.toUInt32) (t::done) _ rfl
        refine ⟨t::ts,rest,.cons ht hcuts,?_⟩
        simpa only [drain_ok ht,behind_cons,List.reverse_cons,List.append_assoc,List.singleton_append] using hend

theorem Cuts.drain (h : Cuts src ts []) (offset : UInt32) (done : List Token) :
    Tokenizer.drain done ⟨src,offset⟩ = ⟨done.reverse++ts,behind offset ts,none⟩ := by
  generalize hrest : ([] : List Char) = rest at h
  induction h generalizing offset done with
  | nil =>
    subst hrest
    simp [drain_nil]
  | cons ht _ ih =>
    rw [drain_ok ht,ih _ _ hrest,behind_cons]
    simp

theorem Cuts.scan (h : Cuts src ts []) (offset : UInt32) : scan src offset = ⟨ts,behind offset ts,none⟩ := h.drain offset []

theorem scan_cuts (h : (scan src offset).error = none) : Cuts src (scan src offset).tokens [] := by
  obtain ⟨ts,rest,hcuts,⟨rfl,hscan⟩ | ⟨c,r,f,_,_,hscan⟩⟩ := drain_cuts offset [] src
  · rw [Notation.scan,hscan]
    exact hcuts
  · rw [Notation.scan,hscan] at h
    contradiction

theorem Cuts.token (h : Cuts src ts rest) (ht : t ∈ ts) : ∃ c r, scanToken c r = .ok t := by
  induction h with
  | nil => contradiction
  | cons hscan _ ih =>
    obtain rfl | hmem := List.mem_cons.mp ht
    · exact ⟨_,_,hscan⟩
    · exact ih hmem

theorem Cuts.size_pos (h : Cuts src ts rest) (ht : t ∈ ts) : 0 < t.size := by
  obtain ⟨c,r,hscan⟩ := h.token ht
  exact scanToken_size_pos hscan

end Cuts

end InfoObject.Notation
