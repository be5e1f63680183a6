import InfoObject.Proofs.Encoding
import InfoObject.Proofs.Scanning

/-! A tokenizer that is called again and again. -/
namespace InfoObject.Notation

/-! One call -/

namespace Tokenizer
variable {t t' : Tokenizer} {token : Token} {e : SyntaxError}

/-- What a call that gives a token does: the token is cut off the source, or there is nothing left to cut. -/
structure Cut (t : Tokenizer) (token : Token) (t' : Tokenizer) : Prop where
  rest : t.rest = token.text++t'.rest
  offset : t'.offset = t.offset+token.size.toUInt32
  size : token.kind = .eof ∧ token.text = [] ∧ t.rest = [] ∨
    token.kind ≠ .eof ∧ 1 ≤ token.size ∧ Lexed t.rest token t'.rest

theorem next_cut (h : t.next = (.ok token,t')) : t.Cut token t' := by
  obtain ⟨src,offset⟩ := t
  cases src with
  | nil =>
    cases h
    exact ⟨rfl,by simp [Token.size],.inl ⟨rfl,rfl,rfl⟩⟩
  | cons c r =>
    cases hscan : scanToken c r with
    | error f =>
      rw [next_error hscan] at h
      cases h
    | ok token =>
      rw [next_ok hscan] at h
      cases h
      obtain ⟨_,_,_,hl⟩ := scanToken_text hscan
      exact ⟨hl.text,rfl,.inr ⟨scanToken_ne_eof hscan,scanToken_size_pos hscan,hl⟩⟩

theorem next_stays (h : t.next = (.error e,t')) : t' = t := by
  obtain ⟨src,offset⟩ := t
  cases src with
  | nil => cases h
  | cons c r =>
    cases hscan : scanToken c r with
    | error f =>
      rw [next_error hscan] at h
      cases h
      rfl
    | ok token =>
      rw [next_ok hscan] at h
      cases h

/-! Call after call -/

def after (t : Tokenizer) : Nat → Tokenizer
  | 0 => t
  | n+1 => (t.after n).next.2

def answer (t : Tokenizer) (n : Nat) : Except SyntaxError Token := (t.after n).next.1

def given (t : Tokenizer) (n : Nat) : List Token := (List.range n).filterMap fun i => (t.answer i).toOption

/-- No token is given any more: the answer is an error, or the empty token at the end. -/
def Stopped : Except SyntaxError Token → Prop
  | .ok token => token.kind = .eof
  | .error _ => True

section Calls
variable {n : Nat}

theorem next_after (t : Tokenizer) (n : Nat) : (t.after n).next = (t.answer n,t.after (n+1)) := rfl

theorem given_succ : t.given (n+1) = t.given n++(t.answer n).toOption.toList := by
  simp only [given,List.range_succ,List.filterMap_append,List.filterMap_cons,List.filterMap_nil]
  cases (t.answer n).toOption <;> rfl

theorem given_ok (h : t.answer n = .ok token) : t.given (n+1) = t.given n++[token] := by
  rw [given_succ,h]
  rfl

theorem given_error (h : t.answer n = .error e) : t.given (n+1) = t.given n := by
  rw [given_succ,h]
  exact List.append_nil _

theorem cut_after (h : t.answer n = .ok token) : (t.after n).Cut token (t.after (n+1)) :=
  next_cut (by rw [next_after,h])

theorem after_error (h : t.answer n = .error e) : t.after (n+1) = t.after n := next_stays (by rw [next_after,h])

/-- After any number of calls, what was given and what is left are the source, and the offset is behind what was given. -/
theorem after_spec (t : Tokenizer) (n : Nat) :
    t.rest = spelling (t.given n)++(t.after n).rest ∧ (t.after n).offset = behind t.offset (t.given n) := by
  induction n with
  | zero => exact ⟨rfl,behind_nil.symm⟩
  | succ n ih =>
    obtain ⟨hrest,hoffset⟩ := ih
    cases hn : t.answer n with
    | error e =>
      rw [after_error hn,given_error hn]
      exact ⟨hrest,hoffset⟩
    | ok token =>
      have hcut := cut_after hn
      rw [given_ok hn]
      constructor
      · rw [hrest,hcut.rest]
        simp
      · rw [hcut.offset,hoffset,← behind_append,← behind_cons,behind_nil]

theorem le_size_given (h : ∀ i < n, ¬ Stopped (t.answer i)) : n ≤ Utf8.size (spelling (t.given n)) := by
  induction n with
  | zero => exact Nat.zero_le _
  | succ n ih =>
    have hlow := ih fun i hi => h i (Nat.lt_succ_of_lt hi)
    have hstill := h n (Nat.lt_succ_self n)
    cases hn : t.answer n with
    | error e =>
      rw [hn] at hstill
      exact absurd trivial hstill
    | ok token =>
      rw [hn] at hstill
      obtain ⟨heof,_⟩ | ⟨_,hpos,_⟩ := (cut_after hn).size
      · exact absurd heof hstill
      · rw [Token.size] at hpos
        simp only [given_ok hn,spelling_append,spelling_cons,spelling_nil,List.append_nil,Utf8.size_append]
        omega

theorem stopped_stays (h : Stopped (t.answer n)) : t.after (n+1) = t.after n := by
  cases hn : t.answer n with
  | error e => exact after_error hn
  | ok token =>
    rw [hn] at h
    have hcut := cut_after hn
    obtain ⟨_,htext,hrest⟩ | ⟨hne,_⟩ := hcut.size
    -- The empty token at the end takes nothing off the rest and moves the offset by nothing.
    · have hleft := hcut.rest
      have hoffset := hcut.offset
      simp only [htext,List.nil_append,Token.size,Utf8.size_nil] at hleft hoffset
      rw [show t.after (n+1) = ⟨(t.after (n+1)).rest,(t.after (n+1)).offset⟩ from rfl,← hleft,hoffset]
      simp
    · exact absurd h hne

theorem stopped_forever (h : Stopped (t.answer n)) (k : Nat) : t.after (n+k) = t.after n ∧ t.answer (n+k) = t.answer n := by
  induction k with
  | zero => exact ⟨rfl,rfl⟩
  | succ k ih =>
    obtain ⟨hafter,hanswer⟩ := ih
    have hnext : t.after (n+(k+1)) = t.after n := (stopped_stays (hanswer ▸ h)).trans hafter
    exact ⟨hnext,by rw [answer,hnext]; rfl⟩

end Calls

/-- What the calls to a tokenizer have to do with the bytes of its source. -/
structure Lossless (bytes : List UInt8) (t : Tokenizer) : Prop where
  /-- The calls come to an end. -/
  ends : ∃ n ≤ bytes.length, Stopped (t.answer n)
  sizes : ∀ n token, t.answer n = .ok token → token.kind ≠ .eof → 1 ≤ token.size ∧ token.size ≤ 65535
  /-- Each token begins where the one before it ended, the first at the beginning. -/
  begins : (t.after 0).offset = 0
  follows : ∀ n token, t.answer n = .ok token → (t.after (n+1)).offset.toNat = (t.after n).offset.toNat+token.size ∧
    bytes.extract (t.after n).offset.toNat (t.after (n+1)).offset.toNat = Utf8.encode token.text
  offset : ∀ n, (t.after n).offset.toNat = ((t.given n).map Token.size).sum
  /-- What is left are the bytes from the offset on, and they encode a text. -/
  boundary : ∀ n, Utf8.decode (bytes.drop (t.after n).offset.toNat) = .ok (t.after n).rest
  whole : ∀ n token, t.answer n = .ok token → token.kind = .eof →
    (t.given n).flatMap (fun x => Utf8.encode x.text) = bytes
  /-- A call that fails changes nothing, so all later ones fail in the same way. -/
  fails : ∀ n e, t.answer n = .error e → ∀ k, t.after (n+k) = t.after n ∧ t.answer (n+k) = .error e

theorem encode_spelling (ts : List Token) : Utf8.encode (spelling ts) = ts.flatMap fun x => Utf8.encode x.text := by
  induction ts with
  | nil => rfl
  | cons t ts ih => rw [spelling_cons,Utf8.encode_append,ih,List.flatMap_cons]

theorem size_spelling (ts : List Token) : Utf8.size (spelling ts) = (ts.map Token.size).sum := by
  induction ts with
  | nil => rfl
  | cons t ts ih => rw [spelling_cons,Utf8.size_append,ih,List.map_cons,List.sum_cons,Token.size]

section FromStart
variable {n : Nat} (hstart : t.offset = 0) (hsize : Utf8.size t.rest ≤ maxSourceSize)

theorem size_after (t : Tokenizer) (n : Nat) :
    Utf8.size t.rest = Utf8.size (spelling (t.given n))+Utf8.size (t.after n).rest := by
  rw [← Utf8.size_append,← (after_spec t n).1]

include hstart hsize

theorem toNat_after : (t.after n).offset.toNat = Utf8.size (spelling (t.given n)) := by
  have hsum := size_after t n
  have hmax : maxSourceSize < 2^32 := by decide
  have hzero : t.offset.toNat = 0 := by rw [hstart,UInt32.toNat_zero]
  rw [(after_spec t n).2,toNat_behind] <;> omega

theorem toNat_after_succ (hn : t.answer n = .ok token) :
    (t.after (n+1)).offset.toNat = (t.after n).offset.toNat+token.size := by
  rw [toNat_after hstart hsize,toNat_after hstart hsize,given_ok hn,spelling_append,Utf8.size_append,spelling_cons,
    spelling_nil,List.append_nil,Token.size]

theorem drop_after : (Utf8.encode t.rest).drop (t.after n).offset.toNat = Utf8.encode (t.after n).rest := by
  rw [toNat_after hstart hsize,(after_spec t n).1,Utf8.encode_append,← Utf8.length_encode]
  exact List.drop_left

theorem extract_after (hn : t.answer n = .ok token) :
    (Utf8.encode t.rest).extract (t.after n).offset.toNat (t.after (n+1)).offset.toNat = Utf8.encode token.text := by
  rw [toNat_after_succ hstart hsize hn,List.extract_eq_take_drop,drop_after hstart hsize,(cut_after hn).rest,
    Utf8.encode_append,Nat.add_sub_cancel_left,Token.size,← Utf8.length_encode]
  exact List.take_left

end FromStart

theorem exists_stopped (t : Tokenizer) : ∃ n ≤ Utf8.size t.rest, Stopped (t.answer n) := by
  by_contra hnone
  -- With one call more than there are bytes, more than all of them would have been given.
  have hlow : Utf8.size t.rest+1 ≤ Utf8.size (spelling (t.given (Utf8.size t.rest+1))) :=
    le_size_given fun i hi hstop => hnone ⟨i,Nat.le_of_lt_succ hi,hstop⟩
  have := size_after t (Utf8.size t.rest+1)
  omega

/-- Whatever is encoded in bytes that are not too many, calls to the tokenizer cut it up without loss. -/
theorem tokens_lossless {bytes : List UInt8} {src : List Char} (hsize : bytes.length ≤ maxSourceSize)
    (hsrc : Utf8.decode bytes = .ok src) : Lossless bytes ⟨src,0⟩ := by
  obtain rfl := Utf8.decode_eq_ok.mp hsrc
  rw [Utf8.length_encode] at hsize
  refine ⟨?ends,fun n token hn hk => ?sizes,rfl,fun n token hn => ?follows,fun n => ?offset,fun n => ?boundary,
    fun n token hn hk => ?whole,fun n e hn k => ?fails⟩
  case ends =>
    rw [Utf8.length_encode]
    exact exists_stopped ⟨src,0⟩
  case sizes =>
    obtain ⟨heof,_⟩ | ⟨_,hpos,hl⟩ := (cut_after hn).size
    · exact absurd heof hk
    · exact ⟨hpos,hl.size⟩
  case follows => exact ⟨toNat_after_succ rfl hsize hn,extract_after rfl hsize hn⟩
  case offset => rw [toNat_after rfl hsize,size_spelling]
  case boundary =>
    rw [drop_after rfl hsize]
    exact Utf8.decode_eq_ok.mpr rfl
  case whole =>
    rw [← encode_spelling]
    obtain ⟨_,_,hrest⟩ | ⟨hne,_⟩ := (cut_after hn).size
    · have hall := (after_spec ⟨src,0⟩ n).1
      rw [hrest,List.append_nil] at hall
      exact congrArg Utf8.encode hall.symm
    · exact absurd hk hne
  case fails =>
    obtain ⟨hafter,hanswer⟩ := stopped_forever (by rw [hn]; trivial) k
    exact ⟨hafter,hanswer.trans hn⟩

/-- Blanks of two bytes, a text of many, and a character that begins no token. -/
def mixedSource : List Char := "a ::= \"é\x22\x22\x22--x\r\n#".toList

theorem tokens_lossless_mixedSource : Utf8.decode (Utf8.encode mixedSource) = .ok mixedSource ∧
    (∃ e, (Tokenizer.mk mixedSource 0).answer 7 = .error e) ∧ Lossless (Utf8.encode mixedSource) ⟨mixedSource,0⟩ := by
  have hdecode : Utf8.decode (Utf8.encode mixedSource) = .ok mixedSource := Utf8.decode_eq_ok.mpr rfl
  exact ⟨hdecode,⟨_,rfl⟩,tokens_lossless (by decide) hdecode⟩

end Tokenizer

end InfoObject.Notation
