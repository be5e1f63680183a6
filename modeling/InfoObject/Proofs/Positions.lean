import InfoObject.Proofs.Encoding
import InfoObject.Source.Position
import Mathlib.Data.List.Induction
import Mathlib.Data.Prod.Lex
import Mathlib.Order.Monotone.Basic

/-! Two ways to count columns. -/
namespace InfoObject.Utf8

/-! The number of characters -/

theorem countFrom_le (n : Nat) (s : List UInt8) : countFrom n s ≤ n+s.length := by
  fun_induction countFrom n s with
  | case1 => simp
  | case2 n a r _ ih =>
    rw [List.length_cons]
    omega
  | case3 n a r c _ ih =>
    rw [List.length_drop] at ih
    rw [List.length_cons]
    omega

theorem countFrom_ascii (h : ∀ b ∈ s, b < 0x80) : countFrom n s = n+s.length := by
  fun_induction countFrom n s with
  | case1 => rfl
  | case2 n a r _ ih =>
    rw [ih fun b hb => h b (List.mem_cons_of_mem a hb),List.length_cons]
    omega
  | case3 n a r c hc ih =>
    obtain ⟨bits,hlead,_⟩ := decodeChar?_eq_some.mp hc
    simp only [leading?,h a List.mem_cons_self,if_true,Option.some.injEq,Prod.mk.injEq] at hlead
    rw [← hlead.1,Nat.sub_self,List.drop_zero] at ih
    rw [← hlead.1,Nat.sub_self,List.drop_zero,ih fun b hb => h b (List.mem_cons_of_mem a hb),List.length_cons]
    omega

theorem countFrom_encode (n : Nat) (cs : List Char) : countFrom n (encode cs) = n+cs.length := by
  induction cs generalizing n with
  | nil => simp [countFrom]
  | cons c cs ih =>
    have hdecode := decodeChar?_encode c (encode cs)
    cases hbytes : String.utf8EncodeChar c++encode cs with
    | nil => simp at hbytes
    | cons a r =>
      rw [hbytes] at hdecode
      rw [encode_cons,hbytes,countFrom]
      simp only [hdecode]
      rw [drop_encodeChar c a r _ hbytes.symm,ih,List.length_cons]
      omega

theorem eq_of_lineFeed_mem (h : 0x0A ∈ String.utf8EncodeChar c) : c = '\n' := by
  have hmem : ∀ n < 256, 0x0A = UInt8.ofNat n → n = 10 := fun n hn he => by
    rw [← toNat_ofNat hn,← he]
    rfl
  have hlt := toNat_lt c
  rw [utf8EncodeChar_eq] at h
  split at h
  · have hten := hmem c.toNat (by omega) (List.mem_singleton.mp h)
    exact Char.toNat_inj.mp hten
  · exfalso
    split at h
    · simp only [List.mem_cons,List.not_mem_nil,or_false] at h
      rcases h with h | h <;> exact absurd (hmem _ (by omega) h) (by omega)
    · split at h
      · simp only [List.mem_cons,List.not_mem_nil,or_false] at h
        rcases h with h | h | h <;> exact absurd (hmem _ (by omega) h) (by omega)
      · simp only [List.mem_cons,List.not_mem_nil,or_false] at h
        rcases h with h | h | h | h <;> exact absurd (hmem _ (by omega) h) (by omega)

/-- The offsets in the encoding of a text at which characters begin, and its end. -/
def boundaries (cs : List Char) : Set Nat := {k | ∃ ds, ds <+: cs ∧ size ds = k}

end InfoObject.Utf8

namespace InfoObject.Position

/-- Positions are ordered by line, then by column. -/
def rank (p : Position) : Nat ×ₗ Nat := toLex (p.line,p.column)

/-- The position behind some bytes, where the column comes from what is on the last line. -/
def behind (width : List UInt8 → Nat) (s : List UInt8) : Position := ⟨s.count 0x0A+1,width (lastLine s)+1⟩

theorem lastLine_append (h : 0x0A ∉ t) : lastLine (s++t) = lastLine s++t := by
  have hall : ∀ b ∈ t.reverse, decide (b ≠ 0x0A) = true := fun b hb =>
    decide_eq_true fun he => h (he ▸ List.mem_reverse.mp hb)
  rw [lastLine,List.reverse_append,List.takeWhile_append_of_pos hall,List.reverse_append,List.reverse_reverse,lastLine]

theorem lastLine_lineFeed (s : List UInt8) : lastLine (s++[0x0A]) = [] := by simp [lastLine]

theorem ofOffset_eq (src : List UInt8) (k : Nat) : ofOffset src k = behind List.length (src.take k) := by
  rw [ofOffset]
  generalize src.take k = s
  induction s using List.reverseRecOn with
  | nil => rfl
  | append_singleton s b ih =>
    rw [List.foldl_append,ih,List.foldl_cons,List.foldl_nil,behind,advance]
    by_cases hb : b = 0x0A
    · simp [hb,behind,lastLine_lineFeed]
    · simp [hb,behind,lastLine_append (t := [b]) (by simpa using Ne.symm hb)]

theorem ofOffsetInCharacters_eq (src : List UInt8) (k : Nat) :
    ofOffsetInCharacters src k = behind Utf8.count (src.take k) := rfl

theorem exists_lastLine (cs : List Char) : ∃ ds, lastLine (Utf8.encode cs) = Utf8.encode ds := by
  induction cs using List.reverseRecOn with
  | nil => exact ⟨[],rfl⟩
  | append_singleton cs c ih =>
    by_cases hc : c = '\n'
    · subst hc
      exact ⟨[],Utf8.encode_append cs _ ▸ lastLine_lineFeed (Utf8.encode cs)⟩
    · obtain ⟨ds,hds⟩ := ih
      refine ⟨ds++[c],?_⟩
      rw [Utf8.encode_append,Utf8.encode_append,lastLine_append,hds]
      simpa using fun h => hc (Utf8.eq_of_lineFeed_mem h)

section Growth
variable {width : List UInt8 → Nat} (hw : ∀ cs c, width (Utf8.encode cs) < width (Utf8.encode (cs++[c])))
include hw

theorem rank_lt_concat (cs : List Char) (c : Char) :
    (behind width (Utf8.encode cs)).rank < (behind width (Utf8.encode (cs++[c]))).rank := by
  rw [rank,rank,Prod.Lex.toLex_lt_toLex]
  by_cases hc : c = '\n'
  · left
    subst hc
    have hbytes : Utf8.encode ['\n'] = [0x0A] := rfl
    simp [behind,hbytes]
  · right
    have hnone : 0x0A ∉ Utf8.encode [c] := by simpa using fun h => hc (Utf8.eq_of_lineFeed_mem h)
    obtain ⟨ds,hds⟩ := exists_lastLine cs
    have hgrows := hw ds c
    rw [Utf8.encode_append] at hgrows ⊢
    simp only [behind,List.count_append,List.count_eq_zero_of_not_mem hnone,lastLine_append hnone,hds]
    exact ⟨trivial,Nat.succ_lt_succ hgrows⟩

theorem rank_lt_append (cs : List Char) (h : ds ≠ []) :
    (behind width (Utf8.encode cs)).rank < (behind width (Utf8.encode (cs++ds))).rank := by
  induction ds using List.reverseRecOn with
  | nil => contradiction
  | append_singleton ds d ih =>
    rw [← List.append_assoc]
    by_cases hds : ds = []
    · subst hds
      rw [List.append_nil]
      exact rank_lt_concat hw cs d
    · exact (ih hds).trans (rank_lt_concat hw (cs++ds) d)

theorem rank_strictMonoOn (cs : List Char) :
    StrictMonoOn (fun k => (behind width ((Utf8.encode cs).take k)).rank) (Utf8.boundaries cs) := by
  rintro _ ⟨xs,hxs,rfl⟩ _ ⟨ys,hys,rfl⟩ hlt
  have htake : ∀ {zs}, zs <+: cs → (Utf8.encode cs).take (Utf8.size zs) = Utf8.encode zs := by
    rintro zs ⟨ws,rfl⟩
    rw [Utf8.encode_append,← Utf8.length_encode,List.take_left]
  dsimp only
  rw [htake hxs,htake hys]
  -- Of two beginnings of one text the shorter begins the longer.
  rcases List.prefix_or_prefix_of_prefix hxs hys with ⟨zs,rfl⟩ | ⟨zs,rfl⟩
  · refine rank_lt_append hw xs ?_
    rintro rfl
    simp at hlt
  · rw [Utf8.size_append] at hlt
    omega

end Growth

/-- In a source, an offset is on the same line whether columns count bytes or characters. The column in characters is at most
that in bytes, and the same where the line up to the offset is ASCII. At the boundaries of a text both positions grow with the
offset, and an offset past the end has the position of the end. -/
theorem positions_agree (src : List UInt8) : (∀ k, (ofOffsetInCharacters src k).line = (ofOffset src k).line ∧
      (ofOffsetInCharacters src k).column ≤ (ofOffset src k).column ∧
      ((∀ b ∈ lastLine (src.take k), b < 0x80) → (ofOffsetInCharacters src k).column = (ofOffset src k).column)) ∧
    (∀ cs, Utf8.decode src = .ok cs → StrictMonoOn (fun k => (ofOffset src k).rank) (Utf8.boundaries cs) ∧
      StrictMonoOn (fun k => (ofOffsetInCharacters src k).rank) (Utf8.boundaries cs)) ∧
    ∀ k ≥ src.length, ofOffset src k = ofOffset src src.length ∧
      ofOffsetInCharacters src k = ofOffsetInCharacters src src.length := by
  simp only [ofOffset_eq,ofOffsetInCharacters_eq]
  refine ⟨fun k => ⟨rfl,?_,fun h => ?_⟩,fun cs hcs => ?_,fun k hk => ?_⟩
  · simpa [behind,Utf8.count] using Utf8.countFrom_le 0 (lastLine (src.take k))
  · simpa [behind,Utf8.count] using Utf8.countFrom_ascii (n := 0) h
  · rw [Utf8.decode_eq_ok.mp hcs]
    refine ⟨rank_strictMonoOn (fun ds c => ?_) cs,rank_strictMonoOn (fun ds c => ?_) cs⟩
    · simpa using c.utf8Size_pos
    · simp only [Utf8.count,Utf8.countFrom_encode,List.length_append,List.length_singleton]
      omega
  · rw [List.take_of_length_le hk,List.take_length]
    exact ⟨rfl,rfl⟩

/-- Two lines, with a character of two bytes on the second. -/
def accentedLines : List Char := ['a','\n','é','b']

theorem positions_agree_accentedLines : Utf8.decode (Utf8.encode accentedLines) = .ok accentedLines ∧
    2 ∈ Utf8.boundaries accentedLines ∧ 4 ∈ Utf8.boundaries accentedLines ∧
    (ofOffset (Utf8.encode accentedLines) 2).rank < (ofOffset (Utf8.encode accentedLines) 4).rank ∧
    ofOffset (Utf8.encode accentedLines) 4 = ⟨2,3⟩ ∧ ofOffsetInCharacters (Utf8.encode accentedLines) 4 = ⟨2,2⟩ ∧
    ofOffset (Utf8.encode accentedLines) 9 = ⟨2,4⟩ := by
  have hcs : Utf8.decode (Utf8.encode accentedLines) = .ok accentedLines := Utf8.decode_eq_ok.mpr rfl
  have htwo : 2 ∈ Utf8.boundaries accentedLines := ⟨['a','\n'],by decide,rfl⟩
  have hfour : 4 ∈ Utf8.boundaries accentedLines := ⟨['a','\n','é'],by decide,by decide⟩
  obtain ⟨_,hgrows,hend⟩ := positions_agree (Utf8.encode accentedLines)
  refine ⟨hcs,htwo,hfour,(hgrows accentedLines hcs).1 htwo hfour (by decide),by decide,by decide +kernel,?_⟩
  exact (hend 9 (by decide)).1.trans (by decide)

end InfoObject.Position
