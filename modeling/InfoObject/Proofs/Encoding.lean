import InfoObject.Text.Utf8

/-! Texts and their encodings: decoding undoes encoding, and what can be decoded is the encoding of what it decodes to. -/
namespace InfoObject.Utf8

/-! One character -/

theorem utf8Size_eq (c : Char) : c.utf8Size =
    if c.toNat ≤ 0x7F then 1 else if c.toNat ≤ 0x7FF then 2 else if c.toNat ≤ 0xFFFF then 3 else 4 := by
  simp only [Char.utf8Size,UInt32.le_iff_toNat_le]
  rfl

theorem toNat_ofNat (h : n < 256) : (UInt8.ofNat n).toNat = n := by
  rw [UInt8.toNat_ofNat']
  exact Nat.mod_eq_of_lt h

theorem leading?_eq (b : UInt8) : leading? b = if b.toNat < 0x80 then some (1,b.toNat) else if b.toNat < 0xC0 then none
    else if b.toNat < 0xE0 then some (2,b.toNat-0xC0) else if b.toNat < 0xF0 then some (3,b.toNat-0xE0)
    else if b.toNat < 0xF8 then some (4,b.toNat-0xF0) else none := by
  simp only [leading?,UInt8.lt_iff_toNat_lt]
  rfl

theorem isContinuation_iff (b : UInt8) : isContinuation b = true ↔ 0x80 ≤ b.toNat ∧ b.toNat < 0xC0 := by
  simp [isContinuation,UInt8.lt_iff_toNat_lt,UInt8.le_iff_toNat_le]

theorem appendBits_cons : appendBits n (b::r) = some m ↔ (0x80 ≤ b.toNat ∧ b.toNat < 0xC0) ∧
    appendBits (n*64+(b.toNat-0x80)) r = some m := by
  rw [appendBits]
  split
  · rename_i h
    simp [(isContinuation_iff b).mp h]
  · rename_i h
    simp [mt (isContinuation_iff b).mpr h]

theorem appendBits_encode (h : m < 64) : appendBits n (UInt8.ofNat (m+0x80)::r) = appendBits (n*64+m) r := by
  have hm : (UInt8.ofNat (m+0x80)).toNat = m+0x80 := toNat_ofNat (by omega)
  have hc : isContinuation (UInt8.ofNat (m+0x80)) = true := (isContinuation_iff _).mpr (by omega)
  rw [appendBits,if_pos hc,hm,Nat.add_sub_cancel]

theorem toNat_ofNat_char (h : n.isValidChar) : (Char.ofNat n).toNat = n := by
  rw [Char.ofNat,dif_pos h]
  rfl

theorem decodeChar?_eq_some : decodeChar? (a::r) = some c ↔ ∃ bits, leading? a = some (c.utf8Size,bits) ∧
    c.utf8Size-1 ≤ r.length ∧ appendBits bits (r.take (c.utf8Size-1)) = some c.toNat := by
  rw [decodeChar?]
  constructor
  · intro h
    obtain ⟨⟨size,bits⟩,hl,h⟩ := Option.bind_eq_some_iff.mp h
    dsimp only at h
    split at h
    · contradiction
    · rename_i hlen
      obtain ⟨n,hn,h⟩ := Option.bind_eq_some_iff.mp h
      split at h
      · rename_i hvalid
        obtain rfl := Option.some.inj h
        obtain ⟨hv,rfl⟩ := hvalid
        rw [List.length_take] at hlen
        exact ⟨bits,hl,by omega,hn.trans (congrArg some (toNat_ofNat_char hv).symm)⟩
      · contradiction
  · rintro ⟨bits,hl,hlen,hn⟩
    have hlong : ¬ (r.take (c.utf8Size-1)).length < c.utf8Size-1 := by
      rw [List.length_take]
      omega
    have hvalid : c.toNat.isValidChar := c.valid
    simp only [hl,Option.bind_eq_bind,Option.bind_some,if_neg hlong,hn]
    simp [hvalid]

theorem utf8EncodeChar_eq (c : Char) : String.utf8EncodeChar c = if c.toNat ≤ 127 then [UInt8.ofNat c.toNat]
    else if c.toNat ≤ 2047 then [UInt8.ofNat (c.toNat/64%32+192),UInt8.ofNat (c.toNat%64+128)] else if c.toNat ≤ 65535 then
      [UInt8.ofNat (c.toNat/4096%16+224),UInt8.ofNat (c.toNat/64%64+128),UInt8.ofNat (c.toNat%64+128)]
    else [UInt8.ofNat (c.toNat/262144%8+240),UInt8.ofNat (c.toNat/4096%64+128),UInt8.ofNat (c.toNat/64%64+128),
      UInt8.ofNat (c.toNat%64+128)] := rfl

theorem toNat_lt (c : Char) : c.toNat < 0x110000 := by
  have : c.toNat.isValidChar := c.valid
  unfold Nat.isValidChar at this
  omega

theorem decodeChar?_encode (c : Char) (rest : List UInt8) : decodeChar? (String.utf8EncodeChar c++rest) = some c := by
  have hlt := toNat_lt c
  have hsize := utf8Size_eq c
  rw [utf8EncodeChar_eq]
  split
  · rename_i h
    rw [if_pos h] at hsize
    refine decodeChar?_eq_some.mpr ⟨c.toNat,?_,by omega,by simp [hsize,appendBits]⟩
    rw [leading?_eq,toNat_ofNat (by omega),if_pos (by omega),hsize]
  rename_i h1
  rw [if_neg h1] at hsize
  split
  · rename_i h
    rw [if_pos h] at hsize
    refine decodeChar?_eq_some.mpr ⟨c.toNat/64%32,?_,by simp [hsize],?_⟩
    · rw [leading?_eq,toNat_ofNat (by omega),if_neg (by omega),if_neg (by omega),if_pos (by omega),hsize,Nat.add_sub_cancel]
    · rw [hsize]
      refine (appendBits_encode (by omega)).trans ?_
      exact congrArg some (by omega)
  rename_i h2
  rw [if_neg h2] at hsize
  split
  · rename_i h
    rw [if_pos h] at hsize
    refine decodeChar?_eq_some.mpr ⟨c.toNat/4096%16,?_,by simp [hsize],?_⟩
    · rw [leading?_eq,toNat_ofNat (by omega),if_neg (by omega),if_neg (by omega),if_neg (by omega),if_pos (by omega),hsize,
        Nat.add_sub_cancel]
    · rw [hsize]
      refine (appendBits_encode (by omega)).trans ((appendBits_encode (by omega)).trans ?_)
      exact congrArg some (by omega)
  · rename_i h
    rw [if_neg h] at hsize
    refine decodeChar?_eq_some.mpr ⟨c.toNat/262144%8,?_,by simp [hsize],?_⟩
    · rw [leading?_eq,toNat_ofNat (by omega),if_neg (by omega),if_neg (by omega),if_neg (by omega),if_neg (by omega),
        if_pos (by omega),hsize,Nat.add_sub_cancel]
    · rw [hsize]
      refine (appendBits_encode (by omega)).trans ((appendBits_encode (by omega)).trans ((appendBits_encode (by omega)).trans ?_))
      exact congrArg some (by omega)

theorem ofNat_toNat_eq (h : n = b.toNat) : UInt8.ofNat n = b := by
  rw [h]
  exact UInt8.ofNat_toNat

theorem leading?_eq_some (h : leading? b = some (k,bits)) : k = 1 ∧ b.toNat < 0x80 ∧ bits = b.toNat ∨ k = 2 ∧
    0xC0 ≤ b.toNat ∧ b.toNat < 0xE0 ∧ bits = b.toNat-0xC0 ∨ k = 3 ∧ 0xE0 ≤ b.toNat ∧ b.toNat < 0xF0 ∧ bits = b.toNat-0xE0 ∨
    k = 4 ∧ 0xF0 ≤ b.toNat ∧ b.toNat < 0xF8 ∧ bits = b.toNat-0xF0 := by
  rw [leading?_eq] at h
  repeat' split at h
  all_goals first | contradiction | skip
  all_goals
    obtain ⟨rfl,rfl⟩ := Prod.mk.inj (Option.some.inj h)
    omega

/-- What a character is decoded from begins with its encoding. -/
theorem encode_decodeChar? (h : decodeChar? (a::r) = some c) : a::r = String.utf8EncodeChar c++r.drop (c.utf8Size-1) := by
  obtain ⟨bits,hl,hlen,hn⟩ := decodeChar?_eq_some.mp h
  have hlead := leading?_eq_some hl
  have hsize := utf8Size_eq c
  have hlt := toNat_lt c
  rw [utf8EncodeChar_eq]
  split
  · rename_i h1
    rw [if_pos h1] at hsize
    rw [hsize] at hn ⊢
    have hn : bits = c.toNat := Option.some.inj hn
    rw [ofNat_toNat_eq (b := a) (by omega)]
    rfl
  rename_i h1
  rw [if_neg h1] at hsize
  split
  · rename_i h2
    rw [if_pos h2] at hsize
    rw [hsize] at hn hlen ⊢
    match r,hlen with
    | b::r,_ =>
      obtain ⟨hb,hn⟩ := appendBits_cons.mp hn
      have hn := Option.some.inj hn
      rw [ofNat_toNat_eq (b := a) (by omega),ofNat_toNat_eq (b := b) (by omega)]
      rfl
  rename_i h2
  rw [if_neg h2] at hsize
  split
  · rename_i h3
    rw [if_pos h3] at hsize
    rw [hsize] at hn hlen ⊢
    match r,hlen with
    | b::d::r,_ =>
      obtain ⟨hb,hn⟩ := appendBits_cons.mp hn
      obtain ⟨hd,hn⟩ := appendBits_cons.mp hn
      have hn := Option.some.inj hn
      rw [ofNat_toNat_eq (b := a) (by omega),ofNat_toNat_eq (b := b) (by omega),ofNat_toNat_eq (b := d) (by omega)]
      rfl
  · rename_i h3
    rw [if_neg h3] at hsize
    rw [hsize] at hn hlen ⊢
    match r,hlen with
    | b::d::e::r,_ =>
      obtain ⟨hb,hn⟩ := appendBits_cons.mp hn
      obtain ⟨hd,hn⟩ := appendBits_cons.mp hn
      obtain ⟨he,hn⟩ := appendBits_cons.mp hn
      have hn := Option.some.inj hn
      rw [ofNat_toNat_eq (b := a) (by omega),ofNat_toNat_eq (b := b) (by omega),ofNat_toNat_eq (b := d) (by omega),
        ofNat_toNat_eq (b := e) (by omega)]
      rfl

/-! Texts -/

@[simp] theorem encode_nil : encode [] = [] := rfl

@[simp] theorem encode_cons (c : Char) (cs : List Char) : encode (c::cs) = String.utf8EncodeChar c++encode cs := by
  simp [encode]

@[simp] theorem encode_append (cs ds : List Char) : encode (cs++ds) = encode cs++encode ds := by simp [encode]

@[simp] theorem length_encode (cs : List Char) : (encode cs).length = size cs := by
  induction cs with
  | nil => rfl
  | cons c cs ih => simp [ih]

theorem drop_encodeChar (c : Char) (a : UInt8) (r rest : List UInt8) (h : a::r = String.utf8EncodeChar c++rest) :
    r.drop (c.utf8Size-1) = rest := by
  have hlen : (String.utf8EncodeChar c).length = c.utf8Size := String.length_utf8EncodeChar c
  have hpos := c.utf8Size_pos
  have hdrop : (a::r).drop c.utf8Size = rest := by rw [h,← hlen,List.drop_left]
  rwa [show c.utf8Size = c.utf8Size-1+1 by omega,List.drop_succ_cons] at hdrop

theorem decodeFrom_append (offset : Nat) (done cs : List Char) (rest : List UInt8) :
    decodeFrom offset done (encode cs++rest) = decodeFrom (offset+size cs) (cs.reverse++done) rest := by
  induction cs generalizing offset done with
  | nil => rfl
  | cons c cs ih =>
    have hdecode := decodeChar?_encode c (encode cs++rest)
    cases hbytes : String.utf8EncodeChar c++(encode cs++rest) with
    | nil => simp at hbytes
    | cons a r =>
      rw [hbytes] at hdecode
      rw [encode_cons,List.append_assoc,hbytes,decodeFrom]
      simp only [hdecode]
      rw [drop_encodeChar c a r _ hbytes.symm,ih]
      simp [Nat.add_assoc]

theorem encode_decodeFrom (h : decodeFrom offset done bytes = .ok cs) : ∃ ds, cs = done.reverse++ds ∧ bytes = encode ds := by
  fun_induction decodeFrom offset done bytes with
  | case1 offset done =>
    obtain rfl := Except.ok.inj h
    exact ⟨[],by simp,rfl⟩
  | case2 => contradiction
  | case3 offset done a r c hc ih =>
    obtain ⟨ds,rfl,hds⟩ := ih h
    refine ⟨c::ds,by simp,?_⟩
    rw [encode_decodeChar? hc,encode_cons,hds]

/-- A text is decoded from its encoding, and from nothing else. -/
theorem decode_eq_ok : decode bytes = .ok cs ↔ bytes = encode cs := by
  constructor
  · intro h
    obtain ⟨ds,rfl,rfl⟩ := encode_decodeFrom h
    rfl
  · rintro rfl
    have h := decodeFrom_append 0 [] cs []
    rw [List.append_nil,decodeFrom] at h
    simpa [decode] using h

theorem decodeChar?_eq_none : decodeChar? bytes = none ↔ ∀ c, ¬ String.utf8EncodeChar c <+: bytes := by
  constructor
  · rintro h c ⟨rest,rfl⟩
    rw [decodeChar?_encode] at h
    contradiction
  · intro h
    cases bytes with
    | nil => rfl
    | cons a r =>
      refine Option.eq_none_iff_forall_ne_some.mpr fun c hc => h c ?_
      exact ⟨_,(encode_decodeChar? hc).symm⟩

/-- The first byte of a text that is not well encoded: what is before it is, and no character begins there. -/
structure BadAt (bytes : List UInt8) (p : Nat) : Prop where
  inside : p < bytes.length
  before : ∃ cs, bytes.take p = encode cs
  begins : ∀ c, ¬ String.utf8EncodeChar c <+: bytes.drop p

theorem decodeFrom_error (h : decodeFrom offset done bytes = .error p) :
    ∃ cs a r, bytes = encode cs++a::r ∧ p = offset+size cs ∧ decodeChar? (a::r) = none := by
  fun_induction decodeFrom offset done bytes with
  | case1 => contradiction
  | case2 offset done a r hnone =>
    obtain rfl := Except.error.inj h
    exact ⟨[],a,r,rfl,rfl,hnone⟩
  | case3 offset done a r c hc ih =>
    obtain ⟨cs,a',r',hrest,rfl,hnone⟩ := ih h
    refine ⟨c::cs,a',r',?_,by simp [Nat.add_assoc],hnone⟩
    rw [encode_decodeChar? hc,hrest,encode_cons,List.append_assoc]

/-- Decoding stops at the first byte that is not well encoded, and there is only one. -/
theorem decode_eq_error : decode bytes = .error p ↔ BadAt bytes p := by
  constructor
  · intro h
    obtain ⟨cs,a,r,rfl,rfl,hnone⟩ := decodeFrom_error h
    have hlen : 0+size cs = (encode cs).length := by simp
    rw [hlen]
    refine ⟨by simp,⟨cs,List.take_left⟩,?_⟩
    rw [List.drop_left]
    exact decodeChar?_eq_none.mp hnone
  · rintro ⟨hin,⟨cs,hcs⟩,hbegins⟩
    have hp : size cs = p := by
      rw [← length_encode,← hcs,List.length_take,Nat.min_eq_left (Nat.le_of_lt hin)]
    cases hrest : bytes.drop p with
    | nil => exact absurd (List.drop_eq_nil_iff.mp hrest) (by omega)
    | cons a r =>
      have hnone := decodeChar?_eq_none.mpr (hrest ▸ hbegins)
      have hsplit := decodeFrom_append 0 [] cs (a::r)
      rw [← hrest,← hcs,List.take_append_drop,hrest,decodeFrom,hnone] at hsplit
      rw [decode,hsplit]
      simp [hp]

end InfoObject.Utf8
