import InfoObject.Proofs.Spans

/-! Where errors lie. A token that cannot be read is in what is left of the source; a parser points at the token that does not
fit, at the place behind the last one, or at a block from its brace to there. -/
namespace InfoObject.Notation
open InfoObject.Notation.Parser

/-! Tokens that cannot be read -/

section Faults
variable {c : Char} {r s done text : List Char} {kind : TokenKind} {f : ScanFault}

theorem size_le_of_within (h : s <+: r) : Utf8.size s ≤ Utf8.size r := by
  obtain ⟨t,rfl⟩ := h
  rw [Utf8.size_append]
  exact Nat.le_add_right _ _

theorem size_reverse : Utf8.size text.reverse = Utf8.size text := by
  induction text with
  | nil => rfl
  | cons c cs ih => simp [ih,Nat.add_comm]

theorem bounded_fault (h : bounded kind text = .error f) : f.skip+f.length = Utf8.size text := by
  unfold bounded at h
  split at h
  · cases h
    exact Nat.zero_add _
  · contradiction

theorem scanNumber_fault (h : scanNumber sign r = .error f) : f.skip+f.length ≤ Utf8.size (sign++r) := by
  have hword := size_le_of_within ( r.takeWhile_prefix isWordChar)
  have hsum : f.skip+f.length = Utf8.size (sign++r.takeWhile isWordChar) := by
    simp only [scanNumber] at h
    split at h
    · exact bounded_fault h
    · cases h
      exact Nat.zero_add _
  rw [hsum,Utf8.size_append,Utf8.size_append]
  exact Nat.add_le_add_left hword _

theorem scanHyphen_fault (h : scanHyphen r = .error f) : f.skip+f.length ≤ Utf8.size ('-'::r) := by
  have hpos := Char.utf8Size_pos '-'
  unfold scanHyphen at h
  split at h
  · rw [bounded_fault h]
    exact size_le_of_within ( List.takeWhile_prefix _)
  · split at h
    · exact scanNumber_fault h
    · cases h
      simp only [Utf8.size_cons]
      omega
  · cases h
    simp only [Utf8.size_cons]
    omega

theorem textFault_within (h : textFault skip c r = .error f) : f.skip+f.length ≤ skip+Utf8.size (c::r) := by
  have hpos := c.utf8Size_pos
  simp only [Utf8.size_cons]
  unfold textFault at h
  split at h
  · cases h
    dsimp only
    omega
  · split at h
    · rename_i hline
      obtain ⟨q,rfl⟩ : ∃ q, r = '\n'::q := List.head?_eq_some_iff.mp hline.2
      have hnext := Char.utf8Size_pos '\n'
      cases h
      simp only [Utf8.size_cons]
      omega
    · cases h
      dsimp only
      omega

theorem scanText_fault (h : scanText done r = .error f) : f.skip+f.length ≤ Utf8.size done+Utf8.size r := by
  fun_induction scanText done r with
  | case1 =>
    cases h
    exact Nat.le_of_eq (Nat.zero_add _)
  | case2 done r ih | case5 done c r _ _ _ ih =>
    have := ih h
    simp only [Utf8.size_cons] at this ⊢
    omega
  | case3 =>
    rw [bounded_fault h,size_reverse]
    simp only [Utf8.size_cons]
    omega
  | case4 => exact textFault_within h

theorem scanIdent_fault (h : scanIdent c r = .error f) : f.skip+f.length ≤ Utf8.size (c::r) := by
  obtain ⟨s,rest,rfl,hs,_⟩ := identTail_spelled [c] r
  rw [bounded_fault h,hs]
  exact size_le_of_within ⟨rest,rfl⟩

theorem scanToken_fault (h : scanToken c r = .error f) : f.skip+f.length ≤ Utf8.size (c::r) := by
  have hpos := c.utf8Size_pos
  unfold scanToken at h
  split at h
  · contradiction
  · repeat' split at h
    · rw [bounded_fault h]
      exact size_le_of_within ( List.takeWhile_prefix _)
    · exact scanIdent_fault h
    · exact scanNumber_fault h
    · subst c
      exact scanHyphen_fault h
    · unfold scanDot at h
      split at h <;> contradiction
    · unfold scanColon at h
      split at h
      · contradiction
      · cases h
        simp only [Utf8.size_cons]
        omega
    · subst c
      have := scanText_fault h
      simpa using this
    · unfold scanReturn at h
      split at h
      · contradiction
      · cases h
        simp only [Utf8.size_cons]
        omega
    · unfold scanOther at h
      split at h <;>
      · cases h
        simp only [Utf8.size_cons]
        omega

end Faults

/-! Parsers -/

/-- What is left to read, and what made the scan stop, are within so many bytes. -/
structure Cursor.Within (n : Nat) (c : Cursor) : Prop where
  rest : c.offset.toNat+Utf8.size (spelling c.rest) ≤ n
  error : ∀ e ∈ c.error, e.span.limit ≤ n

/-- A parser that points at nothing beyond so many bytes. -/
abbrev Parser.Points {α : Type} (n : Nat) (p : Parser α) : Prop := p.Guards (Cursor.Within n) fun e => e.span.limit ≤ n

section Points
variable {α β : Type} {n : Nat} {c c' : Cursor} {t : Token} {ts r : List Token} {offset : UInt32} {e : SyntaxError}
  {wanted : Token → Bool} {fault : Found → SyntaxFault}

section Bounded
variable (hn : n < 2^32)
include hn

theorem token_within (h : offset.toNat+Utf8.size (spelling (t::r)) ≤ n) :
    Span.limit ⟨offset,t.size.toUInt32⟩ ≤ n ∧ (offset+t.size.toUInt32).toNat+Utf8.size (spelling r) ≤ n := by
  rw [spelling_cons,Utf8.size_append,← Token.size] at h
  have hsize : t.size.toUInt32.toNat = t.size := UInt32.toNat_ofNat_of_lt (show t.size < 2^32 by omega)
  have hlimit : Span.limit ⟨offset,t.size.toUInt32⟩ = offset.toNat+t.size := congrArg (offset.toNat+·) hsize
  rw [toNat_add_size (by omega),hlimit]
  omega

theorem skipTrivia_within (h : offset.toNat+Utf8.size (spelling ts) ≤ n) :
    (skipTrivia ts offset).2.toNat+Utf8.size (spelling (skipTrivia ts offset).1) ≤ n := by
  induction ts generalizing offset with
  | nil => exact h
  | cons t ts ih =>
    rw [skipTrivia]
    split
    · exact ih (token_within hn h).2
    · exact h

theorem Cursor.Within.skip (h : c.Within n) : c.skip.Within n :=
  ⟨skipTrivia_within hn h.rest,h.error⟩

theorem Cursor.Within.pass (h : c.Within n) (hr : c.skip.rest = t::r) :
    Span.limit ⟨c.skip.offset,t.size.toUInt32⟩ ≤ n ∧ Within n ⟨r,c.skip.offset+t.size.toUInt32,c.error⟩ := by
  have hrest := (h.skip hn).rest
  rw [hr] at hrest
  obtain ⟨hspan,hbehind⟩ := token_within hn hrest
  exact ⟨hspan,hbehind,h.error⟩

theorem points_peek : peek.Points n := by
  refine guards_of_results fun c hc => ?_
  rw [peek]
  split
  · exact hc.skip hn
  · exact hc.skip hn
  · exact hc.error _ ‹_›

theorem expect_within (hc : c.Within n) (h : expect wanted fault c = .ok (x,c')) : x.2.limit ≤ n ∧ c'.Within n := by
  simp only [expect] at h
  split at h
  · rename_i hr
    split at h
    · cases h
      exact hc.pass hn hr
    · contradiction
  · contradiction
  · contradiction

theorem points_expect : (expect wanted fault).Points n := by
  refine guards_of_results fun c hc => ?_
  rw [expect]
  split
  · have hpass := hc.pass hn ‹_›
    split
    · exact hpass.2
    · exact hpass.1
  · exact Nat.le_trans (Nat.le_add_right _ _) (hc.skip hn).rest
  · exact hc.error _ ‹_›

theorem points_accept : (accept kind).Points n := by
  refine guards_of_results fun c hc => ?_
  rw [accept]
  split
  · split
    · exact (hc.pass hn ‹_›).2
    · exact hc.skip hn
  · exact hc.skip hn
  · exact hc.error _ ‹_›

theorem points_atEnd : atEnd.Points n := by
  refine guards_of_results fun c hc => ?_
  rw [atEnd]
  split
  · exact (hc.pass hn ‹_›).1
  · exact hc.skip hn
  · exact hc.error _ ‹_›

/-- A block that is not closed goes from its brace to the end of what was read. -/
theorem closeBlock_within (hstart : start.toNat ≤ offset.toNat)
    (h : offset.toNat+Utf8.size (spelling ts) ≤ n) (he : ∀ e ∈ error, e.span.limit ≤ n) :
    Guarded (Cursor.Within n) (·.span.limit ≤ n) (closeBlock start error depth done offset ts) := by
  induction ts generalizing depth done offset with
  | nil =>
    rw [closeBlock]
    cases error with
    | some e => exact he e rfl
    | none =>
      have hlength : (offset-start).toNat = offset.toNat-start.toNat :=
        UInt32.toNat_sub_of_le _ _ (UInt32.le_iff_toNat_le.mpr hstart)
      show start.toNat+(offset-start).toNat ≤ n
      omega
  | cons t ts ih =>
    obtain ⟨_,hbehind⟩ := token_within hn h
    rw [closeBlock]
    by_cases hdepth : depthAfter depth t = 0
    · rw [if_pos hdepth]
      exact ⟨hbehind,he⟩
    · rw [if_neg hdepth]
      refine ih ?_ hbehind
      rw [spelling_cons,Utf8.size_append,← Token.size] at h
      rw [toNat_add_size (by omega)]
      omega

theorem points_rawBlock : rawBlock.Points n := by
  refine guards_of_results fun c hc => ?_
  have hclose : Guarded _ _ (closeBlock c.skip.offset c.error 0 [] c.skip.offset c.skip.rest) :=
    closeBlock_within hn (Nat.le_refl _) (hc.skip hn).rest hc.error
  rw [rawBlock]
  split <;> exact (‹closeBlock .. = _› ▸ hclose :)

theorem points_intLit : intLit.Points n where
  ok c a c' hc h := by
    obtain ⟨x,d,hx,h⟩ := bind_eq_ok h
    have hd := (expect_within hn hc hx).2
    dsimp only at h
    split at h
    · cases h
      exact hd
    · contradiction
  error c e hc h := by
    obtain h | ⟨x,d,hx,h⟩ := bind_eq_error h
    · exact (points_expect hn).error hc h
    · have hspan := (expect_within hn hc hx).1
      dsimp only at h
      split at h
      · contradiction
      · cases h
        exact hspan

/-! The rules -/

theorem points_sigil : (sigil s).Points n := (points_expect hn).bind fun _ => guards_pure

theorem points_keyword : (keyword word).Points n :=
  (points_expect hn).bind fun _ => guards_pure

theorem points_atKeyword : (atKeyword word).Points n :=
  (points_peek hn).bind fun _ => guards_pure

theorem points_optionalKeyword : (optionalKeyword word).Points n :=
  (points_atKeyword hn).bind fun _ => guards_ite ((points_keyword hn).bind fun _ => guards_pure) guards_pure

theorem points_ident : ident.Points n := (points_expect hn).bind fun _ => guards_pure

theorem points_reference : reference.Points n :=
  (points_ident hn).bind fun _ => (points_accept hn).bind fun _ =>
    guards_ite ((points_ident hn).bind fun _ => guards_pure) guards_pure

theorem points_payload : payload.Points n := by
  refine (points_peek hn).bind fun t => ?_
  split
  · exact (points_reference hn).map _
  · exact Guards.map _ ((points_expect hn).bind fun _ => guards_pure)
  · exact (points_rawBlock hn).map _
  · exact (points_intLit hn).map _

theorem points_fieldDecl : fieldDecl.Points n := by
  refine (points_sigil hn).bind fun _ => (points_ident hn).bind fun _ => Guards.bind ?_ fun _ =>
    (points_optionalKeyword hn).bind fun _ => (points_optionalKeyword hn).bind fun _ => Guards.bind ?_ fun _ => guards_pure
  · exact (points_peek hn).bind fun _ => guards_ite ((points_reference hn).map _) guards_pure
  · exact guards_ite guards_pure
      ((points_optionalKeyword hn).bind fun _ => guards_ite ((points_payload hn).map _) guards_pure)

theorem points_assigned : assigned.Points n := by
  refine (points_peek hn).bind fun _ => guards_ite ?_ (guards_ite ?_ ((points_payload hn).map _))
  · exact (points_keyword hn).bind fun _ => (points_sigil hn).bind fun _ =>
      (guards_separated (points_peek hn) (points_accept hn) (points_fieldDecl hn)).bind fun _ =>
        (points_sigil hn).bind fun _ => guards_pure
  · exact (points_keyword hn).bind fun _ => (points_sigil hn).bind fun _ => (points_reference hn).bind fun _ =>
      (points_sigil hn).bind fun _ => guards_pure

theorem points_assignment : assignment.Points n := by
  have hgovernor : governor.Points n :=
    (guards_notAt (points_peek hn)).bind fun _ => guards_ite ((points_reference hn).map _) guards_pure
  exact (points_expect hn).bind fun _ => hgovernor.bind fun _ => (points_sigil hn).bind fun _ =>
    (points_assigned hn).bind fun _ => guards_pure

theorem points_imports : imports.Points n := by
  have himport : importDecl.Points n :=
    (points_ident hn).bind fun _ => (guards_many (points_accept hn) (points_ident hn) _).bind fun _ =>
      (points_keyword hn).bind fun _ => (points_ident hn).bind fun _ => guards_pure
  have huntil : (untilKind .semicolon).Points n := (points_accept hn).bind fun _ => guards_pure
  exact (points_optionalKeyword hn).bind fun _ => guards_ite (guards_many huntil himport _) guards_pure

theorem points_module : (module file source).Points n := by
  have hmore : (notAtKeyword "END").Points n := (points_atKeyword hn).bind fun _ => guards_pure
  exact (points_ident hn).bind fun _ => (points_keyword hn).bind fun _ => (points_sigil hn).bind fun _ =>
    (points_keyword hn).bind fun _ => (points_imports hn).bind fun _ =>
      (guards_many hmore (points_assignment hn) _).bind fun _ => (points_keyword hn).bind fun _ =>
        (points_atEnd hn).bind fun _ => guards_pure

theorem points_braced (hitems : items.Points n) : (braced items make).Points n :=
  (points_sigil hn).bind fun _ => hitems.bind fun _ => (points_sigil hn).bind fun _ => (points_atEnd hn).bind fun _ =>
    guards_pure

theorem points_objectBody : objectBody.Points n :=
  points_braced hn (guards_separated (points_peek hn) (points_accept hn)
    ((points_sigil hn).bind fun _ => (points_ident hn).bind fun _ => (points_payload hn).bind fun _ => guards_pure))

theorem points_setBody : setBody.Points n := by
  have helement : element.Points n := by
    refine (points_peek hn).bind fun t => ?_
    split
    · exact (points_reference hn).map _
    · exact (points_rawBlock hn).map _
    · exact (points_expect hn).bind fun _ => guards_pure
  have hseparator : elementSeparator.Points n :=
    (points_accept hn).bind fun _ => guards_ite guards_pure (points_accept hn)
  exact points_braced hn (guards_separated (points_peek hn) hseparator helement)

/-! Sources -/

theorem scan_within (h : offset.toNat+Utf8.size text ≤ n) : ((scan text offset).cursor offset).Within n := by
  obtain ⟨ts,rest,hcuts,hend⟩ := drain_cuts offset [] text
  have hsize : Utf8.size text = Utf8.size (spelling ts)+Utf8.size rest := by rw [hcuts.text,Utf8.size_append]
  -- The tokens end with the text, or before a character that begins no token; the fault is then a part of the rest.
  obtain ⟨rfl,hscan⟩ | ⟨d,r,f,rfl,hfault,hscan⟩ := hend
  · rw [scan,hscan]
    refine ⟨by simp only [Tokens.cursor,List.reverse_nil,List.nil_append]; omega,fun e he => ?_⟩
    contradiction
  · rw [scan,hscan]
    refine ⟨by simp only [Tokens.cursor,List.reverse_nil,List.nil_append]; omega,fun e he => ?_⟩
    obtain rfl := Option.mem_some.mp he
    have hbound := scanToken_fault hfault
    have hbehind : (behind offset ts).toNat = _ := toNat_behind (by omega)
    have hstart : (behind offset ts+f.skip.toUInt32).toNat = _ := toNat_add_size (by omega)
    have hlength : f.length.toUInt32.toNat = f.length := UInt32.toNat_ofNat_of_lt (show f.length < 2^32 by omega)
    show (behind offset ts+f.skip.toUInt32).toNat+f.length.toUInt32.toNat ≤ n
    omega

end Bounded

theorem run_error_within {p : Parser α} (hp : p.Points n) (hn : n < 2^32) (hsize : offset.toNat+Utf8.size text ≤ n)
    (h : p.run text offset = .error e) : e.span.limit ≤ n :=
  hp.error (scan_within hn hsize) (run_error h)

theorem decodeSource_error (hsize : bytes.length ≤ maxSourceSize) (h : decodeSource bytes = .error e) :
    e.fault = .invalidEncoding ∧ e.span.length = 1 ∧ Utf8.BadAt bytes e.span.start.toNat := by
  have hmax : maxSourceSize < 2^32 := by decide
  have hcheck : checkSize bytes.length = .ok () := if_neg (by omega)
  cases hd : Utf8.decode bytes with
  | ok cs =>
    rw [decodeSource,hcheck,hd] at h
    contradiction
  | error p =>
    have hbad := Utf8.decode_eq_error.mp hd
    have hp := hbad.inside
    have hstart : p.toUInt32.toNat = p := UInt32.toNat_ofNat_of_lt (show p < 2^32 by omega)
    rw [decodeSource,hcheck,hd] at h
    cases h
    exact ⟨rfl,rfl,hstart.symm ▸ hbad⟩

theorem parse_error_within (hsize : bytes.length ≤ maxSourceSize) (h : Module.parse bytes file = .error e) :
    e.span.limit ≤ bytes.length := by
  rw [Module.parse] at h
  cases hd : decodeSource bytes with
  | error e' =>
    rw [hd] at h
    cases h
    obtain ⟨_,hone,hbad⟩ := decodeSource_error hsize hd
    rw [Span.limit,hone]
    exact hbad.inside
  | ok src =>
    rw [hd] at h
    obtain ⟨_,rfl⟩ := decodeSource_ok.mp hd
    rw [Utf8.length_encode] at hsize ⊢
    have hmax : maxSourceSize < 2^32 := by decide
    have hn : Utf8.size src < 2^32 := by omega
    exact run_error_within (points_module hn) hn (by simp) h

theorem PartOf.bound (h : PartOf 0 ts b) (hsize : Utf8.size src ≤ maxSourceSize)
    (hts : Cuts src ts []) : b.start.toNat+Utf8.size b.text ≤ Utf8.size src := by
  obtain ⟨us,ms,vs,rfl,htext,hstart,_⟩ := h
  have hmax : maxSourceSize < 2^32 := by decide
  have hsum := congrArg Utf8.size hts.text
  simp only [spelling_append,List.append_nil,Utf8.size_append] at hsum
  rw [hstart,htext,toNat_behind_zero (by omega)]
  omega

theorem Module.Holds.error_within {file : String} (hm : Module.parse bytes file = .ok m) (hb : m.Holds b)
    (h : b.parseObject = .error e ∨ b.parseSet = .error e) : e.span.limit ≤ bytes.length := by
  obtain ⟨src,ts,rfl,hsize,hts,hrule⟩ := parse_tokens hm
  have hbound := (hb.partOf hts hrule).bound hsize hts
  have hmax : maxSourceSize < 2^32 := by decide
  have hn : Utf8.size src < 2^32 := by omega
  rw [Utf8.length_encode]
  obtain h | h := h
  · exact run_error_within (points_objectBody hn) hn hbound h
  · exact run_error_within (points_setBody hn) hn hbound h

end Points

/-- Whatever module is read, all nodes of its tree and of the trees of its bodies lie exactly where they should; whatever is
refused, the error lies in the source. -/
theorem spans_exact (bytes : List UInt8) (file : String) :
    (∀ m, Module.parse bytes file = .ok m → m.node.Exact bytes ∧ ∀ b, m.Holds b → b.node.Exact bytes ∧
      (∀ body, b.parseObject = .ok body → body.node.Exact bytes ∧ body.span = b.span) ∧
      ∀ body, b.parseSet = .ok body → body.node.Exact bytes ∧ body.span = b.span) ∧
    ∀ e, bytes.length ≤ 2147483647 → Module.parse bytes file = .error e → e.span.limit ≤ bytes.length :=
  ⟨fun _ hm => ⟨parse_exact hm,fun _ hb => hb.exact hm⟩,fun _ hsize h => parse_error_within hsize h⟩

def openBody : List UInt8 := Utf8.ofString "M DEFINITIONS ::= BEGIN o C ::= \x7b &s 1 END"

theorem spans_exact_nestedBlocks :
    (∃ m b body, Module.parse nestedBlocks "m.asn" = .ok m ∧ m.node.Exact nestedBlocks ∧ m.Holds b ∧
      b.parseObject = .ok body ∧ body.node.Exact nestedBlocks) ∧
    ∃ e, Module.parse openBody "m.asn" = .error e ∧ e.span.limit ≤ openBody.length := by
  have hread : (Module.parse nestedBlocks "m.asn").toOption.any
      (fun m => m.blocks.any fun b => b.parseObject.toOption.any fun _ => true) = true := by
    decide +kernel
  have hrefused : (Module.parse openBody "m.asn").toOption.isNone = true := by decide +kernel
  obtain ⟨m,hm,hread⟩ := exists_of_toOption_any hread
  obtain ⟨b,hb,hread⟩ := List.any_eq_true.mp hread
  obtain ⟨body,hbody,_⟩ := exists_of_toOption_any hread
  obtain ⟨hexact,hblocks⟩ := (spans_exact nestedBlocks "m.asn").1 m hm
  refine ⟨⟨m,b,body,hm,hexact,.here hb,hbody,((hblocks b (.here hb)).2.1 body hbody).1⟩,?_⟩
  cases he : Module.parse openBody "m.asn" with
  | ok m =>
    rw [he] at hrefused
    contradiction
  | error e => exact ⟨e,rfl,(spans_exact openBody "m.asn").2 e (by decide +kernel) he⟩

/-- What is no text is refused whatever it is read as, and the error is the one byte where it stops to be one. -/
theorem bad_byte_located (bytes : List UInt8) (hsize : bytes.length ≤ 2147483647) (hbad : ∀ cs, bytes ≠ Utf8.encode cs) :
    ∃ e, e.fault = .invalidEncoding ∧ e.span.length = 1 ∧ Utf8.BadAt bytes e.span.start.toNat ∧
      (∀ p, Utf8.BadAt bytes p → p = e.span.start.toNat) ∧ decodeSource bytes = .error e ∧
      (∀ file, Module.parse bytes file = .error e) ∧ ∀ start, RawBlock.decode bytes start = .error e := by
  cases hd : decodeSource bytes with
  | ok cs => exact absurd (decodeSource_ok.mp hd).2 (hbad cs)
  | error e =>
    obtain ⟨hfault,hone,hat⟩ := decodeSource_error hsize hd
    refine ⟨e,hfault,hone,hat,fun p hp => ?_,rfl,fun file => ?_,fun start => ?_⟩
    · have h := (Utf8.decode_eq_error.mpr hp).symm.trans (Utf8.decode_eq_error.mpr hat)
      exact Except.error.inj h
    · rw [Module.parse,hd]
      rfl
    · rw [RawBlock.decode,hd]
      rfl

/-- A replacement character, and behind it the bytes that would encode a surrogate. -/
def surrogateBehindReplacement : List UInt8 := [0x61,0xEF,0xBF,0xBD,0xED,0xA0,0x80,0x62]

theorem bad_byte_located_surrogate : (∀ cs, surrogateBehindReplacement ≠ Utf8.encode cs) ∧
    ∃ e, decodeSource surrogateBehindReplacement = .error e ∧ e.span = ⟨4,1⟩ ∧
      Utf8.BadAt surrogateBehindReplacement e.span.start.toNat := by
  have hstop : Utf8.decode surrogateBehindReplacement = .error 4 := by decide +kernel
  have hbad : ∀ cs, surrogateBehindReplacement ≠ Utf8.encode cs := fun cs hcs => by
    rw [Utf8.decode_eq_ok.mpr hcs] at hstop
    contradiction
  obtain ⟨e,_,hone,hat,hall,he,_⟩ := bad_byte_located surrogateBehindReplacement (by decide) hbad
  refine ⟨hbad,e,he,?_,hat⟩
  have hstart : e.span.start = 4 := UInt32.toNat_inj.mp (hall 4 (Utf8.decode_eq_error.mp hstop)).symm
  exact congrArg₂ Span.mk hstart hone

end InfoObject.Notation
