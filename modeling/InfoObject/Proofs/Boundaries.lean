import InfoObject.Proofs.Acceptance

/-! Reading a body from within. Where the braces of a body match, each parser stays between them, so that what is wrong with
the body is never that a token or a brace is missing, or that something follows. -/
namespace InfoObject.Notation
open InfoObject.Notation.Parser

/-- The codes of what can be wrong with the encoding, the tokens or the braces of a text, or with what follows it. -/
def boundaryCodes : List Nat := [1000,1001,1002,1003,1004,1005,1006,1007,2014,2015]

/-- Between the braces of a body: no token is missing, and the last that is left closes the body. -/
def Cursor.Inside (c : Cursor) : Prop := c.error = none ∧ Closes 1 c.view

/-- A parser that keeps what it finds true of the cursor, and gives only errors of one sort as long as that is so. -/
structure Parser.Guards {α : Type} (I : Cursor → Prop) (E : SyntaxError → Prop) (p : Parser α) : Prop where
  ok : ∀ ⦃c a c'⦄, I c → p c = .ok (a,c') → I c'
  error : ∀ ⦃c e⦄, I c → p c = .error e → E e

/-- A parser that stays between the braces of a body, and says nothing there about its boundaries. -/
abbrev Parser.Stays {α : Type} (p : Parser α) : Prop := p.Guards Cursor.Inside fun e => e.code ∉ boundaryCodes

section Guards
variable {α β : Type} {c : Cursor} {p : Parser α} {e : SyntaxError} {I : Cursor → Prop} {E : SyntaxError → Prop}

theorem bind_eq_error (h : (p >>= f) c = .error e) : p c = .error e ∨ ∃ a d, p c = .ok (a,d) ∧ f a d = .error e := by
  simp only [bind,StateT.bind,Except.bind] at h
  split at h
  · rename_i hp
    cases h
    exact .inl hp
  · rename_i v hv
    exact .inr ⟨v.1,v.2,hv,h⟩

/-- Where a parser comes out, or what it says. -/
def Guarded (I : Cursor → Prop) (E : SyntaxError → Prop) : Except SyntaxError (α × Cursor) → Prop
  | .ok (_,c) => I c
  | .error e => E e

theorem guards_of_results (h : ∀ c, I c → Guarded I E (p c)) : p.Guards I E where
  ok _ _ _ hc hp := (hp ▸ h _ hc :)
  error _ _ hc hp := (hp ▸ h _ hc :)

theorem guards_pure : (pure a : Parser α).Guards I E where
  ok c b c' hc h := by
    cases h
    exact hc
  error c e hc h := by contradiction

theorem Parser.Guards.bind {f : α → Parser β} (hp : p.Guards I E) (hf : ∀ a, (f a).Guards I E) : (p >>= f).Guards I E where
  ok c b c' hc h := by
    obtain ⟨a,d,ha,hb⟩ := bind_eq_ok h
    exact (hf a).ok (hp.ok hc ha) hb
  error c e hc h := by
    obtain h | ⟨a,d,ha,hb⟩ := bind_eq_error h
    · exact hp.error hc h
    · exact (hf a).error (hp.ok hc ha) hb

theorem Parser.Guards.map (f : α → β) (hp : p.Guards I E) : (f <$> p).Guards I E := by
  rw [map_eq_pure_bind]
  exact hp.bind fun _ => guards_pure

theorem guards_ite [Decidable P] (hp : p.Guards I E) (hq : q.Guards I E) : (if P then p else q).Guards I E := by
  split <;> assumption

theorem guards_many (ha : again.Guards I E) (hi : item.Guards I E)
    (done : List α) : Guards I E (many again item hg hp done) := by
  constructor
  · intro c as c' hc h
    fun_induction many again item hg hp done c with
    | case1 | case3 => contradiction
    | case2 done c d h₁ =>
      cases h
      exact ha.ok hc h₁
    | case4 done c d h₁ a d' h₂ _ ih => exact ih (hi.ok (ha.ok hc h₁) h₂) h
  · intro c e hc h
    fun_induction many again item hg hp done c with
    | case1 done c e' h₁ =>
      cases h
      exact ha.error hc h₁
    | case2 => contradiction
    | case3 done c d h₁ e' h₂ =>
      cases h
      exact hi.error (ha.ok hc h₁) h₂
    | case4 done c d h₁ a d' h₂ _ ih => exact ih (hi.ok (ha.ok hc h₁) h₂) h

theorem guards_notAt (hpeek : peek.Guards I E) : (notAt kind).Guards I E :=
  hpeek.bind fun _ => guards_pure

theorem guards_separated (hpeek : peek.Guards I E) (hs : separator.Guards I E)
    (hi : item.Guards I E) : (separated separator close item hg hp).Guards I E := by
  have hmore : (moreAfter separator close).Guards I E := hs.bind fun _ => guards_ite (guards_notAt hpeek) guards_pure
  exact (guards_notAt hpeek).bind fun _ => guards_ite (hi.bind fun _ => guards_many hmore hi _) guards_pure

end Guards

section Stays
variable {α β : Type} {c c' : Cursor} {ls : List Lexeme} {p : Parser α} {e : SyntaxError}

theorem Balanced.closes_iff (h : Balanced ls) : Closes (n+1) (ls++ms) ↔ Closes (n+1) ms := by
  induction h generalizing n ms with
  | nil => rfl
  | other ho hc _ ih => rw [List.cons_append,closes_cons,depthAfter_other ho hc,ih]
  | @braces o d as bs ho _ hd _ iha ihb =>
    rw [List.cons_append,List.append_assoc,List.cons_append,closes_cons,depthAfter,show o.token.kind = .openCurl from ho]
    dsimp only
    rw [iha,closes_cons,depthAfter,show d.token.kind = .closeCurl from hd]
    exact ihb

theorem Took.inside (h : Took c ls c') (hs : Balanced ls) (hc : c.Inside) : c'.Inside := by
  refine ⟨h.error.trans hc.1,hs.closes_iff.mp ?_⟩
  rw [← h.view]
  exact hc.2

theorem balanced_singleton (ho : l.kind ≠ .openCurl) (hc : l.kind ≠ .closeCurl) : Balanced [l] :=
  .other ho hc .nil

theorem peek_ne_error (hc : c.error = none) : peek c ≠ .error e := by
  obtain ⟨d,hd,_⟩ := reads_peek c hc rfl
  rw [hd]
  nofun

theorem stays_peek : peek.Stays where
  ok c t c' hc h := by
    obtain ⟨_,rfl⟩ := peek_ok h
    exact took_skip.inside .nil hc
  error c e hc h := absurd h (peek_ne_error hc.1)

theorem stays_accept (ho : kind ≠ .openCurl) (hk : kind ≠ .closeCurl) : (accept kind).Stays where
  ok c b c' hc h := by
    obtain ⟨ls,hls,hb⟩ := accept_ok h
    cases hb with
    | no => exact hls.inside .nil hc
    | yes hl => exact hls.inside (balanced_singleton (hl ▸ ho) (hl ▸ hk)) hc
  error c e hc h := by
    simp only [accept] at h
    split at h
    · split at h <;> contradiction
    · contradiction
    · rename_i he
      rw [hc.1] at he
      contradiction

theorem expect_error (hc : c.error = none) (h : expect wanted fault c = .error e) : ∃ f, e.fault = fault f := by
  simp only [expect] at h
  split at h
  · split at h
    · contradiction
    · cases h
      exact ⟨_,rfl⟩
  · cases h
    exact ⟨_,rfl⟩
  · rename_i he
    rw [hc] at he
    contradiction

theorem stays_expect (hw : ∀ t, wanted t = true → t.kind ≠ .openCurl ∧ t.kind ≠ .closeCurl)
    (hf : ∀ f, (fault f).code ∉ boundaryCodes) : (expect wanted fault).Stays where
  ok c x c' hc h := by
    obtain ⟨l,hl,hlw,_⟩ := expect_ok h
    obtain ⟨ho,hk⟩ := hw l.token hlw
    exact hl.inside (balanced_singleton ho hk) hc
  error c e hc h := by
    obtain ⟨f,hfault⟩ := expect_error hc.1 h
    rw [SyntaxError.code,hfault]
    exact hf f

theorem stays_expect_kind (ho : kind ≠ .openCurl) (hk : kind ≠ .closeCurl) (hf : ∀ f, (fault f).code ∉ boundaryCodes) :
    (expect (·.kind == kind) fault).Stays := by
  refine stays_expect (fun t ht => ?_) hf
  rw [eq_of_beq ht]
  exact ⟨ho,hk⟩

theorem stays_ident : ident.Stays :=
  (stays_expect_kind (by decide) (by decide) (by simp [SyntaxFault.code,boundaryCodes])).bind fun _ => guards_pure

theorem stays_amp : (sigil .amp).Stays :=
  (stays_expect_kind (by decide) (by decide) (by simp [SyntaxFault.code,boundaryCodes])).bind fun _ => guards_pure

theorem stays_reference : reference.Stays :=
  stays_ident.bind fun _ => (stays_accept (by decide) (by decide)).bind fun _ =>
    guards_ite (stays_ident.bind fun _ => guards_pure) guards_pure

/-- Every block that begins between the braces of a body ends there. -/
theorem rawBlock_inside (hc : c.Inside) (hopen : (next c.view).kind = .openCurl) :
    ∃ b c', rawBlock c = .ok (b,c') ∧ c'.Inside := by
  obtain ⟨he,hcloses⟩ := hc
  obtain ⟨o,ls,hview⟩ := List.exists_cons_of_ne_nil hcloses.ne_nil
  rw [hview] at hopen hcloses
  rw [closes_cons,depthAfter,show o.token.kind = .openCurl from hopen] at hcloses
  obtain ⟨ms,d,rest,rfl,hms,hd,hrest⟩ := hcloses
  have hblock := BlockOf.mk hopen hms hd
  obtain ⟨c',hc',he',hv'⟩ := reads_rawBlock hblock c he (v := rest) (by simp [hview])
  exact ⟨_,c',hc',he',by rwa [hv']⟩

theorem stays_choice (g : RawBlock → α) (hother : ∀ t, t.kind ≠ .openCurl → (f t).Stays)
    (hblock : ∀ t, t.kind = .openCurl → f t = g <$> rawBlock) : (peek >>= f).Stays where
  ok c a c' hc h := by
    obtain ⟨t,d,ht,hp⟩ := bind_eq_ok h
    have hd := stays_peek.ok hc ht
    obtain ⟨hnext,rfl⟩ := peek_ok ht
    by_cases hk : t.kind = .openCurl
    · rw [hblock t hk] at hp
      obtain ⟨b,hb,rfl⟩ := map_eq_ok hp
      obtain ⟨b',e,hb',he⟩ := rawBlock_inside hd (by rwa [Cursor.view_skip,← hnext])
      rw [hb] at hb'
      cases hb'
      exact he
    · exact (hother t hk).ok hd hp
  error c e hc h := by
    obtain h | ⟨t,d,ht,hp⟩ := bind_eq_error h
    · exact absurd h (peek_ne_error hc.1)
    have hd := stays_peek.ok hc ht
    obtain ⟨hnext,rfl⟩ := peek_ok ht
    by_cases hk : t.kind = .openCurl
    · rw [hblock t hk,map_eq_pure_bind] at hp
      obtain ⟨b,d,hb,_⟩ := rawBlock_inside hd (by rwa [Cursor.view_skip,← hnext])
      obtain h | ⟨_,_,_,hpure⟩ := bind_eq_error hp
      · rw [hb] at h
        contradiction
      · contradiction
    · exact (hother t hk).error hd hp

theorem stays_payload : payload.Stays := by
  refine stays_choice Payload.block (fun t ht => ?_) fun t ht => by rw [ht]
  split
  · exact stays_reference.map _
  · exact Guards.map _ ((stays_expect_kind (by decide) (by decide)
      (by simp [SyntaxFault.code,boundaryCodes])).bind fun _ => guards_pure)
  · exact absurd ‹_› ht
  · refine Guards.map _ ((stays_expect_kind (by decide) (by decide)
      (by simp [SyntaxFault.code,boundaryCodes])).bind fun x => ?_)
    refine guards_ite guards_pure ⟨fun _ _ _ _ h => by contradiction,fun _ _ _ h => ?_⟩
    cases h
    simp [SyntaxError.code,SyntaxFault.code,boundaryCodes]

theorem stays_comma : (accept .comma).Stays := stays_accept (by decide) (by decide)

theorem stays_settings : settings.Stays :=
  guards_separated stays_peek stays_comma
    (stays_amp.bind fun _ => stays_ident.bind fun _ => stays_payload.bind fun _ => guards_pure)

theorem stays_element : element.Stays := by
  refine stays_choice (fun b => some (.block b)) (fun t ht => ?_) fun t ht => by rw [ht]; rfl
  split
  · exact stays_reference.map _
  · exact absurd ‹_› ht
  · exact (stays_expect_kind (by decide) (by decide) (by simp [SyntaxFault.code,boundaryCodes])).bind fun _ => guards_pure

theorem stays_elements : elements.Stays :=
  guards_separated stays_peek ((stays_accept (by decide) (by decide)).bind fun _ => guards_ite guards_pure stays_comma)
    stays_element

theorem sigil_error (hc : c.error = none) (h : sigil s c = .error e) : e.code ∉ boundaryCodes := by
  obtain h | ⟨_,_,_,hpure⟩ := bind_eq_error h
  · obtain ⟨f,hf⟩ := expect_error hc h
    rw [SyntaxError.code,hf]
    cases s <;> simp [SyntaxFault.code,boundaryCodes]
  · contradiction

theorem braced_error (hitems : items.Stays) (hc : c.error = none) (hb : BlockOf c.view b)
    (h : braced items make c = .error e) : e.code ∉ boundaryCodes := by
  obtain h | ⟨_,c₁,h₁,h⟩ := bind_eq_error h
  · exact sigil_error hc h
  obtain ⟨o,ho,_,_⟩ := sigil_ok h₁
  have hinside : c₁.Inside := by
    generalize hview : c.view = ls at hb
    cases hb with
    | @mk o' d ms _ hms hd =>
      have hrest : ms++[d] = c₁.view := (List.cons.inj (hview.symm.trans ho.view)).2
      exact ⟨ho.error.trans hc,hrest ▸ closes_one.mpr ⟨ms,d,rfl,hms,hd⟩⟩
  obtain h | ⟨_,c₂,h₂,h⟩ := bind_eq_error h
  · exact hitems.error hinside h
  have hinside := hitems.ok hinside h₂
  obtain h | ⟨_,c₃,h₃,h⟩ := bind_eq_error h
  · exact sigil_error hinside.1 h
  obtain ⟨d,hd,hk,_⟩ := sigil_ok h₃
  have hend : c₃.view = [] := by
    have hcloses := hinside.2
    rw [hd.view,List.singleton_append,closes_cons,depthAfter,show d.token.kind = .closeCurl from hk] at hcloses
    exact hcloses
  obtain h | ⟨_,_,_,h⟩ := bind_eq_error h
  · obtain ⟨c₄,h₄,_⟩ := reads_atEnd c₃ (hd.error.trans hinside.1) hend
    rw [h₄] at h
    contradiction
  · contradiction

theorem run_error (h : p.run text offset = .error e) : p ((scan text offset).cursor offset) = .error e := by
  unfold Parser.run at h
  split at h
  · contradiction
  · cases h
    assumption

theorem body_error (hscan : (scan b.text b.start).error = none)
    (hb : BlockOf (significant b.start (scan b.text b.start).tokens) b)
    (h : b.parseObject = .error e ∨ b.parseSet = .error e) : e.code ∉ boundaryCodes := by
  have hview : BlockOf ((scan b.text b.start).cursor b.start).view b := hb
  obtain h | h := h
  · exact braced_error stays_settings hscan hview (objectBody_eq ▸ run_error h)
  · exact braced_error stays_elements hscan hview (setBody_eq ▸ run_error h)

end Stays

end InfoObject.Notation
