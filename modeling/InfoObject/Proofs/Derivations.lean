import InfoObject.Proofs.Grammar

/-! What a parser reads is derived from its rule: the significant tokens between the cursor that it finds and the cursor that
it leaves are a derivation of the tree that it gives. -/
namespace InfoObject.Notation
open InfoObject.Notation.Parser

/-! Cursors -/

/-- The significant tokens that are left to read. -/
def Cursor.view (c : Cursor) : List Lexeme := significant c.offset c.rest

/-- The token that is read next, which behind the last is an empty one. -/
def next : List Lexeme → Token
  | [] => ⟨.eof,[]⟩
  | l::_ => l.token

@[simp] theorem next_cons : next (l::v) = l.token := rfl

theorem significant_skipTrivia (ts : List Token) (offset : UInt32) :
    significant (skipTrivia ts offset).2 (skipTrivia ts offset).1 = significant offset ts := by
  induction ts generalizing offset with
  | nil => rfl
  | cons t r ih =>
    simp only [skipTrivia]
    split
    · rename_i ht
      rw [ih,significant_cons ht]
    · rfl

theorem skipTrivia_head (h : (skipTrivia ts offset).1 = t::r) : t.kind.isTrivia = false := by
  induction ts generalizing offset with
  | nil => contradiction
  | cons u us ih =>
    simp only [skipTrivia] at h
    split at h
    · exact ih h
    · rename_i hu
      rw [← (List.cons.inj h).1]
      exact Bool.eq_false_iff.mpr hu

section Cursors
variable {c c' d : Cursor} {t : Token} {r : List Token} {ls ms : List Lexeme}

@[simp] theorem Cursor.view_skip : c.skip.view = c.view := significant_skipTrivia c.rest c.offset

theorem Cursor.view_nil (h : c.skip.rest = []) : c.view = [] := by
  rw [← view_skip,view,h]
  rfl

theorem Cursor.view_cons (h : c.skip.rest = t::r) :
    c.view = ⟨t,c.skip.offset,trivia r⟩::significant (c.skip.offset+t.size.toUInt32) r := by
  rw [← view_skip,view,h,significant_cons_other]
  rw [skipTrivia_head h]
  decide

/-- The tokens between one cursor and another. -/
structure Took (c : Cursor) (ls : List Lexeme) (c' : Cursor) : Prop where
  error : c'.error = c.error
  view : c.view = ls++c'.view

theorem took_skip : Took c [] c.skip := ⟨rfl,by simp⟩

theorem Took.trans (h : Took c ls d) (k : Took d ms c') : Took c (ls++ms) c' :=
  ⟨k.error.trans h.error,by rw [h.view,k.view,List.append_assoc]⟩

theorem Took.after_skip (h : Took c.skip ls c') : Took c ls c' := took_skip.trans h

theorem Took.next (h : Took c (l::ls) c') : next c.view = l.token := by rw [h.view]; rfl

end Cursors

/-! Single tokens -/

section Tokens
variable {c c' : Cursor} {t : Token} {b : Bool} {wanted : Token → Bool} {fault : Found → SyntaxFault}

theorem peek_ok (h : peek c = .ok (t,c')) : t = next c.view ∧ c' = c.skip := by
  simp only [peek] at h
  split at h
  · rename_i hr
    cases h
    exact ⟨by rw [Cursor.view_cons hr]; rfl,rfl⟩
  · rename_i hr _
    cases h
    exact ⟨by rw [Cursor.view_nil hr]; rfl,rfl⟩
  · contradiction

theorem expect_ok (h : expect wanted fault c = .ok (x,c')) : ∃ l : Lexeme, Took c [l] c' ∧ wanted l.token = true ∧ x =
    (l.token,l.span) := by
  simp only [expect] at h
  split at h
  · rename_i t r hr
    split at h
    · rename_i hw
      cases h
      exact ⟨_,⟨rfl,Cursor.view_cons hr⟩,hw,rfl⟩
    · contradiction
  · contradiction
  · contradiction

theorem peek_bind_ok (h : (peek >>= f) c = .ok x) : StateT.run (f (next c.view)) c.skip = .ok x := by
  obtain ⟨_,_,ht,hf⟩ := bind_eq_ok h
  obtain ⟨rfl,rfl⟩ := peek_ok ht
  exact hf

theorem token_bind_ok {P : Lexeme → Prop} {g : Lexeme → α} {m : Parser α}
    (hm : ∀ {c x c'}, m c = .ok (x,c') → ∃ l : Lexeme, Took c [l] c' ∧ P l ∧ x = g l) (h : (m >>= f) c = .ok y) :
    ∃ (l : Lexeme) (d : _), Took c [l] d ∧ P l ∧ f (g l) d = .ok y := by
  obtain ⟨_,d,hx,hf⟩ := bind_eq_ok h
  obtain ⟨l,hl,hp,rfl⟩ := hm hx
  exact ⟨l,d,hl,hp,hf⟩

theorem expect_bind_ok (h : (expect wanted fault >>= f) c = .ok x) : ∃ (l : Lexeme) (d : _), Took c [l] d ∧
    wanted l.token = true ∧ f (l.token,l.span) d = .ok x :=
  token_bind_ok expect_ok h

/-- `[token]`: whether a token of the kind was read. -/
inductive AcceptOf (kind : TokenKind) : List Lexeme → Bool → Prop
  | no : AcceptOf kind [] false
  | yes {l : Lexeme} (h : l.kind = kind) : AcceptOf kind [l] true

theorem accept_ok (h : accept kind c = .ok (b,c')) : ∃ ls, Took c ls c' ∧ AcceptOf kind ls b := by
  simp only [accept] at h
  split at h
  · rename_i t r hr
    split at h
    · rename_i hk
      cases h
      exact ⟨[⟨t,c.skip.offset,trivia r⟩],⟨rfl,Cursor.view_cons hr⟩,.yes hk⟩
    · cases h
      exact ⟨[],took_skip,.no⟩
  · cases h
    exact ⟨[],took_skip,.no⟩
  · contradiction

end Tokens

/-- Whatever a parser reads is derived from a rule. -/
def Parser.Derives {α : Type} (p : Parser α) (Rule : List Lexeme → α → Prop) : Prop :=
  ∀ ⦃c a c'⦄, p c = .ok (a,c') → ∃ ls, Took c ls c' ∧ Rule ls a

theorem exists_of_toOption_any {x : Except ε α} (h : x.toOption.any f = true) : ∃ a, x = .ok a ∧ f a = true := by
  cases x with
  | error e => contradiction
  | ok a => exact ⟨a,rfl,h⟩

section Words
variable {c c' : Cursor} {word : String} {b : Bool} {s : Span}

theorem map_eq_ok {p : Parser α} (h : (f <$> p) c = .ok (y,c')) : ∃ x, p c = .ok (x,c') ∧ y = f x := by
  simp only [Functor.map,StateT.map] at h
  cases hv : p c with
  | error e =>
    rw [hv] at h
    cases h
  | ok v =>
    rw [hv] at h
    cases h
    exact ⟨v.1,rfl,rfl⟩

theorem sigil_ok (h : sigil k c = .ok (s,c')) : ∃ l : Lexeme, Took c [l] c' ∧ l.kind = k.kind ∧ s = l.span := by
  obtain ⟨l,d,hl,hk,hp⟩ := expect_bind_ok h
  cases hp
  exact ⟨l,hl,eq_of_beq hk,rfl⟩

theorem keyword_ok (h : keyword word c = .ok (s,c')) : ∃ l : Lexeme, Took c [l] c' ∧ l.IsWord word ∧ s = l.span := by
  obtain ⟨l,d,hl,hw,hp⟩ := expect_bind_ok h
  cases hp
  exact ⟨l,hl,hw,rfl⟩

theorem ident_ok (h : ident c = .ok (i,c')) : ∃ l : Lexeme, Took c [l] c' ∧ l.kind = .ident ∧ i = l.ident := by
  obtain ⟨l,d,hl,hk,hp⟩ := expect_bind_ok h
  cases hp
  exact ⟨l,hl,eq_of_beq hk,rfl⟩

theorem atKeyword_ok (h : atKeyword word c = .ok (b,c')) : b = (next c.view).isWord word ∧ c' = c.skip := by
  have hp := peek_bind_ok h
  cases hp
  exact ⟨rfl,rfl⟩

theorem notAt_ok (h : notAt kind c = .ok (b,c')) : b = ((next c.view).kind != kind) ∧ c' = c.skip := by
  have hp := peek_bind_ok h
  cases hp
  exact ⟨rfl,rfl⟩

theorem optionalKeyword_ok (h : optionalKeyword word c = .ok (o,c')) : ∃ ls, Took c ls c' ∧ FlagOf word ls o ∧
    (o = none → (next c'.view).isWord word = false) := by
  obtain ⟨b,d,hb,hp⟩ := bind_eq_ok h
  obtain ⟨hword,rfl⟩ := atKeyword_ok hb
  cases b with
  | false =>
    cases hp
    exact ⟨[],took_skip,.none,fun _ => by rw [Cursor.view_skip,← hword]⟩
  | true =>
    obtain ⟨s,e,hs,hp⟩ := bind_eq_ok hp
    obtain ⟨l,hl,hw,rfl⟩ := keyword_ok hs
    cases hp
    exact ⟨[l],hl.after_skip,.some hw,nofun⟩

theorem atEnd_ok (h : atEnd c = .ok (u,c')) : c.error = none ∧ c.view = [] := by
  simp only [atEnd] at h
  split at h
  · contradiction
  · rename_i hr he
    exact ⟨he,Cursor.view_nil hr⟩
  · contradiction

end Words

/-! References and payloads -/

theorem derives_ident : ident.Derives IdentOf := by
  intro c i c' h
  obtain ⟨l,hl,hk,rfl⟩ := ident_ok h
  exact ⟨[l],hl,.mk hk⟩

theorem derives_reference : reference.Derives RefOf := by
  intro c r c' h
  obtain ⟨a,d,ha,hka,hp⟩ := token_bind_ok ident_ok h
  obtain ⟨b,e,h2,hp⟩ := bind_eq_ok hp
  obtain ⟨ls,hls,hdot⟩ := accept_ok h2
  cases hdot with
  | no =>
    cases hp
    exact ⟨_,ha.trans hls,.plain hka⟩
  | yes hkd =>
    obtain ⟨s,f,hs,hks,hp⟩ := token_bind_ok ident_ok hp
    cases hp
    exact ⟨_,ha.trans (hls.trans hs),.qualified hka hkd hks⟩

theorem inRange_iff : inRange n = true ↔ -2^63 ≤ n ∧ n ≤ 2^63-1 := by
  simp only [inRange,Bool.and_eq_true,decide_eq_true_eq]
  omega

/-- Tokens that close so many braces, the last of them with the last token. -/
def Closes : Nat → List Lexeme → Prop
  | 0,ls => ls = []
  | n+1,ls => ∃ ms c rest, ls = ms++c::rest ∧ Balanced ms ∧ c.kind = .closeCurl ∧ Closes n rest

section Blocks
variable {n : Nat} {l : Lexeme} {ls ms : List Lexeme}

theorem depthAfter_other (ho : t.kind ≠ .openCurl) (hc : t.kind ≠ .closeCurl) : depthAfter n t = n := by
  unfold depthAfter
  split <;> simp_all

theorem closes_cons : Closes (n+1) (l::ls) ↔ Closes (depthAfter (n+1) l.token) ls := by
  constructor
  · rintro ⟨ms,c,rest,hls,hms,hc,hrest⟩
    cases hms with
    | nil =>
      obtain ⟨rfl,rfl⟩ := List.cons.inj hls
      rwa [depthAfter,show l.token.kind = .closeCurl from hc]
    | other ho hcl hms =>
      obtain ⟨rfl,rfl⟩ := List.cons.inj hls
      rw [depthAfter_other ho hcl]
      exact ⟨_,c,rest,rfl,hms,hc,hrest⟩
    | @braces o d as bs ho has hd hbs =>
      obtain ⟨rfl,rfl⟩ := List.cons.inj hls
      rw [depthAfter,show l.token.kind = .openCurl from ho]
      exact ⟨as,d,bs++c::rest,by simp,has,hd,bs,c,rest,rfl,hbs,hc,hrest⟩
  · intro h
    by_cases ho : l.kind = .openCurl
    · rw [depthAfter,show l.token.kind = .openCurl from ho] at h
      obtain ⟨as,d,_,rfl,has,hd,bs,c,rest,rfl,hbs,hc,hrest⟩ := h
      exact ⟨l::(as++d::bs),c,rest,by simp,.braces ho has hd hbs,hc,hrest⟩
    by_cases hc : l.kind = .closeCurl
    · rw [depthAfter,show l.token.kind = .closeCurl from hc] at h
      exact ⟨[],l,ls,rfl,.nil,hc,h⟩
    · rw [depthAfter_other ho hc] at h
      obtain ⟨ms,c,rest,rfl,hms,hcc,hrest⟩ := h
      exact ⟨l::ms,c,rest,rfl,.other ho hc hms,hcc,hrest⟩

theorem Closes.ne_nil (h : Closes (n+1) ls) : ls ≠ [] := by
  obtain ⟨ms,c,rest,rfl,_⟩ := h
  simp

theorem depthAfter_trivia (h : t.kind.isTrivia = true) : depthAfter n t = n := by
  refine depthAfter_other ?_ ?_ <;>
  · intro hk
    rw [hk] at h
    contradiction

theorem closeBlock_ok (h : closeBlock start error (n+1) done offset ts = .ok (text,c)) : ∃ ls, significant offset ts =
    ls++c.view ∧ c.error = error ∧ Closes (n+1) ls ∧ text = done.reverse++(trivia ts++extent ls) := by
  induction ts generalizing n done offset with
  | nil => contradiction
  | cons t r ih =>
    simp only [closeBlock] at h
    by_cases ht : t.kind.isTrivia = true
    · rw [depthAfter_trivia ht,if_neg (by omega)] at h
      obtain ⟨ls,hls,he,hcl,rfl⟩ := ih h
      refine ⟨ls,by rwa [significant_cons ht],he,hcl,?_⟩
      simp [trivia_cons ht]
    · rw [significant_cons_other ht,trivia_cons_other ht]
      split at h
      · rename_i hd
        cases h
        refine ⟨[_],rfl,rfl,closes_cons.mpr ?_,by simp [extent]⟩
        rw [hd]
        rfl
      · obtain ⟨k,hk⟩ := Nat.exists_eq_succ_of_ne_zero ‹_›
        rw [hk] at h
        obtain ⟨ls,hls,he,hcl,rfl⟩ := ih h
        refine ⟨⟨t,offset,trivia r⟩::ls,by rw [hls]; rfl,he,closes_cons.mpr (by rwa [hk]),?_⟩
        rw [extent_cons hcl.ne_nil]
        simp

theorem closes_one : Closes 1 ls ↔ ∃ ms c, ls = ms++[c] ∧ Balanced ms ∧ c.kind = .closeCurl := by
  constructor
  · rintro ⟨ms,c,rest,rfl,hms,hc,rfl⟩
    exact ⟨ms,c,rfl,hms,hc⟩
  · rintro ⟨ms,c,rfl,hms,hc⟩
    exact ⟨ms,c,[],rfl,hms,hc,rfl⟩

theorem rawBlock_ok (h : rawBlock c = .ok (b,c')) (hopen : (next c.view).kind = .openCurl) : ∃ ls, Took c ls c' ∧
    BlockOf ls b := by
  simp only [rawBlock] at h
  cases hr : c.skip.rest with
  | nil =>
    rw [hr] at h
    contradiction
  | cons t r =>
    have hview := Cursor.view_cons hr
    rw [hview] at hopen
    have hdepth : depthAfter 0 t = 1 := by rw [depthAfter,show t.kind = .openCurl from hopen]
    rw [hr,closeBlock,hdepth,if_neg (by decide)] at h
    split at h
    · rename_i text d hd
      cases h
      obtain ⟨_,hls,he,hcl,rfl⟩ := closeBlock_ok hd
      have hne := hcl.ne_nil
      obtain ⟨ms,e,rfl,hms,hce⟩ := closes_one.mp hcl
      let o : Lexeme := ⟨t,c.skip.offset,trivia r⟩
      have htext : (t.text.reverse++[]).reverse++(trivia r++extent (ms++[e])) = extent (o::(ms++[e])) := by
        rw [extent_cons hne]
        simp [o]
      rw [htext]
      exact ⟨o::(ms++[e]),⟨he,by rw [hview,hls]; rfl⟩,.mk hopen hms hce⟩
    · contradiction

end Blocks

theorem derives_payload : payload.Derives PayloadOf := by
  intro c p c' h
  have hp := peek_bind_ok h
  split at hp
  · obtain ⟨r,hr,rfl⟩ := map_eq_ok hp
    obtain ⟨ls,hls,hrule⟩ := derives_reference hr
    exact ⟨ls,hls.after_skip,.reference hrule⟩
  · obtain ⟨x,hx,rfl⟩ := map_eq_ok hp
    obtain ⟨l,e,hl,hk,hp⟩ := expect_bind_ok hx
    cases hp
    exact ⟨[l],hl.after_skip,.text (eq_of_beq hk)⟩
  · rename_i hopen
    obtain ⟨b,hb,rfl⟩ := map_eq_ok hp
    obtain ⟨ls,hls,hrule⟩ := rawBlock_ok hb (by rwa [Cursor.view_skip])
    exact ⟨ls,hls.after_skip,.block hrule⟩
  · obtain ⟨x,hx,rfl⟩ := map_eq_ok hp
    obtain ⟨l,e,hl,hk,hp⟩ := expect_bind_ok hx
    dsimp only at hp
    split at hp
    · rename_i hrange
      cases hp
      obtain ⟨hlow,hhigh⟩ := inRange_iff.mp hrange
      exact ⟨[l],hl.after_skip,.int (eq_of_beq hk) hlow hhigh⟩
    · contradiction

/-! Lists -/

section Lists
variable {α : Type} {c c' : Cursor} {again : Parser Bool} {item : Parser α}

/-- What is read in turns: `Turn` is what one turn reads, and `Stop` what tells that there is no other. -/
theorem many_ok {Stop : List Lexeme → Prop} (hturn : ∀ c d a c', again c = .ok (true,d) → item d = .ok (a,c') → ∃ ls,
    Took c ls c' ∧ Turn ls a) (hstop : ∀ c d, again c = .ok (false,d) → ∃ ls, Took c ls d ∧ Stop ls)
    (h : many again item ha hi done c = .ok (as,c')) : ∃ ls ms bs, Took c (ls++ms) c' ∧ RunOf Turn ls bs ∧ Stop ms ∧ as =
    done.reverse++bs := by
  fun_induction many again item ha hi done c with
  | case1 | case3 => contradiction
  | case2 done c d h₁ =>
    cases h
    obtain ⟨ms,hms,hs⟩ := hstop c _ h₁
    exact ⟨[],ms,[],hms,.nil,hs,by simp⟩
  | case4 done c d h₁ a d' h₂ _ ih =>
    obtain ⟨ls,hls,hrule⟩ := hturn c d a d' h₁ h₂
    obtain ⟨ls',ms,bs,htook,hrun,hs,rfl⟩ := ih h
    refine ⟨ls++ls',ms,a::bs,?_,.cons hrule hrun,hs,by simp⟩
    rw [List.append_assoc]
    exact hls.trans htook

/-- A parser that reads a separator if there is one. -/
def Parser.Separates (separator : Parser Bool) (Sep : Lexeme → Prop) : Prop :=
  ∀ ⦃c b c'⦄, separator c = .ok (b,c') → b = false ∧ Took c [] c' ∨ b = true ∧ ∃ s, Took c [s] c' ∧ Sep s

theorem separates_accept (kind : TokenKind) : (accept kind).Separates (·.kind = kind) := by
  intro c b c' h
  obtain ⟨ls,hls,hb⟩ := accept_ok h
  cases hb with
  | no => exact .inl ⟨rfl,hls⟩
  | @yes l hk => exact .inr ⟨rfl,l,hls,hk⟩

variable {separator : Parser Bool} {Sep : Lexeme → Prop} {Item : List Lexeme → α → Prop} {close : TokenKind}

theorem moreAfter_true (hsep : separator.Separates Sep) (h : moreAfter separator close c = .ok (true,c')) :
    ∃ s, Took c [s] c' ∧ Sep s := by
  obtain ⟨b,d,hb,hp⟩ := bind_eq_ok h
  obtain ⟨rfl,_⟩ | ⟨rfl,s,hs,hsep⟩ := hsep hb
  · cases hp
  · obtain ⟨_,rfl⟩ := notAt_ok hp
    exact ⟨s,hs.trans took_skip,hsep⟩

theorem moreAfter_false (hsep : separator.Separates Sep) (h : moreAfter separator close c = .ok (false,c')) :
    ∃ ls, Took c ls c' ∧ LastOf Sep ls := by
  obtain ⟨b,d,hb,hp⟩ := bind_eq_ok h
  obtain ⟨rfl,hd⟩ | ⟨rfl,s,hs,hsep⟩ := hsep hb
  · cases hp
    exact ⟨[],hd,.none⟩
  · obtain ⟨_,rfl⟩ := notAt_ok hp
    exact ⟨[s],hs.trans took_skip,.some hsep⟩

theorem derives_separated (hsep : separator.Separates Sep)
    (hitem : item.Derives Item) : (separated separator close item hs hi).Derives (ListOf Item Sep) := by
  intro c as c' h
  obtain ⟨b,d,hb,hp⟩ := bind_eq_ok h
  obtain ⟨_,rfl⟩ := notAt_ok hb
  cases b with
  | false =>
    cases hp
    exact ⟨[],took_skip,.empty⟩
  | true =>
    obtain ⟨a,e,ha,hp⟩ := bind_eq_ok hp
    obtain ⟨ls,hls,hrule⟩ := hitem ha
    have hturn : ∀ c d a c', moreAfter separator close c = .ok (true,d) → item d = .ok (a,c') →
        ∃ ls, Took c ls c' ∧ AfterOf Sep Item ls a := by
      intro c d a c' hd ha
      obtain ⟨s,hs,hsep⟩ := moreAfter_true hsep hd
      obtain ⟨ls,hls,hrule⟩ := hitem ha
      exact ⟨s::ls,hs.trans hls,.mk hsep hrule⟩
    obtain ⟨ms,es,bs,htook,hrun,hlast,rfl⟩ := many_ok hturn (fun c d => moreAfter_false hsep) hp
    exact ⟨_,hls.after_skip.trans htook,.items (.mk hrule hrun hlast)⟩

end Lists

/-! Classes -/

theorem derives_fieldGovernor : fieldGovernor.Derives FieldGovernorOf := by
  intro c g c' h
  have hp := peek_bind_ok h
  split at hp
  · rename_i hw
    obtain ⟨r,hr,rfl⟩ := map_eq_ok hp
    obtain ⟨ls,hls,hrule⟩ := derives_reference hr
    have htook := hls.after_skip
    cases hrule with
    | plain ha => exact ⟨_,htook,.some (.plain ha) (htook.next ▸ hw.2)⟩
    | qualified ha hd hb => exact ⟨_,htook,.some (.qualified ha hd hb) (htook.next ▸ hw.2)⟩
  · cases hp
    exact ⟨[],took_skip,.none⟩

theorem fieldEnd_ok {c d c' : Cursor} {optional : Option Span} {default : Option Payload}
    (ho : optionalKeyword "OPTIONAL" c = .ok (optional,d)) (hd : fieldDefault optional.isSome d = .ok (default,c')) :
    ∃ ls, Took c ls c' ∧ FieldEndOf ls optional default := by
  obtain ⟨ls,hls,hflag,_⟩ := optionalKeyword_ok ho
  cases hflag with
  | some hw =>
    cases hd
    exact ⟨_,hls,.optional hw⟩
  | none =>
    obtain ⟨w,e,hdefault,hp⟩ := bind_eq_ok hd
    obtain ⟨ms,hms,hflag,_⟩ := optionalKeyword_ok hdefault
    cases hflag with
    | none =>
      cases hp
      exact ⟨_,hls.trans hms,.none⟩
    | some hw =>
      obtain ⟨p,hpayload,rfl⟩ := map_eq_ok hp
      obtain ⟨ps,hps,hrule⟩ := derives_payload hpayload
      exact ⟨_,hls.trans (hms.trans hps),.default hw hrule⟩

theorem derives_fieldDecl : fieldDecl.Derives FieldOf := by
  intro c f c' h
  obtain ⟨a,c₁,ha,hka,hp⟩ := token_bind_ok sigil_ok h
  obtain ⟨n,c₂,hn,hkn,hp⟩ := token_bind_ok ident_ok hp
  obtain ⟨g,c₃,h₃,hp⟩ := bind_eq_ok hp
  obtain ⟨gs,hgs,hg⟩ := derives_fieldGovernor h₃
  obtain ⟨u,c₄,h₄,hp⟩ := bind_eq_ok hp
  obtain ⟨us,hus,hu,_⟩ := optionalKeyword_ok h₄
  obtain ⟨o,c₅,h₅,hp⟩ := bind_eq_ok hp
  obtain ⟨p,c₆,h₆,hp⟩ := bind_eq_ok hp
  obtain ⟨es,hes,he⟩ := fieldEnd_ok h₅ h₆
  cases hp
  exact ⟨a::n::(gs++(us++es)),ha.trans (hn.trans (hgs.trans (hus.trans hes))),.mk hka hkn hg hu he⟩

/-! Assignments and modules -/

theorem PayloadOf.head (h : PayloadOf ls p) : ∃ l ms, ls = l::ms := by
  cases h with
  | reference h => cases h <;> exact ⟨_,_,rfl⟩
  | int | text => exact ⟨_,_,rfl⟩
  | block h =>
    cases h
    exact ⟨_,_,rfl⟩

theorem derives_assigned : assigned.Derives AssignedOf := by
  intro c x c' h
  have hp := peek_bind_ok h
  split at hp
  · obtain ⟨w,c₁,hw,hkw,hp⟩ := token_bind_ok keyword_ok hp
    obtain ⟨o,c₂,ho,hko,hp⟩ := token_bind_ok sigil_ok hp
    obtain ⟨fs,c₃,h₃,hp⟩ := bind_eq_ok hp
    obtain ⟨ls,hls,hfs⟩ := derives_separated (separates_accept _) derives_fieldDecl h₃
    obtain ⟨e,c₄,he,hke,hp⟩ := token_bind_ok sigil_ok hp
    cases hp
    exact ⟨_,hw.after_skip.trans (ho.trans (hls.trans he)),.classBody hkw hko hfs hke⟩
  rename_i hclass
  split at hp
  · obtain ⟨w,c₁,hw,hkw,hp⟩ := token_bind_ok keyword_ok hp
    obtain ⟨o,c₂,ho,hko,hp⟩ := token_bind_ok sigil_ok hp
    obtain ⟨r,c₃,h₃,hp⟩ := bind_eq_ok hp
    obtain ⟨ls,hls,hr⟩ := derives_reference h₃
    obtain ⟨e,c₄,he,hke,hp⟩ := token_bind_ok sigil_ok hp
    cases hp
    exact ⟨_,hw.after_skip.trans (ho.trans (hls.trans he)),.classOf hkw hko hr hke⟩
  · rename_i hof
    obtain ⟨p,hpayload,rfl⟩ := map_eq_ok hp
    obtain ⟨ls,hls,hrule⟩ := derives_payload hpayload
    obtain ⟨l,ms,rfl⟩ := hrule.head
    have htook := hls.after_skip
    rw [htook.next] at hclass hof
    exact ⟨_,htook,.payload hrule hclass hof⟩

theorem derives_governor : governor.Derives GovernorOf := by
  intro c g c' h
  obtain ⟨b,d,hb,hp⟩ := bind_eq_ok h
  obtain ⟨_,rfl⟩ := notAt_ok hb
  cases b with
  | false =>
    cases hp
    exact ⟨[],took_skip,.none⟩
  | true =>
    obtain ⟨r,hr,rfl⟩ := map_eq_ok hp
    obtain ⟨ls,hls,hrule⟩ := derives_reference hr
    exact ⟨ls,hls.after_skip,.some hrule⟩

theorem assignment_ok (h : assignment c = .ok (a,c')) (hend : (next c.view).isWord "END" = false) : ∃ ls, Took c ls c' ∧
    AssignmentOf ls a := by
  obtain ⟨n,c₁,hn,hkn,hp⟩ := expect_bind_ok h
  obtain ⟨g,c₂,h₂,hp⟩ := bind_eq_ok hp
  obtain ⟨gs,hgs,hg⟩ := derives_governor h₂
  obtain ⟨s,c₃,hs,hks,hp⟩ := token_bind_ok sigil_ok hp
  obtain ⟨v,c₄,h₄,hp⟩ := bind_eq_ok hp
  obtain ⟨vs,hvs,hv⟩ := derives_assigned h₄
  cases hp
  rw [hn.next] at hend
  exact ⟨_,hn.trans (hgs.trans (hs.trans hvs)),.mk (eq_of_beq hkn) (Bool.eq_false_iff.mp hend) hg hks hv⟩

theorem derives_importDecl : importDecl.Derives ImportOf := by
  intro c i c' h
  obtain ⟨n,c₁,hn,hkn,hp⟩ := token_bind_ok ident_ok h
  obtain ⟨ns,c₂,h₂,hp⟩ := bind_eq_ok hp
  have hturn : ∀ c d a c', accept .comma c = .ok (true,d) → ident d = .ok (a,c') →
      ∃ ls, Took c ls c' ∧ AfterOf IsComma IdentOf ls a := by
    intro c d a c' hd ha
    obtain ⟨hb,_⟩ | ⟨_,s,hs,hk⟩ := separates_accept _ hd
    · contradiction
    · obtain ⟨ls,hls,hrule⟩ := derives_ident ha
      exact ⟨s::ls,hs.trans hls,.mk hk hrule⟩
  have hstop : ∀ c d, accept .comma c = .ok (false,d) → ∃ ls, Took c ls d ∧ ls = [] := by
    intro c d hd
    obtain ⟨_,htook⟩ | ⟨hb,_⟩ := separates_accept _ hd
    · exact ⟨[],htook,rfl⟩
    · contradiction
  obtain ⟨ls,_,names,hls,hrun,rfl,rfl⟩ := many_ok hturn hstop h₂
  obtain ⟨f,c₃,hf,hkf,hp⟩ := token_bind_ok keyword_ok hp
  obtain ⟨s,c₄,hs,hks,hp⟩ := token_bind_ok ident_ok hp
  cases hp
  rw [List.append_nil] at hls
  exact ⟨_,hn.trans (hls.trans (hf.trans hs)),.mk hkn hrun hkf hks⟩

theorem untilKind_ok (h : untilKind kind c = .ok (b,c')) : ∃ ls, Took c ls c' ∧ AcceptOf kind ls (!b) := by
  obtain ⟨x,d,hx,hp⟩ := bind_eq_ok h
  obtain ⟨ls,hls,hb⟩ := accept_ok hx
  cases hp
  exact ⟨ls,hls,by rwa [Bool.not_not]⟩

theorem imports_ok (h : imports c = .ok (is,c')) : ∃ ls, Took c ls c' ∧ ImportsOf ls is ∧
    (ls = [] → (next c'.view).isWord "IMPORTS" = false) := by
  obtain ⟨o,d,ho,hp⟩ := bind_eq_ok h
  obtain ⟨ws,hws,hflag,hnext⟩ := optionalKeyword_ok ho
  cases hflag with
  | none =>
    cases hp
    exact ⟨[],hws,.none,fun _ => hnext rfl⟩
  | some hw =>
    have hturn : ∀ c d a c', untilKind .semicolon c = .ok (true,d) → importDecl d = .ok (a,c') →
        ∃ ls, Took c ls c' ∧ ImportOf ls a := by
      intro c d a c' hd ha
      obtain ⟨_,hs,hb⟩ := untilKind_ok hd
      cases hb
      obtain ⟨ls,hls,hrule⟩ := derives_importDecl ha
      exact ⟨ls,hs.trans hls,hrule⟩
    have hstop : ∀ c d, untilKind .semicolon c = .ok (false,d) → ∃ ls, Took c ls d ∧ ∃ s, ls = [s] ∧ s.kind = .semicolon := by
      intro c d hd
      obtain ⟨_,hs,hb⟩ := untilKind_ok hd
      cases hb with
      | @yes s hk => exact ⟨[s],hs,s,rfl,hk⟩
    obtain ⟨ls,_,is,hls,hrun,⟨s,rfl,hs⟩,rfl⟩ := many_ok hturn hstop hp
    exact ⟨_,hws.trans hls,.some hw hrun hs,nofun⟩

theorem notAtKeyword_ok (h : notAtKeyword word c = .ok (b,c')) : b = !(next c.view).isWord word ∧ c' = c.skip := by
  obtain ⟨x,d,hx,hp⟩ := bind_eq_ok h
  obtain ⟨rfl,rfl⟩ := atKeyword_ok hx
  cases hp
  exact ⟨rfl,rfl⟩

theorem module_ok (h : module file source c = .ok (m,c')) : c.error = none ∧ ModuleOf file source c.view m := by
  obtain ⟨n,c₁,hn,hkn,hp⟩ := token_bind_ok ident_ok h
  obtain ⟨d,c₂,hd,hwd,hp⟩ := token_bind_ok keyword_ok hp
  obtain ⟨a,c₃,ha,hka,hp⟩ := token_bind_ok sigil_ok hp
  obtain ⟨b,c₄,hb,hwb,hp⟩ := token_bind_ok keyword_ok hp
  obtain ⟨is,c₅,h₅,hp⟩ := bind_eq_ok hp
  obtain ⟨ls,hls,himports,hfirst⟩ := imports_ok h₅
  obtain ⟨as,c₆,h₆,hp⟩ := bind_eq_ok hp
  have hturn : ∀ c d a c', notAtKeyword "END" c = .ok (true,d) → assignment d = .ok (a,c') →
      ∃ ls, Took c ls c' ∧ AssignmentOf ls a := by
    intro c d a c' hd ha
    obtain ⟨hword,rfl⟩ := notAtKeyword_ok hd
    obtain ⟨ls,hls,hrule⟩ := assignment_ok ha (by rw [Cursor.view_skip]; simpa using hword)
    exact ⟨ls,hls.after_skip,hrule⟩
  have hstop : ∀ c d, notAtKeyword "END" c = .ok (false,d) → ∃ ls, Took c ls d ∧ ls = [] := by
    intro c d hd
    obtain ⟨_,rfl⟩ := notAtKeyword_ok hd
    exact ⟨[],took_skip,rfl⟩
  obtain ⟨ms,_,as,hms,hrun,rfl,rfl⟩ := many_ok hturn hstop h₆
  obtain ⟨e,c₇,he,hwe,hp⟩ := token_bind_ok keyword_ok hp
  obtain ⟨_,c₈,h₈,hp⟩ := bind_eq_ok hp
  obtain ⟨hnone,hend⟩ := atEnd_ok h₈
  cases hp
  rw [List.append_nil] at hms
  have htook := hn.trans (hd.trans (ha.trans (hb.trans (hls.trans (hms.trans he)))))
  have hview := htook.view
  rw [hend,List.append_nil] at hview
  refine ⟨htook.error.symm.trans hnone,?_⟩
  rw [hview]
  refine .mk hkn hwd hka hwb himports hrun ?_ hwe
  rintro hnil l rest rfl
  have hnext := hfirst hnil
  rw [hms.next] at hnext
  exact Bool.eq_false_iff.mp hnext

/-! Bodies -/

theorem derives_setting : setting.Derives SettingOf := by
  intro c s c' h
  obtain ⟨a,c₁,ha,hka,hp⟩ := token_bind_ok sigil_ok h
  obtain ⟨n,c₂,hn,hkn,hp⟩ := token_bind_ok ident_ok hp
  obtain ⟨p,c₃,h₃,hp⟩ := bind_eq_ok hp
  obtain ⟨ls,hls,hrule⟩ := derives_payload h₃
  cases hp
  exact ⟨_,ha.trans (hn.trans hls),.mk hka hkn hrule⟩

theorem derives_element : element.Derives ElementOf := by
  intro c x c' h
  have hp := peek_bind_ok h
  split at hp
  · obtain ⟨r,hr,rfl⟩ := map_eq_ok hp
    obtain ⟨ls,hls,hrule⟩ := derives_reference hr
    exact ⟨ls,hls.after_skip,.reference hrule⟩
  · rename_i hopen
    obtain ⟨b,hb,rfl⟩ := map_eq_ok hp
    obtain ⟨ls,hls,hrule⟩ := rawBlock_ok hb (by rwa [Cursor.view_skip])
    exact ⟨ls,hls.after_skip,.block hrule⟩
  · obtain ⟨l,e,hl,hk,hp⟩ := expect_bind_ok hp
    cases hp
    exact ⟨[l],hl.after_skip,.ellipsis (eq_of_beq hk)⟩

theorem separates_elementSeparator : elementSeparator.Separates IsElementSeparator := by
  intro c b c' h
  obtain ⟨p,d,hp,h⟩ := bind_eq_ok h
  obtain ⟨rfl,hd⟩ | ⟨rfl,s,hs,hk⟩ := separates_accept _ hp
  · obtain ⟨hb,hc'⟩ | ⟨hb,s,hs,hk⟩ := separates_accept _ h
    · exact .inl ⟨hb,hd.trans hc'⟩
    · exact .inr ⟨hb,s,hd.trans hs,.inr hk⟩
  · cases h
    exact .inr ⟨rfl,s,hs,.inl hk⟩

section Bodies
variable {c c' : Cursor}

/-- Reads items from brace to brace, when nothing may follow. -/
def braced {α β : Type} (items : Parser (List α)) (make : List α → Span → β) : Parser β := do
  let start ← sigil .openCurl
  let as ← items
  let stop ← sigil .closeCurl
  atEnd
  pure (make as (start.through stop))

def settings : Parser (List SettingDecl) :=
  separated (accept .comma) .closeCurl setting (accept_neverGrows _) setting_progresses

def elements : Parser (List (Option ElementDecl)) :=
  separated elementSeparator .closeCurl element elementSeparator_neverGrows element_progresses

theorem objectBody_eq : objectBody = braced settings ObjectBody.mk := rfl

theorem setBody_eq : setBody = braced elements fun as => SetBody.mk (as.filterMap id) (as.any Option.isNone) := rfl

theorem braced_ok {Sep : Lexeme → Prop} (hitems : items.Derives (ListOf Item Sep)) (h : braced items make c = .ok (x,c')) :
    c.error = none ∧ ∃ as span, BracedOf Item Sep c.view (as,span) ∧ x = make as span := by
  obtain ⟨o,c₁,ho,hko,hp⟩ := token_bind_ok sigil_ok h
  obtain ⟨as,c₂,h₂,hp⟩ := bind_eq_ok hp
  obtain ⟨ls,hls,hrule⟩ := hitems h₂
  obtain ⟨e,c₃,he,hke,hp⟩ := token_bind_ok sigil_ok hp
  obtain ⟨_,c₄,h₄,hp⟩ := bind_eq_ok hp
  obtain ⟨hnone,hend⟩ := atEnd_ok h₄
  cases hp
  have htook := ho.trans (hls.trans he)
  have hview := htook.view
  rw [hend,List.append_nil] at hview
  refine ⟨htook.error.symm.trans hnone,as,_,?_,rfl⟩
  rw [hview]
  exact .mk hko hrule hke

theorem objectBody_ok (h : objectBody c = .ok (b,c')) : c.error = none ∧ ObjectBodyOf c.view b := by
  rw [objectBody_eq] at h
  obtain ⟨hnone,as,span,hbraced,rfl⟩ := braced_ok (derives_separated (separates_accept _) derives_setting) h
  exact ⟨hnone,.mk hbraced⟩

theorem setBody_ok (h : setBody c = .ok (b,c')) : c.error = none ∧ SetBodyOf c.view b := by
  rw [setBody_eq] at h
  obtain ⟨hnone,as,span,hbraced,rfl⟩ := braced_ok (derives_separated separates_elementSeparator derives_element) h
  exact ⟨hnone,.mk hbraced⟩

end Bodies

end InfoObject.Notation
