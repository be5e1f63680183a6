import InfoObject.Notation.Scan
import InfoObject.Notation.Tree

/-! Reading tokens one by one. A parser either fails at the first place that does not fit, or leaves a cursor
behind what it read. -/
namespace InfoObject.Notation

/-- The tokens not yet read, the offset of the first of them, and why there are no more if the scan failed. -/
structure Cursor where
  rest : List Token
  offset : UInt32
  error : Option SyntaxError
deriving Repr

def Tokens.cursor (t : Tokens) (offset : UInt32) : Cursor := ⟨t.tokens,offset,t.error⟩

abbrev Parser (α : Type) := StateT Cursor (Except SyntaxError) α

namespace Parser

variable {α β : Type}

def Progresses (p : Parser α) : Prop :=
  ∀ c a c', p c = .ok (a,c') → c'.rest.length < c.rest.length

def NeverGrows (p : Parser α) : Prop :=
  ∀ c a c', p c = .ok (a,c') → c'.rest.length ≤ c.rest.length

theorem Progresses.neverGrows {p : Parser α} (h : Progresses p) : NeverGrows p :=
  fun c a c' e => Nat.le_of_lt (h c a c' e)

theorem neverGrows_pure (a : α) : NeverGrows (pure a : Parser α) := by
  intro c b c' h
  cases h
  exact Nat.le_refl _

theorem neverGrows_throw (e : SyntaxError) : NeverGrows (throw e : Parser α) := by
  intro c b c' h
  cases h

theorem bind_eq_ok {p : Parser α} {f : α → Parser β} {c : Cursor} {b : β} {c' : Cursor}
    (h : (p >>= f) c = .ok (b,c')) : ∃ a d, p c = .ok (a,d) ∧ f a d = .ok (b,c') := by
  simp only [bind,StateT.bind,Except.bind] at h
  split at h
  · cases h
  · rename_i v hv
    exact ⟨v.1,v.2,hv,h⟩

theorem NeverGrows.bind {p : Parser α} {f : α → Parser β} (hp : NeverGrows p)
    (hf : ∀ a, NeverGrows (f a)) : NeverGrows (p >>= f) := by
  intro c b c' h
  obtain ⟨a,d,h₁,h₂⟩ := bind_eq_ok h
  exact Nat.le_trans (hf a d b c' h₂) (hp c a d h₁)

theorem Progresses.bind {p : Parser α} {f : α → Parser β} (hp : Progresses p)
    (hf : ∀ a, NeverGrows (f a)) : Progresses (p >>= f) := by
  intro c b c' h
  obtain ⟨a,d,h₁,h₂⟩ := bind_eq_ok h
  exact Nat.lt_of_le_of_lt (hf a d b c' h₂) (hp c a d h₁)

theorem NeverGrows.bind_progresses {p : Parser α} {f : α → Parser β} (hp : NeverGrows p)
    (hf : ∀ a, Progresses (f a)) : Progresses (p >>= f) := by
  intro c b c' h
  obtain ⟨a,d,h₁,h₂⟩ := bind_eq_ok h
  exact Nat.lt_of_lt_of_le (hf a d b c' h₂) (hp c a d h₁)

theorem neverGrows_ite {P : Prop} [Decidable P] {p q : Parser α} (hp : NeverGrows p)
    (hq : NeverGrows q) : NeverGrows (if P then p else q) := by
  split <;> assumption

theorem progresses_ite {P : Prop} [Decidable P] {p q : Parser α} (hp : Progresses p)
    (hq : Progresses q) : Progresses (if P then p else q) := by
  split <;> assumption

end Parser

def skipTrivia : List Token → UInt32 → List Token × UInt32
  | t::r, offset =>
    if t.kind.isTrivia then skipTrivia r (offset+t.size.toUInt32) else (t::r,offset)
  | [], offset => ([],offset)

theorem skipTrivia_length (ts : List Token) (offset : UInt32) : (skipTrivia ts offset).1.length ≤ ts.length := by
  induction ts generalizing offset with
  | nil => simp [skipTrivia]
  | cons t r ih =>
    simp only [skipTrivia]
    split
    · exact Nat.le_succ_of_le (ih _)
    · exact Nat.le_refl _

def Cursor.skip (c : Cursor) : Cursor :=
  let (rest,offset) := skipTrivia c.rest c.offset
  ⟨rest,offset,c.error⟩

theorem Cursor.skip_length (c : Cursor) : c.skip.rest.length ≤ c.rest.length :=
  skipTrivia_length c.rest c.offset

/-- The next significant token, which stays unread. Behind the last one there is an empty token, unless the
scan stopped there with an error. -/
def peek : Parser Token := fun c =>
  match c.skip.rest, c.error with
  | t::_, _ => .ok (t,c.skip)
  | [], none => .ok (⟨.eof,[]⟩,c.skip)
  | [], some e => .error e

theorem peek_neverGrows : peek.NeverGrows := by
  intro c a c' h
  have hs := c.skip_length
  simp only [peek] at h
  split at h <;> cases h <;> exact hs

/-- Reads the next significant token if it is a wanted one, and says what is wrong if not. -/
def expect (wanted : Token → Bool) (fault : Found → SyntaxFault) : Parser (Token × Span) := fun c =>
  match c.skip.rest, c.error with
  | t::r, _ =>
    let span : Span := ⟨c.skip.offset,t.size.toUInt32⟩
    if wanted t then .ok ((t,span),⟨r,c.skip.offset+t.size.toUInt32,c.error⟩)
    else .error ⟨fault ⟨t.kind,t.text⟩,span⟩
  | [], none => .error ⟨fault ⟨.eof,[]⟩,⟨c.skip.offset,0⟩⟩
  | [], some e => .error e

theorem expect_progresses (wanted : Token → Bool) (fault : Found → SyntaxFault) : (expect wanted fault).Progresses := by
  intro c a c' h
  have hs := c.skip_length
  simp only [expect] at h
  split at h
  · rename_i t r hr
    rw [hr] at hs
    split at h
    · cases h
      exact hs
    · cases h
  · cases h
  · cases h

def accept (kind : TokenKind) : Parser Bool := fun c =>
  match c.skip.rest, c.error with
  | t::r, _ =>
    if t.kind = kind then .ok (true,⟨r,c.skip.offset+t.size.toUInt32,c.error⟩)
    else .ok (false,c.skip)
  | [], none => .ok (false,c.skip)
  | [], some e => .error e

theorem accept_neverGrows (kind : TokenKind) : (accept kind).NeverGrows := by
  intro c a c' h
  have hs := c.skip_length
  simp only [accept] at h
  split at h
  · rename_i t r hr
    split at h <;> cases h
    · rw [hr] at hs
      exact Nat.le_trans (Nat.le_succ _) hs
    · exact hs
  · cases h
    exact hs
  · cases h

def many {α : Type} (again : Parser Bool) (item : Parser α) (ha : again.NeverGrows)
    (hi : item.Progresses) (done : List α) (c : Cursor) : Except SyntaxError (List α × Cursor) :=
  match h₁ : again c with
  | .error e => .error e
  | .ok (false,d) => .ok (done.reverse,d)
  | .ok (true,d) =>
    match h₂ : item d with
    | .error e => .error e
    | .ok (a,d') =>
      have _shorter : d'.rest.length < c.rest.length :=
        Nat.lt_of_lt_of_le (hi _ _ _ h₂) (ha _ _ _ h₁)
      many again item ha hi (a::done) d'
termination_by c.rest.length
decreasing_by exact _shorter

theorem many_neverGrows {α : Type} (again : Parser Bool) (item : Parser α) (ha : again.NeverGrows)
    (hi : item.Progresses) (done : List α) : Parser.NeverGrows (many again item ha hi done) := by
  intro c
  fun_induction many again item ha hi done c with
  | case1 => intro a c' h; cases h
  | case2 done c d h₁ =>
    intro a c' h
    cases h
    exact ha _ _ _ h₁
  | case3 => intro a c' h; cases h
  | case4 done c d h₁ a d' h₂ _ ih =>
    intro b c' h
    have h₃ := ha _ _ _ h₁
    have h₄ := hi _ _ _ h₂
    have h₅ := ih _ _ h
    omega

end InfoObject.Notation
