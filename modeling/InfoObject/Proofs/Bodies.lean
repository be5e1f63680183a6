import InfoObject.Proofs.Derivations

/-! The bodies that stand within a body are parts of it: together they are shorter than the body, though each is
counted with a character or two to spare. -/
namespace InfoObject.Notation

/-! The tokens of a source are no longer than the source -/

theorem scanToken_length_le (h : scanToken c r = .ok t) : t.text.length ≤ r.length+1 := by
  obtain ⟨rest,hl⟩ := scanToken_lexed h
  have := congrArg List.length hl.text
  simp only [List.length_cons,List.length_append] at this
  omega

/-- The room that a token takes up, which is never nothing. -/
def Token.room (t : Token) : Nat := max 1 t.text.length

def room (ts : List Token) : Nat := (ts.map Token.room).sum

@[simp] theorem room_cons (t : Token) (ts : List Token) : room (t::ts) = t.room+room ts := by
  simp [room]

theorem Token.length_le_room (t : Token) : t.text.length ≤ t.room := Nat.le_max_right ..

theorem Cuts.room_le (h : Cuts src ts rest) : room ts ≤ src.length := by
  induction h with
  | nil => simp [room]
  | @cons c r t ts rest ht _ ih =>
    have hlen := scanToken_length_le ht
    simp only [room_cons,Token.room,List.length_drop,List.length_cons] at ih ⊢
    omega

theorem room_scan_le (src : List Char) (offset : UInt32) : room (scan src offset).tokens ≤ src.length := by
  obtain ⟨ts,rest,hcuts,⟨rfl,hscan⟩ | ⟨c,r,f,_,_,hscan⟩⟩ := drain_cuts offset [] src <;>
  · rw [scan,hscan]
    exact hcuts.room_le

/-! What stands behind a token counts with it -/

def space (ls : List Lexeme) : Nat := (ls.map fun l => l.token.room+l.trail.length).sum

@[simp] theorem space_cons (l : Lexeme) (ls : List Lexeme) : space (l::ls) = l.token.room+l.trail.length+space ls := by
  simp [space]

@[simp] theorem space_append (ls ms : List Lexeme) : space (ls++ms) = space ls+space ms := by simp [space]

theorem space_pos (l : Lexeme) (ls : List Lexeme) : space ls+1 ≤ space (l::ls) := by
  have : 1 ≤ l.token.room := Nat.le_max_left ..
  rw [space_cons]
  omega

theorem space_significant_le (ts : List Token) (offset : UInt32) :
    (trivia ts).length+space (significant offset ts) ≤ room ts := by
  induction ts generalizing offset with
  | nil => simp [trivia,spelling,significant,space]
  | cons t r ih =>
    have hr := ih (offset+t.size.toUInt32)
    by_cases ht : t.kind.isTrivia = true
    · have hlen := t.length_le_room
      rw [trivia_cons ht,significant_cons ht,List.length_append,room_cons]
      omega
    · rw [trivia_cons_other ht,significant_cons_other ht,space_cons,room_cons,List.length_nil]
      dsimp only
      omega

theorem length_extent_le (ls : List Lexeme) : (extent ls).length ≤ space ls := by
  induction ls with
  | nil => exact Nat.zero_le _
  | cons l ls ih =>
    have hlen := l.token.length_le_room
    cases ls with
    | nil =>
      rw [extent,space_cons]
      omega
    | cons m ms =>
      rw [extent,space_cons,List.length_append,List.length_append]
      omega

/-! Bodies -/

/-- What a payload counts for where it sets a field: a body with the marks in front of it, a name for itself. -/
def Payload.weight : Payload → Nat
  | .block b => b.length+2
  | .reference _ => 1
  | _ => 0

/-- What an element counts for in a set: a body with the mark in front of it, a name for itself. -/
def ElementDecl.weight : ElementDecl → Nat
  | .block b => b.length+1
  | .reference _ => 1

theorem BlockOf.length_le (h : BlockOf ls b) : b.length ≤ space ls := by
  cases h
  exact length_extent_le _

theorem SettingOf.weight_le (h : SettingOf ls d) : d.payload.weight ≤ space ls+1 := by
  cases h with
  | @mk a n ls p _ _ hp =>
    have ha := space_pos a (n::ls)
    have hn := space_pos n ls
    cases hp with
    | block hb =>
      have := hb.length_le
      simp only [Payload.weight]
      omega
    | _ =>
      simp only [Payload.weight]
      omega

theorem ElementOf.weight_le (h : ElementOf ls x) : x.elim 0 ElementDecl.weight ≤ space ls+1 := by
  cases h with
  | reference => exact Nat.le_add_left ..
  | block hb => exact Nat.succ_le_succ hb.length_le
  | ellipsis => exact Nat.zero_le _

section
variable {α : Type} {v : α → Nat} {Sep : Lexeme → Prop} {Item : List Lexeme → α → Prop}
  (hv : ∀ ls a, Item ls a → v a ≤ space ls+1)
include hv

theorem RunOf.sum_le (h : RunOf (AfterOf Sep Item) ls as) : (as.map v).sum ≤ space ls := by
  induction h with
  | nil => exact Nat.zero_le _
  | cons h _ ih =>
    obtain @⟨s,ls,_,_,h⟩ := h
    have hitem := hv _ _ h
    have hpos := space_pos s ls
    simp only [List.map_cons,List.sum_cons,space_append]
    omega

theorem BracedOf.sum_le (h : BracedOf Item Sep ls (as,span)) : (as.map v).sum ≤ space ls := by
  cases h with
  | @mk o c ls as _ hs _ =>
    have ho := space_pos o (ls++[c])
    rw [space_append] at ho
    cases hs with
    | empty => exact Nat.zero_le _
    | items hs =>
      obtain ⟨h,hm,_⟩ := hs
      have hitem := hv _ _ h
      have hrun := hm.sum_le hv
      simp only [space_append,List.map_cons,List.sum_cons] at ho ⊢
      omega

end

theorem Parser.run_eq_ok {p : Parser α} (h : p.run text offset = .ok a) :
    ∃ c c' : Cursor, p c = .ok (a,c') ∧ space c.view ≤ text.length := by
  unfold Parser.run at h
  split at h
  · rename_i b c' hb
    cases h
    have hspace := space_significant_le (scan text offset).tokens offset
    have hroom := room_scan_le text offset
    refine ⟨_,c',hb,?_⟩
    change space (significant offset (scan text offset).tokens) ≤ _
    omega
  · cases h

/-- The bodies that an object sets fields to are shorter than its own, all together. -/
theorem parseObject_weight {b : RawBlock} (h : b.parseObject = .ok body) :
    (body.settings.map fun d => d.payload.weight).sum ≤ b.length := by
  obtain ⟨c,c',hc,hle⟩ := Parser.run_eq_ok h
  obtain ⟨-,⟨hbraced⟩⟩ := objectBody_ok hc
  exact Nat.le_trans (hbraced.sum_le fun _ _ h => h.weight_le) hle

theorem weight_filterMap (l : List (Option ElementDecl)) :
    ((l.filterMap id).map ElementDecl.weight).sum = (l.map fun x => x.elim 0 ElementDecl.weight).sum := by
  induction l with
  | nil => rfl
  | cons x l ih => cases x <;> simp [← ih]

theorem parseSet_weight {b : RawBlock} (h : b.parseSet = .ok body) : (body.elements.map ElementDecl.weight).sum ≤ b.length := by
  obtain ⟨c,c',hc,hle⟩ := Parser.run_eq_ok h
  obtain ⟨-,⟨hbraced⟩⟩ := setBody_ok hc
  rw [weight_filterMap]
  exact Nat.le_trans (hbraced.sum_le fun _ _ h => h.weight_le) hle

end InfoObject.Notation
