import InfoObject.Proofs.Derivations
import InfoObject.Proofs.Encoding

/-! Every derivation is read, whatever stands behind it that cannot be taken for a part of it. -/
namespace InfoObject.Notation
open InfoObject.Notation.Parser

/-- A parser finds the significant tokens `v`, gives `a` and leaves `v'`. -/
def Parser.Reads {α : Type} (p : Parser α) (v : List Lexeme) (a : α) (v' : List Lexeme) : Prop :=
  ∀ c : Cursor, c.error = none → c.view = v → ∃ c', p c = .ok (a,c') ∧ c'.error = none ∧ c'.view = v'

section Steps
variable {α β : Type} {p : Parser α} {a : α} {b : β} {u v v' : List Lexeme}

theorem reads_pure : (pure a : Parser α).Reads v a v := fun c he hv => ⟨c,rfl,he,hv⟩

theorem Parser.Reads.bind (hp : p.Reads v a u) (hf : (f a).Reads u b v') : (p >>= f).Reads v b v' := by
  intro c he hv
  obtain ⟨d,hd,hed,hvd⟩ := hp c he hv
  obtain ⟨c',hc',hec',hvc'⟩ := hf d hed hvd
  refine ⟨c',?_,hec',hvc'⟩
  simp only [Bind.bind,StateT.bind,Except.bind,hd]
  exact hc'

theorem Parser.Reads.map (f : α → β) (hp : p.Reads v a v') : (f <$> p).Reads v (f a) v' := by
  intro c he hv
  obtain ⟨c',hc',hec',hvc'⟩ := hp c he hv
  refine ⟨c',?_,hec',hvc'⟩
  simp only [Functor.map,StateT.map,hc']
  rfl

end Steps

/-! Single tokens -/

section Tokens
variable {c : Cursor} {l : Lexeme} {v : List Lexeme} {kind : TokenKind} {word : String}

theorem Cursor.skip_rest_of_view (h : c.view = []) : c.skip.rest = [] := by
  cases hr : c.skip.rest with
  | nil => rfl
  | cons t r =>
    rw [Cursor.view_cons hr] at h
    contradiction

theorem Cursor.skip_rest_of_view_cons (h : c.view = l::v) : ∃ r, c.skip.rest = l.token::r ∧ l.start = c.skip.offset ∧
    l.trail = trivia r ∧ v = significant (c.skip.offset+l.token.size.toUInt32) r := by
  cases hr : c.skip.rest with
  | nil =>
    rw [Cursor.view_nil hr] at h
    contradiction
  | cons t r =>
    rw [Cursor.view_cons hr] at h
    obtain ⟨rfl,rfl⟩ := List.cons.inj h
    exact ⟨r,rfl,rfl,rfl,rfl⟩

theorem reads_peek : peek.Reads v (next v) v := by
  intro c he hv
  refine ⟨c.skip,?_,he,by rwa [Cursor.view_skip]⟩
  cases v with
  | nil => simp only [peek,Cursor.skip_rest_of_view hv,he,next]
  | cons l v =>
    obtain ⟨r,hr,_⟩ := Cursor.skip_rest_of_view_cons hv
    simp only [peek,hr,next]

theorem reads_expect (h : wanted l.token = true) : (expect wanted fault).Reads (l::v) (l.token,l.span) v := by
  intro c he hv
  obtain ⟨r,hr,hstart,_,rfl⟩ := Cursor.skip_rest_of_view_cons hv
  refine ⟨⟨r,c.skip.offset+l.token.size.toUInt32,c.error⟩,?_,he,rfl⟩
  simp only [expect,hr,h,if_true,Lexeme.span,hstart]

theorem reads_accept (h : l.kind = kind) : (accept kind).Reads (l::v) true v := by
  intro c he hv
  obtain ⟨r,hr,_,_,rfl⟩ := Cursor.skip_rest_of_view_cons hv
  refine ⟨⟨r,c.skip.offset+l.token.size.toUInt32,c.error⟩,?_,he,rfl⟩
  simp only [accept,hr,show l.token.kind = kind from h,if_true]

theorem reads_accept_other (h : (next v).kind ≠ kind) : (accept kind).Reads v false v := by
  intro c he hv
  refine ⟨c.skip,?_,he,by rwa [Cursor.view_skip]⟩
  cases v with
  | nil => simp only [accept,Cursor.skip_rest_of_view hv,he]
  | cons l v =>
    obtain ⟨r,hr,_⟩ := Cursor.skip_rest_of_view_cons hv
    simp only [accept,hr,if_neg (show ¬ l.token.kind = kind from h)]

theorem reads_sigil (h : l.kind = s.kind) : (sigil s).Reads (l::v) l.span v :=
  (reads_expect (by exact beq_iff_eq.mpr h)).bind reads_pure

theorem reads_keyword (h : l.IsWord word) : (keyword word).Reads (l::v) l.span v :=
  (reads_expect (by exact h)).bind reads_pure

theorem reads_ident (h : l.kind = .ident) : ident.Reads (l::v) l.ident v :=
  (reads_expect (by exact beq_iff_eq.mpr h)).bind reads_pure

theorem reads_atKeyword : (atKeyword word).Reads v ((next v).isWord word) v := reads_peek.bind reads_pure

theorem reads_notAt (h : (next v).kind = kind) : (notAt kind).Reads v false v := by
  have hb : ((next v).kind != kind) = false := bne_eq_false_iff_eq.mpr h
  exact hb ▸ reads_peek.bind reads_pure

theorem reads_notAt_other (h : (next v).kind ≠ kind) : (notAt kind).Reads v true v := by
  have hb : ((next v).kind != kind) = true := bne_iff_ne.mpr h
  exact hb ▸ reads_peek.bind reads_pure

theorem reads_atEnd : atEnd.Reads [] () [] := by
  intro c he hv
  refine ⟨c.skip,?_,he,by rwa [Cursor.view_skip]⟩
  simp only [atEnd,Cursor.skip_rest_of_view hv,he]

theorem reads_flag (h : FlagOf word ls o) (hv : o = none → (next v).isWord word = false) :
    (optionalKeyword word).Reads (ls++v) o v := by
  cases h with
  | none =>
    refine reads_atKeyword.bind ?_
    rw [List.nil_append,hv rfl]
    exact reads_pure
  | some hw =>
    refine reads_atKeyword.bind ?_
    rw [List.singleton_append,next_cons,hw]
    exact (reads_keyword hw).bind reads_pure

theorem isWord_of_ne {t : Token} (h : t.isWord word = true) (hne : word ≠ other) : t.isWord other = false := by
  simp only [Token.isWord,Bool.and_eq_true,beq_iff_eq] at h
  simp [Token.isWord,h.2,hne]

theorem Lexeme.IsWord.isIdent (h : l.IsWord word) : l.kind = .ident := by
  simp only [IsWord,Token.isWord,Bool.and_eq_true,beq_iff_eq] at h
  exact h.1

theorem isWord_of_kind {t : Token} (h : t.kind ≠ .ident) : t.isWord word = false := by simp [Token.isWord,h]

end Tokens

/-! References and payloads -/

variable {n : Nat} {ls v : List Lexeme}

theorem reads_reference (h : RefOf ls r) (hv : (next v).kind ≠ .dot) : reference.Reads (ls++v) r v := by
  cases h with
  | plain ha => exact (reads_ident ha).bind ((reads_accept_other hv).bind reads_pure)
  | qualified ha hd hb => exact (reads_ident ha).bind ((reads_accept hd).bind ((reads_ident hb).bind reads_pure))

theorem RefOf.begins (h : RefOf ls r) : (next (ls++v)).kind = .ident := by
  cases h <;> assumption

theorem closeBlock_reads (h : Closes (n+1) ls) (hts : significant offset ts = ls++v) : ∃ c,
    closeBlock start error (n+1) done offset ts = .ok (done.reverse++(trivia ts++extent ls),c) ∧ c.error = error ∧
    c.view = v := by
  induction ts generalizing n done offset ls with
  | nil => exact absurd (List.append_eq_nil_iff.mp hts.symm).1 h.ne_nil
  | cons t r ih =>
    simp only [closeBlock]
    by_cases ht : t.kind.isTrivia = true
    · rw [significant_cons ht] at hts
      obtain ⟨c,hc,hrest⟩ := ih h hts
      rw [depthAfter_trivia ht,if_neg (by omega)]
      refine ⟨c,?_,hrest⟩
      rw [hc]
      simp [trivia_cons ht]
    · rw [significant_cons_other ht] at hts
      have htrivia : trivia (t::r) = [] := trivia_cons_other ht
      obtain ⟨l,ls,rfl⟩ := List.exists_cons_of_ne_nil h.ne_nil
      obtain ⟨rfl,hr⟩ := List.cons.inj hts
      have hrest := closes_cons.mp h
      split
      · rename_i hd
        rw [hd] at hrest
        obtain rfl : ls = [] := hrest
        exact ⟨⟨r,offset+t.size.toUInt32,error⟩,by simp [htrivia,extent],rfl,hr⟩
      · obtain ⟨k,hk⟩ := Nat.exists_eq_succ_of_ne_zero ‹_›
        rw [hk] at hrest ⊢
        obtain ⟨c,hc,hend⟩ := ih hrest hr
        refine ⟨c,?_,hend⟩
        rw [hc,htrivia,extent_cons hrest.ne_nil]
        simp

theorem reads_rawBlock (h : BlockOf ls b) : rawBlock.Reads (ls++v) b v := by
  cases h with
  | @mk o e ms ho hs hc =>
    intro c he hv
    have hcloses : Closes (0+1) (ms++[e]) := closes_one.mpr ⟨ms,e,rfl,hs,hc⟩
    obtain ⟨r,hr,hstart,htrail,hrest⟩ := Cursor.skip_rest_of_view_cons hv
    obtain ⟨d,hd,hed,hvd⟩ := closeBlock_reads hcloses hrest.symm
    refine ⟨d,?_,hed.trans he,hvd⟩
    have hdepth : depthAfter 0 o.token = 0+1 := by rw [depthAfter,show o.token.kind = .openCurl from ho]
    simp only [rawBlock,hr]
    rw [closeBlock,hdepth,if_neg (by decide),hd,extent_cons hcloses.ne_nil,htrail,hstart]
    simp

theorem BlockOf.begins (h : BlockOf ls b) : (next (ls++v)).kind = .openCurl := by
  cases h
  assumption

theorem reads_payload (h : PayloadOf ls p) (hv : (next v).kind ≠ .dot) : payload.Reads (ls++v) p v := by
  refine reads_peek.bind ?_
  cases h with
  | reference hr =>
    rw [hr.begins]
    exact (reads_reference hr hv).map _
  | @int l hk hlow hhigh =>
    rw [List.singleton_append,next_cons,show l.token.kind = .intLit from hk]
    refine Reads.map _ ((reads_expect (by exact beq_iff_eq.mpr hk)).bind ?_)
    dsimp only
    rw [if_pos (inRange_iff.mpr ⟨hlow,hhigh⟩)]
    exact reads_pure
  | @text l hk =>
    rw [List.singleton_append,next_cons,show l.token.kind = .textLit from hk]
    exact Reads.map _ ((reads_expect (by exact beq_iff_eq.mpr hk)).bind reads_pure)
  | block hb =>
    rw [hb.begins]
    exact (reads_rawBlock hb).map _

/-! Lists -/

section Lists
variable {α : Type} {again : Parser Bool} {item : Parser α} {v' : List Lexeme}

theorem many_stop (h : again c = .ok (false,d)) : many again item ha hi done c = .ok (done.reverse,d) := by
  rw [many]
  split
  · simp_all
  · rename_i h'
    rw [h] at h'
    cases h'
    rfl
  · simp_all

theorem many_turn (h : again c = .ok (true,d)) (hitem : item d = .ok (a,e)) : many again item ha hi done c =
    many again item ha hi (a::done) e := by
  rw [many]
  split
  · simp_all
  · simp_all
  · rename_i h'
    rw [h] at h'
    cases h'
    split
    · simp_all
    · rename_i h''
      rw [hitem] at h''
      cases h''
      rfl

/-- A loop reads what each turn reads. What may stand behind a turn is what the next one, or the end, begins with. -/
theorem reads_many {F : List Lexeme → Prop} (hturn : ∀ ls a v, T ls a → F v → ∃ u, again.Reads (ls++v) true u ∧
    item.Reads u a v) (hfollow : ∀ ls a v, T ls a → F (ls++v)) (hv : F v) (hstop : again.Reads v false v')
    (h : RunOf T ls as) (done : List α) : Reads (many again item ha hi done) (ls++v) (done.reverse++as) v' := by
  induction h generalizing done with
  | nil =>
    intro c he hc
    obtain ⟨d,hd,hrest⟩ := hstop c he hc
    refine ⟨d,?_,hrest⟩
    rw [many_stop hd,List.append_nil]
  | @cons ls ms a as ht hrun ih =>
    have hms : F (ms++v) := by
      cases hrun with
      | nil => exact hv
      | cons h _ =>
        rw [List.append_assoc]
        exact hfollow _ _ _ h
    obtain ⟨u,hagain,hitem⟩ := hturn ls a (ms++v) ht hms
    intro c he hc
    obtain ⟨d,hd,hed,hvd⟩ := hagain c he (by rw [hc,List.append_assoc])
    obtain ⟨e,hx,hee,hve⟩ := hitem d hed hvd
    obtain ⟨c',hc',hrest⟩ := ih (a::done) e hee hve
    refine ⟨c',?_,hrest⟩
    rw [many_turn hd hx,hc',List.reverse_cons,List.append_assoc]
    rfl

/-- Behind an item of a list there is neither a name nor a dot. -/
def Stops (v : List Lexeme) : Prop := (next v).kind ≠ .ident ∧ (next v).kind ≠ .dot

/-- Items and separators that cannot be taken for each other, or for the closing brace. -/
structure Lists (separator : Parser Bool) (Sep : Lexeme → Prop) (item : Parser α) (Item : List Lexeme → α → Prop) : Prop where
  each : ∀ ⦃ls a v⦄, Item ls a → Stops v → item.Reads (ls++v) a v
  begins : ∀ ⦃ls a v⦄, Item ls a → (next (ls++v)).kind ≠ .closeCurl
  between : ∀ ⦃s v⦄, Sep s → separator.Reads (s::v) true v
  close : ∀ ⦃v⦄, (next v).kind = .closeCurl → separator.Reads v false v
  stops : ∀ ⦃s v⦄, Sep s → Stops (s::v)

variable {separator : Parser Bool} {Sep : Lexeme → Prop} {Item : List Lexeme → α → Prop} {as : List α}

theorem lists_comma (hitem : ∀ ls a v, Item ls a → Stops v → item.Reads (ls++v) a v)
    (hbegins : ∀ ls a v, Item ls a → (next (ls++v)).kind = .amp) : Lists (accept .comma) IsComma item Item where
  each := hitem
  begins ls a v h := by simp [hbegins ls a v h]
  between _ _ hs := reads_accept hs
  close _ hv := reads_accept_other (by simp [hv])
  stops s _ hs := by
    have hk : s.token.kind = .comma := hs
    simp [Stops,hk]

variable (hl : Lists separator Sep item Item)
include hl

theorem Lists.more (hs : Sep s)
    (h : Item ls a) : (moreAfter separator .closeCurl).Reads (s::(ls++v)) true (ls++v) :=
  (hl.between hs).bind (reads_notAt_other (hl.begins h))

theorem Lists.noMore (h : LastOf Sep ls) (hv : (next v).kind = .closeCurl) :
    (moreAfter separator .closeCurl).Reads (ls++v) false v := by
  cases h with
  | none => exact (hl.close hv).bind reads_pure
  | some hs => exact (hl.between hs).bind (reads_notAt hv)

theorem LastOf.stops (h : LastOf Sep ls) (hv : (next v).kind = .closeCurl) :
    Stops (ls++v) := by
  cases h with
  | none => exact ⟨by simp [hv],by simp [hv]⟩
  | some hs => exact hl.stops hs

theorem RunOf.stops (h : RunOf (AfterOf Sep Item) ls as) (hv : Stops v) :
    Stops (ls++v) := by
  cases h with
  | nil => exact hv
  | cons h _ =>
    obtain ⟨hs,_⟩ := h
    exact hl.stops hs

theorem Lists.reads (h : ListOf Item Sep ls as) (hv : (next v).kind = .closeCurl) :
    (separated separator .closeCurl item hs hi).Reads (ls++v) as v := by
  cases h with
  | empty => exact (reads_notAt hv).bind reads_pure
  | items h =>
    cases h with
    | @mk ls ms es a as hitem hrun hlast =>
      have hstops := hlast.stops hl hv
      rw [List.append_assoc,List.append_assoc]
      refine (reads_notAt_other (hl.begins hitem)).bind ((hl.each hitem (hrun.stops hl hstops)).bind ?_)
      refine reads_many (F := Stops) ?_ ?_ hstops (hl.noMore hlast hv) hrun [a]
      · rintro _ b v ⟨hs,hb⟩ hv
        exact ⟨_,hl.more hs hb,hl.each hb hv⟩
      · rintro _ b v ⟨hs,_⟩
        exact hl.stops hs

end Lists

/-! Classes -/

/-- Behind the governor of a field there is no dot, and no name but the words that may follow. -/
def FieldStops (v : List Lexeme) : Prop := (next v).kind ≠ .dot ∧ ((next v).kind = .ident → isFieldWord (next v) = true)

theorem Stops.fieldStops (h : Stops v) : FieldStops v := ⟨h.2,fun hk => absurd hk h.1⟩

theorem fieldStops_of_word (h : l.IsWord word) (hw : word ∈ ["UNIQUE","OPTIONAL","DEFAULT"]) : FieldStops (l::v) := by
  have hk : l.token.kind = .ident := h.isIdent
  have hfield : isFieldWord l.token = true := by
    simp only [List.mem_cons,List.not_mem_nil,or_false] at hw
    obtain rfl | rfl | rfl := hw <;> simp [isFieldWord,show l.token.isWord _ = true from h]
  exact ⟨by simp [hk],fun _ => hfield⟩

theorem reads_fieldGovernor (h : FieldGovernorOf ls g) (hv : FieldStops v) : fieldGovernor.Reads (ls++v) g v := by
  refine reads_peek.bind ?_
  cases h with
  | none =>
    rw [List.nil_append,if_neg]
    · exact reads_pure
    · rintro ⟨hk,hw⟩
      rw [hv.2 hk] at hw
      contradiction
  | some hr hw =>
    rw [if_pos ⟨hr.begins,hw⟩]
    exact (reads_reference hr hv.1).map _

variable {optional : Option Span} {default : Option Payload}

theorem FieldEndOf.stops (h : FieldEndOf ls optional default) (hv : Stops v) : FieldStops (ls++v) := by
  cases h with
  | none => exact hv.fieldStops
  | optional hw | default hw => exact fieldStops_of_word hw (by simp)

theorem FieldEndOf.not_unique (h : FieldEndOf ls optional default) (hv : Stops v) :
    (next (ls++v)).isWord "UNIQUE" = false := by
  cases h with
  | none => exact isWord_of_kind hv.1
  | optional hw | default hw => exact isWord_of_ne hw (by decide)

theorem FlagOf.stops (h : FlagOf word ls o) (hw : word ∈ ["UNIQUE","OPTIONAL","DEFAULT"])
    (hv : FieldStops v) : FieldStops (ls++v) := by
  cases h with
  | none => exact hv
  | some hs => exact fieldStops_of_word hs hw

/-- The end of a field is read in two steps, of which the second does nothing behind `OPTIONAL`. -/
theorem reads_fieldEnd (h : FieldEndOf ls optional default) (hv : Stops v) : ∃ u,
    (optionalKeyword "OPTIONAL").Reads (ls++v) optional u ∧ (fieldDefault optional.isSome).Reads u default v := by
  cases h with
  | none =>
    refine ⟨v,reads_flag .none fun _ => isWord_of_kind hv.1,?_⟩
    exact (reads_flag .none fun _ => isWord_of_kind hv.1).bind reads_pure
  | optional hw => exact ⟨v,reads_flag (.some hw) nofun,reads_pure⟩
  | @default l ps p hw hp =>
    refine ⟨l::(ps++v),reads_flag .none fun _ => isWord_of_ne hw (by decide),?_⟩
    exact (reads_flag (.some hw) nofun).bind ((reads_payload hp hv.2).map _)

theorem reads_fieldDecl (h : FieldOf ls f) (hv : Stops v) : fieldDecl.Reads (ls++v) f v := by
  cases h with
  | @mk a n gs us es g u o d ha hn hg hu he =>
    have hes := he.stops hv
    obtain ⟨w,ho,hd⟩ := reads_fieldEnd he hv
    simp only [List.cons_append,List.append_assoc]
    refine (reads_sigil ha).bind ((reads_ident hn).bind ?_)
    refine (reads_fieldGovernor hg (hu.stops (by simp) hes)).bind ?_
    refine (reads_flag hu fun _ => he.not_unique hv).bind (ho.bind (hd.bind reads_pure))

theorem lists_fields : Lists (accept .comma) IsComma fieldDecl FieldOf :=
  lists_comma (fun _ _ _ h hv => reads_fieldDecl h hv) fun _ _ _ h => by
    cases h
    assumption

/-! Assignments and modules -/

theorem reads_assigned (h : AssignedOf ls x) (hv : (next v).kind ≠ .dot) : assigned.Reads (ls++v) x v := by
  refine reads_peek.bind ?_
  cases h with
  | @classBody w o c fs fields hw ho hs hc =>
    simp only [List.cons_append,List.append_assoc,next_cons]
    rw [if_pos (show w.token.isWord "CLASS" = true from hw)]
    refine (reads_keyword hw).bind ((reads_sigil ho).bind ?_)
    exact (lists_fields.reads hs (by exact hc)).bind ((reads_sigil hc).bind reads_pure)
  | @classOf w o c rs r hw ho hr hc =>
    have hclass : w.token.isWord "CLASS" = false := isWord_of_ne hw (by decide)
    simp only [List.cons_append,List.append_assoc,next_cons]
    rw [if_neg (Bool.eq_false_iff.mp hclass),if_pos (show w.token.isWord "CLASS-OF" = true from hw)]
    refine (reads_keyword hw).bind ((reads_sigil ho).bind ?_)
    refine (reads_reference hr ?_).bind ((reads_sigil hc).bind reads_pure)
    rw [next_cons,show c.token.kind = .closeParen from hc]
    decide
  | @payload l _ _ hp hclass hof =>
    rw [List.cons_append,next_cons,if_neg (show ¬ l.token.isWord "CLASS" = true from hclass),
      if_neg (show ¬ l.token.isWord "CLASS-OF" = true from hof)]
    exact (reads_payload hp hv).map _

theorem reads_governor (h : GovernorOf ls g) (hv : (next v).kind = .assign) : governor.Reads (ls++v) g v := by
  cases h with
  | none => exact (reads_notAt hv).bind reads_pure
  | some hr =>
    refine (reads_notAt_other (by simp [hr.begins])).bind ?_
    exact (reads_reference hr (by simp [hv])).map _

theorem reads_assignment (h : AssignmentOf ls a) (hv : (next v).kind ≠ .dot) : assignment.Reads (ls++v) a v := by
  cases h with
  | @mk n s gs vs g x hn hend hg hs hx =>
    simp only [List.cons_append,List.append_assoc]
    refine (reads_expect (by exact beq_iff_eq.mpr hn)).bind ((reads_governor hg (by exact hs)).bind ?_)
    exact (reads_sigil hs).bind ((reads_assigned hx hv).bind reads_pure)

theorem reads_names (h : RunOf (AfterOf IsComma IdentOf) ls names) (hv : (next v).kind ≠ .comma)
    (n : Ident) : Reads (many (accept .comma) ident (accept_neverGrows _) ident_progresses [n]) (ls++v) (n::names) v := by
  refine reads_many (F := fun _ => True) ?_ ?_ trivial (reads_accept_other hv) h [n]
  · rintro _ i v ⟨hc,hi⟩ _
    cases hi with
    | mk hk => exact ⟨_,reads_accept hc,reads_ident hk⟩
  · intros
    trivial

theorem reads_importDecl (h : ImportOf ls i) : importDecl.Reads (ls++v) i v := by
  cases h with
  | @mk n f s ms names hn hs hf hm =>
    have hk : f.token.kind = .ident := hf.isIdent
    simp only [List.cons_append,List.append_assoc]
    refine (reads_ident hn).bind ((reads_names hs (by simp [hk]) n.ident).bind ?_)
    exact (reads_keyword hf).bind ((reads_ident hm).bind reads_pure)

theorem ImportOf.begins (h : ImportOf ls i) : (next (ls++v)).kind = .ident := by
  cases h
  assumption

theorem reads_imports (h : ImportsOf ls is) (hv : ls = [] → (next v).isWord "IMPORTS" = false) :
    imports.Reads (ls++v) is v := by
  cases h with
  | none => exact (reads_flag .none fun _ => hv rfl).bind reads_pure
  | @some w s ms is hw hs hm =>
    simp only [List.cons_append,List.append_assoc]
    refine Reads.bind (reads_flag (.some hw) nofun) ?_
    refine reads_many (F := fun _ => True) ?_ ?_ trivial ((reads_accept hm).bind reads_pure) hs []
    · intro ls i v hi _
      refine ⟨ls++v,(reads_accept_other ?_).bind reads_pure,reads_importDecl hi⟩
      rw [hi.begins]
      decide
    · intros
      trivial

theorem AssignmentOf.begins (h : AssignmentOf ls a) : (next (ls++v)).kind = .ident := by
  cases h
  assumption

theorem AssignmentOf.not_end (h : AssignmentOf ls a) : (next (ls++v)).isWord "END" = false := by
  cases h
  exact Bool.eq_false_iff.mpr ‹_›

theorem reads_assignments (h : RunOf AssignmentOf ls as) (hv : (next v).isWord "END" = true) :
    Reads (many (notAtKeyword "END") assignment (notAtKeyword_neverGrows _) assignment_progresses []) (ls++v) as v := by
  have hident : ∀ t : Token, t.isWord "END" = true → t.kind ≠ .dot := by
    intro t ht hk
    rw [isWord_of_kind (by simp [hk])] at ht
    contradiction
  have hend : (notAtKeyword "END").Reads v false v := by
    refine reads_atKeyword.bind ?_
    rw [hv]
    exact reads_pure
  refine reads_many (F := fun v => (next v).kind ≠ .dot) ?_ ?_ (hident _ hv) hend h []
  · intro ls a v ha hv
    refine ⟨ls++v,reads_atKeyword.bind ?_,reads_assignment ha hv⟩
    rw [ha.not_end]
    exact reads_pure
  · intro ls a v ha
    simp [ha.begins]

theorem reads_module (h : ModuleOf file source ls m) : (module file source).Reads ls m [] := by
  cases h with
  | @mk n d a b e is as imports assignments hn hd ha hb hi has hfirst he =>
    have himports : is = [] → (next (as++[e])).isWord "IMPORTS" = false := by
      intro hnil
      cases as with
      | nil => exact isWord_of_ne he (by decide)
      | cons l ls => exact Bool.eq_false_iff.mpr (hfirst hnil l ls rfl)
    refine (reads_ident hn).bind ((reads_keyword hd).bind ((reads_sigil ha).bind ((reads_keyword hb).bind ?_)))
    refine (reads_imports hi himports).bind ((reads_assignments has (by exact he)).bind ?_)
    exact (reads_keyword he).bind (reads_atEnd.bind reads_pure)

/-! Bodies -/

theorem reads_setting (h : SettingOf ls s) (hv : Stops v) : setting.Reads (ls++v) s v := by
  cases h with
  | mk ha hn hp => exact (reads_sigil ha).bind ((reads_ident hn).bind ((reads_payload hp hv.2).bind reads_pure))

theorem lists_settings : Lists (accept .comma) IsComma setting SettingOf :=
  lists_comma (fun _ _ _ h hv => reads_setting h hv) fun _ _ _ h => by
    cases h
    assumption

theorem reads_element (h : ElementOf ls x) (hv : Stops v) : element.Reads (ls++v) x v := by
  refine reads_peek.bind ?_
  cases h with
  | reference hr =>
    rw [hr.begins]
    exact (reads_reference hr hv.2).map _
  | block hb =>
    rw [hb.begins]
    exact (reads_rawBlock hb).map _
  | @ellipsis l hk =>
    rw [List.singleton_append,next_cons,show l.token.kind = .ellipsis from hk]
    exact (reads_expect (by exact beq_iff_eq.mpr hk)).bind reads_pure

theorem lists_elements : Lists elementSeparator IsElementSeparator element ElementOf where
  each _ _ _ h hv := reads_element h hv
  begins ls x v h := by
    cases h with
    | reference hr => simp [hr.begins]
    | block hb => simp [hb.begins]
    | @ellipsis l hk => simp [show l.token.kind = .ellipsis from hk]
  between s v hs := by
    by_cases hp : s.kind = .pipe
    · exact (reads_accept hp).bind reads_pure
    · exact (reads_accept_other (by exact hp)).bind (reads_accept (hs.resolve_left hp))
  close v hv := (reads_accept_other (by simp [hv])).bind (reads_accept_other (by simp [hv]))
  stops s v hs := by
    obtain hk | hk := hs <;> simp [Stops,show s.token.kind = _ from hk]

theorem reads_braced {α β : Type} {items : Parser (List α)} {Item : List Lexeme → α → Prop} {Sep : Lexeme → Prop}
    {as : List α} (hitems : ∀ {ls v : List Lexeme} {as}, ListOf Item Sep ls as → (next v).kind = .closeCurl →
    items.Reads (ls++v) as v) (make : List α → Span → β) (h : BracedOf Item Sep ls (as,span)) :
    (braced items make).Reads ls (make as span) [] := by
  cases h with
  | mk ho hs hc =>
    refine (reads_sigil ho).bind ((hitems hs (by exact hc)).bind ?_)
    exact (reads_sigil hc).bind (reads_atEnd.bind reads_pure)

theorem reads_objectBody (h : ObjectBodyOf ls b) : objectBody.Reads ls b [] := by
  obtain ⟨h⟩ := h
  exact reads_braced (fun hs hv => lists_settings.reads hs hv) _ h

theorem reads_setBody (h : SetBodyOf ls b) : setBody.Reads ls b [] := by
  obtain ⟨h⟩ := h
  exact reads_braced (fun hs hv => lists_elements.reads hs hv) (fun as => SetBody.mk (as.filterMap id) (as.any Option.isNone)) h

/-! Sources -/

section Sources
variable {α : Type} {p : Parser α} {text : List Char} {offset : UInt32} {a : α} {bytes : List UInt8}

theorem decodeSource_ok : decodeSource bytes = .ok text ↔ bytes.length ≤ maxSourceSize ∧ bytes = Utf8.encode text := by
  rw [← Utf8.decode_eq_ok]
  unfold decodeSource checkSize
  by_cases hsize : maxSourceSize < bytes.length
  · rw [if_pos hsize]
    exact ⟨nofun,fun h => absurd h.1 (by omega)⟩
  · rw [if_neg hsize]
    have hle : bytes.length ≤ maxSourceSize := by omega
    simp only [hle,true_and]
    cases Utf8.decode bytes with
    | ok cs =>
      constructor <;>
      · intro h
        cases h
        rfl
    | error p => exact ⟨nofun,nofun⟩

/-- A text is read exactly where all of its significant tokens are a derivation. -/
theorem run_ok_iff {Rule : List Lexeme → α → Prop}
    (hsound : ∀ c a c', p c = .ok (a,c') → c.error = none ∧ Rule c.view a) (hreads : ∀ ls a, Rule ls a → p.Reads ls a []) :
    p.run text offset = .ok a ↔ (scan text offset).error = none ∧ Rule (significant offset (scan text offset).tokens) a := by
  unfold Parser.run
  constructor
  · intro h
    split at h
    · rename_i b c hb
      cases h
      exact hsound _ _ _ hb
    · contradiction
  · rintro ⟨he,hrule⟩
    obtain ⟨c',hc',_⟩ := hreads _ _ hrule ((scan text offset).cursor offset) he rfl
    rw [hc']

theorem module_run_ok : (module file text).run text offset = .ok m ↔ (scan text offset).error = none ∧
    ModuleOf file text (significant offset (scan text offset).tokens) m :=
  run_ok_iff (fun _ _ _ => module_ok) fun _ _ => reads_module

theorem parseObject_ok {b : RawBlock} : b.parseObject = .ok body ↔ (scan b.text b.start).error = none ∧
    ObjectBodyOf (significant b.start (scan b.text b.start).tokens) body :=
  run_ok_iff (fun _ _ _ => objectBody_ok) fun _ _ => reads_objectBody

theorem parseSet_ok {b : RawBlock} : b.parseSet = .ok body ↔ (scan b.text b.start).error = none ∧
    SetBodyOf (significant b.start (scan b.text b.start).tokens) body :=
  run_ok_iff (fun _ _ _ => setBody_ok) fun _ _ => reads_setBody

theorem decodeSource_bind_ok : (decodeSource bytes >>= f) = .ok a ↔ bytes.length ≤ maxSourceSize ∧ ∃ text, bytes =
    Utf8.encode text ∧ f text = .ok a := by
  constructor
  · intro h
    cases hd : decodeSource bytes with
    | error e =>
      rw [hd] at h
      contradiction
    | ok text =>
      rw [hd] at h
      obtain ⟨hsize,hbytes⟩ := decodeSource_ok.mp hd
      exact ⟨hsize,text,hbytes,h⟩
  · rintro ⟨hsize,text,hbytes,h⟩
    rw [decodeSource_ok.mpr ⟨hsize,hbytes⟩]
    exact h

theorem decode_bind_ok : (RawBlock.decode bytes start >>= f) = .ok a ↔ bytes.length ≤ maxSourceSize ∧ ∃ text, bytes =
    Utf8.encode text ∧ f ⟨text,start⟩ = .ok a := by
  rw [RawBlock.decode,bind_assoc,decodeSource_bind_ok]
  rfl

end Sources

/-- Bytes are read as a module, or as the body of an object or of an object set, exactly where they are few enough, encode a
text, the text has tokens throughout, and the significant ones are a derivation of what is read. -/
theorem parsers_accept_grammar (bytes : List UInt8) :
    (∀ file m, Module.parse bytes file = .ok m ↔ bytes.length ≤ maxSourceSize ∧ ∃ source, bytes = Utf8.encode source ∧
      (scan source 0).error = none ∧ ModuleOf file source (significant 0 (scan source 0).tokens) m) ∧
    (∀ start body, (RawBlock.decode bytes start >>= RawBlock.parseObject) = .ok body ↔
      bytes.length ≤ maxSourceSize ∧ ∃ text, bytes = Utf8.encode text ∧
        (scan text start).error = none ∧ ObjectBodyOf (significant start (scan text start).tokens) body) ∧
    (∀ start body, (RawBlock.decode bytes start >>= RawBlock.parseSet) = .ok body ↔
      bytes.length ≤ maxSourceSize ∧ ∃ text, bytes = Utf8.encode text ∧
        (scan text start).error = none ∧ SetBodyOf (significant start (scan text start).tokens) body) := by
  refine ⟨fun file m => ?_,fun start body => ?_,fun start body => ?_⟩
  · simp only [Module.parse,decodeSource_bind_ok,module_run_ok]
  · simp only [decode_bind_ok,parseObject_ok]
  · simp only [decode_bind_ok,parseSet_ok]

end InfoObject.Notation
