import InfoObject.Proofs.Boundaries

/-! Blocks are kept as text and read later, apart from the module that they stand in. -/
namespace InfoObject.Notation
open InfoObject.Notation.Parser

/-! The blocks of a tree -/

def Payload.blocks : Payload → List RawBlock
  | .block b => [b]
  | _ => []

def FieldDecl.blocks (f : FieldDecl) : List RawBlock := f.default.toList.flatMap Payload.blocks

def Assigned.blocks : Assigned → List RawBlock
  | .classBody fields _ => fields.flatMap FieldDecl.blocks
  | .classOf _ _ => []
  | .payload p => p.blocks

def Module.blocks (m : Module) : List RawBlock := m.assignments.flatMap fun a => a.value.blocks

def ObjectBody.blocks (b : ObjectBody) : List RawBlock := b.settings.flatMap fun s => s.payload.blocks

def ElementDecl.blocks : ElementDecl → List RawBlock
  | .block b => [b]
  | .reference _ => []

def SetBody.blocks (b : SetBody) : List RawBlock := b.elements.flatMap ElementDecl.blocks

/-- The blocks of a module, and those that are found in them when they are read as bodies. -/
inductive Module.Holds (m : Module) : RawBlock → Prop
  | here {b : RawBlock} (h : b ∈ m.blocks) : m.Holds b
  | inObject {b c : RawBlock} {body : ObjectBody} (hc : m.Holds c) (hbody : c.parseObject = .ok body) (h : b ∈ body.blocks) :
      m.Holds b
  | inSet {b c : RawBlock} {body : SetBody} (hc : m.Holds c) (hbody : c.parseSet = .ok body) (h : b ∈ body.blocks) : m.Holds b

/-! Blocks among the significant tokens -/

/-- A block is derived from a part of the tokens. -/
def Carries (ls : List Lexeme) (b : RawBlock) : Prop := ∃ ms, ms <:+: ls ∧ BlockOf ms b

section Carries
variable {α : Type} {ls ms : List Lexeme} {b : RawBlock} {a : α} {as : List α} {Item : List Lexeme → α → Prop}
  {Sep : Lexeme → Prop}

theorem Carries.within (h : Carries ms b) (hms : ms <:+: ls) : Carries ls b := by
  obtain ⟨ns,hns,hb⟩ := h
  exact ⟨ns,hns.trans hms,hb⟩

theorem RunOf.part (h : RunOf Item ls as) (ha : a ∈ as) : ∃ ms, ms <:+: ls ∧ Item ms a := by
  induction h with
  | nil => contradiction
  | @cons ls ms x xs hx _ ih =>
    obtain rfl | hmem := List.mem_cons.mp ha
    · exact ⟨ls,⟨[],ms,rfl⟩,hx⟩
    · obtain ⟨ns,hns,hitem⟩ := ih hmem
      exact ⟨ns,hns.trans ⟨ls,[],by simp⟩,hitem⟩

theorem ListOf.part (h : ListOf Item Sep ls as) (ha : a ∈ as) : ∃ ms, ms <:+: ls ∧ Item ms a := by
  cases h with
  | empty => contradiction
  | items h =>
    cases h with
    | @mk ls ms es x xs hx hrun _ =>
      obtain rfl | hmem := List.mem_cons.mp ha
      · exact ⟨ls,⟨[],ms++es,rfl⟩,hx⟩
      · obtain ⟨ns,hns,hafter⟩ := hrun.part hmem
        cases hafter with
        | @mk s ks _ _ hitem =>
          have hks : ks <:+: s::ks := ⟨[s],[],by simp⟩
          exact ⟨ks,(hks.trans hns).trans ⟨ls,es,by simp⟩,hitem⟩

theorem BracedOf.part (h : BracedOf Item Sep ls (as,span)) (ha : a ∈ as) : ∃ ms, ms <:+: ls ∧ Item ms a := by
  cases h with
  | @mk o c ls _ _ hs _ =>
    obtain ⟨ms,hms,hitem⟩ := hs.part ha
    exact ⟨ms,hms.trans ⟨[o],[c],by simp⟩,hitem⟩

theorem PayloadOf.carries (h : PayloadOf ls p) (hb : b ∈ p.blocks) : Carries ls b := by
  cases h with
  | reference | int | text => contradiction
  | block h =>
    obtain rfl := List.mem_singleton.mp hb
    exact ⟨ls,List.infix_refl ls,h⟩

theorem FieldOf.carries (h : FieldOf ls f) (hb : b ∈ f.blocks) : Carries ls b := by
  cases h with
  | @mk x n gs us es _ _ _ _ _ _ _ _ he =>
    cases he with
    | none | optional => contradiction
    | @default l ps p _ hp =>
      have hmem : b ∈ p.blocks := by simpa [FieldDecl.blocks] using hb
      exact (hp.carries hmem).within ⟨x::n::(gs++(us++[l])),[],by simp⟩

theorem AssignedOf.carries (h : AssignedOf ls x) (hb : b ∈ x.blocks) : Carries ls b := by
  cases h with
  | @classBody w o c fs fields _ _ hs _ =>
    obtain ⟨f,hf,hmem⟩ := List.mem_flatMap.mp hb
    obtain ⟨ms,hms,hfield⟩ := hs.part hf
    exact (hfield.carries hmem).within (hms.trans ⟨[w,o],[c],by simp⟩)
  | classOf => contradiction
  | payload hp => exact hp.carries hb

theorem ModuleOf.carries (h : ModuleOf file source ls m) (hb : b ∈ m.blocks) : Carries ls b := by
  cases h with
  | @mk n d x y e is as _ _ _ _ _ _ _ hrun _ _ =>
    obtain ⟨a,ha,hmem⟩ := List.mem_flatMap.mp hb
    obtain ⟨ms,hms,hassign⟩ := hrun.part ha
    cases hassign with
    | @mk k s gs vs _ _ _ _ _ _ hv =>
      have hin : k::(gs++s::vs) <:+: n::d::x::y::(is++(as++[e])) := hms.trans ⟨n::d::x::y::is,[e],by simp⟩
      have hvs : vs <:+: k::(gs++s::vs) := ⟨k::(gs++[s]),[],by simp⟩
      exact (hv.carries hmem).within (hvs.trans hin)

theorem ObjectBodyOf.carries (h : ObjectBodyOf ls body) (hb : b ∈ body.blocks) : Carries ls b := by
  obtain ⟨h⟩ := h
  obtain ⟨s,hs,hmem⟩ := List.mem_flatMap.mp hb
  obtain ⟨ms,hms,hsetting⟩ := h.part hs
  cases hsetting with
  | @mk x n ps _ _ _ hp => exact (hp.carries hmem).within (List.IsInfix.trans ⟨[x,n],[],by simp⟩ hms)

theorem SetBodyOf.carries (h : SetBodyOf ls body) (hb : b ∈ body.blocks) : Carries ls b := by
  obtain ⟨h⟩ := h
  obtain ⟨e,he,hmem⟩ := List.mem_flatMap.mp hb
  obtain ⟨_,hx,rfl⟩ := List.mem_filterMap.mp he
  obtain ⟨ms,hms,helement⟩ := h.part hx
  cases helement with
  | reference => contradiction
  | block hblock =>
    obtain rfl := List.mem_singleton.mp hmem
    exact ⟨ms,hms,hblock⟩

end Carries

/-! Blocks among all tokens -/

/-- Tokens with nothing kept of what follows the last. -/
def cut : List Lexeme → List Lexeme
  | [] => []
  | [l] => [{l with trail := []}]
  | l::m::ls => l::cut (m::ls)

/-- A block is spelled by a part of some tokens, which begin at an offset. -/
def PartOf (offset : UInt32) (ts : List Token) (b : RawBlock) : Prop :=
  ∃ us ms vs, ts = us++(ms++vs) ∧ b.text = spelling ms ∧ b.start = behind offset us ∧ BlockOf (significant b.start ms) b

section Parts
variable {offset : UInt32} {ts us : List Token} {t : Token} {l c : Lexeme} {ls ms post : List Lexeme} {b : RawBlock}

theorem cut_append : cut (ls++[c]) = ls++[{c with trail := []}] := by
  induction ls with
  | nil => rfl
  | cons l ls ih =>
    cases ls with
    | nil => rfl
    | cons m ls =>
      rw [List.cons_append,List.cons_append,cut,← List.cons_append,ih]
      rfl

theorem extent_cut : extent (cut ls) = extent ls := by
  induction ls with
  | nil => rfl
  | cons l ls ih =>
    cases ls with
    | nil => rfl
    | cons m ls =>
      have hne : cut (m::ls) ≠ [] := by cases ls <;> simp [cut]
      rw [cut,extent_cons hne,extent_cons (by simp),ih]

theorem BlockOf.cut (h : BlockOf ls b) : BlockOf (cut ls) b := by
  cases h with
  | @mk o c ls ho hs hc =>
    have hcut : Notation.cut (o::(ls++[c])) = o::(ls++[{c with trail := []}]) := by
      rw [← List.cons_append,cut_append,List.cons_append]
    rw [← extent_cut,hcut]
    exact .mk ho hs hc

theorem significant_from (h : significant offset ts = ms++l::post) : ∃ us vs, ts = us++vs ∧ trivia vs = [] ∧
    behind offset us = l.start ∧ significant l.start vs = l::post := by
  induction ts generalizing offset ms with
  | nil => simp [significant] at h
  | cons t ts ih =>
    by_cases ht : t.kind.isTrivia = true
    · rw [significant_cons ht] at h
      obtain ⟨us,vs,rfl,hvs,hus,hsig⟩ := ih h
      exact ⟨t::us,vs,rfl,hvs,by rw [← behind_cons,hus],hsig⟩
    · rw [significant_cons_other ht] at h
      cases ms with
      | nil =>
        obtain ⟨rfl,rfl⟩ := List.cons.inj h
        exact ⟨[],t::ts,rfl,trivia_cons_other ht,behind_nil,significant_cons_other ht⟩
      | cons m ms =>
        obtain ⟨us,vs,rfl,hvs,hus,hsig⟩ := ih (List.cons.inj h).2
        exact ⟨t::us,vs,rfl,hvs,by rw [← behind_cons,hus],hsig⟩

theorem significant_upto (h : significant offset ts = ls++post) (hne : ls ≠ []) : ∃ us vs, ts = us++vs ∧
    trivia us = trivia ts ∧ spelling us = trivia ts++extent ls ∧ significant offset us = cut ls := by
  induction ts generalizing offset ls with
  | nil =>
    rw [significant] at h
    exact absurd (List.append_eq_nil_iff.mp h.symm).1 hne
  | cons t ts ih =>
    by_cases ht : t.kind.isTrivia = true
    · rw [significant_cons ht] at h
      obtain ⟨us,vs,rfl,htrivia,hspell,hsig⟩ := ih h hne
      refine ⟨t::us,vs,rfl,?_,?_,?_⟩
      · rw [trivia_cons ht,trivia_cons ht,htrivia]
      · rw [spelling_cons,hspell,trivia_cons ht,List.append_assoc]
      · rw [significant_cons ht,hsig]
    · rw [significant_cons_other ht] at h
      rw [trivia_cons_other ht]
      obtain ⟨l,ls,rfl⟩ := List.exists_cons_of_ne_nil hne
      obtain ⟨rfl,hrest⟩ := List.cons.inj h
      by_cases hls : ls = []
      · subst hls
        refine ⟨[t],ts,rfl,trivia_cons_other ht,by simp [extent],?_⟩
        rw [significant_cons_other ht]
        rfl
      · obtain ⟨us,vs,rfl,htrivia,hspell,hsig⟩ := ih hrest hls
        obtain ⟨m,ns,rfl⟩ := List.exists_cons_of_ne_nil hls
        refine ⟨t::us,vs,rfl,trivia_cons_other ht,?_,?_⟩
        · rw [spelling_cons,hspell,extent_cons hls]
          rfl
        · rw [significant_cons_other ht,hsig,htrivia,Notation.cut]

theorem Carries.partOf (h : Carries (significant offset ts) b) : PartOf offset ts b := by
  obtain ⟨ms,⟨pre,post,hsig⟩,hb⟩ := h
  cases hb with
  | @mk o c ls ho hs hc =>
    rw [List.append_assoc,List.cons_append] at hsig
    obtain ⟨us,ws,rfl,hws,hus,hfrom⟩ := significant_from hsig.symm
    have hblock : significant o.start ws = o::(ls++[c])++post := hfrom
    obtain ⟨ms,vs,rfl,_,hspell,hcut⟩ := significant_upto hblock (by simp)
    refine ⟨us,ms,vs,rfl,by rw [hspell,hws]; rfl,hus.symm,?_⟩
    rw [hcut]
    exact (BlockOf.mk ho hs hc).cut

theorem PartOf.around (h : PartOf (behind offset as) ts b) : PartOf offset (as++(ts++bs)) b := by
  obtain ⟨us,ms,vs,rfl,htext,hstart,hb⟩ := h
  exact ⟨as++us,ms,vs++bs,by simp,htext,by rw [hstart,behind_append],hb⟩

end Parts

/-! Places -/

/-- Tokens that begin at an offset, each with its place. -/
def placed (offset : UInt32) : List Token → List (Token × Span)
  | [] => []
  | t::ts => (t,⟨offset,t.size.toUInt32⟩)::placed (offset+t.size.toUInt32) ts

def covers (outer inner : Span) : Bool := outer.start.toNat ≤ inner.start.toNat && inner.stop.toNat ≤ outer.stop.toNat

section Places
variable {offset : UInt32} {ts us : List Token} {x : Token × Span}

theorem placed_append : placed offset (ts++us) = placed offset ts++placed (behind offset ts) us := by
  induction ts generalizing offset with
  | nil => simp [placed]
  | cons t ts ih => rw [List.cons_append,placed,placed,ih,behind_cons,List.cons_append]

theorem placed_bounds (h : offset.toNat+Utf8.size (spelling ts) < 2^32) (hx : x ∈ placed offset ts) : x.1 ∈ ts ∧
    offset.toNat ≤ x.2.start.toNat ∧ x.2.stop.toNat = x.2.start.toNat+x.1.size ∧
    x.2.stop.toNat ≤ offset.toNat+Utf8.size (spelling ts) := by
  induction ts generalizing offset with
  | nil => contradiction
  | cons t ts ih =>
    have hsize : Utf8.size (spelling (t::ts)) = t.size+Utf8.size (spelling ts) := by simp [Token.size]
    have hadd : (offset+t.size.toUInt32).toNat = offset.toNat+t.size := toNat_add_size (by omega)
    obtain rfl | hmem := List.mem_cons.mp hx
    · exact ⟨List.mem_cons_self,Nat.le_refl _,hadd,by rw [Span.stop,hadd]; omega⟩
    · obtain ⟨hts,hlow,hstop,hhigh⟩ := ih (by omega) hmem
      exact ⟨List.mem_cons_of_mem _ hts,by omega,hstop,by omega⟩

end Places

section Stretches
variable {ts us ms vs : List Token}

/-- The place of tokens that stand behind others. -/
def stretch (us ms : List Token) : Span := ⟨behind 0 us,(Utf8.size (spelling ms)).toUInt32⟩

theorem toNat_behind_zero (h : Utf8.size (spelling us) < 2^32) : (behind 0 us).toNat = Utf8.size (spelling us) := by
  rw [toNat_behind (by rwa [UInt32.toNat_zero,Nat.zero_add]),UInt32.toNat_zero,Nat.zero_add]

theorem stretch_start (h : Utf8.size (spelling us) < 2^32) : (stretch us ms).start.toNat = Utf8.size (spelling us) :=
  toNat_behind_zero h

theorem stretch_stop (h : Utf8.size (spelling us)+Utf8.size (spelling ms) < 2^32) :
    (stretch us ms).stop.toNat = Utf8.size (spelling us)+Utf8.size (spelling ms) := by
  have hstart : (behind 0 us).toNat = Utf8.size (spelling us) := toNat_behind_zero (by omega)
  have hbehind : (behind (behind 0 us) ms).toNat = _ := toNat_behind (by omega)
  rw [← hstart]
  exact hbehind

theorem covers_iff (h : Utf8.size (spelling us)+Utf8.size (spelling ms) < 2^32) : covers (stretch us ms) s = true ↔
    Utf8.size (spelling us) ≤ s.start.toNat ∧ s.stop.toNat ≤ Utf8.size (spelling us)+Utf8.size (spelling ms) := by
  rw [covers,stretch_start (by omega),stretch_stop h]
  simp

theorem placed_part (hpos : ∀ t ∈ us++(ms++vs), 0 < t.size) (hsize : Utf8.size (spelling (us++(ms++vs))) < 2^32) :
    placed (behind 0 us) ms = (placed 0 (us++(ms++vs))).filter fun x => covers (stretch us ms) x.2 := by
  simp only [spelling_append,Utf8.size_append] at hsize
  have hstart : (behind 0 us).toNat = Utf8.size (spelling us) := toNat_behind_zero (by omega)
  have hstop : (behind (behind 0 us) ms).toNat = Utf8.size (spelling us)+Utf8.size (spelling ms) := by
    rw [toNat_behind (by omega),hstart]
  have hcovers : ∀ s, covers (stretch us ms) s = true ↔ _ := fun s => covers_iff (by omega)
  have hbefore : (placed 0 us).filter (fun x => covers (stretch us ms) x.2) = [] := by
    refine List.filter_eq_nil_iff.mpr fun x hx => ?_
    obtain ⟨hmem,_,hend,hhigh⟩ := placed_bounds (by simp; omega) hx
    have := hpos x.1 (by simp [hmem])
    rw [hcovers]
    simp only [UInt32.toNat_zero] at hhigh
    omega
  have hwithin : (placed (behind 0 us) ms).filter (fun x => covers (stretch us ms) x.2) = placed (behind 0 us) ms := by
    refine List.filter_eq_self.mpr fun x hx => ?_
    obtain ⟨_,hlow,_,hhigh⟩ := placed_bounds (by omega) hx
    rw [hcovers]
    omega
  have hafter : (placed (behind (behind 0 us) ms) vs).filter (fun x => covers (stretch us ms) x.2) = [] := by
    refine List.filter_eq_nil_iff.mpr fun x hx => ?_
    obtain ⟨hmem,hlow,hend,_⟩ := placed_bounds (by omega) hx
    have := hpos x.1 (by simp [hmem])
    rw [hcovers]
    omega
  rw [placed_append,placed_append,List.filter_append,List.filter_append,hbefore,hwithin,hafter]
  simp

end Stretches

theorem Module.Holds.partOf {file : String} (hts : Cuts src ts []) (hm : ModuleOf file src (significant 0 ts) m)
    (h : m.Holds b) : PartOf 0 ts b := by
  -- a block that is read has the tokens of its part, so what is found in it is a part of that part
  have hread : ∀ {c d : RawBlock}, PartOf 0 ts c → Carries (significant c.start (scan c.text c.start).tokens) d →
      PartOf 0 ts d := by
    rintro c d ⟨us,ms,vs,rfl,htext,hstart,_⟩ hd
    obtain ⟨_,_,hrest⟩ := hts.split
    obtain ⟨_,hms,_⟩ := hrest.split
    have htokens : (scan c.text c.start).tokens = ms := by rw [htext,hms.alone.scan]
    rw [htokens,hstart] at hd
    exact hd.partOf.around
  induction h with
  | here hb => exact (hm.carries hb).partOf
  | inObject _ hbody hb ih => exact hread ih ((parseObject_ok.mp hbody).2.carries hb)
  | inSet _ hbody hb ih => exact hread ih ((parseSet_ok.mp hbody).2.carries hb)

/-! Blocks in step with their module -/

/-- A block agrees with the module that it stands in. -/
structure InStep (bytes : List UInt8) (m : Module) (b : RawBlock) : Prop where
  /-- The bytes are those of the module, and the bytes of its span those of the block. -/
  source : bytes = Utf8.encode m.source
  part : bytes.extract b.span.start.toNat b.span.stop.toNat = Utf8.encode b.text
  decodes : RawBlock.decode (Utf8.encode b.text) b.start = .ok b
  /-- It stands between a brace and the one that closes it. -/
  braces : ∃ inner, b.text = '\x7b'::(inner++['\x7d'])
  matched : BlockOf (significant b.start (scan b.text b.start).tokens) b
  /-- Alone it has the tokens that the module has there, and at the same places. -/
  scans : (scan b.text b.start).error = none
  tokens : placed b.start (scan b.text b.start).tokens =
    (placed 0 (scan m.source 0).tokens).filter fun x => covers b.span x.2
  errors : ∀ e, b.parseObject = .error e ∨ b.parseSet = .error e → e.code ∉ boundaryCodes

section InStep
variable {offset : UInt32} {src : List Char} {ts us ms vs : List Token} {l : Lexeme} {ls : List Lexeme} {b : RawBlock}

theorem token_mem_of_significant (h : l ∈ significant offset ts) : l.token ∈ ts := by
  induction ts generalizing offset with
  | nil => contradiction
  | cons t ts ih =>
    rw [significant] at h
    split at h
    · exact List.mem_cons_of_mem t (ih h)
    · obtain rfl | h := List.mem_cons.mp h
      · exact List.mem_cons_self
      · exact List.mem_cons_of_mem t (ih h)

theorem extent_append : ∃ s, extent (ls++[l]) = s++l.token.text := by
  induction ls with
  | nil => exact ⟨[],rfl⟩
  | cons m ls ih =>
    obtain ⟨s,hs⟩ := ih
    refine ⟨m.token.text++(m.trail++s),?_⟩
    rw [List.cons_append,extent_cons (by simp),hs]
    simp

theorem BlockOf.braces (hts : Cuts src ts []) (h : BlockOf (significant offset ts) b) :
    ∃ inner, b.text = '\x7b'::(inner++['\x7d']) := by
  have hscanned : ∀ l ∈ significant offset ts, ∃ c r, scanToken c r = .ok l.token :=
    fun l hl => hts.token (token_mem_of_significant hl)
  generalize significant offset ts = ls at h hscanned
  cases h with
  | @mk o c ls ho _ hc =>
    obtain ⟨_,_,hopen⟩ := hscanned o (by simp)
    obtain ⟨_,_,hclose⟩ := hscanned c (by simp)
    obtain ⟨s,hs⟩ : ∃ s, extent (ls++[c]) = s++c.token.text := extent_append
    refine ⟨o.trail++s,?_⟩
    show extent _ = _
    rw [extent_cons (by simp),hs,openCurl_text hopen ho,closeCurl_text hclose hc]
    simp

theorem extract_stretch (h : Utf8.size (spelling us)+Utf8.size (spelling ms) < 2^32) :
    (Utf8.encode (spelling (us++(ms++vs)))).extract (stretch us ms).start.toNat (stretch us ms).stop.toNat =
      Utf8.encode (spelling ms) := by
  rw [stretch_start (by omega),stretch_stop h]
  simp [List.extract_eq_take_drop]

theorem PartOf.inStep (hts : Cuts src ts []) (hsize : Utf8.size src ≤ maxSourceSize) (hm : m.source = src)
    (h : PartOf 0 ts b) : InStep (Utf8.encode src) m b := by
  obtain ⟨us,ms,vs,rfl,htext,hstart,hblock⟩ := h
  obtain ⟨_,_,hrest⟩ := hts.split
  obtain ⟨_,hms,_⟩ := hrest.split
  have halone : Cuts b.text ms [] := htext ▸ hms.alone
  have hscan := halone.scan b.start
  have hspan : b.span = stretch us ms := by rw [RawBlock.span,htext,hstart,stretch]
  have hsrc : src = spelling (us++(ms++vs)) := by simpa using hts.text
  have hsum : Utf8.size src = Utf8.size (spelling us)+(Utf8.size (spelling ms)+Utf8.size (spelling vs)) := by simp [hsrc]
  have hmax : maxSourceSize < 2^32 := by decide
  have hscans : (scan b.text b.start).error = none := by rw [hscan]
  have hmatched : BlockOf (significant b.start (scan b.text b.start).tokens) b := by rwa [hscan]
  refine ⟨by rw [hm],?_,?_,hblock.braces halone,hmatched,hscans,?_,fun e => body_error hscans hmatched⟩
  · rw [hspan,hsrc,htext,extract_stretch (by omega)]
  · rw [RawBlock.decode,decodeSource_ok.mpr ⟨by rw [Utf8.length_encode,htext]; omega,rfl⟩]
    rfl
  · rw [hscan,hm,hts.scan 0,hspan,hstart]
    exact placed_part (fun t => hts.size_pos) (by rw [← hsrc]; omega)

end InStep

theorem ModuleOf.source_eq (h : ModuleOf file src ls m) : m.source = src := by
  cases h
  rfl

/-- Whatever module is read, each block that it holds, however deep, agrees with it. -/
theorem deferred_blocks_in_step {bytes : List UInt8} {file : String} {m : Module} {b : RawBlock}
    (hm : Module.parse bytes file = .ok m) (hb : m.Holds b) : InStep bytes m b := by
  obtain ⟨hsize,src,rfl,hrun⟩ := decodeSource_bind_ok.mp hm
  obtain ⟨herror,hrule⟩ := module_run_ok.mp hrun
  have hcuts := scan_cuts herror
  exact (hb.partOf hcuts hrule).inStep hcuts (by rwa [Utf8.length_encode] at hsize) hrule.source_eq

/-- A body in a set in a body, with braces in a text and in a comment. -/
def nestedBlocks : List UInt8 :=
  Utf8.ofString "M DEFINITIONS ::= BEGIN o C ::= \x7b &s \x7b a | \x7b &t \"\x7d\" \x7d -- \x7d\n \x7d \x7d END"

theorem deferred_blocks_in_step_nestedBlocks : ∃ m b, Module.parse nestedBlocks "m.asn" = .ok m ∧ m.Holds b ∧
    b.text = "\x7b &t \"\x7d\" \x7d".toList ∧ InStep nestedBlocks m b := by
  have hrun : (Module.parse nestedBlocks "m.asn").toOption.any (fun m => m.blocks.any fun b =>
      b.parseObject.toOption.any fun object => object.blocks.any fun c => c.parseSet.toOption.any fun set =>
        set.blocks.any fun d => d.text == "\x7b &t \"\x7d\" \x7d".toList) = true := by
    decide +kernel
  obtain ⟨m,hm,hrun⟩ := exists_of_toOption_any hrun
  obtain ⟨b,hb,hrun⟩ := List.any_eq_true.mp hrun
  obtain ⟨object,hobject,hrun⟩ := exists_of_toOption_any hrun
  obtain ⟨c,hc,hrun⟩ := List.any_eq_true.mp hrun
  obtain ⟨set,hset,hrun⟩ := exists_of_toOption_any hrun
  obtain ⟨d,hd,htext⟩ := List.any_eq_true.mp hrun
  have hholds : m.Holds d := .inSet (.inObject (.here hb) hobject hc) hset hd
  exact ⟨m,d,hm,hholds,eq_of_beq htext,deferred_blocks_in_step hm hholds⟩

end InfoObject.Notation
