import InfoObject.Proofs.DeferredBlocks

/-! Where the nodes of a tree lie. Main statement: a node takes the bytes from its first to its last token and no others, and
the nodes below it stand in their order one behind the other between those. -/
namespace InfoObject

/-- The place behind a span, as a number that does not wrap. -/
def Span.limit (s : Span) : Nat := s.start.toNat+s.length.toNat

theorem Span.toNat_stop {s : Span} (h : s.limit < 2^32) : s.stop.toNat = s.limit := by
  rw [stop,UInt32.toNat_add]
  exact Nat.mod_eq_of_lt h

namespace Notation
open InfoObject.Notation.Parser

/-! Stretches of a source -/

/-- From the first to the last of some tokens. -/
def hull : List Lexeme → Span
  | [] => ⟨0,0⟩
  | l::ls => ⟨l.start,(Utf8.size (extent (l::ls))).toUInt32⟩

/-- Significant tokens that follow one another in a source. -/
def Lies (src : List Char) (ls : List Lexeme) : Prop :=
  Utf8.size src ≤ maxSourceSize ∧ ∃ ts rest, Cuts src ts rest ∧ ls <:+: significant 0 ts

variable {src : List Char} {l : Lexeme} {ls : List Lexeme}

section Lies
variable {m : Lexeme} {ms xs ys : List Lexeme} {ts : List Token} {offset : UInt32}

theorem Lies.within (h : Lies src ls) (hms : ms <:+: ls) : Lies src ms := by
  obtain ⟨hsize,ts,rest,hts,hin⟩ := h
  exact ⟨hsize,ts,rest,hts,hms.trans hin⟩

theorem Lies.left (h : Lies src (xs++ys)) : Lies src xs := h.within ⟨[],ys,rfl⟩

theorem Lies.right (h : Lies src (xs++ys)) : Lies src ys := h.within ⟨xs,[],by simp⟩

theorem Lies.tail (h : Lies src (l::ls)) : Lies src ls := h.within ⟨[l],[],by simp⟩

theorem significant_start (h : significant offset ts = l::ls) : l.start = offset+(Utf8.size (trivia ts)).toUInt32 := by
  induction ts generalizing offset with
  | nil => contradiction
  | cons t ts ih =>
    by_cases ht : t.kind.isTrivia = true
    · rw [significant_cons ht] at h
      simp only [ih h,trivia_cons ht,Utf8.size_append,Token.size,Nat.toUInt32,UInt32.ofNat_add,UInt32.add_assoc]
    · rw [significant_cons_other ht] at h
      obtain ⟨rfl,_⟩ := List.cons.inj h
      simp [trivia_cons_other ht]

theorem significant_step (h : significant offset ts = ms++l::m::ls) :
    m.start = l.start+(Utf8.size (l.token.text++l.trail)).toUInt32 := by
  induction ts generalizing offset ms with
  | nil => simp [significant] at h
  | cons t ts ih =>
    by_cases ht : t.kind.isTrivia = true
    · rw [significant_cons ht] at h
      exact ih h
    · rw [significant_cons_other ht] at h
      cases ms with
      | nil =>
        obtain ⟨rfl,hrest⟩ := List.cons.inj h
        simp only [significant_start hrest,Utf8.size_append,Token.size,Nat.toUInt32,UInt32.ofNat_add,UInt32.add_assoc]
      | cons k ms => exact ih (List.cons.inj h).2

theorem Lies.source (h : Lies src (l::ls)) :
    ∃ pre post, src = pre++(extent (l::ls)++post) ∧ l.start.toNat = Utf8.size pre := by
  obtain ⟨hsize,ts,rest,hts,before,after,hsig⟩ := h
  rw [List.append_assoc,List.cons_append] at hsig
  obtain ⟨us,ws,rfl,hws,hus,hfrom⟩ := significant_from hsig.symm
  have hstretch : significant l.start ws = l::ls++after := hfrom
  obtain ⟨ms,vs,rfl,_,hspell,_⟩ := significant_upto hstretch (by simp)
  have hsrc : src = spelling us++(spelling ms++(spelling vs++rest)) := by simpa using hts.text
  have hmax : maxSourceSize < 2^32 := by decide
  refine ⟨spelling us,spelling vs++rest,?_,?_⟩
  · rwa [hspell,hws,List.nil_append] at hsrc
  · rw [← hus]
    refine toNat_behind_zero ?_
    simp only [hsrc,Utf8.size_append] at hsize
    omega

theorem Lies.size_lt (h : Lies src ls) : Utf8.size src < 2^32 := by
  have hmax : maxSourceSize < 2^32 := by decide
  exact Nat.lt_of_le_of_lt h.1 hmax

theorem Lies.bound (h : Lies src (l::ls)) : l.start.toNat+Utf8.size (extent (l::ls)) ≤ Utf8.size src := by
  obtain ⟨pre,post,hsrc,hstart⟩ := h.source
  simp only [hsrc,hstart,Utf8.size_append]
  omega

theorem Lies.step (h : Lies src (l::m::ls)) : m.start.toNat = l.start.toNat+Utf8.size (l.token.text++l.trail) := by
  have hbound := h.bound
  have hlt := h.size_lt
  obtain ⟨_,ts,_,_,before,after,hsig⟩ := h
  have hpair : significant 0 ts = before++l::m::(ls++after) := by simp [← hsig]
  rw [significant_step hpair,toNat_add_size]
  rw [extent_cons (by simp),← List.append_assoc,Utf8.size_append] at hbound
  omega

theorem Lies.hull_length (h : Lies src ls) : (hull ls).length.toNat = Utf8.size (extent ls) := by
  cases ls with
  | nil => rfl
  | cons l ls =>
    have hbound := h.bound
    have hlt := h.size_lt
    exact UInt32.toNat_ofNat_of_lt (show Utf8.size (extent (l::ls)) < 2^32 by omega)

theorem Lies.limit_le (h : Lies src ls) : (hull ls).limit ≤ Utf8.size src := by
  rw [Span.limit,h.hull_length]
  cases ls with
  | nil => exact Nat.zero_le _
  | cons l ls => exact h.bound

theorem Lies.limit_append (h : Lies src (xs++ys)) (hy : ys ≠ []) : (hull (xs++ys)).limit = (hull ys).limit := by
  induction xs with
  | nil => rfl
  | cons x xs ih =>
    rw [← ih h.tail]
    obtain ⟨z,zs,hz⟩ := List.exists_cons_of_ne_nil (List.append_ne_nil_of_right_ne_nil xs hy)
    rw [List.cons_append,hz] at h ⊢
    rw [Span.limit,Span.limit,h.hull_length,h.tail.hull_length,extent_cons (by simp),← List.append_assoc,Utf8.size_append]
    -- One token more in front makes the stretch longer by as much as it begins earlier.
    have hstep : (hull (z::zs)).start.toNat = (hull (x::z::zs)).start.toNat+_ := h.step
    omega

theorem Lies.limit_le_start (h : Lies src (xs++ys)) (hx : xs ≠ []) (hy : ys ≠ []) :
    (hull xs).limit ≤ (hull ys).start.toNat := by
  induction xs with
  | nil => contradiction
  | cons x xs ih =>
    cases xs with
    | nil =>
      obtain ⟨y,ys,rfl⟩ := List.exists_cons_of_ne_nil hy
      have hstep := h.step
      rw [Utf8.size_append] at hstep
      rw [Span.limit,h.left.hull_length]
      simp only [hull,extent]
      omega
    | cons z zs =>
      have hpair : Lies src ([x]++z::zs) := h.left
      have hlimit : (hull (x::z::zs)).limit = (hull (z::zs)).limit := hpair.limit_append (by simp)
      rw [hlimit]
      exact ih h.tail (by simp)

theorem Lies.start_le (h : Lies src (xs++ys)) (hy : ys ≠ []) : (hull (xs++ys)).start.toNat ≤ (hull ys).start.toNat := by
  cases xs with
  | nil => exact Nat.le_refl _
  | cons x xs =>
    have hle := h.limit_le_start (by simp) hy
    rw [Span.limit] at hle
    exact Nat.le_trans (Nat.le_add_right _ _) hle

theorem Lies.hull_within (h : Lies src ls) (hms : ms <:+: ls) (hne : ms ≠ []) :
    (hull ls).start.toNat ≤ (hull ms).start.toNat ∧ (hull ms).limit ≤ (hull ls).limit := by
  obtain ⟨xs,ys,rfl⟩ := hms
  rw [List.append_assoc] at h ⊢
  have hrest : ms++ys ≠ [] := by simp [hne]
  have hstart : (hull (ms++ys)).start = (hull ms).start := by
    obtain ⟨m,ms,rfl⟩ := List.exists_cons_of_ne_nil hne
    rfl
  refine ⟨hstart ▸ h.start_le hrest,?_⟩
  rw [h.limit_append hrest]
  by_cases hy : ys = []
  · simp [hy]
  · rw [h.right.limit_append hy]
    exact Nat.le_trans (h.right.limit_le_start hne hy) (Nat.le_add_right _ _)

theorem Lies.through (h : Lies src (xs++ys)) (hx : xs ≠ []) (hm : ms <:+ xs++ys) (hne : ms ≠ []) :
    (hull xs).through (hull ms) = hull (xs++ys) := by
  obtain ⟨pre,hpre⟩ := hm
  have hlimit : (hull (xs++ys)).limit = (hull ms).limit := by
    rw [← hpre] at h ⊢
    exact h.limit_append hne
  have hstart : (hull (xs++ys)).start = (hull xs).start := by
    obtain ⟨x,xs,rfl⟩ := List.exists_cons_of_ne_nil hx
    rfl
  -- The length is a difference of two offsets, which must not wrap.
  have hlt : (hull ms).limit < 2^32 := hlimit ▸ Nat.lt_of_le_of_lt h.limit_le h.size_lt
  have hstop := Span.toNat_stop hlt
  rw [← hlimit,Span.limit,hstart] at hstop
  have hle : (hull xs).start ≤ (hull ms).stop := by
    rw [UInt32.le_iff_toNat_le]
    omega
  have hlength : (hull ms).stop-(hull xs).start = (hull (xs++ys)).length := by
    rw [← UInt32.toNat_inj,UInt32.toNat_sub_of_le _ _ hle]
    omega
  rw [Span.through,hlength,← hstart]

theorem Lexeme.span_eq (l : Lexeme) : l.span = hull [l] := rfl

theorem Lies.span_through (h : Lies src (l::(ls++[m]))) : l.span.through m.span = hull (l::(ls++[m])) := by
  have hwhole : Lies src ([l]++(ls++[m])) := h
  have hlast : [m] <:+ [l]++(ls++[m]) := ⟨l::ls,by simp⟩
  rw [l.span_eq,m.span_eq,hwhole.through (by simp) hlast (by simp),List.singleton_append]

theorem Lies.extract (h : Lies src ls) (hne : ls ≠ []) :
    (Utf8.encode src).extract (hull ls).start.toNat (hull ls).limit = Utf8.encode (extent ls) := by
  rw [Span.limit,h.hull_length]
  obtain ⟨l,ls,rfl⟩ := List.exists_cons_of_ne_nil hne
  obtain ⟨pre,post,hsrc,hstart⟩ := h.source
  have hpre : (hull (l::ls)).start.toNat = (Utf8.encode pre).length := by rw [Utf8.length_encode,← hstart]; rfl
  rw [hpre,hsrc,Utf8.encode_append,Utf8.encode_append,List.extract_eq_take_drop,List.drop_left,Nat.add_sub_cancel_left,
    ← Utf8.length_encode,List.take_left]

end Lies

/-! Nodes -/

/-- A node of a tree: its place, its text if that is kept, and the nodes below it in their order. -/
inductive Node where
  | mk (span : Span) (text : Option (List Char)) (children : List Node)

namespace Node

def span : Node → Span
  | mk span _ _ => span

def text : Node → Option (List Char)
  | mk _ text _ => text

def children : Node → List Node
  | mk _ _ children => children

/-- A node and all nodes below it lie where they should in a source of the given bytes. -/
inductive Exact (bytes : List UInt8) : Node → Prop
  | mk {n : Node} (unwrapped : n.span.stop.toNat = n.span.limit) (inside : n.span.limit ≤ bytes.length)
      (text : ∀ t ∈ n.text, bytes.extract n.span.start.toNat n.span.limit = Utf8.encode t)
      (nested : ∀ k ∈ n.children, n.span.start.toNat ≤ k.span.start.toNat ∧ k.span.limit ≤ n.span.limit)
      (ordered : n.children.Pairwise fun a b => a.span.limit ≤ b.span.start.toNat)
      (below : ∀ k ∈ n.children, Exact bytes k) : Exact bytes n

end Node

def Ident.node (i : Ident) : Node := .mk i.span (some i.name.toList) []

def Reference.node (r : Reference) : Node := .mk r.span none ((r.qualifier.toList++[r.name]).map Ident.node)

def RawBlock.node (b : RawBlock) : Node := .mk b.span (some b.text) []

def Payload.node : Payload → Node
  | reference r => r.node
  | int l => .mk l.span (some l.raw.toList) []
  | text l => .mk l.span (some l.raw) []
  | block b => b.node

def FieldDecl.node (f : FieldDecl) : Node :=
  .mk f.span none (f.name.node::(f.governor.toList.map Reference.node++f.default.toList.map Payload.node))

def Assigned.node : Assigned → Node
  | classBody fields span => .mk span none (fields.map FieldDecl.node)
  | classOf object span => .mk span none [object.node]
  | payload p => p.node

def Assignment.node (a : Assignment) : Node :=
  .mk a.span none (a.name.node::(a.governor.toList.map Reference.node++[a.value.node]))

def Import.node (i : Import) : Node := .mk i.span none (i.names.map Ident.node++[i.source.node])

def Module.node (m : Module) : Node :=
  .mk m.span none (m.name.node::(m.imports.map Import.node++m.assignments.map Assignment.node))

def SettingDecl.node (s : SettingDecl) : Node := .mk s.span none [s.name.node,s.payload.node]

def ObjectBody.node (b : ObjectBody) : Node := .mk b.span none (b.settings.map SettingDecl.node)

def ElementDecl.node : ElementDecl → Node
  | reference r => r.node
  | block b => b.node

def SetBody.node (b : SetBody) : Node := .mk b.span none (b.elements.map ElementDecl.node)

/-! Nodes and their tokens -/

/-- A node that was made of some tokens: it lies where they do, and all below it is in place. -/
structure MadeOf (src : List Char) (ls : List Lexeme) (n : Node) : Prop where
  tokens : ls ≠ []
  span : n.span = hull ls
  exact : n.Exact (Utf8.encode src)

/-- Nodes that were made one after the other, with tokens between them that belong to none. -/
inductive Row (src : List Char) : List Lexeme → List Node → Prop
  | nil (ls : List Lexeme) : Row src ls []
  | cons (gap : List Lexeme) {ls ms : List Lexeme} {n : Node} {ns : List Node} (h : MadeOf src ls n) (hs : Row src ms ns) :
      Row src (gap++(ls++ms)) (n::ns)

section Rows
variable {ms : List Lexeme} {n : Node} {ns ks : List Node}

theorem Row.skip (gap : List Lexeme) (h : Row src ls ns) : Row src (gap++ls) ns := by
  cases h with
  | nil => exact .nil _
  | cons gap' h hs =>
    rw [← List.append_assoc]
    exact .cons (gap++gap') h hs

theorem Row.append (h : Row src ls ns) (k : Row src ms ks) : Row src (ls++ms) (ns++ks) := by
  induction h with
  | nil ls => exact k.skip ls
  | cons gap h _ ih =>
    rw [List.append_assoc,List.append_assoc,List.cons_append]
    exact .cons gap h ih

theorem Row.drop (h : Row src ls ns) (ms : List Lexeme) : Row src (ls++ms) ns := by
  simpa using h.append (.nil ms)

theorem MadeOf.row (h : MadeOf src ls n) : Row src ls [n] := by simpa using Row.cons [] h (.nil [])

theorem Row.part (h : Row src ls ns) (hn : n ∈ ns) : ∃ ms, ms <:+: ls ∧ MadeOf src ms n := by
  induction h with
  | nil => contradiction
  | @cons gap ls ms k ks hk _ ih =>
    obtain rfl | hmem := List.mem_cons.mp hn
    · exact ⟨ls,⟨gap,ms,by simp⟩,hk⟩
    · obtain ⟨as,has,hmade⟩ := ih hmem
      exact ⟨as,has.trans ⟨gap++ls,[],by simp⟩,hmade⟩

theorem Row.ordered (h : Row src ls ns) (hlies : Lies src ls) : ns.Pairwise fun a b => a.span.limit ≤ b.span.start.toNat := by
  induction h with
  | nil => exact .nil
  | @cons gap ls ms n ns hn hs ih =>
    have hrest := hlies.right
    refine .cons (fun k hk => ?_) (ih hrest.right)
    obtain ⟨as,⟨xs,ys,rfl⟩,hmade⟩ := hs.part hk
    have hfollows : Lies src ((ls++xs)++as) := by
      have hwhole : Lies src (((ls++xs)++as)++ys) := by simpa using hrest
      exact hwhole.left
    have hall := hfollows.limit_le_start (by simp [hn.tokens]) hmade.tokens
    rw [hn.span,hmade.span]
    exact Nat.le_trans (hfollows.left.hull_within ⟨[],xs,rfl⟩ hn.tokens).2 hall

theorem MadeOf.node {span : Span} (hlies : Lies src ls) (hne : ls ≠ []) (hspan : span = hull ls)
    (htext : ∀ t ∈ text, t = extent ls) (hs : Row src ls ns) : MadeOf src ls (.mk span text ns) := by
  subst hspan
  refine ⟨hne,rfl,.mk ?unwrapped ?inside (fun t ht => ?text) (fun k hk => ?nested) (hs.ordered hlies) fun k hk => ?below⟩
  case unwrapped => exact Span.toNat_stop (Nat.lt_of_le_of_lt hlies.limit_le hlies.size_lt)
  case inside =>
    rw [Utf8.length_encode]
    exact hlies.limit_le
  case text =>
    rw [htext t ht]
    exact hlies.extract hne
  case nested =>
    obtain ⟨ms,hms,hk⟩ := hs.part hk
    rw [hk.span]
    exact hlies.hull_within hms hk.tokens
  case below =>
    obtain ⟨ms,_,hk⟩ := hs.part hk
    exact hk.exact

theorem MadeOf.leaf {span : Span} (hlies : Lies src ls) (hne : ls ≠ []) (hspan : span = hull ls)
    (htext : text = extent ls) : MadeOf src ls (.mk span (some text) []) := by
  refine .node hlies hne hspan (fun t ht => ?_) (.nil ls)
  obtain rfl := Option.mem_some.mp ht
  exact htext

theorem MadeOf.branch {span : Span} (hlies : Lies src ls) (hne : ls ≠ []) (hspan : span = hull ls) (hs : Row src ls ns) :
    MadeOf src ls (.mk span none ns) := .node hlies hne hspan nofun hs

end Rows

/-! The rules -/

section Rules

theorem Lexeme.ident_madeOf (hlies : Lies src [l]) : MadeOf src [l] l.ident.node :=
  .leaf hlies (by simp) rfl (by simp [Lexeme.ident,extent])

theorem Payload.node_span (p : Payload) : p.node.span = p.span := by cases p <;> rfl

theorem Assigned.node_span (x : Assigned) : x.node.span = x.span := by
  cases x with
  | classBody | classOf => rfl
  | payload p => exact p.node_span

variable (hlies : Lies src ls)
include hlies

theorem RefOf.madeOf (h : RefOf ls r) : MadeOf src ls r.node := by
  cases h with
  | plain => exact .branch hlies (by simp) rfl (Lexeme.ident_madeOf hlies).row
  | @qualified a d b =>
    have hall : Lies src (a::([d]++[b])) := hlies
    have hfirst : MadeOf src [a] a.ident.node := Lexeme.ident_madeOf (hall.within ⟨[],[d,b],rfl⟩)
    have hlast : MadeOf src [b] b.ident.node := Lexeme.ident_madeOf (hall.within ⟨[a,d],[],rfl⟩)
    exact .branch hlies (by simp) hall.span_through (.cons [] hfirst (.cons [d] hlast (.nil [])))

theorem BlockOf.madeOf (h : BlockOf ls b) : MadeOf src ls b.node := by
  cases h
  exact .leaf hlies (by simp) rfl rfl

theorem PayloadOf.madeOf (h : PayloadOf ls p) : MadeOf src ls p.node := by
  cases h with
  | reference h | block h => exact h.madeOf hlies
  | int => exact .leaf hlies (by simp) rfl (by simp [extent])
  | text => exact .leaf hlies (by simp) rfl rfl

end Rules

/-! Lists -/

section Lists
variable {α : Type} {as : List α} {Item : List Lexeme → α → Prop}
  {Sep : Lexeme → Prop} {f : α → List Node}

theorem RunOf.row (h : RunOf Item ls as) (hlies : Lies src ls)
    (hitem : ∀ ms a, Item ms a → Lies src ms → Row src ms (f a)) : Row src ls (as.flatMap f) := by
  induction h with
  | nil => exact .nil []
  | cons h _ ih => exact (hitem _ _ h hlies.left).append (ih hlies.right)

theorem ListOf.row (h : ListOf Item Sep ls as) (hlies : Lies src ls)
    (hitem : ∀ ms a, Item ms a → Lies src ms → Row src ms (f a)) : Row src ls (as.flatMap f) := by
  cases h with
  | empty => exact .nil []
  | items h =>
    obtain ⟨hfirst,hrun,_⟩ := h
    refine (hitem _ _ hfirst hlies.left).append ((hrun.row hlies.right.left ?_).drop _)
    rintro _ a ⟨_,ha⟩ hafter
    exact (hitem _ a ha hafter.tail).skip [_]

end Lists

section Declarations

theorem fieldEnd_hull {n : Lexeme} {gs us es : List Lexeme} {governor : Option Reference} {unique optional : Option Span}
    {default : Option Payload} (hlies : Lies src (n::(gs++(us++es)))) (hg : FieldGovernorOf gs governor)
    (hu : FlagOf "UNIQUE" us unique) (he : FieldEndOf es optional default) :
    ∃ ms, ms ≠ [] ∧ ms <:+ n::(gs++(us++es)) ∧ fieldEnd n.ident governor unique optional default = hull ms := by
  cases he with
  | @default l ps p _ hp =>
    have hmade := hp.madeOf (hlies.within ⟨n::(gs++(us++[l])),[],by simp⟩)
    exact ⟨ps,hmade.tokens,⟨n::(gs++(us++[l])),by simp⟩,p.node_span.symm.trans hmade.span⟩
  | @optional l => exact ⟨[l],by simp,⟨n::(gs++us),by simp⟩,rfl⟩
  | none =>
    cases hu with
    | @some l => exact ⟨[l],by simp,⟨n::gs,by simp⟩,rfl⟩
    | none =>
      cases hg with
      | @some l ls r hr =>
        have hmade := hr.madeOf (hlies.within ⟨[n],[],by simp⟩)
        exact ⟨l::ls,by simp,⟨[n],by simp⟩,hmade.span⟩
      | none => exact ⟨[n],by simp,⟨[],rfl⟩,rfl⟩

variable (hlies : Lies src ls)
include hlies

theorem FieldGovernorOf.row (h : FieldGovernorOf ls g) : Row src ls (g.toList.map Reference.node) := by
  cases h with
  | none => exact .nil []
  | some h => exact (h.madeOf hlies).row

theorem FieldEndOf.row {optional : Option Span} {default : Option Payload} (h : FieldEndOf ls optional default) :
    Row src ls (default.toList.map Payload.node) := by
  cases h with
  | none | optional => exact .nil _
  | @default l ps p _ hp => exact (hp.madeOf hlies.tail).row.skip [l]

theorem FieldOf.madeOf (h : FieldOf ls f) : MadeOf src ls f.node := by
  cases h with
  | @mk a n gs us es governor unique optional default _ _ hg hu he =>
    obtain ⟨ms,hne,hms,hend⟩ := fieldEnd_hull hlies.tail hg hu he
    have hall : Lies src ([a]++n::(gs++(us++es))) := hlies
    have hspan := hall.through (by simp) (hms.trans ⟨[a],rfl⟩) hne
    have hname : MadeOf src [n] n.ident.node := Lexeme.ident_madeOf (hlies.within ⟨[a],gs++(us++es),rfl⟩)
    have hrest : Lies src (gs++(us++es)) := hlies.tail.tail
    refine .branch hlies (by simp) (hend ▸ hspan) (.cons [a] hname ?_)
    exact (hg.row hrest.left).append ((he.row hrest.right.right).skip us)

theorem AssignedOf.madeOf (h : AssignedOf ls x) : MadeOf src ls x.node := by
  cases h with
  | @classBody w o c fs fields _ _ hs _ =>
    have hall : Lies src (w::(o::fs++[c])) := hlies
    refine .branch hlies (by simp) hall.span_through (Row.skip [w,o] (Row.drop ?_ [c]))
    rw [List.map_eq_flatMap]
    exact hs.row (hlies.within ⟨[w,o],[c],by simp⟩) fun ms f hf hms => (hf.madeOf hms).row
  | @classOf w o c rs r _ _ hr _ =>
    have hall : Lies src (w::(o::rs++[c])) := hlies
    refine .branch hlies (by simp) hall.span_through (Row.skip [w,o] (Row.drop ?_ [c]))
    exact (hr.madeOf (hlies.within ⟨[w,o],[c],by simp⟩)).row
  | payload hp => exact hp.madeOf hlies

theorem GovernorOf.row (h : GovernorOf ls g) : Row src ls (g.toList.map Reference.node) := by
  cases h with
  | none => exact .nil []
  | some h => exact (h.madeOf hlies).row

theorem AssignmentOf.madeOf (h : AssignmentOf ls a) : MadeOf src ls a.node := by
  cases h with
  | @mk n s gs vs governor value _ _ hg _ hv =>
    have hall : Lies src ([n]++(gs++s::vs)) := hlies
    have hvalue := hv.madeOf (hlies.within ⟨n::(gs++[s]),[],by simp⟩)
    have hspan := hall.through (by simp) ⟨n::(gs++[s]),by simp⟩ hvalue.tokens
    rw [← hvalue.span,Assigned.node_span] at hspan
    refine .branch hlies (by simp) hspan (.cons [] (Lexeme.ident_madeOf hall.left) ?_)
    exact (hg.row hall.right.left).append (hvalue.row.skip [s])

theorem ImportOf.madeOf (h : ImportOf ls i) : MadeOf src ls i.node := by
  cases h with
  | @mk n f s ns names _ hs _ _ =>
    have hall : Lies src (n::((ns++[f])++[s])) := by simpa using hlies
    have hspan := hall.span_through
    have hfirst : MadeOf src [n] n.ident.node := Lexeme.ident_madeOf (hlies.within ⟨[],ns++[f,s],rfl⟩)
    have hlast : MadeOf src [s] s.ident.node := Lexeme.ident_madeOf (hlies.within ⟨n::(ns++[f]),[],by simp⟩)
    have hnames : Row src ns (names.map Ident.node) := by
      rw [List.map_eq_flatMap]
      refine hs.row (hlies.within ⟨[n],[f,s],by simp⟩) ?_
      rintro _ _ ⟨_,⟨_⟩⟩ hafter
      exact (Lexeme.ident_madeOf hafter.tail).row.skip [_]
    exact .branch hlies (by simp) (by simpa using hspan) (.cons [] hfirst (hnames.append (hlast.row.skip [f])))

theorem ImportsOf.row {imports : List Import} (h : ImportsOf ls imports) :
    Row src ls (imports.map Import.node) := by
  cases h with
  | none => exact .nil []
  | @some w s is _ _ hs _ =>
    rw [List.map_eq_flatMap]
    refine Row.skip [w] (Row.drop ?_ [s])
    exact hs.row (hlies.within ⟨[w],[s],by simp⟩) fun ms i hi hms => (hi.madeOf hms).row

theorem ModuleOf.madeOf (h : ModuleOf file src ls m) : MadeOf src ls m.node := by
  cases h with
  | @mk n d a b e is as imports assignments _ _ _ _ hi has _ _ =>
    have hall : Lies src (n::((d::a::b::(is++as))++[e])) := by simpa using hlies
    have hspan := hall.span_through
    have hrest : Lies src (is++(as++[e])) := hlies.within ⟨[n,d,a,b],[],by simp⟩
    have hassignments : Row src as (assignments.map Assignment.node) := by
      rw [List.map_eq_flatMap]
      exact has.row hrest.right.left fun ms x hx hms => (hx.madeOf hms).row
    refine .branch hlies (by simp) (by simpa using hspan) ?_
    refine .cons [] (Lexeme.ident_madeOf (hlies.within ⟨[],_,rfl⟩)) (Row.skip [d,a,b] ?_)
    exact (hi.row hrest.left).append (hassignments.drop [e])

/-! Bodies -/

theorem SettingOf.madeOf (h : SettingOf ls x) : MadeOf src ls x.node := by
  cases h with
  | @mk a n ps p _ _ hp =>
    have hall : Lies src ([a]++n::ps) := hlies
    have hname : MadeOf src [n] n.ident.node := Lexeme.ident_madeOf (hlies.within ⟨[a],ps,rfl⟩)
    have hpayload := hp.madeOf hlies.tail.tail
    have hspan := hall.through (by simp) ⟨[a,n],rfl⟩ hpayload.tokens
    rw [← hpayload.span,Payload.node_span] at hspan
    exact .branch hlies (by simp) hspan (.cons [a] hname hpayload.row)

theorem BracedOf.madeOf {Sep : Lexeme → Prop} (h : BracedOf Item Sep ls (as,span))
    (hitem : ∀ ms a, Item ms a → Lies src ms → Row src ms (f a)) : MadeOf src ls (.mk span none (as.flatMap f)) := by
  cases h with
  | @mk o c is _ _ hs _ =>
    refine .branch hlies (by simp) hlies.span_through (Row.skip [o] (Row.drop ?_ [c]))
    exact hs.row (hlies.within ⟨[o],[c],by simp⟩) hitem

theorem ObjectBodyOf.madeOf (h : ObjectBodyOf ls body) : MadeOf src ls body.node := by
  obtain ⟨h⟩ := h
  rw [ObjectBody.node,List.map_eq_flatMap]
  exact h.madeOf hlies fun ms x hx hms => (hx.madeOf hms).row

theorem ElementOf.row (h : ElementOf ls x) : Row src ls (x.toList.map ElementDecl.node) := by
  cases h with
  | reference h | block h => exact (h.madeOf hlies).row
  | ellipsis => exact .nil _

omit hlies in
theorem map_node_filterMap (xs : List (Option ElementDecl)) :
    (xs.filterMap id).map ElementDecl.node = xs.flatMap fun x => x.toList.map ElementDecl.node := by
  induction xs with
  | nil => rfl
  | cons x xs ih =>
    rw [List.flatMap_cons,← ih]
    cases x with
    | none | some e => rfl

theorem SetBodyOf.madeOf (h : SetBodyOf ls body) : MadeOf src ls body.node := by
  obtain ⟨h⟩ := h
  rw [SetBody.node,map_node_filterMap]
  exact h.madeOf hlies fun ms x hx hms => hx.row hms

end Declarations

/-! Trees of modules and of bodies -/

section Trees
variable {ts us ms : List Token} {offset : UInt32} {m : Module} {b : RawBlock}

theorem significant_append : significant (behind offset us) ms <:+ significant offset (us++ms) := by
  induction us generalizing offset with
  | nil => simp
  | cons t us ih =>
    rw [← behind_cons,List.cons_append]
    by_cases ht : t.kind.isTrivia = true
    · rw [significant_cons ht]
      exact ih
    · rw [significant_cons_other ht]
      exact ih.trans (List.suffix_cons _ _)

theorem PartOf.lies (h : PartOf 0 ts b) (hsize : Utf8.size src ≤ maxSourceSize) (hts : Cuts src ts []) :
    Lies src (significant b.start (scan b.text b.start).tokens) := by
  obtain ⟨us,ms,vs,rfl,htext,hstart,_⟩ := h
  obtain ⟨_,_,hrest⟩ := hts.split
  obtain ⟨_,hms,_⟩ := hrest.split
  rw [← List.append_assoc] at hts
  obtain ⟨rest,hupto,_⟩ := hts.split
  rw [htext,hms.alone.scan,hstart]
  exact ⟨hsize,us++ms,rest,hupto,significant_append.isInfix⟩

theorem parse_tokens (h : Module.parse bytes file = .ok m) : ∃ src ts, bytes = Utf8.encode src ∧
    Utf8.size src ≤ maxSourceSize ∧ Cuts src ts [] ∧ ModuleOf file src (significant 0 ts) m := by
  obtain ⟨hsize,src,rfl,hrun⟩ := decodeSource_bind_ok.mp h
  obtain ⟨herror,hrule⟩ := module_run_ok.mp hrun
  exact ⟨src,_,rfl,by rwa [Utf8.length_encode] at hsize,scan_cuts herror,hrule⟩

theorem parse_exact (h : Module.parse bytes file = .ok m) : m.node.Exact bytes := by
  obtain ⟨src,ts,rfl,hsize,hts,hrule⟩ := parse_tokens h
  exact (hrule.madeOf ⟨hsize,ts,[],hts,List.infix_refl _⟩).exact

theorem Module.Holds.exact {file : String} (h : Module.parse bytes file = .ok m) (hb : m.Holds b) : b.node.Exact bytes ∧
    (∀ body, b.parseObject = .ok body → body.node.Exact bytes ∧ body.span = b.span) ∧ ∀ body, b.parseSet = .ok body →
    body.node.Exact bytes ∧ body.span = b.span := by
  have hmatched := (deferred_blocks_in_step h hb).matched
  obtain ⟨src,ts,rfl,hsize,hts,hrule⟩ := parse_tokens h
  have hlies := (hb.partOf hts hrule).lies hsize hts
  have hblock := hmatched.madeOf hlies
  refine ⟨hblock.exact,fun body hbody => ?_,fun body hbody => ?_⟩
  · have hmade := (parseObject_ok.mp hbody).2.madeOf hlies
    exact ⟨hmade.exact,hmade.span.trans hblock.span.symm⟩
  · have hmade := (parseSet_ok.mp hbody).2.madeOf hlies
    exact ⟨hmade.exact,hmade.span.trans hblock.span.symm⟩

end Trees

end Notation

end InfoObject
