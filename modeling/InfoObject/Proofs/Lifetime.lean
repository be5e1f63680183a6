import InfoObject.Proofs.Cycles
import Mathlib.Data.List.Cycle
import Mathlib.Data.List.Forall2
import Mathlib.Data.List.TakeWhile

/-! All that can be done to a chain, in any order. -/
namespace InfoObject.Chain

/-! Operations -/

inductive Op where
  | add (l : Link)
  | mark
  | rewind
  | markErrors
  | rewindErrors
  | report
  | reset
deriving DecidableEq, Repr

/-- What is told of, and the chain that is left. To rewind where no mark is left is refused, and changes nothing. -/
def act (c : Chain) : Op → List CheckError × Chain
  | .add l => ([],(c.add l).2)
  | .mark => ([],c.mark)
  | .rewind => ([],c.rewind.getD c)
  | .markErrors => ([],c.markErrors)
  | .rewindErrors => ([],c.rewindErrors.getD c)
  | .report => c.reportAll
  | .reset => ([],c.reset)

def run (c : Chain) : List Op → List CheckError × Chain
  | [] => ([],c)
  | o::os =>
    let (es,c) := c.act o
    let (fs,c) := c.run os
    (es++fs,c)

/-! Layers: what came after each mark, the latest mark first -/

section Layers
variable {α : Type}

/-- The items of all layers in the order in which they came. -/
def level (ls : List (List α)) : List α := ls.reverse.flatten

/-- One more item after the latest mark. -/
def lay (a : α) : List (List α) → List (List α)
  | [] => [[a]]
  | l::ls => (l++[a])::ls

/-- Drops what came after the latest mark, and the mark. -/
def strip : List (List α) → List (List α)
  | [] => []
  | [l] => [l]
  | _::l::ls => l::ls

def heights : List (List α) → List Nat
  | [] => []
  | [_] => []
  | _::l::ls => (level (l::ls)).length::heights (l::ls)

variable {a : α} {l : List α} {ls : List (List α)}

theorem level_cons : level (l::ls) = level ls++l := by simp [level]

@[simp] theorem level_cons_nil : level ([]::ls) = level ls := by simp [level]

theorem level_lay : level (lay a ls) = level ls++[a] := by
  cases ls with
  | nil => rfl
  | cons l ls => simp [lay,level]

theorem heights_lay : heights (lay a ls) = heights ls := by
  match ls with
  | [] => rfl
  | [_] => rfl
  | _::_::_ => rfl

theorem heights_cons_nil (h : ls ≠ []) : heights ([]::ls) = (level ls).length::heights ls := by
  cases ls with
  | nil => contradiction
  | cons l ls => rfl

theorem lay_ne_nil : lay a ls ≠ [] := by cases ls <;> simp [lay]

theorem strip_ne_nil (h : ls ≠ []) : strip ls ≠ [] := by
  match ls with
  | [_] => simp [strip]
  | _::_::_ => simp [strip]

theorem strip_eq (ls : List (List α)) : heights ls = [] ∧ strip ls = ls ∨
    ∃ n ns, heights ls = n::ns ∧ heights (strip ls) = ns ∧ level (strip ls) = (level ls).take n := by
  match ls with
  | [] => exact .inl ⟨rfl,rfl⟩
  | [_] => exact .inl ⟨rfl,rfl⟩
  | top::l::ls =>
    refine .inr ⟨_,_,rfl,rfl,?_⟩
    rw [strip,level_cons (l := top),List.take_left]

end Layers

/-- The links and the cycles of a chain, in layers. -/
structure Layers where
  links : List (List Link)
  cycles : List (List (List Link))

namespace Layers

def start : Layers := ⟨[[]],[[]]⟩

/-- A link that is there already closes a cycle, which begins with it. -/
def add (y : Layers) (l : Link) : Layers :=
  if l ∈ level y.links then {y with cycles := lay ((level y.links).dropWhile (· ≠ l)) y.cycles}
  else {y with links := lay l y.links}

def act (y : Layers) : Op → Layers
  | .add l => y.add l
  | .mark => {y with links := []::y.links}
  | .rewind => {y with links := strip y.links}
  | .markErrors => {y with cycles := []::y.cycles}
  | .rewindErrors => {y with cycles := strip y.cycles}
  | .report => {y with cycles := [[]]}
  | .reset => start

/-- The cycles that are still kept whenever the chain is asked for them. -/
def kept (y : Layers) : List Op → List (List Link)
  | [] => []
  | .report::os => level y.cycles++(y.act .report).kept os
  | o::os => (y.act o).kept os

end Layers

/-! A chain and its layers -/

/-- A chain counts what lies below each mark. `L` has all links that were ever added, `told` all cycles told of so far. -/
structure Lays (L : Link → Prop) (told : List (List Link)) (y : Layers) (c : Chain) : Prop where
  links : c.links = level y.links
  marks : c.marks = heights y.links
  cycles : c.cycles = level y.cycles
  errorMarks : c.errorMarks = heights y.cycles
  based : y.links ≠ [] ∧ y.cycles ≠ []
  known : (∀ l ∈ c.links, L l) ∧ ∀ z ∈ c.cycles, z ≠ [] ∧ ∀ l ∈ z, L l
  reported : c.reported = (told.map Cycle.keys).reverse
  least : ∀ z ∈ told, z ≠ [] ∧ (∀ l ∈ z, L l) ∧ ∃ w, z = Cycle.canonical w
  once : (told.map Cycle.keys).Nodup

section Lays
variable {L : Link → Prop} {told : List (List Link)} {y : Layers} {c : Chain} {l : Link}

theorem lays_new (description : String) : Lays L [] .start (new description) :=
  ⟨rfl,rfl,rfl,rfl,by simp [Layers.start],by simp [new],rfl,nofun,.nil⟩

theorem Lays.rewind (h : Lays L told y c) : Lays L told (y.act .rewind) (c.rewind.getD c) := by
  obtain ⟨hnone,hstrip⟩ | ⟨n,ns,hn,hns,hlevel⟩ := strip_eq y.links
  · have hstay : c.rewind = none := by simp only [Chain.rewind,h.marks,hnone]
    rw [hstay,Layers.act,hstrip]
    exact h
  · have hback : c.rewind = some {c with links := c.links.take n, marks := ns} := by
      simp only [Chain.rewind,h.marks,hn]
    rw [hback]
    refine {h with links := ?_, marks := hns.symm, based := ⟨strip_ne_nil h.based.1,h.based.2⟩, known := ⟨?_,h.known.2⟩}
    · exact (congrArg _ h.links).trans hlevel.symm
    · exact fun x hx => h.known.1 x (List.mem_of_mem_take hx)

theorem Lays.rewindErrors (h : Lays L told y c) : Lays L told (y.act .rewindErrors) (c.rewindErrors.getD c) := by
  obtain ⟨hnone,hstrip⟩ | ⟨n,ns,hn,hns,hlevel⟩ := strip_eq y.cycles
  · have hstay : c.rewindErrors = none := by simp only [Chain.rewindErrors,h.errorMarks,hnone]
    rw [hstay,Layers.act,hstrip]
    exact h
  · have hback : c.rewindErrors = some {c with cycles := c.cycles.take n, errorMarks := ns} := by
      simp only [Chain.rewindErrors,h.errorMarks,hn]
    rw [hback]
    refine { h with
      cycles := ?_, errorMarks := hns.symm, based := ⟨h.based.1,strip_ne_nil h.based.2⟩, known := ⟨h.known.1,?_⟩}
    · exact (congrArg _ h.cycles).trans hlevel.symm
    · exact fun z hz => h.known.2 z (List.mem_of_mem_take hz)

theorem Lays.reset (h : Lays L told y c) : Lays L told .start c.reset :=
  { h with links := rfl, marks := rfl, cycles := rfl, errorMarks := rfl, based := by simp [Layers.start]
           known := by simp [Chain.reset]}

theorem Lays.report (h : Lays L told y c) : ∃ more, c.reportAll.1 = more.filterMap Cycle.report? ∧
    (∀ z ∈ more, ∃ w ∈ level y.cycles, z ~r w) ∧
    (∀ w ∈ level y.cycles, Cycle.keys (Cycle.canonical w) ∈ (told++more).map Cycle.keys) ∧
    Lays L (told++more) (y.act .report) c.reportAll.2 := by
  obtain ⟨more,hmore⟩ := exists_tells c c.cycles
  have hrest : (more.map Cycle.keys).reverse++c.reported = ((told++more).map Cycle.keys).reverse := by
    rw [h.reported,List.map_append,List.reverse_append]
  have hafter : c.reportAll.2 =
      {c with reported := (more.map Cycle.keys).reverse++c.reported, cycles := [], errorMarks := []} := by
    simp only [reportAll,hmore.rest]
  refine ⟨more,hmore.errors,fun z hz => ?_,fun w hw => ?_,?_⟩
  · obtain ⟨w,hw,rfl⟩ := hmore.origin z hz
    exact ⟨w,h.cycles ▸ hw,(Cycle.canonical_isRotated w).symm⟩
  · have hall := hmore.all w (h.cycles ▸ hw)
    rw [hrest] at hall
    exact List.mem_reverse.mp hall
  · rw [hafter]
    refine { h with
      cycles := rfl, errorMarks := rfl, based := ⟨h.based.1,by simp [Layers.act]⟩, known := ⟨h.known.1,by simp⟩
      reported := hrest, least := fun z hz => ?_, once := ?_}
    · obtain hz | hz := List.mem_append.mp hz
      · exact h.least z hz
      · obtain ⟨w,hw,rfl⟩ := hmore.origin z hz
        obtain ⟨hne,hL⟩ := h.known.2 w hw
        exact ⟨Cycle.canonical_ne_nil hne,fun l hl => hL l ((Cycle.canonical_isRotated w).mem_iff.mpr hl),w,rfl⟩
    · have hfresh := hmore.fresh (by rw [h.reported]; exact List.nodup_reverse.mpr h.once)
      rw [hrest] at hfresh
      exact List.nodup_reverse.mp hfresh

variable (hL : ∀ l l', L l → L l' → l.key = l'.key → l = l')
include hL

section
variable (h : Lays L told y c) (hl : L l)
include h hl

theorem Lays.holds_iff :
    c.holds l = true ↔ l ∈ level y.links := by
  rw [holds,List.any_eq_true,← h.links]
  constructor
  · rintro ⟨x,hx,hk⟩
    rwa [← hL x l (h.known.1 x hx) hl (eq_of_beq hk)]
  · exact fun hmem => ⟨l,hmem,beq_self_eq_true _⟩

theorem Lays.dropWhile_eq :
    c.links.dropWhile (·.key != l.key) = (level y.links).dropWhile (· ≠ l) := by
  rw [← h.links]
  have hknown := h.known.1
  generalize c.links = ls at hknown
  induction ls with
  | nil => rfl
  | cons x ls ih =>
    have hx : (x.key != l.key) = decide (x ≠ l) := by
      rw [Bool.eq_iff_iff,bne_iff_ne,decide_eq_true_iff]
      exact not_congr ⟨hL x l (hknown x List.mem_cons_self) hl,congrArg Link.key⟩
    rw [List.dropWhile_cons,List.dropWhile_cons,hx,ih fun z hz => hknown z (List.mem_cons_of_mem x hz)]

theorem Lays.add :
    Lays L told (y.add l) (c.add l).2 := by
  by_cases hmem : l ∈ level y.links
  · have hclosed : (c.add l).2 = {c with cycles := c.cycles++[(level y.links).dropWhile (· ≠ l)]} := by
      rw [Chain.add,if_pos ((h.holds_iff hL hl).mpr hmem),h.dropWhile_eq hL hl]
    rw [hclosed,Layers.add,if_pos hmem]
    refine {h with cycles := ?_, errorMarks := ?_, based := ⟨h.based.1,lay_ne_nil⟩, known := ⟨h.known.1,?_⟩}
    · rw [level_lay,← h.cycles]
    · rw [heights_lay,← h.errorMarks]
    · intro z hz
      obtain hz | hz := List.mem_append.mp hz
      · exact h.known.2 z hz
      · rw [List.mem_singleton.mp hz]
        refine ⟨fun hnil => ?_,fun x hx => ?_⟩
        · simpa using List.dropWhile_eq_nil_iff.mp hnil l hmem
        · exact h.known.1 x (h.links ▸ (List.dropWhile_sublist _).subset hx)
  · have hopen : (c.add l).2 = {c with links := c.links++[l]} := by
      rw [Chain.add,if_neg (mt (h.holds_iff hL hl).mp hmem)]
    rw [hopen,Layers.add,if_neg hmem]
    refine {h with links := ?_, marks := ?_, based := ⟨lay_ne_nil,h.based.2⟩, known := ⟨?_,h.known.2⟩}
    · rw [level_lay,← h.links]
    · rw [heights_lay,← h.marks]
    · intro x hx
      obtain hx | hx := List.mem_append.mp hx
      · exact h.known.1 x hx
      · exact List.mem_singleton.mp hx ▸ hl

end

theorem Lays.act (h : Lays L told y c) (ho : ∀ l, o = .add l → L l)
    (hr : o ≠ .report) : (c.act o).1 = [] ∧ Lays L told (y.act o) (c.act o).2 := by
  refine ⟨by cases o <;> first | rfl | contradiction,?_⟩
  cases o with
  | add l => exact h.add hL (ho l rfl)
  | mark =>
    exact { h with links := h.links.trans level_cons_nil.symm, based := ⟨by simp [Layers.act],h.based.2⟩
                   marks := by rw [Layers.act,heights_cons_nil h.based.1,← h.links,← h.marks]; rfl}
  | rewind => exact h.rewind
  | markErrors =>
    exact { h with cycles := h.cycles.trans level_cons_nil.symm, based := ⟨h.based.1,by simp [Layers.act]⟩
                   errorMarks := by rw [Layers.act,heights_cons_nil h.based.2,← h.cycles,← h.errorMarks]; rfl}
  | rewindErrors => exact h.rewindErrors
  | report => contradiction
  | reset => exact h.reset

/-- All that is told of in a run: each cycle that is kept when the chain is asked, and nothing else. -/
theorem Lays.run (hos : ∀ l, .add l ∈ os → L l)
    (h : Lays L told y c) : ∃ more y', (c.run os).1 = more.filterMap Cycle.report? ∧ (∀ z ∈ more, ∃ w ∈ y.kept os, z ~r w) ∧
    (∀ w ∈ y.kept os, (∀ l ∈ w, L l) ∧ Cycle.keys (Cycle.canonical w) ∈ (told++more).map Cycle.keys) ∧
    Lays L (told++more) y' (c.run os).2 := by
  induction os generalizing told y c with
  | nil => exact ⟨[],y,rfl,nofun,nofun,by rwa [List.append_nil]⟩
  | cons o os ih =>
    have hrest : ∀ l, .add l ∈ os → L l := fun l hl => hos l (List.mem_cons_of_mem o hl)
    by_cases ho : o = .report
    · subst ho
      obtain ⟨now,hnow,horigin,hall,hlays⟩ := h.report
      obtain ⟨later,y',hlater,hlorigin,hlall,hlast⟩ := ih hrest hlays
      refine ⟨now++later,y',?_,fun z hz => ?_,fun w hw => ?_,by rwa [← List.append_assoc]⟩
      · rw [List.filterMap_append,← hnow,← hlater]
        rfl
      · obtain hz | hz := List.mem_append.mp hz
        · obtain ⟨w,hw,hzw⟩ := horigin z hz
          exact ⟨w,List.mem_append_left _ hw,hzw⟩
        · obtain ⟨w,hw,hzw⟩ := hlorigin z hz
          exact ⟨w,List.mem_append_right _ hw,hzw⟩
      · rw [← List.append_assoc]
        obtain hw | hw := List.mem_append.mp hw
        · refine ⟨(h.known.2 w (h.cycles ▸ hw)).2,?_⟩
          rw [List.map_append]
          exact List.mem_append_left _ (hall w hw)
        · exact hlall w hw
    · obtain ⟨hsilent,hlays⟩ := h.act hL (fun l hl => hos l (hl ▸ List.mem_cons_self)) ho
      obtain ⟨more,y',hmore,horigin,hall,hlast⟩ := ih hrest hlays
      have hkept : y.kept (o::os) = (y.act o).kept os := by cases o <;> first | rfl | contradiction
      have hrun : (c.run (o::os)).1 = (c.act o).1++((c.act o).2.run os).1 := rfl
      rw [hkept]
      exact ⟨more,y',by rw [hrun,hsilent]; exact hmore,horigin,hall,hlast⟩

end Lays

/-! Cycles up to rotation -/

theorem forall₂_report (h : ∀ z ∈ told, z ≠ []) : List.Forall₂ (fun z e => Cycle.report? z = some e) told
    (told.filterMap Cycle.report?) := by
  induction told with
  | nil => exact .nil
  | cons z told ih =>
    obtain ⟨l,ls,rfl⟩ := List.exists_cons_of_ne_nil (h z List.mem_cons_self)
    exact .cons rfl (ih fun w hw => h w (List.mem_cons_of_mem _ hw))

/-- Whatever is done to a chain on which each link has a key of its own, the errors that it gives over its whole life stand
one for one for the cycles, up to rotation, that were kept when it was asked for them. -/
theorem cycles_told_once (description : String) (os : List Op)
    (hkeys : ∀ l l', .add l ∈ os → .add l' ∈ os → l.key = l'.key → l = l') :
    ∃ told : List (List Link), List.Forall₂ (fun z e => Cycle.report? z = some e) told ((new description).run os).1 ∧
      (told.map Cycle.ofList).Nodup ∧
      ∀ z : Cycle Link, z ∈ told.map Cycle.ofList ↔ z ∈ (Layers.start.kept os).map Cycle.ofList := by
  obtain ⟨told,_,herrors,horigin,hall,hlays⟩ :=
    Lays.run (L := fun l => .add l ∈ os) (fun l l' => hkeys l l') (fun _ hl => hl) (lays_new description)
  rw [List.nil_append] at hall hlays
  refine ⟨told,?_,?_,fun z => ?_⟩
  · rw [herrors]
    exact forall₂_report fun z hz => (hlays.least z hz).1
  · have hpair := List.pairwise_map.mp hlays.once
    refine List.pairwise_map.mpr (hpair.imp_of_mem fun {z w} hz hw hne heq => hne ?_)
    -- two of them that are rotations of each other would have one least rotation
    obtain ⟨_,_,z',rfl⟩ := hlays.least z hz
    obtain ⟨_,_,w',rfl⟩ := hlays.least w hw
    have hrotated : Cycle.canonical z' ~r Cycle.canonical w' := Cycle.coe_eq_coe.mp heq
    exact Cycle.keys_canonical
      ((Cycle.canonical_isRotated z').trans (hrotated.trans (Cycle.canonical_isRotated w').symm))
  · constructor
    · intro hz
      obtain ⟨x,hx,rfl⟩ := List.mem_map.mp hz
      obtain ⟨w,hw,hxw⟩ := horigin x hx
      exact List.mem_map.mpr ⟨w,hw,(Cycle.coe_eq_coe.mpr hxw).symm⟩
    · intro hz
      obtain ⟨w,hw,rfl⟩ := List.mem_map.mp hz
      obtain ⟨hadded,hkey⟩ := hall w hw
      obtain ⟨x,hx,hxw⟩ := List.mem_map.mp hkey
      have hrotated := Cycle.canonical_isRotated w
      have heq : x = Cycle.canonical w :=
        Cycle.eq_of_keys (fun l l' => hkeys l l') (hlays.least x hx).2.1 (fun l hl => hadded l (hrotated.mem_iff.mpr hl)) hxw
      exact List.mem_map.mpr ⟨x,hx,Cycle.coe_eq_coe.mpr (heq ▸ hrotated.symm)⟩

def linkAt (key : Nat) (name : String) : Link := ⟨key,name,⟨"m.asn",⟨key.toUInt32,1⟩⟩⟩

/-- The cycle of `A` and `B` is closed at `A`, and after a reset at `B`; then another two links of these names close one, and
one that `C` closes is dropped. -/
def twoPairs : List Op :=
  [.add (linkAt 1 "A"),.add (linkAt 2 "B"),.add (linkAt 1 "A"),.report,.reset,
   .add (linkAt 2 "B"),.mark,.add (linkAt 1 "A"),.add (linkAt 2 "B"),.rewind,.report,.reset,
   .add (linkAt 3 "A"),.add (linkAt 4 "B"),.add (linkAt 3 "A"),.markErrors,
   .add (linkAt 5 "C"),.add (linkAt 5 "C"),.rewindErrors,.rewindErrors,.report]

theorem mem_of_add_twoPairs (h : .add l ∈ twoPairs) : l ∈
    [linkAt 1 "A",linkAt 2 "B",linkAt 3 "A",linkAt 4 "B",linkAt 5 "C"] := by
  simp only [twoPairs,List.mem_cons,reduceCtorEq,Op.add.injEq,List.not_mem_nil] at h ⊢
  tauto

theorem cycles_told_once_twoPairs : (∀ l l', .add l ∈ twoPairs → .add l' ∈ twoPairs → l.key = l'.key → l = l') ∧
    ((new "project").run twoPairs).1.map CheckError.location = [(linkAt 1 "A").location,(linkAt 3 "A").location] ∧
    ∃ told : List (List Link), List.Forall₂ (fun z e => Cycle.report? z = some e) told ((new "project").run twoPairs).1 ∧
      (told.map Cycle.ofList).Nodup ∧
      ∀ z : Cycle Link, z ∈ told.map Cycle.ofList ↔ z ∈ (Layers.start.kept twoPairs).map Cycle.ofList := by
  have hlinks : ∀ l ∈ [linkAt 1 "A",linkAt 2 "B",linkAt 3 "A",linkAt 4 "B",linkAt 5 "C"],
      ∀ l' ∈ [linkAt 1 "A",linkAt 2 "B",linkAt 3 "A",linkAt 4 "B",linkAt 5 "C"], l.key = l'.key → l = l' := by decide
  have hkeys : ∀ l l', .add l ∈ twoPairs → .add l' ∈ twoPairs → l.key = l'.key → l = l' :=
    fun l l' hl hl' => hlinks l (mem_of_add_twoPairs hl) l' (mem_of_add_twoPairs hl')
  exact ⟨hkeys,by decide +kernel,cycles_told_once "project" twoPairs hkeys⟩

end InfoObject.Chain
