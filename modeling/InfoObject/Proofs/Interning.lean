import InfoObject.Name
import InfoObject.Proofs.Tokenization
import Mathlib.Data.List.Dedup
import Mathlib.Data.List.Induction

/-! A registry over all its calls, in any mix of dialects. -/
namespace InfoObject

/-! Spellings -/

/-- Low lines are hyphens again where no other low lines were. -/
theorem replaceChar_cancel (h : b ∉ s.toList) : replaceChar b a (replaceChar a b s) = s := by
  have hchars : ∀ c ∈ s.toList, (if (if c = a then b else c) = b then a else if c = a then b else c) = c := by
    intro c hc
    have hcb : c ≠ b := fun he => h (he ▸ hc)
    by_cases hca : c = a <;> simp [hca,hcb]
  simp only [replaceChar,String.toList_ofList,List.map_map,Function.comp_def]
  rw [List.map_congr_left hchars,List.map_id',String.ofList_toList]

namespace Notation

theorem IdentRest.lowLine_not_mem (h : IdentRest r) : '_' ∉ r := by
  have hne : ∀ {c}, isAlphanumeric c = true → '_' ≠ c := by
    rintro c hc rfl
    revert hc
    decide
  induction h with
  | nil => exact List.not_mem_nil
  | char hc _ ih | hyphen hc _ ih => simpa using ⟨hne hc,ih⟩

theorem Spelled.lowLine_not_mem (h : Spelled .ident cs) : '_' ∉ cs := by
  cases h with
  | ident hc hr =>
    refine List.not_mem_cons_of_ne_of_not_mem ?_ hr.lowLine_not_mem
    rintro rfl
    revert hc
    decide
  | mark hm => revert hm; simp [marks]

end Notation

namespace Registry

/-! Calls -/

/-- What is asked of a registry. -/
inductive Call
  | intern (name : String) (dialect : Dialect)
  | lookup (name : String) (dialect : Dialect)

/-- The name that a call registers, in the form that all dialects share. -/
def Call.interned? : Call → Option String
  | .intern name dialect => some (dialect.canonical name)
  | .lookup _ _ => none

/-- What a call is answered, and the registry behind it. -/
def call (r : Registry) : Call → Option Identifier × Registry
  | .intern name dialect => (some (r.intern name dialect).1,(r.intern name dialect).2)
  | .lookup name dialect => (r.lookup name dialect,r)

def after (calls : List Call) : Registry := calls.foldl (fun r c => (r.call c).2) empty

/-- What the call number `n` is answered. -/
def answer (calls : List Call) (n : Nat) : Option Identifier := calls[n]?.bind fun c => ((after (calls.take n)).call c).1

def interned (calls : List Call) : List String := calls.filterMap Call.interned?

/-- The identifier that the first call to register a name makes of it. -/
def first? (name : String) (calls : List Call) : Option Identifier := calls.findSome? fun
  | .intern spelling dialect => if dialect.canonical spelling = name then some ⟨name,dialect⟩ else none
  | .lookup _ _ => none

section Calls
variable {r : Registry} {calls : List Call} {name spelling : String} {dialect : Dialect} {i : Identifier} {n : Nat}

theorem after_concat (calls : List Call) (c : Call) : after (calls++[c]) = ((after calls).call c).2 := by simp [after]

theorem call_known (h : r.find? (dialect.canonical spelling) = some i) : r.call (.intern spelling dialect) = (some i,r) := by
  simp [call,intern,lookup,h]

theorem call_new (h : r.find? (dialect.canonical spelling) = none) : r.call (.intern spelling dialect) =
    (some ⟨dialect.canonical spelling,dialect⟩,⟨⟨dialect.canonical spelling,dialect⟩::r.entries⟩) := by
  simp [call,intern,lookup,h]

theorem find?_after (calls : List Call) (name : String) : (after calls).find? name = first? name calls := by
  induction calls using List.reverseRecOn with
  | nil => rfl
  | append_singleton calls c ih =>
    rw [after_concat,first?,List.findSome?_append,← first?,← ih]
    cases c with
    | lookup => simp [call]
    | intern spelling dialect =>
      by_cases hname : dialect.canonical spelling = name
      · subst hname
        cases hl : (after calls).find? (dialect.canonical spelling) with
        | some i => simp [call_known hl,hl]
        | none => simp [call_new hl,find?]
      · cases hl : (after calls).find? (dialect.canonical spelling) with
        | some i => simp [call_known hl,hname]
        | none => simp [call_new hl,hname,find?]

theorem first?_name (h : first? name calls = some i) : i.name = name := by
  rw [← find?_after] at h
  simpa using List.find?_some h

theorem names_after (calls : List Call) : (after calls).entries.map (·.name) = (interned calls).reverse.dedup := by
  induction calls using List.reverseRecOn with
  | nil => rfl
  | append_singleton calls c ih =>
    cases c with
    | lookup spelling dialect =>
      have hnames : interned (calls++[.lookup spelling dialect]) = interned calls := by simp [interned,Call.interned?]
      rw [after_concat,hnames,← ih]
      rfl
    | intern spelling dialect =>
      have hnames : interned (calls++[.intern spelling dialect]) = interned calls++[dialect.canonical spelling] := by
        simp [interned,Call.interned?]
      have hmem : (∃ x ∈ (after calls).entries, x.name = dialect.canonical spelling) ↔
          dialect.canonical spelling ∈ (interned calls).reverse := by
        rw [← List.mem_dedup,← ih,List.mem_map]
      rw [after_concat,hnames,List.reverse_append,List.reverse_singleton,List.singleton_append]
      cases hl : (after calls).find? (dialect.canonical spelling) with
      | none =>
        have hout : dialect.canonical spelling ∉ (interned calls).reverse := fun hin => by
          obtain ⟨x,hx,hname⟩ := hmem.mpr hin
          exact List.find?_eq_none.mp hl x hx (by simp [hname])
        rw [call_new hl,List.dedup_cons_of_notMem hout,← ih]
        rfl
      | some i =>
        have hin := hmem.mp ⟨i,List.mem_of_find?_eq_some hl,by simpa using List.find?_some hl⟩
        rw [call_known hl,List.dedup_cons_of_mem hin,ih]

theorem find?_append (h : (after calls).find? name = some i) (more : List Call) :
    (after (calls++more)).find? name = some i := by
  rw [find?_after,first?] at h ⊢
  rw [List.findSome?_append,h,Option.some_or]

/-- A call to register a name is answered what the first such call made of the name, be it the call itself. -/
theorem answer_intern (h : calls[n]? = some (.intern spelling dialect)) :
    answer calls n = first? (dialect.canonical spelling) calls := by
  have hdrop := List.drop_eq_getElem?_toList_append (l := calls) (i := n)
  rw [h] at hdrop
  rw [answer,h,Option.bind_some]
  nth_rewrite 2 [← List.take_append_drop n calls]
  rw [first?,List.findSome?_append,← first?,← find?_after,hdrop]
  cases hl : (after (calls.take n)).find? (dialect.canonical spelling) with
  | some i => simp [call_known hl]
  | none => simp [call_new hl]

theorem exists_answer (h : calls[n]? = some (.intern spelling dialect)) : ∃ i, answer calls n = some i := by
  rw [answer,h,Option.bind_some]
  exact ⟨_,rfl⟩

theorem answer_lookup (h : calls[n]? = some (.lookup spelling dialect)) :
    answer calls n = first? (dialect.canonical spelling) (calls.take n) := by
  rw [answer,h,Option.bind_some,call,lookup,find?_after]

theorem first?_eq_some : first? name calls = some i ↔ ∃ k spelling dialect, calls[k]? = some (.intern spelling dialect) ∧
    dialect.canonical spelling = name ∧ answer calls k = some i := by
  constructor
  · intro h
    obtain ⟨c,hc,hi⟩ := List.exists_of_findSome?_eq_some h
    obtain ⟨k,hk⟩ := List.mem_iff_getElem?.mp hc
    cases c with
    | lookup => contradiction
    | intern spelling dialect =>
      dsimp only at hi
      split at hi
      · rename_i hname
        exact ⟨k,spelling,dialect,hk,hname,by rw [answer_intern hk,hname,h]⟩
      · contradiction
  · rintro ⟨k,spelling,dialect,hk,rfl,hi⟩
    rwa [answer_intern hk] at hi

theorem answer_take (h : k < n) : answer (calls.take n) k = answer calls k := by
  rw [answer,answer,List.getElem?_take_of_lt h,List.take_take,Nat.min_eq_left (Nat.le_of_lt h)]

end Calls

/-- How the calls of a registry are answered. -/
structure Exact (calls : List Call) : Prop where
  origin : ∀ n spelling dialect, calls[n]? = some (.intern spelling dialect) → ∃ i, answer calls n = some i ∧
    first? (dialect.canonical spelling) calls = some i
  same : ∀ n m spelling dialect spelling' dialect', calls[n]? = some (.intern spelling dialect) →
    calls[m]? = some (.intern spelling' dialect') →
    (answer calls n = answer calls m ↔ dialect.canonical spelling = dialect'.canonical spelling')
  found : ∀ n spelling dialect, calls[n]? = some (.lookup spelling dialect) → ∀ i, answer calls n = some i ↔
    ∃ k < n, ∃ spelling' dialect', calls[k]? = some (.intern spelling' dialect') ∧
      dialect'.canonical spelling' = dialect.canonical spelling ∧ answer calls k = some i
  unchanged : ∀ n spelling dialect, calls[n]? = some (.lookup spelling dialect) →
    after (calls.take (n+1)) = after (calls.take n)
  kept : ∀ name i, (after calls).find? name = some i → ∀ more, (after (calls++more)).find? name = some i
  size : (after calls).size = (interned calls).dedup.length

theorem exact (calls : List Call) : Exact calls where
  origin n spelling dialect h := by
    obtain ⟨i,hi⟩ := exists_answer h
    exact ⟨i,hi,answer_intern h ▸ hi⟩
  same n m spelling dialect spelling' dialect' h h' := by
    rw [answer_intern h,answer_intern h']
    refine ⟨fun heq => ?_,fun heq => by rw [heq]⟩
    obtain ⟨i,hi⟩ := exists_answer h
    rw [answer_intern h] at hi
    exact (first?_name hi).symm.trans (first?_name (heq ▸ hi))
  found n spelling dialect h i := by
    rw [answer_lookup h,first?_eq_some]
    constructor
    · rintro ⟨k,spelling',dialect',hk,hname,hi⟩
      have hkn : k < n := (List.getElem?_eq_some_iff.mp hk).1.trans_le (List.length_take_le ..)
      rw [List.getElem?_take_of_lt hkn] at hk
      exact ⟨k,hkn,spelling',dialect',hk,hname,answer_take hkn ▸ hi⟩
    · rintro ⟨k,hkn,spelling',dialect',hk,hname,hi⟩
      exact ⟨k,spelling',dialect',(List.getElem?_take_of_lt hkn).trans hk,hname,(answer_take hkn).trans hi⟩
  unchanged n spelling dialect h := by
    rw [List.take_add_one,h,Option.toList_some,after_concat]
    rfl
  kept _ _ h := find?_append h
  size := by
    rw [size,← List.length_map (·.name),names_after]
    exact (List.reverse_perm _).dedup.length_eq

/-- Whatever a registry is asked, the answers are exact; and whatever it was asked before, an identifier token is registered as
a name whose spelling is the text of the token. -/
theorem interning_exact (calls : List Call) : Exact calls ∧ ∀ (t : Notation.Tokenizer) n token, t.answer n = .ok token →
    token.kind = .ident → ((after calls).intern (String.ofList token.text) .asn).1.asnName = String.ofList token.text := by
  refine ⟨exact calls,fun t n token h hk => ?_⟩
  obtain ⟨hend,_⟩ | ⟨_,_,hlexed⟩ := (Notation.Tokenizer.cut_after h).size
  · rw [hk] at hend
    contradiction
  · have hname : ((after calls).intern (String.ofList token.text) .asn).1.name = Dialect.asn.canonical (String.ofList token.text) :=
      by simpa using List.find?_some ((after calls).lookup_intern (String.ofList token.text) .asn)
    rw [Identifier.asnName,hname]
    exact replaceChar_cancel (by simpa using (hk ▸ hlexed.spelled).lowLine_not_mem)

/-- A name in two dialects, one of them unknown, and a look for a name that is not there yet. -/
def mixedCalls : List Call := [.lookup "a-b" .asn,.intern "a_b" (.other 7),.intern "a-b" .asn,.intern "a-b" .ttcn]

theorem interning_exact_mixedCalls : answer mixedCalls 0 = none ∧ answer mixedCalls 1 = some ⟨"a_b",.other 7⟩ ∧
    answer mixedCalls 1 = answer mixedCalls 2 ∧ answer mixedCalls 2 ≠ answer mixedCalls 3 ∧ (after mixedCalls).size = 2 ∧
    (Notation.Tokenizer.mk ['a','-','b'] 0).answer 0 = .ok ⟨.ident,['a','-','b']⟩ ∧
    ((after mixedCalls).intern (String.ofList ['a','-','b']) .asn).1.asnName = String.ofList ['a','-','b'] := by
  obtain ⟨hexact,hspelling⟩ := interning_exact mixedCalls
  refine ⟨by decide,by decide,(hexact.same 1 2 _ _ _ _ rfl rfl).mpr (by decide),fun h => ?_,hexact.size.trans (by decide),
    rfl,hspelling ⟨['a','-','b'],0⟩ 0 ⟨.ident,['a','-','b']⟩ rfl rfl⟩
  exact absurd ((hexact.same 2 3 _ _ _ _ rfl rfl).mp h) (by decide)

end Registry

end InfoObject
