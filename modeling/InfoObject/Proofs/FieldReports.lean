import InfoObject.Proofs.Accounts
import InfoObject.Proofs.Derivations
import InfoObject.Proofs.Rounds
import InfoObject.Proofs.Soundness
import InfoObject.Proofs.Termination

/-! What a check of a project tells of fields of one name. -/
namespace InfoObject.Project
open Model Check

theorem ofRepeat_eq (d : Diagnostic) : ofRepeat d = decide (d.code ∈ [3004,4000]) := by
  cases d with
  | error e =>
    obtain ⟨f,_,_⟩ := e
    cases f with
    | deferredSyntax x =>
      have : x.code < 3000 := by
        unfold Notation.SyntaxFault.code
        split <;> decide
      have hcode : x.code ∉ [3004,4000] := by
        simp only [List.mem_cons,List.not_mem_nil,or_false]
        omega
      exact (decide_eq_false hcode).symm
    | _ => rfl
  | warning w =>
    obtain ⟨c,_⟩ := w
    cases c <;> rfl

/-- A name stands for the first field that has it, and for none if there is none, whatever was asked of the class and however
often it was checked. A search by name or by place that finds nothing tells of it once, and gives the field that stands for
those not found. When a project is checked, all that is told of fields of one name is, for each class that was checked, one
error for each field that is not the first of its name, with the first one, and one warning for each name that is declared
twice. -/
theorem fields_found_by_name {n : Nat} {p : Project} (h : Reached n p) (hn : n+1 < 2^64) :
    (∀ (c : ClassDef) name f, c.field? name = some f ↔
      f.name = name ∧ ∃ l r, c.fields = l++f::r ∧ ∀ g ∈ l, g.name ≠ name) ∧
    (∀ (c : ClassDef) name, c.field? name = none ↔ ∀ f ∈ c.fields, f.name ≠ name) ∧
    (∀ (c : ClassDef) (us : List Use) (told : List CheckError), ∃ d : ClassDef, d.name = c.name ∧ d.fields = c.fields ∧
      us.mapM Use.act ⟨c,told⟩ = (us.map (Use.answer c),⟨d,(us.filterMap (Use.fault? c)).reverse++told⟩)) ∧
    ∃ q : Pass, Gives (checkAll p.duplicates) p.startPass () q ∧ p.runCheck = .ok (p.checkedBy q) ∧
      (∀ (i : Id .classDef) c d, p.store.get? i = some c → q.store.get? i = some d →
        ∀ name, (d.field? name).map Field.bare = (c.field? name).map Field.bare) ∧
      ∃ is : List (Id .classDef), is.Nodup ∧ (∀ i, i ∈ is ↔ Stamped q.marker q.store i) ∧
        (q.reports.filter (·.code ∈ [3004,4000])).Perm (is.flatMap (classShare q.store)) := by
  have hs := h.sound (Nat.lt_of_succ_lt hn)
  obtain ⟨q,hq,hext,_⟩ := h.steady.pass
  have tour := hq.checkAll_tour p.startPass_idle
  obtain ⟨is,hnodup,hmem,hperm⟩ := tour.visited.told (hs.fresh hn)
  refine ⟨fun c _ _ => ClassDef.field?_first,fun c _ => ClassDef.field?_none,fun c us told => ?_,q,hq,
    runCheck_eq_ok.mpr ⟨q,hq,rfl⟩,fun i c d hc hd => field?_extends hext hc hd,is,hnodup,fun i => ?_,?_⟩
  · obtain ⟨d,hd,hrun⟩ := Use.acts_eq us c told
    exact ⟨d,hd.1,hd.2,hrun⟩
  · rw [hmem,tour.marker]
    exact and_iff_left (hs.not_stamped hn)
  · rw [← funext ofRepeat_eq]
    simpa [startPass] using hperm

/-- A field is declared again with another type. -/
def redeclared : List (String × String) :=
  [("m.asn","M DEFINITIONS ::= BEGIN C ::= CLASS { &f INTEGER, &g INTEGER, &f BOOLEAN } END")]

theorem fields_found_by_name_redeclared : ∃ p q, ∃ is : List (Id .classDef), (new false).addSources redeclared = .ok p ∧
    Reached 0 p ∧ 0+1 < 2^64 ∧ Gives (checkAll p.duplicates) p.startPass () q ∧ is.Nodup ∧
    (∀ i, i ∈ is ↔ Stamped q.marker q.store i) ∧ (q.reports.filter (·.code ∈ [3004,4000])).length = 2 ∧
    (q.reports.filter (·.code ∈ [3004,4000])).Perm (is.flatMap (classShare q.store)) := by
  have hrun : ((new false).addSources redeclared).toOption.any (fun p =>
      (checkAll p.duplicates p.startPass).toOption.any fun r => (r.2.reports.filter (·.code ∈ [3004,4000])).length == 2) = true := by
    decide +kernel
  obtain ⟨p,hp,hrun⟩ := Notation.exists_of_toOption_any hrun
  obtain ⟨⟨_,r⟩,hr,hlength⟩ := Notation.exists_of_toOption_any hrun
  have hreached := (Reached.new false).addSources hp
  obtain ⟨_,_,_,q,hq,_,_,is,hnodup,hmem,hperm⟩ := fields_found_by_name hreached (by decide)
  obtain rfl : q = r := congrArg Prod.snd (Except.ok.inj (hq.symm.trans hr))
  exact ⟨p,q,is,hp,hreached,by decide,hq,hnodup,hmem,by simpa using hlength,hperm⟩

end InfoObject.Project
