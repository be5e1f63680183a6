import InfoObject.Proofs.KeepingDefinitions

/-! What is told of names. Resolving names tells of nothing else, so what is told of other things stays as it is. -/
namespace InfoObject

def Diagnostic.code : Diagnostic → Nat
  | error e => e.fault.code
  | warning w => w.code

end InfoObject

namespace InfoObject.Check
open Model

/-! Names -/

section Names
variable {p q r : Pass} {α β : Type} {t : EntityType} {i : Id t}

/-- Codes of what is told of names, and of fields and values by themselves. -/
def plainCodes : List Nat := [3001,3002,3010,3011,3013,3020]

theorem code_of_name (h : Fault.ofName f = true) : f.code ∈ plainCodes := by
  cases f <;> simp [Fault.ofName,Fault.code,plainCodes] at h ⊢

/-- A step that tells of names only, and notes no conflict. -/
structure NamesOnly (p q : Pass) : Prop where
  conflicts : q.conflicts = p.conflicts
  reports : ∃ es, q.reports = es++p.reports ∧ ∀ d ∈ es, d.code ∈ plainCodes

theorem NamesOnly.same (hc : q.conflicts = p.conflicts) (hr : q.reports = p.reports) : NamesOnly p q := ⟨hc,[],hr,by simp⟩

theorem NamesOnly.trans (h : NamesOnly p q) (k : NamesOnly q r) : NamesOnly p r := by
  obtain ⟨es,hes,hall⟩ := h.reports
  obtain ⟨fs,hfs,hall'⟩ := k.reports
  exact ⟨k.conflicts.trans h.conflicts,fs++es,by rw [hfs,hes,List.append_assoc],by grind⟩

def TellsNames (m : Checking α) : Prop := ∀ p a q, Gives m p a q → NamesOnly p q

theorem TellsNames.bind (hm : TellsNames m) (hf : ∀ a, TellsNames (f a)) : TellsNames (m >>= f) := fun p b r h => by
  obtain ⟨a,q,h,k⟩ := gives_bind.mp h
  exact (hm p a q h).trans (hf a q b r k)

theorem TellsNames.pure (a : α) : TellsNames (pure a) := fun _ _ _ h => (gives_pure.mp h).2 ▸ .same rfl rfl

theorem tells_load : TellsNames (load i : Checking (Row t)) :=
  fun _ _ _ h => (gives_load.mp h).2 ▸ .same rfl rfl

theorem tells_save {a : Row t} : TellsNames (save i a) :=
  fun _ _ _ h => gives_save.mp h ▸ .same rfl rfl

theorem tells_build : TellsNames (build b) := fun _ _ _ h => by
  obtain ⟨s,-,rfl⟩ := gives_build.mp h
  exact .same rfl rfl

theorem TellsNames.once [Referring t τ] {id : Id t} {before : Row t → Checking ε} {search : Bool → Row t → ε → Checking τ}
    (hb : ∀ r, TellsNames (before r)) (hs : ∀ b r e, TellsNames (search b r e)) : TellsNames (once id before search) := by
  intro p x q hg
  obtain ⟨r,hr,⟨_,rfl⟩ | ⟨_,e,p1,p2,r2,c,h⟩⟩ := gives_once.mp hg
  · exact .same rfl rfl
  · obtain ⟨hc1,hr1⟩ := hb r _ _ _ h.prepared
    obtain ⟨hc2,hr2⟩ := hs _ _ _ _ _ _ h.searched
    obtain ⟨hc,hr⟩ := NamesOnly.trans (p := p) (q := p1) (r := p2) ⟨hc1,hr1⟩ ⟨hc2,hr2⟩
    exact h.result ▸ ⟨hc,hr⟩

theorem naming : Resolvable (fun m => TellsNames m) fun _ => True where
  pure := .pure
  throw _ := fun _ _ _ h => absurd h gives_throw
  bind := .bind
  ite hm hn := by
    split
    · exact hm
    · exact hn
  load := tells_load
  budget := fun _ _ _ h => (gives_budget.mp h).2 ▸ .same rfl rfl
  lookup := fun _ _ _ h => by
    obtain ⟨_,_,rfl⟩ := gives_lookup.mp h
    exact .same rfl rfl
  tell _ h := fun p _ _ hg => gives_reportError.mp hg ▸ ⟨rfl,[_],rfl,by simpa [Diagnostic.code] using code_of_name h⟩
  standInClass _ := tells_build
  standInObject _ := tells_build
  standInSet _ := tells_build
  onceType hb hs := .once hb fun b r e => hs b r e trivial
  onceValue hb hs := .once hb fun b r e => hs b r e trivial
  onceClass hb hs := .once hb fun b r e => hs b r e trivial
  onceObject hb hs := .once hb fun b r e => hs b r e trivial
  onceSet hb hs := .once hb fun b r e => hs b r e trivial
  governObject hc _ _ := tells_load.bind fun _ => (hc _).bind fun _ => tells_load.bind fun _ => tells_save.bind fun _ => .pure _
  governSet hc _ := tells_load.bind fun _ => (hc _).bind fun _ => tells_load.bind fun _ => tells_save.bind fun _ => .pure _

theorem tells_settingValue (o : Id .objectDef) (name : Identifier) : TellsNames (settingValue o name) :=
  tells_load.bind fun _ => by
    split
    · exact naming.resolveValue _
    · exact .pure _

/-- What is told of other things stays as it was. -/
theorem NamesOnly.filter_eq {P : Diagnostic → Bool} (h : NamesOnly p q)
    (hP : ∀ d : Diagnostic, d.code ∈ plainCodes → P d = false) : q.reports.filter P = p.reports.filter P := by
  obtain ⟨es,hes,hall⟩ := h.reports
  rw [hes,List.filter_append,List.filter_eq_nil_iff.mpr fun d hd => by simp [hP d (hall d hd)],List.nil_append]

end Names

end InfoObject.Check
