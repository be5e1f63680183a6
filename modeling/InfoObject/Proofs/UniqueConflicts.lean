import InfoObject.Proofs.Accounts
import InfoObject.Proofs.DeferredBlocks
import InfoObject.Proofs.Soundness
import InfoObject.Proofs.LiteralTexts

/-! The comparison of the values of unique fields. -/
namespace InfoObject.Check
open Model

/-- The literal that an object sets a field to, once it is resolved. -/
def worth (p : Pass) (name : Identifier) (o : Id .objectDef) : Option Literal :=
  ((valueOf p.store o name).bind (valueNow p.marker p.store)).join

/-- An object is the first of a list with some value, and another object of the list has that value too. -/
def Clash (w : Id .objectDef → Option Literal) (l : List (Id .objectDef)) (a b : Id .objectDef) : Prop :=
  ∃ v, l.find? (w · = some v) = some a ∧ b ∈ l ∧ b ≠ a ∧ w b = some v

def conflictError (p : Pass) (t : Conflict) : Option Diagnostic := do
  let f ← (← p.store.get? t.owner).fields[t.field]?
  let first ← p.store.get? t.first
  let second ← p.store.get? t.second
  let v ← worth p f.name t.second
  some (.error ⟨.duplicateUniqueValue f.name.display v.render second.name,second.location,some first.location⟩)

/-- Of the conflicts that are so, those are told of that were not before, each once. -/
def Notes (r p q : Pass) (P : Conflict → Prop) : Prop :=
  ∃ ts : List Conflict, ts.Nodup ∧ (∀ t, t ∈ ts ↔ P t ∧ t ∉ p.conflicts) ∧ q.conflicts = ts.reverse++p.conflicts ∧
    ∃ ds : List Diagnostic, ts.map (conflictError r) = ds.map some ∧
      q.reports.filter (·.code = 3014) = ds.reverse++p.reports.filter (·.code = 3014)

section Notes
variable {p q r s : Pass} {P Q : Conflict → Prop}

theorem Notes.congr (h : Notes r p q P) (hP : ∀ t, P t ↔ Q t) : Notes r p q Q := funext (fun t => propext (hP t)) ▸ h

theorem Notes.trans (h : Notes r p q P) (k : Notes r q s Q) : Notes r p s fun t => P t ∨ Q t := by
  obtain ⟨ts,hts,hmem,hc,ds,hds,hr⟩ := h
  obtain ⟨us,hus,hmem',hc',es,hes,hr'⟩ := k
  refine ⟨ts++us,?_,?_,by simp [hc',hc],ds++es,by simp [hds,hes],by simp [hr',hr]⟩
  · refine List.nodup_append'.mpr ⟨hts,hus,fun t ht hu => ?_⟩
    exact ((hmem' t).mp hu).2 (by simp [hc,ht])
  · intro t
    have := hmem t
    have := hmem' t
    simp only [hc,List.mem_append,List.mem_reverse] at this ⊢
    grind

theorem Notes.nothing (h : NamesOnly p q) : Notes r p q fun _ => False := by
  refine ⟨[],List.nodup_nil,by simp,h.conflicts,[],rfl,h.filter_eq fun d hd => decide_eq_false fun hcode => ?_⟩
  simp [hcode,plainCodes] at hd

theorem Notes.then (h : NamesOnly p q) (k : Notes r q s Q) : Notes r p s Q :=
  ((Notes.nothing h).trans k).congr fun _ => by simp

theorem Gives.reportConflict_notes (h : Gives (reportConflict t (.duplicateUniqueValue x y z) l l') p u q)
    (ht : conflictError r t = some (.error ⟨.duplicateUniqueValue x y z,l,some l'⟩)) : Notes r p q (· = t) := by
  obtain ⟨hin,rfl⟩ | ⟨hnot,rfl⟩ := gives_reportConflict.mp h
  · exact ⟨[],List.nodup_nil,fun t' => by grind,rfl,[],rfl,rfl⟩
  · exact ⟨[t],List.nodup_singleton t,fun t' => by grind,rfl,[_],by simpa using ht,rfl⟩

end Notes

/-! One list -/

/-- A clash with an object of the rest of a list. -/
def Later (w : Id .objectDef → Option Literal) (done os : List (Id .objectDef)) (a b : Id .objectDef) : Prop :=
  ∃ v, (done++os).find? (w · = some v) = some a ∧ b ∈ os ∧ b ≠ a ∧ w b = some v

theorem later_cons : Later w done (o::os) a b ↔
    (b = o ∧ b ≠ a ∧ ∃ v, w o = some v ∧ done.find? (w · = some v) = some a) ∨ Later w (done++[o]) os a b := by
  simp only [Later,List.append_assoc,List.singleton_append]
  constructor
  · rintro ⟨v,hfind,hb,hne,hv⟩
    rcases List.mem_cons.mp hb with rfl | hb
    · refine .inl ⟨rfl,hne,v,hv,?_⟩
      rw [List.find?_append] at hfind
      cases hd : done.find? (w · = some v) with
      | some a' => simpa [hd] using hfind
      | none => exact absurd (by simpa [hd,hv] using hfind) hne
    · exact .inr ⟨v,hfind,hb,hne,hv⟩
  · rintro (⟨rfl,hne,v,hv,hfind⟩ | ⟨v,hfind,hb,hne,hv⟩)
    · exact ⟨v,by simp [List.find?_append,hfind],List.mem_cons_self ..,hne,hv⟩
    · exact ⟨v,hfind,List.mem_cons_of_mem _ hb,hne,hv⟩

section Steps
variable {p q r : Pass}

theorem Gives.settingValue_worth (h : Gives (settingValue o name) p v q) (hl : p.chain.links = [])
    (ho : Stamped p.marker p.store o) (g : Grows (fun _ => False) q r) : worth r name o = v := by
  have g1 := (keeps_settingValue o name _ _ _ h).grows hl
  have hval : valueOf r.store o name = valueOf p.store o name :=
    (g1.trans g).valueOf (busyOnly_false fun _ _ => False) ho (fun _ h => h) name
  obtain ⟨row,hrow,_⟩ := stamped_object.mp ho
  simp only [settingValue,gives_bind,gives_load] at h
  obtain ⟨_,_,⟨hrow',rfl⟩,h⟩ := h
  cases hrow.symm.trans hrow'
  rw [worth,hval]
  simp only [valueOf,hrow,Option.bind_eq_bind,Option.bind_some]
  cases hst : row.setting? name with
  | none =>
    simp only [hst,Option.map_none,gives_pure] at h
    simp [h.1]
  | some st =>
    simp only [hst,Option.map_some] at h
    cases hv : st.value with
    | value e =>
      simp only [hv,resolveValue,gives_bind] at h
      obtain ⟨n,p1,_,h⟩ := h
      simp [hv,g.valueNow objectsOnly_false h.valueWithin_found]
    | _ =>
      simp only [hv,gives_pure] at h
      simp [hv,h.1]

theorem Gives.check_again (h : Gives (checkWithin n (.object o)) p u q) (ho : Stamped p.marker p.store o) : q = p := by
  cases n with
  | zero => exact absurd h gives_throw
  | succ n =>
    obtain ⟨row,hrow,hst⟩ := stamped_object.mp ho
    obtain ⟨row',hrow',⟨_,rfl⟩ | ⟨hdue,_⟩⟩ := gives_checkObject.mp (show Gives (checkObject (checkWithin n) o) p u q from h)
    · rfl
    · cases hrow.symm.trans hrow'
      simp [hst] at hdue

/-- What was seen of a list holds the first object of each value. -/
def Holding (w : Id .objectDef → Option Literal) (seen : List (String × Id .objectDef)) (done : List (Id .objectDef)) : Prop :=
  ∀ v : Literal, seen.lookup v.render = done.find? (w · = some v)

theorem Holding.pass (h : Holding w seen done) (ho : ∀ v, w o = some v → done.find? (w · = some v) ≠ none) :
    Holding w seen (done++[o]) := by
  intro v
  rw [h v,List.find?_append]
  by_cases hv : w o = some v
  · obtain ⟨a,ha⟩ := Option.ne_none_iff_exists'.mp (ho v hv)
    simp [ha]
  · simp [hv]

theorem Holding.first (h : Holding w seen done) (hv : w o = some v) (hnone : done.find? (w · = some v) = none) :
    Holding w ((v.render,o)::seen) (done++[o]) := by
  intro v'
  rw [List.lookup_cons,List.find?_append,h v']
  by_cases he : v' = v
  · subst he
    simp [hnone,hv]
  · have hne : (v'.render == v.render) = false := by simpa using fun hr => he (Literal.render_inj hr)
    simp [hne,hv,Ne.symm he]

theorem Gives.checkUniqueField_notes (h : Gives (checkUniqueField (checkWithin n) ci k f seen os) p u q)
    (hl : p.chain.links = []) (hst : ∀ o ∈ done++os, Stamped p.marker p.store o) (g : Grows (fun _ => False) q r)
    (hc : r.store.get? ci = some c) (hf : c.fields[k]? = some f') (hname : f'.name = f.name)
    (hseen : Holding (worth r f.name) seen done) :
    Notes r p q fun t => t.owner = ci ∧ t.field = k ∧ Later (worth r f.name) done os t.first t.second := by
  induction os generalizing p seen done with
  | nil =>
    obtain ⟨_,rfl⟩ := gives_pure.mp h
    exact (Notes.nothing (.same rfl rfl)).congr fun t => by simp [Later]
  | cons o os ih =>
    simp only [checkUniqueField,gives_bind] at h
    obtain ⟨_,p1,h1,v,p2,hv,h⟩ := h
    have ho := hst o (by simp)
    obtain rfl := h1.check_again ho
    have hnames := tells_settingValue _ _ _ _ _ hv
    have k2 := keeps_settingValue _ _ _ _ _ hv
    have g2 := k2.grows hl
    have hl2 := k2.restored.trans hl
    -- the rest of the list, from where the object was compared
    have tail : ∀ {seen' p3}, Kept False p2 p3 → Gives (checkUniqueField (checkWithin n) ci k f seen' os) p3 () q →
        Grows (fun _ => False) p2 r ∧ worth r f.name o = v ∧ (Holding (worth r f.name) seen' (done++[o]) →
          Notes r p3 q fun t => t.owner = ci ∧ t.field = k ∧ Later (worth r f.name) (done++[o]) os t.first t.second) := by
      intro seen' p3 k3 hrest
      have g3 := k3.grows hl2
      have hl3 := k3.restored.trans hl2
      have hall := (g3.trans ((keeps_checkUniqueField (keeps_checkWithin n) _ _ _ _ _ _ _ _ hrest).grows hl3)).trans g
      exact ⟨hall,hv.settingValue_worth hl ho hall,fun hs =>
        ih hrest hl3 (fun a ha => (g2.trans g3).stamped (hst a (by simpa using ha))) hs⟩
    cases v with
    | none =>
      obtain ⟨_,hw,hrest⟩ := tail (.refl _ _) h
      refine ((hrest (hseen.pass (by simp [hw]))).then hnames).congr fun t => ?_
      simp [later_cons,hw]
    | some l =>
      simp only at h
      cases hlook : seen.lookup l.render with
      | none =>
        simp only [hlook] at h
        obtain ⟨_,hw,hrest⟩ := tail (.refl _ _) h
        rw [hseen l] at hlook
        refine ((hrest (hseen.first hw hlook)).then hnames).congr fun t => ?_
        simp [later_cons,hw,hlook]
      | some first =>
        simp only [hlook] at h
        rw [hseen l] at hlook
        by_cases hfirst : first = o
        · subst hfirst
          simp only [if_true] at h
          obtain ⟨_,hw,hrest⟩ := tail (.refl _ _) h
          refine ((hrest (hseen.pass fun v hv => ?_)).then hnames).congr fun t => ?_
          · cases hw.symm.trans hv
            simp [hlook]
          · simp only [later_cons,hw]
            grind
        · simp only [hfirst,if_false,gives_bind,gives_load] at h
          obtain ⟨row,_,⟨hrow,rfl⟩,frow,_,⟨hfrow,rfl⟩,_,p4,hconf,hrest⟩ := h
          obtain ⟨hall,hw,hrest⟩ := tail (keeps_reportConflict _ rfl _ _ _ hconf) hrest
          obtain ⟨row',hrow',hb⟩ := hall.extends.rows _ _ _ hrow
          obtain ⟨frow',hfrow',hb'⟩ := hall.extends.rows _ _ _ hfrow
          obtain ⟨hn,hloc,_⟩ := ObjectDef.bare_eq_iff.mp hb
          obtain ⟨_,hloc',_⟩ := ObjectDef.bare_eq_iff.mp hb'
          have hnote := hconf.reportConflict_notes (r := r)
            (by simp [conflictError,hc,hf,hrow',hfrow',hname,hw,hn,hloc,hloc'])
          refine ((hnote.trans (hrest (hseen.pass fun v hv => ?_))).then hnames).congr fun t => ?_
          · cases hw.symm.trans hv
            simp [hlook]
          · simp only [later_cons,hw]
            cases t
            grind

theorem Gives.forM_notes {α : Type} {l : List α} {f : α → Checking PUnit} {P : α → Conflict → Prop}
    (hk : ∀ x ∈ l, Keeps False (f x))
    (hf : ∀ x ∈ l, ∀ p1 q1, p1.chain.links = [] → Grows (fun _ => False) p p1 → Grows (fun _ => False) q1 r →
      Gives (f x) p1 () q1 → Notes r p1 q1 (P x))
    (h : Gives (l.forM f) p () q) (hl : p.chain.links = []) (g : Grows (fun _ => False) q r) :
    Notes r p q fun t => ∃ x ∈ l, P x t := by
  induction l generalizing p with
  | nil =>
    obtain rfl := gives_forM_nil.mp h
    exact (Notes.nothing (.same rfl rfl)).congr fun t => by simp
  | cons x l ih =>
    obtain ⟨p1,hx,h⟩ := gives_forM_cons.mp h
    obtain ⟨hkx,hkl⟩ := List.forall_mem_cons.mp hk
    obtain ⟨hfx,hfl⟩ := List.forall_mem_cons.mp hf
    have k1 := hkx _ _ _ hx
    have g1 := k1.grows hl
    have hl1 := k1.restored.trans hl
    have g2 := (Keeps.forM hkl _ _ _ h).grows hl1
    have hrest := ih hkl (fun y hy p2 q2 hp2 g2 => hfl y hy p2 q2 hp2 (g1.trans g2)) h hl1
    exact ((hfx p p1 hl (.refl _ _) (g2.trans g) hx).trans hrest).congr fun t => by simp

theorem uniqueFields_bare {c c' : ClassDef} (h : c'.bare = c.bare) (hx : (k,f) ∈ uniqueFields c) :
    ∃ f', (k,f') ∈ uniqueFields c' ∧ f'.name = f.name := by
  have hfields := (ClassDef.bare_eq_iff.mp h).2.2.2.2
  have hindex : ∀ (c : ClassDef) a, c.fieldIndex? a = (c.fields.map Field.bare).findIdx? (·.name == a) := fun c a => by
    rw [List.findIdx?_map,ClassDef.fieldIndex?_eq]
    rfl
  obtain ⟨hu,hi,hk⟩ := mem_uniqueFields.mp hx
  have hk' : (c'.fields.map Field.bare)[k]? = some f.bare := by rw [hfields,List.getElem?_map,hk]; rfl
  rw [List.getElem?_map,Option.map_eq_some_iff] at hk'
  obtain ⟨f',hf',hbare⟩ := hk'
  obtain ⟨hname,_,hshape,_⟩ := Field.bare_eq_iff.mp hbare
  refine ⟨f',mem_uniqueFields.mpr ⟨?_,?_,hf'⟩,hname⟩
  · simpa only [Field.uniqueType?,hshape] using hu
  · rw [hname,hindex,hfields,← hindex,hi]

theorem Gives.checkUnique_notes {ci : Id .classDef} {c : ClassDef} (h : Gives (checkUnique (checkWithin n) ci os) p u q)
    (hl : p.chain.links = []) (hst : ∀ o ∈ os, Stamped p.marker p.store o) (g : Grows (fun _ => False) q r)
    (hc : ∃ cp, p.store.get? ci = some cp ∧ cp.bare = c.bare) :
    Notes r p q fun t => t.owner = ci ∧ ∃ f, (t.field,f) ∈ uniqueFields c ∧ Clash (worth r f.name) os t.first t.second := by
  simp only [checkUnique,gives_bind,gives_load] at h
  obtain ⟨cp,_,⟨hcp,rfl⟩,h⟩ := h
  obtain ⟨_,hcp',hbare⟩ := hc
  cases hcp.symm.trans hcp'
  refine (h.forM_notes (P := fun x t => t.owner = ci ∧ t.field = x.1 ∧ Later (worth r x.2.name) [] os t.first t.second)
    (fun x _ => keeps_checkUniqueField (keeps_checkWithin n) _ _ _ _ _) ?_ hl g).congr fun t => ?_
  · intro x hx p1 q1 hl1 g1 g2 hx1
    have g3 := (keeps_checkUniqueField (keeps_checkWithin n) _ _ _ _ _ _ _ _ hx1).grows hl1
    obtain ⟨cr,hcr,hcb⟩ := ((g1.trans g3).trans g2).extends.rows _ ci cp hcp
    obtain ⟨f',hx',hname⟩ := uniqueFields_bare hcb hx
    exact hx1.checkUniqueField_notes hl1 (fun o ho => g1.stamped (hst o ho)) g2 hcr (mem_uniqueFields.mp hx').2.2 hname
      fun v => rfl
  · constructor
    · rintro ⟨⟨k,f⟩,hx,ho,rfl,hclash⟩
      obtain ⟨f',hx',hname⟩ := uniqueFields_bare hbare.symm hx
      exact ⟨ho,f',hx',hname ▸ hclash⟩
    · rintro ⟨ho,f,hx,hclash⟩
      obtain ⟨f',hx',hname⟩ := uniqueFields_bare hbare hx
      exact ⟨(t.field,f'),hx',ho,rfl,hname.symm ▸ hclash⟩

end Steps

/-- The comparison of the values of the unique fields of a class over lists of objects that were checked. The conflicts that
it tells of are the clashes in some list that were not told of before in the pass, each once. -/
theorem unique_conflicts_noted {n : Nat} {p q : Pass} {ci : Id .classDef} {c : ClassDef} {lists : List (List (Id .objectDef))}
    (h : Gives (lists.forM (checkUnique (checkWithin n) ci)) p () q) (hl : p.chain.links = [])
    (hc : p.store.get? ci = some c) (hst : ∀ l ∈ lists, ∀ o ∈ l, Stamped p.marker p.store o) : ∃ ts : List Conflict, ts.Nodup ∧
      (∀ t, t ∈ ts ↔ t ∉ p.conflicts ∧ t.owner = ci ∧ ∃ l ∈ lists, ∃ f, (t.field,f) ∈ uniqueFields c ∧
        Clash (worth q f.name) l t.first t.second) ∧
      q.conflicts = ts.reverse++p.conflicts ∧ ∃ ds : List Diagnostic, ts.map (conflictError q) = ds.map some ∧
        q.reports.filter (·.code = 3014) = ds.reverse++p.reports.filter (·.code = 3014) := by
  have hnotes := h.forM_notes (r := q) (P := fun l t => t.owner = ci ∧ ∃ f, (t.field,f) ∈ uniqueFields c ∧
    Clash (worth q f.name) l t.first t.second) (fun l _ => keeps_checkUnique (keeps_checkWithin n) _ _)
    (fun l hmem p1 q1 hl1 g1 g2 hx => hx.checkUnique_notes hl1 (fun o ho => g1.stamped (hst l hmem o ho)) g2
      (g1.extends.rows _ ci c hc)) hl (.refl _ _)
  obtain ⟨ts,hnodup,hmem,hrest⟩ := hnotes
  refine ⟨ts,hnodup,fun t => ?_,hrest⟩
  rw [hmem]
  grind

/-- Three objects of which two share a number. -/
def sharedNumber : List (String × String) :=
  [("m.asn","M DEFINITIONS ::= BEGIN C ::= CLASS { &id INTEGER UNIQUE } a C ::= { &id 1 } b C ::= { &id 2 } c C ::= { &id 1 } END")]

def sharedLists : List (List (Id .objectDef)) := [[⟨0⟩,⟨1⟩,⟨2⟩],[⟨2⟩,⟨0⟩,⟨0⟩],[⟨0⟩,⟨2⟩]]

theorem unique_conflicts_noted_sharedNumber : ∃ (p q : Pass) (c : ClassDef) (ts : List Conflict),
    Gives (sharedLists.forM (checkUnique (checkWithin 9) ⟨0⟩)) p () q ∧ p.store.get? (⟨0⟩ : Id .classDef) = some c ∧
    p.conflicts = [] ∧ q.conflicts = ts.reverse ∧ ts.length = 2 ∧ ts.Nodup ∧
    ∀ t, t ∈ ts ↔ t.owner = ⟨0⟩ ∧ ∃ l ∈ sharedLists, ∃ f, (t.field,f) ∈ uniqueFields c ∧
      Clash (worth q f.name) l t.first t.second := by
  have hrun : ((Project.new false).addSources sharedNumber).toOption.any (fun p0 =>
      (sharedLists.flatten.forM (fun o => checkWithin 9 (.object o)) p0.startPass).toOption.any fun r =>
        r.2.chain.links.isEmpty && r.2.conflicts.isEmpty && (r.2.store.get? (⟨0⟩ : Id .classDef)).any (fun _ => true) &&
        (sharedLists.all fun l => l.all fun o => (r.2.store.get? o).any fun o => !o.checked.before r.2.marker) &&
        (sharedLists.forM (checkUnique (checkWithin 9) ⟨0⟩) r.2).toOption.any fun r => r.2.conflicts.length == 2) = true := by
    decide +kernel
  obtain ⟨p0,_,hrun⟩ := Notation.exists_of_toOption_any hrun
  obtain ⟨⟨_,p⟩,_,hrun⟩ := Notation.exists_of_toOption_any hrun
  simp only [Bool.and_eq_true,List.isEmpty_iff,List.all_eq_true] at hrun
  obtain ⟨⟨⟨⟨hl,hnone⟩,hclass⟩,hst⟩,hcheck⟩ := hrun
  obtain ⟨c,hc,_⟩ := (Option.any_eq_true _ _).mp hclass
  obtain ⟨⟨_,q⟩,hq,hlength⟩ := Notation.exists_of_toOption_any hcheck
  obtain ⟨ts,hnodup,hmem,hconf,_⟩ := unique_conflicts_noted hq hl hc fun l hmem o ho => stamped_object.mpr (by
    obtain ⟨row,hrow,hb⟩ := (Option.any_eq_true _ _).mp (hst l hmem o ho)
    exact ⟨row,hrow,by simpa using hb⟩)
  refine ⟨p,q,c,ts,hq,hc,hnone,by simpa [hnone] using hconf,?_,hnodup,by simpa [hnone] using hmem⟩
  simpa [hconf,hnone] using hlength

end InfoObject.Check
