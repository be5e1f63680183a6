import InfoObject.Model.FieldTable
import InfoObject.Proofs.Shape
import Mathlib.Data.List.Nodup

/-! The fields of a class by name, and what is told of those that share a name. -/
namespace InfoObject.Check
open Model

section Fields
variable {c d : ClassDef} {f first : Field} {n : Identifier} {k : Nat} {p q : Pass}

theorem ClassDef.field?_eq_some : c.field? n = some f ↔ ∃ k, c.fieldIndex? n = some k ∧ c.fields[k]? = some f :=
  Option.bind_eq_some_iff

theorem ClassDef.name_of_field? (h : c.field? n = some f) : f.name = n := by
  rw [ClassDef.field?_eq] at h
  simpa using List.find?_some h

theorem mem_firstFields : f ∈ firstFields c ↔ c.field? f.name = some f := by
  simp only [firstFields,List.mem_filterMap,Prod.exists,ClassDef.field?_eq_some,List.mem_zipIdx_iff_getElem?]
  constructor
  · rintro ⟨g,k,hk,h⟩
    split at h
    · rename_i hi
      obtain rfl := Option.some.inj h
      exact ⟨k,hi,hk⟩
    · contradiction
  · rintro ⟨k,hi,hk⟩
    exact ⟨f,k,hk,by simp [hi]⟩

/-! Fields of one name -/

/-- The fields that have the name of an earlier one, in the order of the class. -/
def repeats (c : ClassDef) : List Field :=
  (c.fields.zipIdx.filter fun (f,k) => ∃ g ∈ c.fields.take k, g.name = f.name).map Prod.fst

def repeatError (c : ClassDef) (f : Field) : Diagnostic :=
  .error ⟨.duplicateField f.name.display c.name,f.location,(c.field? f.name).map Field.location⟩

def firstWarning (f : Field) : Diagnostic := .warning ⟨.declaredHere f.name.display,f.location⟩

/-- One error for each field that repeats a name, with the place of the first one, and one warning for each name that is
repeated, at its first field. -/
def redeclarations (c : ClassDef) : List Diagnostic :=
  (repeats c).map (repeatError c)++((firstFields c).filter fun f => ∃ g ∈ repeats c, g.name = f.name).map firstWarning

theorem ClassDef.field?_bare (c : ClassDef) (n : Identifier) : c.bare.field? n = (c.field? n).map Field.bare := by
  rw [ClassDef.field?_eq,ClassDef.field?_eq,ClassDef.bare,List.find?_map]
  rfl

theorem redeclarations_bare (c : ClassDef) : redeclarations c.bare = redeclarations c := by
  have hname : ∀ f : Field, f.bare.name = f.name := fun _ => rfl
  have hfields : c.bare.fields = c.fields.map Field.bare := rfl
  have hindex : ∀ n, c.bare.fieldIndex? n = c.fieldIndex? n := fun n => by
    rw [ClassDef.fieldIndex?_eq,ClassDef.fieldIndex?_eq,hfields,List.findIdx?_map]
    rfl
  have hrepeats : repeats c.bare = (repeats c).map Field.bare := by
    simp [repeats,hfields,List.zipIdx_map,List.filter_map,← List.map_take,Function.comp_def,hname]
  have hfirsts : firstFields c.bare = (firstFields c).map Field.bare := by
    simp only [firstFields,hindex,hfields,List.zipIdx_map,List.filterMap_map,List.map_filterMap,Function.comp_def,Prod.map_fst,
      Prod.map_snd,id,hname]
    congr
    ext
    simp
  simp only [redeclarations,repeatError,hrepeats,hfirsts,ClassDef.field?_bare,List.filter_map,List.map_map,Function.comp_def,
    Option.map_map,List.mem_map,exists_exists_and_eq_and,hname]
  rfl

theorem fieldIndex?_eq_some (hk : c.fields[k]? = some f) :
    c.fieldIndex? f.name = some k ↔ ∀ g ∈ c.fields.take k, g.name ≠ f.name := by
  obtain ⟨hlt,rfl⟩ := List.getElem?_eq_some_iff.mp hk
  simp only [ClassDef.fieldIndex?_eq,List.findIdx?_eq_some_iff_getElem,List.mem_take_iff_getElem]
  constructor
  · rintro ⟨_,_,h⟩ g ⟨j,hj,rfl⟩
    simpa using h j (by omega)
  · intro h
    exact ⟨hlt,by simp,fun j hj => by simpa using h _ ⟨j,by omega,rfl⟩⟩

/-- The fields that repeat a name, each with the first one of the name. -/
def duplicateFields (c : ClassDef) : List (Field × Field) := (repeats c).filterMap fun f => (c.field? f.name).map ((f,·))

theorem exists_first (hf : f ∈ c.fields) : ∃ first, c.field? f.name = some first := by
  rw [← Option.isSome_iff_exists,ClassDef.field?_eq,List.find?_isSome]
  exact ⟨f,hf,by simp⟩

theorem mem_fields_of_repeats (hf : f ∈ repeats c) : f ∈ c.fields := by
  obtain ⟨x,hx,rfl⟩ := List.mem_map.mp hf
  exact List.fst_mem_of_mem_zipIdx (List.mem_filter.mp hx).1

/-- Each field that repeats a name is told of together with the first of that name. -/
theorem duplicateFields?_eq (c : ClassDef) : duplicateFields? c = some (duplicateFields c) := by
  have hfilter : (c.fields.zipIdx.filter fun (f,k) => c.fieldIndex? f.name ≠ some k) =
      c.fields.zipIdx.filter fun (f,k) => ∃ g ∈ c.fields.take k, g.name = f.name := by
    refine List.filter_congr fun x hx => decide_eq_decide.mpr ?_
    rw [Ne,fieldIndex?_eq_some (List.mem_zipIdx_iff_getElem?.mp hx)]
    simp
  have hall : ∀ f ∈ repeats c, ∃ first, c.field? f.name = some first := fun f hf => exists_first (mem_fields_of_repeats hf)
  rw [duplicateFields?,duplicateFields,repeats,hfilter]
  unfold repeats at hall
  generalize c.fields.zipIdx.filter _ = l at hall ⊢
  induction l with
  | nil => rfl
  | cons x l ih =>
    obtain ⟨⟨first,hx⟩,hl⟩ := List.forall_mem_cons.mp hall
    simp [hx,ih hl]

theorem mem_duplicateFields_iff : x ∈ duplicateFields c ↔ x.1 ∈ repeats c ∧ c.field? x.1.name = some x.2 := by
  rw [duplicateFields,List.mem_filterMap]
  constructor
  · rintro ⟨f,hf,h⟩
    obtain ⟨first,hfirst,rfl⟩ := Option.map_eq_some_iff.mp h
    exact ⟨hf,hfirst⟩
  · rintro ⟨hf,hfirst⟩
    exact ⟨x.1,hf,by simp [hfirst]⟩

theorem repeatErrors_eq (c : ClassDef) : (duplicateFields c).map (fun x => repeatError c x.1) = (repeats c).map (repeatError c) := by
  have hall : ∀ f ∈ repeats c, ((c.field? f.name).map ((f,·))).map (fun x => repeatError c x.1) = some (repeatError c f) :=
    fun f hf => by
      obtain ⟨first,hfirst⟩ := exists_first (mem_fields_of_repeats hf)
      rw [hfirst]
      rfl
  rw [duplicateFields,List.map_filterMap,List.filterMap_congr hall,← List.filterMap_eq_map]
  rfl

/-- The first fields of the names that are repeated, but for the names that were noted. -/
def warned (noted : List Identifier) : List (Field × Field) → List Field
  | [] => []
  | (f,first)::l => if f.name ∈ noted then warned (f.name::noted) l else first::warned (f.name::noted) l

theorem mem_warned {l : List (Field × Field)} (hl : ∀ x ∈ l, c.field? x.1.name = some x.2) :
    f ∈ warned noted l ↔ ∃ g, (g,f) ∈ l ∧ g.name ∉ noted := by
  induction l generalizing noted with
  | nil => simp [warned]
  | cons x l ih =>
    obtain ⟨g,first⟩ := x
    obtain ⟨hg,hl⟩ := List.forall_mem_cons.mp hl
    have same : ∀ h, (h,f) ∈ l → h.name = g.name → f = first := fun h hh hn =>
      Option.some.inj ((hl _ hh).symm.trans (hn ▸ hg))
    unfold warned
    split
    · grind
    · grind

theorem nodup_warned {l : List (Field × Field)} (hl : ∀ x ∈ l, c.field? x.1.name = some x.2) : (warned noted l).Nodup := by
  induction l generalizing noted with
  | nil => exact List.nodup_nil
  | cons x l ih =>
    obtain ⟨hx,hl⟩ := List.forall_mem_cons.mp hl
    unfold warned
    split
    · exact ih hl
    · refine List.nodup_cons.mpr ⟨fun hf => ?_,ih hl⟩
      obtain ⟨g,hg,hnoted⟩ := (mem_warned hl).mp hf
      have hname := ClassDef.name_of_field? (hl _ hg)
      exact hnoted (List.mem_cons.mpr (.inl (hname.symm.trans (ClassDef.name_of_field? hx))))

theorem nodup_firstFields (c : ClassDef) : (firstFields c).Nodup := by
  refine List.Nodup.filterMap (fun x y f hx hy => ?_) (.of_map Prod.snd ?_)
  · simp only [Option.mem_def,Option.ite_none_right_eq_some,Option.some.injEq] at hx hy
    obtain ⟨⟨hi,rfl⟩,hj,hxy⟩ := And.intro hx hy
    rw [hxy] at hj
    exact Prod.ext hxy.symm (Option.some.inj (hi.symm.trans hj))
  · rw [List.zipIdx_map_snd]
    exact List.nodup_range'

theorem warned_perm (c : ClassDef) :
    (warned [] (duplicateFields c)).Perm ((firstFields c).filter fun f => ∃ g ∈ repeats c, g.name = f.name) := by
  have hpairs : ∀ x ∈ duplicateFields c, c.field? x.1.name = some x.2 := fun _ hx => (mem_duplicateFields_iff.mp hx).2
  rw [List.perm_ext_iff_of_nodup (nodup_warned hpairs) ((nodup_firstFields c).filter _)]
  intro f
  simp only [mem_warned hpairs,mem_duplicateFields_iff,List.mem_filter,mem_firstFields,decide_eq_true_eq]
  constructor
  · rintro ⟨g,⟨hg,hf⟩,_⟩
    have hname := ClassDef.name_of_field? hf
    exact ⟨hname ▸ hf,g,hg,hname.symm⟩
  · rintro ⟨hf,g,hg,hname⟩
    exact ⟨g,⟨hg,hname ▸ hf⟩,List.not_mem_nil⟩

theorem Gives.reportDuplicates {l : List (Field × Field)} (h : Gives (reportDuplicates c.name noted l) p u q)
    (hl : ∀ x ∈ l, c.field? x.1.name = some x.2) : ∃ ds, q = {p with reports := ds++p.reports} ∧
      ds.Perm (l.map (fun x => repeatError c x.1)++(warned noted l).map firstWarning) := by
  induction l generalizing noted p with
  | nil => exact ⟨[],(gives_pure.mp h).2,.nil⟩
  | cons x l ih =>
    obtain ⟨f,first⟩ := x
    obtain ⟨hx,hl⟩ := List.forall_mem_cons.mp hl
    have herror : repeatError c f = .error ⟨.duplicateField f.name.display c.name,f.location,some first.location⟩ := by
      simp [repeatError,hx]
    unfold Check.reportDuplicates at h
    unfold warned
    split at h
    · rename_i hin
      simp only [gives_bind,gives_reportError] at h
      obtain ⟨_,_,rfl,h⟩ := h
      obtain ⟨ds,rfl,hds⟩ := ih h hl
      refine ⟨ds++[repeatError c f],by simp [herror],?_⟩
      rw [if_pos hin]
      exact (List.perm_append_singleton _ _).trans (.cons _ hds)
    · rename_i hnew
      simp only [gives_bind,gives_reportError,reportWarning,gives_report] at h
      obtain ⟨_,_,rfl,_,_,rfl,h⟩ := h
      obtain ⟨ds,rfl,hds⟩ := ih h hl
      have hwarning : firstWarning first = .warning ⟨.declaredHere f.name.display,first.location⟩ := by
        rw [firstWarning,ClassDef.name_of_field? hx]
      refine ⟨ds++[repeatError c f,firstWarning first],by simp [herror,hwarning],?_⟩
      rw [if_neg hnew]
      refine List.perm_append_comm.trans (.cons _ ?_)
      exact (hds.cons _).trans List.perm_middle.symm

theorem Gives.reportDuplicates_all (h : Gives (Check.reportDuplicates c.name [] (duplicateFields c)) p u q) :
    ∃ ds, ds.Perm (redeclarations c) ∧ q = {p with reports := ds++p.reports} := by
  obtain ⟨ds,hq,hds⟩ := h.reportDuplicates fun _ hx => (mem_duplicateFields_iff.mp hx).2
  rw [repeatErrors_eq] at hds
  exact ⟨ds,hds.trans (((warned_perm c).map _).append_left _),hq⟩

/-! What is told of fields of one name -/

def ofRepeat : Diagnostic → Bool
  | .error ⟨.duplicateField _ _,_,_⟩ => true
  | .warning ⟨.declaredHere _,_⟩ => true
  | _ => false

theorem ofRepeat_redeclarations {d : Diagnostic} (hd : d ∈ redeclarations c) : ofRepeat d = true := by
  rcases List.mem_append.mp hd with hd | hd <;> obtain ⟨f,_,rfl⟩ := List.mem_map.mp hd <;> rfl

/-- What is told of fields of one name has an error in it. -/
theorem redeclarations_silent {ds : List Diagnostic} (h : ds.Perm (redeclarations c)) (hno : ∀ e, Diagnostic.error e ∉ ds) : ds = [] := by
  have hrepeats : repeats c = [] := List.eq_nil_iff_forall_not_mem.mpr fun f hf =>
    hno _ (h.symm.subset (List.mem_append_left _ (List.mem_map_of_mem hf)))
  rw [redeclarations,hrepeats] at h
  simpa using h

/-- What is to be told of a class once it is checked. -/
def classShare (s : Store) (i : Id .classDef) : List Diagnostic :=
  match s.get? i with
  | some c => if c.erroneous then [] else redeclarations c
  | none => []

theorem classShare_congr {s s' : Store} {i : Id .classDef} (hc : s.get? i = some c) (hd : s'.get? i = some d)
    (hb : d.bare = c.bare) : classShare s' i = classShare s i := by
  simp only [classShare,hc,hd,(ClassDef.bare_eq_iff.mp hb).2.2.1]
  rw [← redeclarations_bare d,hb,redeclarations_bare]

/-! Searches -/

theorem ClassDef.field?_first : c.field? n = some f ↔ f.name = n ∧ ∃ l r, c.fields = l++f::r ∧ ∀ g ∈ l, g.name ≠ n := by
  rw [ClassDef.field?_eq,List.find?_eq_some_iff_append]
  simp

theorem ClassDef.field?_none : c.field? n = none ↔ ∀ f ∈ c.fields, f.name ≠ n := by
  simp [ClassDef.field?_eq]

theorem field?_extends {s s' : Store} {i : Id .classDef} (h : Extends s s') (hc : s.get? i = some c) (hd : s'.get? i = some d)
    (n : Identifier) : (d.field? n).map Field.bare = (c.field? n).map Field.bare := by
  obtain ⟨d',hd',hbare⟩ := h.rows _ i c hc
  cases hd.symm.trans hd'
  rw [← ClassDef.field?_bare,← ClassDef.field?_bare,show d.bare = c.bare from hbare]

/-- What may be done with a class: fields are searched by name or by place, and the class is checked. -/
inductive Use where
  | name (n : Identifier) (l : Location)
  | place (k : Int) (l : Location)
  | check (now : Marker)

def Use.act : Use → Searching (Option Field)
  | .name n l => some <$> fieldNamed n l
  | .place k l => some <$> fieldAt k l
  | .check now => do
    modify fun s => {s with owner := s.owner.visited now}
    pure none

/-- The first field of a name, or the field at a place; or else the field that stands for those not found. -/
def Use.answer (c : ClassDef) : Use → Option Field
  | .name n _ => some ((c.fields.find? (·.name == n)).getD erroneousField)
  | .place k _ => some ((if 0 ≤ k then c.fields[k.toNat]? else none).getD erroneousField)
  | .check _ => none

def Use.fault? (c : ClassDef) : Use → Option CheckError
  | .name n l => if ∃ f ∈ c.fields, f.name = n then none else some ⟨.fieldNameNotFound n.display c.name,l,none⟩
  | .place k l => if 0 ≤ k ∧ k.toNat < c.fields.length then none
    else some ⟨.fieldIndexOutOfRange k c.fields.length c.name,l,none⟩
  | .check _ => none

/-- What is asked of a class changes no more of it than its index. -/
def SameFields (c d : ClassDef) : Prop := d.name = c.name ∧ d.fields = c.fields

theorem sameFields_searched (c : ClassDef) : SameFields c c.searched := by
  unfold ClassDef.searched
  split <;> exact ⟨rfl,rfl⟩

theorem Use.name_eq (n : Identifier) (l : Location) (told : List CheckError) :
    Use.act (.name n l) ⟨c,told⟩ = (Use.answer c (.name n l),⟨c.searched,((Use.name n l).fault? c).toList++told⟩) := by
  have hfind : c.searched.field? n = c.fields.find? (·.name == n) := by rw [ClassDef.field?_eq,(sameFields_searched c).2]
  change Id.run (StateT.run (Use.act (.name n l)) ⟨c,told⟩) = _
  cases hf : c.fields.find? (·.name == n) with
  | some f =>
    have hany : ∃ g ∈ c.fields, g.name = n := ⟨f,List.mem_of_find?_eq_some hf,by simpa using List.find?_some hf⟩
    rw [Use.answer,Use.fault?,hf,if_pos hany]
    simp [Use.act,fieldNamed,lookupField,hfind,hf]
  | none =>
    have hnone : ¬ ∃ g ∈ c.fields, g.name = n := by simpa using hf
    rw [Use.answer,Use.fault?,hf,if_neg hnone,← (sameFields_searched c).1]
    simp [Use.act,fieldNamed,lookupField,notFound,hfind,hf]

theorem Use.place_eq (k : Int) (l : Location) (told : List CheckError) :
    Use.act (.place k l) ⟨c,told⟩ = (Use.answer c (.place k l),⟨c,((Use.place k l).fault? c).toList++told⟩) := by
  have hplace : (if 0 ≤ k then c.fields[k.toNat]? else none) = if k < 0 then none else c.fields[k.toNat]? := by
    split <;> split <;> first | rfl | omega
  change Id.run (StateT.run (Use.act (.place k l)) ⟨c,told⟩) = _
  rw [Use.answer,Use.fault?,hplace]
  by_cases hk : 0 ≤ k ∧ k.toNat < c.fields.length
  · have hfound : (if k < 0 then none else c.fields[k.toNat]?) = some c.fields[k.toNat] := by
      rw [if_neg (by omega),List.getElem?_eq_getElem hk.2]
    rw [if_pos hk,hfound]
    simp [Use.act,fieldAt,hfound]
  · have hnone : (if k < 0 then none else c.fields[k.toNat]?) = none := by
      split
      · rfl
      · exact List.getElem?_eq_none (by omega)
    rw [if_neg hk,hnone]
    simp [Use.act,fieldAt,notFound,hnone]

theorem Use.act_eq (u : Use) (c : ClassDef) (told : List CheckError) : ∃ d, SameFields c d ∧
    u.act ⟨c,told⟩ = (u.answer c,⟨d,(u.fault? c).toList++told⟩) := by
  cases u with
  | name n l => exact ⟨c.searched,sameFields_searched c,Use.name_eq n l told⟩
  | place k l => exact ⟨c,⟨rfl,rfl⟩,Use.place_eq k l told⟩
  | check now => exact ⟨c.visited now,⟨rfl,rfl⟩,rfl⟩

theorem Use.answer_congr (h : SameFields c d) : Use.answer d = Use.answer c := by
  funext u
  cases u <;> simp [Use.answer,h.2]

theorem Use.fault?_congr (h : SameFields c d) : Use.fault? d = Use.fault? c := by
  funext u
  cases u <;> simp [Use.fault?,h.1,h.2]

theorem Use.acts_eq (us : List Use) (c : ClassDef) (told : List CheckError) : ∃ d, SameFields c d ∧
    us.mapM Use.act ⟨c,told⟩ = (us.map (Use.answer c),⟨d,(us.filterMap (Use.fault? c)).reverse++told⟩) := by
  induction us generalizing c told with
  | nil => exact ⟨c,⟨rfl,rfl⟩,rfl⟩
  | cons u us ih =>
    obtain ⟨d,hd,hu⟩ := u.act_eq c told
    obtain ⟨e,he,hus⟩ := ih d ((u.fault? c).toList++told)
    refine ⟨e,⟨he.1.trans hd.1,he.2.trans hd.2⟩,?_⟩
    rw [Use.answer_congr hd,Use.fault?_congr hd] at hus
    have hcons : (u::us).mapM Use.act ⟨c,told⟩ = (fun (x : Option Field × Search) =>
        (fun (y : List (Option Field) × Search) => (x.1::y.1,y.2)) (us.mapM Use.act x.2)) (u.act ⟨c,told⟩) := by
      rw [List.mapM_cons]
      rfl
    rw [hcons,hu]
    simp only [hus]
    cases h : u.fault? c <;> simp [h]

end Fields

end InfoObject.Check
