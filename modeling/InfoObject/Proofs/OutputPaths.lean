import InfoObject.Plugin.Run

/-! Where generated files go: the parts of a cleaned path, and names put behind it. -/
namespace InfoObject.Path

/-! Splitting and joining -/

theorem split_ne_nil (sep : Char) (cs : List Char) : split sep cs ≠ [] := by
  cases cs with
  | nil => simp [split]
  | cons c cs =>
    rw [split]
    split
    · simp
    · split <;> simp

theorem split_append (sep : Char) (a b : List Char) : split sep (a++sep::b) = split sep a++split sep b := by
  induction a with
  | nil => simp [split]
  | cons c a ih =>
    obtain ⟨p,ps,h⟩ := List.exists_cons_of_ne_nil (split_ne_nil sep a)
    by_cases hc : c = sep <;> simp [split,ih,h,hc]

theorem split_of_notMem (h : sep ∉ p) : split sep p = [p] := by
  induction p with
  | nil => rfl
  | cons c p ih =>
    have hc : c ≠ sep := fun e => h (by simp [e])
    simp [split,hc,ih fun hp => h (by simp [hp])]

theorem notMem_of_mem_split (h : p ∈ split sep cs) : sep ∉ p := by
  induction cs generalizing p with
  | nil => simp_all [split]
  | cons c cs ih =>
    obtain ⟨q,qs,hq⟩ := List.exists_cons_of_ne_nil (split_ne_nil sep cs)
    rw [hq] at ih
    by_cases hc : c = sep
    · rw [split,if_pos hc,hq] at h
      rcases List.mem_cons.mp h with rfl | h
      · simp
      · exact ih h
    · rw [split,if_neg hc,hq] at h
      rcases List.mem_cons.mp h with rfl | h
      · simpa [Ne.symm hc] using ih (List.mem_cons_self ..)
      · exact ih (by simp [h])

theorem unsplit_append (sep : Char) (ha : a ≠ []) (hb : b ≠ []) :
    unsplit sep (a++b) = unsplit sep a++sep::unsplit sep b := by
  obtain ⟨q,qs,rfl⟩ := List.exists_cons_of_ne_nil hb
  induction a with
  | nil => contradiction
  | cons p a ih =>
    cases a with
    | nil => simp [unsplit,List.intercalate_cons_cons]
    | cons p' a =>
      have := ih (by simp)
      simp_all [unsplit,List.intercalate_cons_cons]

theorem split_unsplit (h : ps ≠ []) (hs : ∀ p ∈ ps, sep ∉ p) : split sep (unsplit sep ps) = ps := by
  induction ps with
  | nil => contradiction
  | cons p ps ih =>
    have hp := split_of_notMem (hs p (by simp))
    cases ps with
    | nil => simpa [unsplit] using hp
    | cons q ps =>
      have happ : unsplit sep (p::q::ps) = p++sep::unsplit sep (q::ps) := by simp [unsplit,List.intercalate_cons_cons]
      rw [happ,split_append,ih (by simp) fun r hr => hs r (by simp [hr]),hp]
      rfl

/-! Reduced parts -/

/-- What is kept, the last part first, behind one more part. -/
def keep (rooted : Bool) (done : List (List Char)) (p : List Char) : List (List Char) :=
  if p = [] ∨ p = ['.'] then done
  else if p = parent then
    match done with
    | [] => if rooted then [] else [parent]
    | q::qs => if q = parent then parent::q::qs else qs
  else p::done

theorem reduce_eq (rooted : Bool) (done ps : List (List Char)) :
    reduce rooted done ps = (ps.foldl (keep rooted) done).reverse := by
  induction ps generalizing done with
  | nil => rfl
  | cons p ps ih =>
    rw [reduce.eq_def,List.foldl_cons,keep.eq_def]
    dsimp only
    split
    · exact ih done
    · split
      · cases done <;> exact ih _
      · exact ih _

/-- A part that stands for an entry of a directory. -/
structure IsName (p : List Char) : Prop where
  ne_nil : p ≠ []
  ne_here : p ≠ ['.']
  ne_parent : p ≠ parent
  slash : '/' ∉ p

theorem IsName.keep (h : IsName p) (rooted : Bool) (done : List (List Char)) : keep rooted done p = p::done := by
  simp [Path.keep,h.ne_nil,h.ne_here,h.ne_parent]

theorem foldl_keep_names {ps : List (List Char)} (done : List (List Char)) (h : ∀ p ∈ ps, IsName p) :
    ps.foldl (keep rooted) done = ps.reverse++done := by
  induction ps generalizing done with
  | nil => rfl
  | cons p ps ih =>
    rw [List.foldl_cons,(h p (by simp)).keep,ih _ fun q hq => h q (by simp [hq])]
    simp

/-- Kept parts are names, and before them steps up if there is no root to stop at. -/
def Kept (rooted : Bool) (done : List (List Char)) : Prop :=
  ∃ names ups, done = names++ups ∧ (∀ p ∈ names, IsName p) ∧ ∀ p ∈ ups, p = parent ∧ rooted = false

theorem Kept.keep (h : Kept rooted done) (hp : '/' ∉ p) : Kept rooted (keep rooted done p) := by
  obtain ⟨names,ups,rfl,hn,hu⟩ := h
  unfold Path.keep
  split
  · exact ⟨names,ups,rfl,hn,hu⟩
  rename_i h1
  split
  · -- a step up takes the last name away, or stays where there is none
    cases names with
    | cons q names =>
      refine ⟨names,ups,?_,fun r hr => hn r (by simp [hr]),hu⟩
      simp [(hn q (by simp)).ne_parent]
    | nil =>
      cases ups with
      | nil => cases rooted <;> exact ⟨[],_,rfl,by simp,by simp⟩
      | cons q ups =>
        obtain ⟨rfl,hr⟩ := hu q (by simp)
        exact ⟨[],_,if_pos rfl,by simp,List.forall_mem_cons.mpr ⟨⟨rfl,hr⟩,hu⟩⟩
  · rename_i h2
    obtain ⟨h0,h1⟩ := not_or.mp h1
    exact ⟨p::names,ups,rfl,List.forall_mem_cons.mpr ⟨⟨h0,h1,h2,hp⟩,hn⟩,hu⟩

theorem Kept.foldl {ps : List (List Char)} (h : Kept rooted done) (hs : ∀ p ∈ ps, '/' ∉ p) :
    Kept rooted (ps.foldl (Path.keep rooted) done) := by
  induction ps generalizing done with
  | nil => exact h
  | cons p ps ih => exact ih (h.keep (hs p (by simp))) fun q hq => hs q (by simp [hq])

/-- Reducing a second time changes nothing. -/
theorem Kept.reduce (h : Kept rooted done) : reduce rooted [] done.reverse = done.reverse := by
  obtain ⟨names,ups,rfl,hn,hu⟩ := h
  have hups : ups.reverse.foldl (Path.keep rooted) [] = ups := by
    induction ups with
    | nil => rfl
    | cons p ups ih =>
      obtain ⟨⟨rfl,rfl⟩,hups⟩ := List.forall_mem_cons.mp hu
      rw [List.reverse_cons,List.foldl_append,ih hups]
      cases ups with
      | nil => rfl
      | cons q ups => simp [Path.keep,parent,(hups q (by simp)).1]
  rw [reduce_eq,List.reverse_append,List.foldl_append,hups,foldl_keep_names _ (by simpa using hn)]
  simp

theorem parts_kept (cs : List Char) : Kept (isRooted cs) (parts cs).reverse := by
  have hnone : Kept (isRooted cs) [] := ⟨[],[],rfl,by simp,by simp⟩
  simpa [parts,reduce_eq] using hnone.foldl fun _ hp => notMem_of_mem_split hp

theorem of_mem_parts (h : p ∈ parts cs) : p ≠ [] ∧ p ≠ ['.'] ∧ '/' ∉ p := by
  obtain ⟨names,ups,e,hn,hu⟩ := parts_kept cs
  rcases List.mem_append.mp (e ▸ List.mem_reverse.mpr h) with h | h
  · exact ⟨(hn p h).ne_nil,(hn p h).ne_here,(hn p h).slash⟩
  · rw [(hu p h).1]
    decide

theorem split_unsplit_parts (h : parts cs ≠ []) : split '/' (unsplit '/' (parts cs)) = parts cs :=
  split_unsplit h fun _ hp => (of_mem_parts hp).2.2

/-! Clean paths -/

theorem unsplit_parts_eq_nil : unsplit '/' (parts cs) = [] ↔ parts cs = [] := by
  refine ⟨fun h => ?_,fun h => by simp [h,unsplit]⟩
  cases hp : parts cs with
  | nil => rfl
  | cons p ps =>
    have hne := (of_mem_parts (hp ▸ List.mem_cons_self .. : p ∈ parts cs)).1
    cases ps <;> simp_all [unsplit,List.intercalate_cons_cons]

theorem isRooted_unsplit_parts (cs : List Char) : isRooted (unsplit '/' (parts cs)) = false := by
  cases hp : parts cs with
  | nil => rfl
  | cons p ps =>
    obtain ⟨hne,-,hs⟩ := of_mem_parts (hp ▸ List.mem_cons_self .. : p ∈ parts cs)
    obtain ⟨c,p,rfl⟩ := List.exists_cons_of_ne_nil hne
    have hc : c ≠ '/' := fun e => hs (by simp [e])
    cases ps <;> simp [unsplit,List.intercalate_cons_cons,isRooted,hc]

theorem isRooted_cleanChars (cs : List Char) : isRooted (cleanChars cs) = isRooted cs := by
  unfold cleanChars
  cases h : isRooted cs with
  | true => rfl
  | false =>
    simp only [Bool.false_eq_true,if_false]
    split
    · rfl
    · exact isRooted_unsplit_parts cs

/-- Cleaning a path keeps its parts. -/
theorem parts_cleanChars (cs : List Char) : parts (cleanChars cs) = parts cs := by
  have hself : reduce (isRooted cs) [] (parts cs) = parts cs := by simpa using (parts_kept cs).reduce
  have hbody : reduce (isRooted cs) [] (split '/' (unsplit '/' (parts cs))) = parts cs := by
    by_cases h : parts cs = []
    · simp [h,unsplit,split,reduce]
    · rw [split_unsplit_parts h,hself]
  rw [parts,isRooted_cleanChars]
  unfold cleanChars
  cases h : isRooted cs with
  | true => simpa [split,reduce,h] using hbody
  | false =>
    simp only [Bool.false_eq_true,if_false,List.isEmpty_iff,unsplit_parts_eq_nil]
    split
    · rename_i hp
      simp [hp,split,reduce]
    · exact h ▸ hbody

section
variable {cs : List Char} {names : List (List Char)} (hd : cs ≠ []) (hn : ∀ p ∈ names, IsName p) (hne : names ≠ [])
include hd

theorem isRooted_append (ds : List Char) : isRooted (cs++ds) = isRooted cs := by
  cases cs with
  | nil => contradiction
  | cons c cs => rfl

include hn hne

/-- Names put behind a path stay behind its parts. -/
theorem parts_append_names : parts (cs++ '/'::unsplit '/' names) = parts cs++names := by
  rw [parts,isRooted_append hd,split_append,split_unsplit hne fun p hp => (hn p hp).slash,reduce_eq,List.foldl_append,
    foldl_keep_names _ hn]
  simp [parts,reduce_eq]

/-- What the path of an entry begins with, for a directory with a clean path. -/
def within (directory : List Char) : List Char :=
  if directory = ['.'] then [] else if directory = ['/'] then directory else directory++['/']

theorem cleanChars_append_names : cleanChars (cs++ '/'::unsplit '/' names) = within (cleanChars cs)++unsplit '/' names := by
  have hbody : unsplit '/' names ≠ [] := by
    obtain ⟨p,ps,rfl⟩ := List.exists_cons_of_ne_nil hne
    have := (hn p (by simp)).ne_nil
    cases ps <;> simp_all [unsplit,List.intercalate_cons_cons]
  unfold cleanChars
  dsimp only
  rw [parts_append_names hd hn hne,isRooted_append hd]
  by_cases hp : parts cs = []
  · cases isRooted cs <;> simp [hp,hbody,within,show unsplit '/' [] = [] from rfl]
  · have hunsplit := mt unsplit_parts_eq_nil.mp hp
    rw [unsplit_append '/' hp hne]
    cases hr : isRooted cs with
    | true => simp [within,hunsplit]
    | false =>
      have hroot := isRooted_unsplit_parts cs
      have hhere : unsplit '/' (parts cs) ≠ ['.'] := fun e => by
        have hs := split_unsplit_parts hp
        rw [e] at hs
        exact (of_mem_parts (hs ▸ List.mem_cons_self .. : ['.'] ∈ parts cs)).2.1 rfl
      have hslash : unsplit '/' (parts cs) ≠ ['/'] := fun e => by simp [e,isRooted] at hroot
      simp [within,hunsplit,hhere,hslash]

end

/-- A path leads strictly below a directory: it goes on from there by names alone. -/
def Below (path directory : String) : Prop := isAbsolute path = isAbsolute directory ∧
  ∃ names ≠ [], parts path.toList = parts directory.toList++names ∧ ∀ p ∈ names, IsName p

end InfoObject.Path

namespace InfoObject.Plugin

open InfoObject.Path

/-- A component that a path may have. -/
def IsComponent (c : String) : Prop := c ≠ "" ∧ c ≠ "." ∧ c ≠ ".." ∧ '/' ∉ c.toList ∧ '\\' ∉ c.toList

instance (c : String) : Decidable (IsComponent c) := inferInstanceAs (Decidable (_ ∧ _))

theorem IsComponent.isName (h : IsComponent c) : IsName c.toList where
  ne_nil e := h.1 (String.toList_inj.mp e)
  ne_here e := h.2.1 (String.toList_inj.mp e)
  ne_parent e := h.2.2.1 (String.toList_inj.mp e)
  slash := h.2.2.2.1

theorem checkComponent_ok : checkComponent c = .ok () ↔ IsComponent c := by
  unfold checkComponent IsComponent
  split
  · rename_i h
    simp only [reduceCtorEq,false_iff]
    rintro ⟨h0,h1,h2,-⟩
    rcases h with h | h | h <;> contradiction
  rename_i h
  split
  · rename_i hr
    simp only [reduceCtorEq,false_iff]
    rintro ⟨-,-,-,hs,-⟩
    exact hs (List.mem_of_mem_head? (by simpa [isAbsolute,isRooted] using hr))
  · split
    · rename_i ha
      obtain ⟨x,hx,ha⟩ := List.any_eq_true.mp ha
      rcases Bool.or_eq_true_iff.mp ha with ha | ha <;> simp_all
    · rename_i ha
      have hmem : ∀ x ∈ c.toList, x ≠ '/' ∧ x ≠ '\\' := by simpa using ha
      simp only [not_or] at h
      exact ⟨fun _ => ⟨h.1,h.2.1,h.2.2,fun hx => (hmem _ hx).1 rfl,fun hx => (hmem _ hx).2 rfl⟩,fun _ => rfl⟩

theorem forM_checkComponent_ok (cs : List String) : cs.forM checkComponent = .ok () ↔ ∀ c ∈ cs, IsComponent c := by
  induction cs with
  | nil => simp [pure,Except.pure]
  | cons c cs ih =>
    rw [List.forall_mem_cons,← ih,← checkComponent_ok]
    show (checkComponent c >>= fun _ => cs.forM checkComponent) = _ ↔ _
    cases checkComponent c <;> simp [bind,Except.bind]

theorem outputPath_eq_ok : outputPath d cs = .ok p ↔ (cs ≠ [] ∧ ∀ c ∈ cs, IsComponent c) ∧ p = join (d::cs) := by
  rw [← forM_checkComponent_ok]
  unfold outputPath
  cases cs with
  | nil => simp [throw,throwThe,MonadExceptOf.throw,bind,Except.bind]
  | cons c cs => cases (c::cs).forM checkComponent <;> simp [bind,Except.bind,pure,Except.pure,eq_comm]

theorem join_eq (hd : d ≠ "") (hc : ∀ c ∈ cs, IsComponent c) (hne : cs ≠ []) :
    (join (d::cs)).toList = cleanChars (d.toList++ '/'::unsplit '/' (cs.map String.toList)) := by
  have hall : (d::cs).filter (!·.isEmpty) = d::cs :=
    List.filter_eq_self.mpr (List.forall_mem_cons.mpr ⟨by simpa using hd,fun c h => by simpa using (hc c h).1⟩)
  unfold join
  rw [hall]
  obtain ⟨c,cs,rfl⟩ := List.exists_cons_of_ne_nil hne
  simp [unsplit,List.intercalate_cons_cons]

theorem outputPath_toList (hd : d ≠ "") (h : outputPath d cs = .ok p) :
    p.toList = within (clean d).toList++unsplit '/' (cs.map String.toList) ∧ Below p d ∧
      parts p.toList = parts d.toList++cs.map String.toList := by
  obtain ⟨⟨hne,hc⟩,rfl⟩ := outputPath_eq_ok.mp h
  have hd' : d.toList ≠ [] := by simpa using hd
  have hn : ∀ q ∈ cs.map String.toList, IsName q := List.forall_mem_map.mpr fun c h => (hc c h).isName
  have hne' : cs.map String.toList ≠ [] := by simpa using hne
  have hparts := parts_append_names hd' hn hne'
  have hj := join_eq hd hc hne
  refine ⟨?_,⟨?_,_,hne',?_,hn⟩,?_⟩
  · rw [hj,cleanChars_append_names hd' hn hne',clean,String.toList_ofList]
  · rw [isAbsolute,hj,isRooted_cleanChars,isRooted_append hd']
    rfl
  all_goals rw [hj,parts_cleanChars,hparts]

/-- A list of components has a path below a directory if and only if it is not empty and no component leads elsewhere. The path
is that of the directory, cleaned, with the components behind it, and no other list has it. -/
theorem output_paths_confined (d : String) (hd : d ≠ "") (cs : List String) :
    ((∃ p, outputPath d cs = .ok p) ↔ cs ≠ [] ∧ ∀ c ∈ cs, IsComponent c) ∧
    ∀ p, outputPath d cs = .ok p → p.toList = within (clean d).toList++unsplit '/' (cs.map String.toList) ∧
      parts p.toList = parts d.toList++cs.map String.toList ∧ Below p d ∧ ∀ others, outputPath d others = .ok p → others = cs := by
  refine ⟨⟨fun ⟨_,h⟩ => (outputPath_eq_ok.mp h).1,fun h => ⟨_,outputPath_eq_ok.mpr ⟨h,rfl⟩⟩⟩,fun p hp => ?_⟩
  obtain ⟨htext,hbelow,hparts⟩ := outputPath_toList hd hp
  refine ⟨htext,hparts,hbelow,fun others ho => ?_⟩
  obtain ⟨-,-,hothers⟩ := outputPath_toList hd ho
  exact (List.map_inj_right fun _ _ => String.toList_inj.mp).mp (List.append_cancel_left (hothers.symm.trans hparts))

theorem output_paths_confined_upwards : outputPath "../out//.." ["m","..."] = .ok "../m/..." ∧ Below "../m/..." "../out//.." := by
  have h : outputPath "../out//.." ["m","..."] = .ok "../m/..." := outputPath_eq_ok.mpr (by decide)
  exact ⟨h,((output_paths_confined _ (by decide) _).2 _ h).2.2.1⟩

end InfoObject.Plugin
