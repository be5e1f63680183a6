import InfoObject.Proofs.Bodies
import InfoObject.Proofs.KeepingDefinitions
import InfoObject.Project
import Mathlib.Data.List.Perm.Subperm

/-! What a store has still to be gone through in a generation. A check takes from it, and what is built from a
body counts for less than the body did, so that it bounds how deep a check can go. -/
namespace InfoObject.Check
open Model

/-! Weights -/

def dueWeight (m stamp : Marker) : Nat := (stamp.before m).toNat

def blockWeight (b : Option Notation.RawBlock) : Nat := b.elim 0 Notation.RawBlock.length

def fieldWeight (f : Field) : Nat :=
  if f.defaultSetting.isSome then 0 else f.declaredDefault.elim 0 Notation.Payload.weight

def classWeight (m : Marker) (c : ClassDef) : Nat :=
  (if c.erroneous then 0 else dueWeight m c.checked)+(c.fields.map fieldWeight).sum

def objectWeight (m : Marker) (o : ObjectDef) : Nat :=
  if o.erroneous then 0 else dueWeight m o.checked*(1+blockWeight o.block)

def setWeight (m : Marker) (d : SetDef) : Nat :=
  if d.erroneous then 0 else 1+dueWeight m d.checked+if d.expansion.isSome then 0 else blockWeight d.block

/-- What a row counts for in a generation; a stand-in counts for nothing. -/
def rowWeight (m : Marker) : {t : EntityType} → Row t → Nat
  | .module,_ => 0
  | .classDef,c => classWeight m c
  | .classRef,_ => 1
  | .typeRef,_ => 1
  | .valueRef,_ => 1
  | .objectDef,o => objectWeight m o
  | .objectRef,_ => 1
  | .setDef,d => setWeight m d
  | .setRef,_ => 1

def tableWeight (m : Marker) (t : EntityType) (s : Store) : Nat :=
  ((Stored.rows t s : Array (Row t)).toList.map (rowWeight m)).sum

def storeWeight (m : Marker) (s : Store) : Nat :=
  tableWeight m .classDef s+tableWeight m .classRef s+tableWeight m .typeRef s+tableWeight m .valueRef s+
    tableWeight m .objectDef s+tableWeight m .objectRef s+tableWeight m .setDef s+tableWeight m .setRef s

def Pass.weight (p : Pass) : Nat := storeWeight p.marker p.store

section Tables
variable {m : Marker} {s : Store} {t u : EntityType}

theorem sum_map_set (w : α → Nat) {l : List α} (h : l[n]? = some a) : ((l.set n b).map w).sum+w a = (l.map w).sum+w b := by
  induction l generalizing n with
  | nil => simp at h
  | cons x l ih =>
    cases n with
    | zero =>
      obtain rfl : x = a := by simpa using h
      simp only [List.set_cons_zero,List.map_cons,List.sum_cons]
      omega
    | succ n =>
      have := ih (n := n) (by simpa using h)
      simp only [List.set_cons_succ,List.map_cons,List.sum_cons]
      omega

theorem tableWeight_put_self {i : Id t} (h : s.get? i = some a) : tableWeight m t (s.put i b)+rowWeight m a =
    tableWeight m t s+rowWeight m b := by
  have hl : (Stored.rows t s : Array (Row t)).toList[i.index]? = some a := by simpa [Store.get?] using h
  have := sum_map_set (rowWeight m) (b := b) hl
  simpa [tableWeight,Store.put,rows_withRows] using this

theorem tableWeight_put_other {i : Id t} (h : t ≠ u) : tableWeight m u (s.put i b) = tableWeight m u s := by
  simp only [tableWeight,Store.put,rows_withRows_ne h]

theorem tableWeight_add_self (b : Row t) : tableWeight m t (s.add (t := t) b).2 = tableWeight m t s+rowWeight m b := by
  simp [tableWeight,Store.add,rows_withRows]

theorem tableWeight_add_other (h : t ≠ u) : tableWeight m u (s.add (t := t) b).2 = tableWeight m u s := by
  simp only [tableWeight,Store.add,rows_withRows_ne h]

theorem storeWeight_put {i : Id t} (h : s.get? i = some a) : storeWeight m (s.put i b)+rowWeight m a =
    storeWeight m s+rowWeight m b := by
  have hs := tableWeight_put_self (m := m) (b := b) h
  have ho : ∀ u, t ≠ u → tableWeight m u (s.put i b) = tableWeight m u s := fun u hu => tableWeight_put_other hu
  cases t with
  | module => simp [storeWeight,ho,rowWeight]
  | _ =>
    simp only [storeWeight,ne_eq,reduceCtorEq,not_false_eq_true,ho]
    omega

theorem storeWeight_add (b : Row t) : storeWeight m (s.add (t := t) b).2 = storeWeight m s+rowWeight m b := by
  have hs := tableWeight_add_self (m := m) (s := s) b
  have ho : ∀ u, t ≠ u → tableWeight m u (s.add (t := t) b).2 = tableWeight m u s := fun u hu => tableWeight_add_other hu
  cases t with
  | module => simp [storeWeight,ho,rowWeight]
  | _ =>
    simp only [storeWeight,ne_eq,reduceCtorEq,not_false_eq_true,ho]
    omega

/-! Entities that count -/

/-- Some entity that counts for something has a number. -/
def Heavy (m : Marker) (s : Store) (k : Nat) : Prop :=
  ∃ (t : EntityType) (i : Id t) (a : Row t), s.get? i = some a ∧ i.key = k ∧ 1 ≤ rowWeight m a

/-- The numbers of the rows of a table that count for something. -/
def heavyKeys (m : Marker) (t : EntityType) (s : Store) : List Nat :=
  ((Stored.rows t s : Array (Row t)).toList.zipIdx.filter fun x => 1 ≤ rowWeight m x.1).map fun x =>
    (⟨x.2⟩ : Id t).key

theorem length_filter_le_sum (w : α → Nat) (l : List α) (n : Nat) :
    ((l.zipIdx n).filter fun x => 1 ≤ w x.1).length ≤ (l.map w).sum := by
  induction l generalizing n with
  | nil => simp
  | cons a l ih =>
    have := ih (n+1)
    simp only [List.zipIdx_cons,List.filter_cons,List.map_cons,List.sum_cons]
    split
    · rename_i h
      have : 1 ≤ w a := by simpa using h
      simp only [List.length_cons]
      omega
    · omega

theorem length_heavyKeys_le : (heavyKeys m t s).length ≤ tableWeight m t s := by
  rw [heavyKeys,List.length_map]
  exact length_filter_le_sum _ _ _

theorem mem_heavyKeys {i : Id t} (h : s.get? i = some a) (ha : 1 ≤ rowWeight m a) : i.key ∈ heavyKeys m t s := by
  refine List.mem_map.mpr ⟨(a,i.index),List.mem_filter.mpr ⟨?_,by simpa using ha⟩,rfl⟩
  rw [List.mem_zipIdx_iff_getElem?]
  simpa [Store.get?] using h

theorem length_le_storeWeight {ks : List Nat} (hn : ks.Nodup) (hk : ∀ k ∈ ks, Heavy m s k) : ks.length ≤ storeWeight m s := by
  have hsub : ks ⊆ heavyKeys m .classDef s++heavyKeys m .classRef s++heavyKeys m .typeRef s ++
      heavyKeys m .valueRef s++heavyKeys m .objectDef s++heavyKeys m .objectRef s++heavyKeys m .setDef s ++
      heavyKeys m .setRef s := by
    intro k hmem
    obtain ⟨t,i,a,ha,rfl,hw⟩ := hk k hmem
    have hin := mem_heavyKeys ha hw
    cases t with
    | module => simp [rowWeight] at hw
    | _ => simp [hin]
  have hle := (List.subperm_of_subset hn hsub).length_le
  simp only [List.length_append] at hle
  have h1 := length_heavyKeys_le (m := m) (t := .classDef) (s := s)
  have h2 := length_heavyKeys_le (m := m) (t := .classRef) (s := s)
  have h3 := length_heavyKeys_le (m := m) (t := .typeRef) (s := s)
  have h4 := length_heavyKeys_le (m := m) (t := .valueRef) (s := s)
  have h5 := length_heavyKeys_le (m := m) (t := .objectDef) (s := s)
  have h6 := length_heavyKeys_le (m := m) (t := .objectRef) (s := s)
  have h7 := length_heavyKeys_le (m := m) (t := .setDef) (s := s)
  have h8 := length_heavyKeys_le (m := m) (t := .setRef) (s := s)
  unfold storeWeight
  omega

end Tables

/-! Rows that are built -/

section Building
variable {m : Marker} {s : Store}

theorem storeWeight_lookup (h : s.lookup? scope r k = some (a,s')) : storeWeight m s' = storeWeight m s := by
  rcases (LooksUp.of_lookup? h).store with rfl | ⟨row,row',hrow,_,rfl⟩
  · rfl
  · have hput := storeWeight_put (t := .module) (m := m) (b := row') hrow
    simp only [rowWeight,Nat.add_zero] at hput
    exact hput

theorem dueWeight_le (m k : Marker) : dueWeight m k ≤ 1 := by
  unfold dueWeight
  cases k.before m <;> simp

theorem objectWeight_le : objectWeight m o ≤ blockWeight o.block+1 := by
  have hd := Nat.mul_le_mul_right (1+blockWeight o.block) (dueWeight_le m o.checked)
  unfold objectWeight
  split
  · exact Nat.zero_le _
  · omega

theorem setWeight_le : setWeight m d ≤ blockWeight d.block+2 := by
  have hd := dueWeight_le m d.checked
  unfold setWeight
  split
  · exact Nat.zero_le _
  · split <;> omega

end Building

/-! Steps that leave what they build in its place -/

section Placing
variable {p q : Pass}

theorem Pass.weight_put {t : EntityType} {i : Id t} {a b : Row t} (h : p.store.get? i = some a) :
    Pass.weight (p.put i b)+rowWeight p.marker a = p.weight+rowWeight p.marker b :=
  storeWeight_put h

theorem Pass.weight_put_le {t : EntityType} {i : Id t} {a b : Row t} (h : p.store.get? i = some a)
    (hab : rowWeight p.marker b ≤ rowWeight p.marker a) : Pass.weight (p.put i b) ≤ p.weight := by
  have := Pass.weight_put (b := b) h
  omega

theorem Pass.weight_expanded {i : Id .setDef} (e : Except Notation.SyntaxError Expansion) (hd : p.store.get? i = some d)
    (he : d.erroneous = false) (hx : d.expansion = none) : Pass.weight
    (p.put i {d with expansion := some e})+blockWeight d.block = p.weight := by
  have hput := Pass.weight_put (t := .setDef) (b := ({d with expansion := some e} : SetDef)) hd
  have hold : setWeight p.marker d = 1+dueWeight p.marker d.checked+blockWeight d.block := by simp [setWeight,he,hx]
  have hnew : setWeight p.marker {d with expansion := some e} = 1+dueWeight p.marker d.checked := by simp [setWeight,he]
  simp only [rowWeight,hold,hnew] at hput
  omega

theorem sum_map_modify (w : α → Nat) (g : α → α) {l : List α} (h : l[n]? = some a) : ((l.modify n g).map w).sum+w a =
    (l.map w).sum+w (g a) := by
  have hset : l.modify n g = l.set n (g a) := by
    refine List.ext_getElem? fun k => ?_
    rw [List.getElem?_modify,List.getElem?_set]
    split
    · rename_i hk
      subst hk
      rw [h,if_pos (List.getElem?_eq_some_iff.mp h).1]
      rfl
    · simp
  rw [hset]
  exact sum_map_set w h

theorem Pass.weight_defaulted {i : Id .classDef} (st : Setting) (hc : p.store.get? i = some c) (hf : c.fields[n]? = some f)
    (hd : f.defaultSetting = none) (hx : f.declaredDefault = some x) :
    Pass.weight (p.put i (c.withDefault n st))+x.weight = p.weight := by
  have hput := Pass.weight_put (t := .classDef) (b := c.withDefault n st) hc
  have hsum := sum_map_modify fieldWeight (fun f => {f with defaultSetting := some st}) hf
  have hold : fieldWeight f = x.weight := by simp [fieldWeight,hd,hx]
  have hnew : fieldWeight {f with defaultSetting := some st} = 0 := by simp [fieldWeight]
  rw [hold,hnew] at hsum
  have hrow : classWeight p.marker (c.withDefault n st)+x.weight = classWeight p.marker c := by
    rw [classWeight,classWeight,Nat.add_assoc]
    exact congrArg _ hsum
  simp only [rowWeight] at hput
  omega

end Placing

/-! The budget -/

theorem foldr_add (v : α → Nat) (l : List α) : l.foldr (fun a n => v a+n) 0 = (l.map v).sum := by
  rw [List.sum_eq_foldr,List.foldr_map]

theorem sum_map_le (l : List α) (h : ∀ a, w a ≤ k+c*v a) : (l.map w).sum ≤ k*l.length+c*(l.map v).sum := by
  induction l with
  | nil => simp
  | cons a l ih =>
    have := h a
    simp only [List.map_cons,List.sum_cons,List.length_cons,Nat.mul_add,Nat.mul_one]
    omega

theorem payloadWeight_le (x : Notation.Payload) : x.weight ≤ 2*(1+x.bodyLength) := by
  cases x <;> simp [Notation.Payload.weight,Notation.Payload.bodyLength]
  omega

theorem fieldWeight_le (f : Field) : fieldWeight f ≤ 2*(1+f.declaredDefault.elim 0 Notation.Payload.bodyLength) := by
  unfold fieldWeight
  split
  · exact Nat.zero_le _
  · cases f.declaredDefault with
    | none => simp
    | some x => exact payloadWeight_le x

theorem storeWeight_le_budget (m : Marker) (s : Store) : 2*storeWeight m s+2 ≤ Project.budget s := by
  have hclass : ∀ c, classWeight m c ≤
      1+2*(c.fields.map fun f => 1+f.declaredDefault.elim 0 Notation.Payload.bodyLength).sum := by
    intro c
    have h := sum_map_le (k := 0) c.fields fun f => (fieldWeight_le f).trans (Nat.le_add_left _ 0)
    have hd := dueWeight_le m c.checked
    unfold classWeight
    split <;> omega
  have hobject : ∀ o, objectWeight m o ≤ 1+1*o.block.elim 0 Notation.RawBlock.length := by
    intro o
    have hle : objectWeight m o ≤ o.block.elim 0 Notation.RawBlock.length+1 := objectWeight_le
    omega
  have hset : ∀ d, setWeight m d ≤ 2+1*d.block.elim 0 Notation.RawBlock.length := by
    intro d
    have hle : setWeight m d ≤ d.block.elim 0 Notation.RawBlock.length+2 := setWeight_le
    omega
  have h1 := sum_map_le s.classes.toList hclass
  have h2 := sum_map_le s.objects.toList hobject
  have h3 := sum_map_le s.sets.toList hset
  have hrefs : ∀ {α : Type} (rows : Array α), (rows.toList.map fun _ => 1).sum = rows.size := fun rows => by simp
  have h4 := hrefs s.classRefs
  have h5 := hrefs s.typeRefs
  have h6 := hrefs s.valueRefs
  have h7 := hrefs s.objectRefs
  have h8 := hrefs s.setRefs
  rw [Array.length_toList] at h1 h2 h3
  change 2*((s.classes.toList.map (classWeight m)).sum+(s.classRefs.toList.map fun _ => 1).sum+
    (s.typeRefs.toList.map fun _ => 1).sum+(s.valueRefs.toList.map fun _ => 1).sum+
    (s.objects.toList.map (objectWeight m)).sum+(s.objectRefs.toList.map fun _ => 1).sum+
    (s.sets.toList.map (setWeight m)).sum+(s.setRefs.toList.map fun _ => 1).sum)+2 ≤ Project.budget s
  simp only [Project.budget,Project.bodies,Store.size,foldr_add]
  omega

end InfoObject.Check
