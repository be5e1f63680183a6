import InfoObject.GoSource.Generate
import InfoObject.Proofs.Encoding
import InfoObject.Proofs.OutputPaths

/-! Names in generated files: exported identifiers, names of packages, and paths that stay below any directory. -/
namespace InfoObject.GoSource

/-! Identifiers -/

def isNameByte (c : Char) : Bool := c.isAlphanum || c == '_'

/-- What a word may begin with. -/
def isInitial (c : Char) : Bool := c.isUpper || c.isDigit || c == '_'

theorem ascii_names (h : c.toNat < 128) : (Text.isLetter c || Text.isDecimalDigit c →
    isNameByte c ∧ isNameByte (Text.toUpper c) ∧ isInitial (Text.toUpper c)) ∧ (Text.isLetter c ∧ isInitial c → c.isUpper) := by
  have hall : ∀ n < 128, let c := Char.ofNat n
      (Text.isLetter c || Text.isDecimalDigit c → isNameByte c ∧ isNameByte (Text.toUpper c) ∧ isInitial (Text.toUpper c)) ∧
      (Text.isLetter c ∧ isInitial c → c.isUpper) := by decide +kernel
  simpa only [Char.ofNat_toNat] using hall c.toNat h

theorem toNat_lt_of_isNameByte (h : isNameByte c) : c.toNat < 128 := by
  delta isNameByte Char.isAlphanum Char.isAlpha Char.isUpper Char.isLower Char.isDigit at h
  simp only [Bool.or_eq_true,Bool.and_eq_true,decide_eq_true_eq,ge_iff_le,UInt32.le_iff_toNat_le,beq_iff_eq] at h
  rcases h with ((h | h) | h) | rfl
  · exact Nat.lt_of_le_of_lt h.2 (by decide)
  · exact Nat.lt_of_le_of_lt h.2 (by decide)
  · exact Nat.lt_of_le_of_lt h.2 (by decide)
  · decide

theorem isNameByte_nameChars (h : ∀ c ∈ cs, c.toNat < 128) : ∀ x ∈ nameChars starts cs, isNameByte x := by
  induction cs generalizing starts with
  | nil => simp [nameChars]
  | cons c cs ih =>
    have hcs : ∀ c ∈ cs, c.toNat < 128 := fun c hc => h c (by simp [hc])
    rw [nameChars]
    split
    · rename_i hc
      obtain ⟨hbyte,hupper,-⟩ := (ascii_names (h c (by simp))).1 hc
      refine List.forall_mem_cons.mpr ⟨?_,ih hcs⟩
      split <;> assumption
    · split
      · exact ih hcs
      · exact List.forall_mem_cons.mpr ⟨rfl,ih hcs⟩

theorem isInitial_nameChars (h : ∀ c ∈ cs, c.toNat < 128) (hx : (nameChars true cs).head? = some x) : isInitial x := by
  induction cs with
  | nil => simp [nameChars] at hx
  | cons c cs ih =>
    rw [nameChars] at hx
    split at hx
    · rename_i hc
      obtain rfl := Option.some.inj hx
      exact ((ascii_names (h c (by simp))).1 hc).2.2
    · split at hx
      · exact ih (fun c hc => h c (by simp [hc])) hx
      · obtain rfl := Option.some.inj hx
        rfl

theorem trimUnderscores_prefix (cs : List Char) : trimUnderscores cs <+: cs := by
  have := List.reverse_prefix.mpr (List.dropWhile_suffix (l := cs.reverse) (· == '_'))
  rwa [List.reverse_reverse] at this

theorem trimUnderscores_getLast? (cs : List Char) : (trimUnderscores cs).getLast? ≠ some '_' := by
  rw [trimUnderscores,List.getLast?_reverse]
  intro h
  have := List.head?_dropWhile_not (· == '_') cs.reverse
  simp [h] at this

theorem startsLikeName_cons (h : c.toNat < 128) : startsLikeName (c::cs) = Text.isLetter c := by
  have hbyte : (UInt8.ofNat c.toNat).toNat = c.toNat := Utf8.toNat_ofNat (by omega)
  rw [startsLikeName,Utf8.utf8EncodeChar_eq,if_pos (by omega)]
  simp [hbyte]

/-- An upper case letter, then letters, digits and underscores, with no underscore at the end. -/
def IsExported (cs : List Char) : Prop :=
  ∃ c r, cs = c::r ∧ c.isUpper ∧ (∀ x ∈ r, isNameByte x) ∧ cs.getLast? ≠ some '_'

theorem exportedName_isExported (h : ∀ c ∈ name.toList, c.toNat < 128) : IsExported (exportedName name).toList := by
  have hpre := trimUnderscores_prefix (nameChars true name.toList)
  have hlast := trimUnderscores_getLast? (nameChars true name.toList)
  have hbytes : ∀ x ∈ trimUnderscores (nameChars true name.toList), isNameByte x :=
    fun x hx => isNameByte_nameChars h x (hpre.subset hx)
  have hinitial : ∀ x, (trimUnderscores (nameChars true name.toList)).head? = some x → isInitial x := by
    intro x hx
    obtain ⟨rest,e⟩ := hpre
    exact isInitial_nameChars h (by rw [← e,List.head?_append,hx]; rfl)
  simp only [exportedName,String.toList_ofList]
  generalize trimUnderscores (nameChars true name.toList) = cs at *
  cases cs with
  | nil => exact ⟨'X',[],rfl,rfl,by simp,by decide⟩
  | cons c cs =>
    split
    · rename_i hstart
      have hc := toNat_lt_of_isNameByte (hbytes c (by simp))
      rw [startsLikeName_cons hc] at hstart
      exact ⟨c,cs,rfl,(ascii_names hc).2 ⟨hstart,hinitial c rfl⟩,fun x hx => hbytes x (by simp [hx]),hlast⟩
    · exact ⟨'X',_,rfl,rfl,hbytes,by simpa using hlast⟩

/-! Packages -/

def isPackageChar (c : Char) : Bool := c.isLower || c.isDigit

/-- A lower case letter, then lower case letters and digits. -/
def IsPackage (cs : List Char) : Prop := ∃ c r, cs = c::r ∧ c.isLower ∧ ∀ x ∈ r, isPackageChar x

theorem IsPackage.all (h : IsPackage cs) : ∀ x ∈ cs, isPackageChar x := by
  obtain ⟨c,r,rfl,hc,hr⟩ := h
  exact List.forall_mem_cons.mpr ⟨by simp [isPackageChar,hc],hr⟩

theorem IsPackage.append (h : IsPackage cs) (hd : ∀ x ∈ ds, isPackageChar x) : IsPackage (cs++ds) := by
  obtain ⟨c,r,rfl,hc,hr⟩ := h
  exact ⟨c,r++ds,rfl,hc,List.forall_mem_append.mpr ⟨hr,hd⟩⟩

theorem isPackageChar_packageChar? (h : packageChar? c = some x) : isPackageChar x := by
  unfold packageChar? at h
  dsimp only at h
  repeat' split at h
  all_goals cases h
  · rfl
  · rfl
  · assumption

theorem packageName_isPackage (module : String) : IsPackage (packageName module).toList := by
  have hall : ∀ x ∈ module.toList.filterMap packageChar?, isPackageChar x := by
    intro x hx
    obtain ⟨c,-,hc⟩ := List.mem_filterMap.mp hx
    exact isPackageChar_packageChar? hc
  simp only [packageName,String.toList_ofList]
  generalize module.toList.filterMap packageChar? = cs at *
  split
  · rename_i hhead
    cases cs with
    | nil => simp at hhead
    | cons c r => exact ⟨c,r,rfl,by simpa using hhead,fun x hx => hall x (by simp [hx])⟩
  · exact IsPackage.append ⟨'a',['s','n'],rfl,rfl,by simp [isPackageChar]⟩ hall

theorem packageOf_isPackage (pre module : String) : IsPackage (packageOf pre module).toList := by
  unfold packageOf
  split
  · simpa using packageName_isPackage module
  · rw [String.toList_append]
    exact (packageName_isPackage pre).append (packageName_isPackage module).all

/-! Paths -/

theorem generatedOf_path (h : generatedOf pre d = .ok g) : g.path = [packageOf pre d.module,packageOf pre d.module++".go"] := by
  unfold generatedOf fileOf at h
  cases hm : d.objects.mapM (objectOf d.classes) with
  | error f => simp [hm,bind,Except.bind] at h
  | ok os =>
    simp only [hm,bind,Except.bind,pure,Except.pure] at h
    split at h
    · obtain rfl := Except.ok.inj h
      rfl
    · contradiction

theorem generate_path (h : g ∈ (generate pre ds).1) : ∃ d ∈ ds, g.path = [packageOf pre d.module,packageOf pre d.module++".go"] := by
  induction ds with
  | nil => simp [generate] at h
  | cons d ds ih =>
    rw [generate] at h
    split at h
    · simp at h
    · rename_i hf
      rcases List.mem_cons.mp h with rfl | h
      · exact ⟨d,by simp,generatedOf_path hf⟩
      · obtain ⟨e,he,hg⟩ := ih h
        exact ⟨e,by simp [he],hg⟩

theorem IsPackage.isComponent (h : IsPackage p.toList) (hs : '/' ∉ s.toList ∧ '\\' ∉ s.toList) : Plugin.IsComponent (p++s) := by
  have hno : ∀ x, isPackageChar x = false → x ∉ p.toList := fun x hx hp => by simp [h.all x hp] at hx
  obtain ⟨c,r,e,hc,-⟩ := h
  have hne : ∀ t : String, (t.toList.head?.any Char.isLower) = false → p++s ≠ t := by
    rintro t ht rfl
    simp [e,hc] at ht
  refine ⟨hne _ rfl,hne _ rfl,hne _ rfl,?_,?_⟩ <;> rw [String.toList_append,List.mem_append,not_or]
  · exact ⟨hno _ rfl,hs.1⟩
  · exact ⟨hno _ rfl,hs.2⟩

/-- A name without other characters than those of ASCII becomes an exported identifier, and whatever a module and a prefix are
called, their package has a package name. So each generated file has a path of two components that leads below every directory. -/
theorem generated_names_valid :
    (∀ name : String, (∀ c ∈ name.toList, c.toNat < 128) → IsExported (exportedName name).toList) ∧
    (∀ pre module, IsPackage (packageOf pre module).toList) ∧
    ∀ pre ds, ∀ g ∈ (generate pre ds).1, (∃ d ∈ ds, g.path = [packageOf pre d.module,packageOf pre d.module++".go"]) ∧
      ∀ directory, ∃ p, Plugin.outputPath directory g.path = .ok p := by
  refine ⟨fun _ => exportedName_isExported,packageOf_isPackage,fun pre ds g hg => ?_⟩
  obtain ⟨d,hd,hpath⟩ := generate_path hg
  have hpackage := packageOf_isPackage pre d.module
  refine ⟨⟨d,hd,hpath⟩,fun directory => ⟨_,Plugin.outputPath_eq_ok.mpr ⟨⟨by simp [hpath],?_⟩,rfl⟩⟩⟩
  rw [hpath]
  refine List.forall_mem_cons.mpr ⟨?_,List.forall_mem_singleton.mpr (hpackage.isComponent (by decide))⟩
  simpa using hpackage.isComponent (s := "") (by decide)

theorem generated_names_valid_separators : IsExported (exportedName "-1_-").toList ∧
    IsPackage (packageOf "\u212A" "7").toList ∧ ∃ g ∈ (generate "\u212A" [{module := "7"}]).1,
      g.path = [packageOf "\u212A" "7",packageOf "\u212A" "7"++".go"] ∧ ∃ p, Plugin.outputPath "../out" g.path = .ok p := by
  have hone : (generate "\u212A" [{module := "7"}]).1.length = 1 := by decide +kernel
  obtain ⟨g,hg⟩ := List.length_eq_one_iff.mp hone
  obtain ⟨⟨d,hd,hpath⟩,hout⟩ := generated_names_valid.2.2 "\u212A" [{module := "7"}] g (by simp [hg])
  obtain rfl := List.mem_singleton.mp hd
  exact ⟨generated_names_valid.1 _ (by simp),generated_names_valid.2.1 _ _,g,by simp [hg],hpath,hout _⟩

end InfoObject.GoSource
