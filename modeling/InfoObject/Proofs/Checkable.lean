import InfoObject.Proofs.KeepingDefinitions

/-! What is known of the parts of definitions, and what a step does with it. -/
namespace InfoObject.Model

/-- An element, as a setting would hold it. -/
def Element.held : Element → SettingValue
  | .literal i => .object (.definition i)
  | .object i => .object (.reference i)
  | .set i => .set (.reference i)

/-- What is known of what a field refers to. -/
def FieldShape.Meets (Has : Store → SettingValue → Prop) (Of : Store → ClassExpr → Prop) (s : Store) : FieldShape → Prop
  | .value t _ => Has s (.type t)
  | .object c => Of s (.reference c)
  | .objectSet c => Of s (.reference c)
  | _ => True

end InfoObject.Model

namespace InfoObject.Check
open Model

/-- Nothing is said of what a step gives. -/
def Whatever {α : Type} (_ : α) (_ : Store) : Prop := True

def Fault.ofCycle : Fault → Bool
  | .circularReference _ => true
  | _ => false

/-- Faults of definitions and of what they hold. -/
def Fault.ordinary : Fault → Bool
  | .circularReference _ | .duplicateModule _ => false
  | f => !Fault.ofName f

/-- What is known of what is to be checked. -/
def Goal.Meets (Has : Store → SettingValue → Prop) (Of : Store → ClassExpr → Prop) (s : Store) : Goal → Prop
  | .objectClass i => Of s (.definition i)
  | .object i => Has s (.object (.definition i))
  | .objectSet i => Has s (.set (.definition i))

/-- What steps do, given what is known of the things in a store that settings hold and of its classes, and that remains known
later, and given the places that they name. -/
structure Checkable (Does : ∀ {α : Type}, Store → Checking α → (α → Store → Prop) → Prop) (Later : Store → Store → Prop)
    (Has : Store → SettingValue → Prop) (Of : Store → ClassExpr → Prop) (Placed : Location → Prop) : Prop where
  refl : ∀ s, Later s s
  trans : ∀ {s t u}, Later s t → Later t u → Later s u
  held : ∀ {s t v}, Later s t → Has s v → Has t v
  ofClass : ∀ {s t e}, Later s t → Of s e → Of t e
  done : ∀ {α s} (a : α), Does s (pure a) Whatever
  bind : ∀ {α β s Q R} {m : Checking α} {f : α → Checking β}, Does s m Q →
    (∀ a t, Later s t → Q a t → Does t (f a) R) → Does s (m >>= f) R
  restoringChain : ∀ {s} {m : Checking Unit}, Keeps False m → Does s m Whatever → Does s (restoringChain m) Whatever
  tell : ∀ {s f l o}, Placed l → (∀ k ∈ o, Placed k) → Fault.ordinary f →
    Does s (reportError f l o) Whatever
  warn : ∀ {s c l}, Placed l → Does s (reportWarning c l) Whatever
  conflict : ∀ {s c f l k}, Placed l → Placed k → Fault.ordinary f →
    Does s (reportConflict c f l k) Whatever
  type : ∀ {s t}, Has s (.type t) → Does s (resolveType t) Whatever
  value : ∀ {s v}, Has s (.value v) → Does s (resolveValue v) Whatever
  objectClass : ∀ {s e}, Of s e → Does s (resolveClass e) Whatever
  object : ∀ {s o}, Has s (.object o) → Does s (resolveObject o) fun i t => Has t (.object (.definition i))
  objectRef : ∀ {s i}, Has s (.object (.reference i)) → Does s (checkObjectRef i) Whatever
  setRef : ∀ {s i}, Has s (.set (.reference i)) → Does s (checkSetRef i) Whatever
  flatten : ∀ {s i}, Has s (.set (.definition i)) → Does s (flatten i) fun l t => ∀ o ∈ l, Has t (.object (.definition o))
  loadClass : ∀ {s} {i : Id .classDef}, Of s (.definition i) → Does s (load i) Whatever
  loadObject : ∀ {s} {i : Id .objectDef}, Has s (.object (.definition i)) → Does s (load i) fun o t =>
    Placed o.location ∧ ∀ st ∈ o.settings, ∀ v, st.value = .value v → Has t (.value v)
  loadSet : ∀ {s} {i : Id .setDef}, Has s (.set (.definition i)) → Does s (load i) fun d _ => Placed d.location

namespace Checkable
variable {Does : ∀ {α : Type}, Store → Checking α → (α → Store → Prop) → Prop} {Later : Store → Store → Prop}
  {Has : Store → SettingValue → Prop} {Of : Store → ClassExpr → Prop} {Placed : Location → Prop} {s : Store}
  (c : Checkable Does Later Has Of Placed)

include c

theorem andThen {m : Checking α} {k : α → Checking β} (hm : Does s m Q) (hk : ∀ a t, Later s t → Does t (k a) R) :
    Does s (m >>= k) R := c.bind hm fun a t ht _ => hk a t ht

theorem forM {l : List α} {k : α → Checking Unit} (hk : ∀ x ∈ l, ∀ t, Later s t → Does t (k x) Whatever) :
    Does s (l.forM k) Whatever := by
  induction l generalizing s with
  | nil => exact c.done ()
  | cons x l ih =>
    exact c.andThen (hk x List.mem_cons_self s (c.refl s)) fun _ t ht => ih fun y hy u hu =>
      hk y (List.mem_cons_of_mem x hy) u (c.trans ht hu)

theorem error (hl : Placed l) (hf : Fault.ordinary f) : Does s (reportError f l none) Whatever :=
  c.tell hl nofun hf

theorem checkValue (hv : Has s (.value v)) (ht : Has s (.type t)) (hl : Placed l) : Does s (checkValue v t l) Whatever := by
  refine c.andThen (c.type ht) fun type s' hs => c.andThen (c.value (c.held hs hv)) fun value _ _ => ?_
  split
  · split
    · exact c.done ()
    · exact c.error hl rfl
  · exact c.done ()

theorem reportDuplicates (owner : String) (noted : List Identifier)
    (hl : ∀ x ∈ l, Placed x.1.location ∧ Placed x.2.location) : Does s (reportDuplicates owner noted l) Whatever := by
  induction l generalizing noted s with
  | nil => exact c.done ()
  | cons x l ih =>
    obtain ⟨hfield,hfirst⟩ := hl x List.mem_cons_self
    have rest : ∀ t, Does t (do
        reportError (.duplicateField x.1.name.display owner) x.1.location (some x.2.location)
        Check.reportDuplicates owner (x.1.name::noted) l) Whatever := fun t =>
      c.andThen (c.tell hfield (fun _ hk => Option.some.inj hk ▸ hfirst) rfl) fun _ _ _ =>
        ih _ fun y hy => hl y (List.mem_cons_of_mem x hy)
    unfold Check.reportDuplicates
    split
    · exact rest s
    · exact c.andThen (c.warn hfirst) fun _ t _ => rest t

theorem checkNotUnique (hl : Placed f.location) : Does s (checkNotUnique f) Whatever := by
  unfold Check.checkNotUnique
  split
  · exact c.error hl rfl
  · exact c.done ()

theorem checkShape (hf : f.shape.Meets Has Of s) (hl : Placed f.location) : Does s (checkShape f) Whatever := by
  have governed : ∀ i, Of s (.reference i) →
      Does s (do Check.checkNotUnique f; let _ ← resolveClass (.reference i)) Whatever := fun i hi =>
    c.andThen (c.checkNotUnique hl) fun _ _ ht => c.andThen (c.objectClass (c.ofClass ht hi)) fun _ _ _ => c.done ()
  unfold Check.checkShape
  generalize f.shape = x at hf
  match x with
  | .type => exact c.checkNotUnique hl
  | .value t _ => exact c.andThen (c.type hf) fun _ _ _ => c.done ()
  | .object i => exact governed i hf
  | .objectSet i => exact governed i hf
  | .malformed => exact c.error hl rfl

theorem settingValue (name : Identifier) (hi : Has s (.object (.definition i))) : Does s (settingValue i name) Whatever := by
  refine c.bind (c.loadObject hi) fun o t _ ho => ?_
  split
  · rename_i v hv
    obtain ⟨st,hst,hval⟩ := Option.map_eq_some_iff.mp hv
    exact c.value (ho.2 st (List.mem_of_find?_eq_some hst) v hval)
  · exact c.done _

section Go
variable {go : Goal → Checking Unit} (hk : ∀ g, Keeps False (go g)) (hgo : ∀ s g, g.Meets Has Of s → Does s (go g) Whatever)

include hgo

theorem checkHeld (hst : Has s st.value) (hf : f.shape.Meets Has Of s) (hl : Placed st.location) :
    Does s (checkHeld go st f) Whatever := by
  unfold Check.checkHeld
  generalize st.value = v at hst
  match v with
  | .type t => exact c.andThen (c.type hst) fun _ _ _ => c.done ()
  | .value v =>
    cases hshape : f.shape with
    | value t u =>
      rw [hshape] at hf
      exact c.checkValue hst hf hl
    | _ => exact c.andThen (c.value hst) fun _ _ _ => c.done ()
  | .object o => exact c.bind (c.object hst) fun i t _ hi => hgo t (.object i) hi
  | .set (.definition i) => exact hgo s (.objectSet i) hst
  | .set (.reference i) => exact c.setRef hst

include hk in
theorem checkSetting (hst : f.kind = .erroneous ∨ st.kind = f.kind → Has s st.value) (hf : f.shape.Meets Has Of s)
    (hl : Placed st.location) : Does s (checkSetting go st f) Whatever := by
  unfold Check.checkSetting
  split
  · exact c.error hl (by split <;> rfl)
  · rename_i hkind
    exact c.restoringChain (keeps_checkHeld hk st f)
      (c.checkHeld hgo (hst (Decidable.or_iff_not_not_and_not.mpr hkind)) hf hl)

include hk in
theorem checkObjectField (ho : Placed o.location) (hsts : ∀ st ∈ sts, Has s st.value ∧ Placed st.location)
    (hf : f.shape.Meets Has Of s) : Does s (checkObjectField go o sts f) Whatever := by
  unfold Check.checkObjectField
  split
  · rename_i st hst
    obtain ⟨hhas,hl⟩ := hsts st (List.mem_of_find?_eq_some hst)
    exact c.checkSetting hk hgo (fun _ => hhas) hf hl
  · split
    · exact c.error ho rfl
    · exact c.done ()

theorem checkGoverning (hi : Of s (.definition i)) : Does s (checkGoverning go i) Whatever := by
  refine c.andThen (c.loadClass hi) fun _ t ht => ?_
  split
  · exact c.done _
  · exact c.andThen (hgo t (.objectClass i) (c.ofClass ht hi)) fun _ _ _ => c.done _

theorem checkUniqueField (owner : Id .classDef) (n : Nat) (f : Field) (hos : ∀ o ∈ os, Has s (.object (.definition o)))
    (hseen : ∀ x ∈ seen, Has s (.object (.definition x.2))) : Does s (checkUniqueField go owner n f seen os) Whatever := by
  induction os generalizing seen s with
  | nil => exact c.done ()
  | cons o os ih =>
    have ho := hos o List.mem_cons_self
    have next : ∀ t seen, Later s t → (∀ x ∈ seen, Has s (.object (.definition x.2))) →
        Does t (Check.checkUniqueField go owner n f seen os) Whatever := fun t seen ht hseen =>
      ih (fun x hx => c.held ht (hos x (List.mem_cons_of_mem o hx))) fun x hx => c.held ht (hseen x hx)
    refine c.andThen (hgo s (.object o) ho) fun _ s1 h1 => ?_
    refine c.andThen (c.settingValue _ (c.held h1 ho)) fun v s2 h2 => ?_
    have h12 := c.trans h1 h2
    split
    · exact next s2 seen h12 hseen
    · rename_i v
      split
      · exact next s2 _ h12 (List.forall_mem_cons.mpr ⟨ho,hseen⟩)
      · rename_i first hfirst
        obtain ⟨l,l',rfl,_⟩ := List.lookup_eq_some_iff.mp hfirst
        split
        · exact next s2 _ h12 hseen
        · refine c.bind (c.loadObject (c.held h12 ho)) fun row s3 h3 hrow => ?_
          have h13 := c.trans h12 h3
          have hmem := c.held h13 (hseen (v.render,first) (by simp))
          exact c.bind (c.loadObject hmem) fun row' s4 h4 hrow' => c.andThen (c.conflict hrow.1 hrow'.1 rfl)
            fun _ s5 h5 => next s5 _ (c.trans (c.trans h13 h4) h5) hseen

theorem checkUnique (hi : Of s (.definition i)) (hos : ∀ o ∈ os, Has s (.object (.definition o))) :
    Does s (checkUnique go i os) Whatever :=
  c.andThen (c.loadClass hi) fun _ _ ht => c.forM fun x _ _ hu =>
    c.checkUniqueField hgo i x.1 x.2 (fun o ho => c.held (c.trans ht hu) (hos o ho)) nofun

theorem checkElement (he : Has s e.held) : Does s (checkElement go e) Whatever := by
  cases e with
  | literal i => exact hgo s (.object i) he
  | object i => exact c.objectRef he
  | set i => exact c.setRef he

include hk in
theorem checkElements (hi : Has s (.set (.definition i))) (hj : Of s (.definition j)) (he : ∀ x ∈ e.elements, Has s x.held) :
    Does s (checkElements go i j e) Whatever := by
  have rest : ∀ t, Later s t → Does t (do
      e.elements.forM fun x => Check.restoringChain (Check.checkElement go x)
      Check.checkUnique go j (← Check.flatten i)) Whatever := fun t ht =>
    c.andThen (c.forM fun x hx _ hu => c.restoringChain (keeps_checkElement hk x)
        (c.checkElement hgo (c.held (c.trans ht hu) (he x hx))))
      fun _ _ hu => c.bind (c.flatten (c.held (c.trans ht hu) hi)) fun os _ hv hos =>
        c.checkUnique hgo (c.ofClass (c.trans (c.trans ht hu) hv) hj) hos
  refine c.bind (c.loadSet hi) fun d t ht hd => ?_
  split
  · exact c.andThen (c.warn hd) fun _ u hu => rest u (c.trans ht hu)
  · exact rest t ht

end Go

end Checkable

end InfoObject.Check
