import InfoObject.Proofs.Building

/-! Entities that are built once for a place and kept there: the elements of a set and the defaults of fields. -/
namespace InfoObject.Check
open Model

section Places
variable {X : Nat → Prop} {p q r : Pass}

theorem Gives.newElement (h : Gives (newElement m d n x) p e q) : Plain p q ∧
    (Sane p.store → ElementBuilt q.store m d n x e) ∧ ¬ Known p.store e.key ∧ Known q.store e.key := by
  cases x with
  | block b =>
    simp only [Check.newElement,gives_map,gives_build] at h
    obtain ⟨o,⟨s,hs,rfl⟩,rfl⟩ := h
    have ha := Makes.alloc (t := .objectDef) hs ⟨rfl,rfl⟩ (by decide)
    exact ⟨.of_built (ha.built id),fun _ => .literal ha.row rfl,ha.fresh,.of_row ha.row⟩
  | reference n =>
    simp only [Check.newElement,gives_bind,gives_ite,gives_map,gives_build] at h
    obtain ⟨b,p1,hb,⟨hset,i,⟨s,hs,rfl⟩,rfl⟩ | ⟨hset,i,⟨s,hs,rfl⟩,rfl⟩⟩ := h
    · obtain ⟨hplain,hu⟩ := hb.namesSet
      have ha := Makes.alloc (t := .setRef) hs ⟨rfl,rfl⟩ (by decide)
      exact ⟨hplain.trans (.of_built (ha.built id)),fun hp => .set ha.row rfl ((hu hp).symm.trans hset),
        fun hk => ha.fresh (hplain.known hk),.of_row ha.row⟩
    · obtain ⟨hplain,hu⟩ := hb.namesSet
      have ha := Makes.alloc (t := .objectRef) hs ⟨rfl,rfl⟩ (by decide)
      exact ⟨hplain.trans (.of_built (ha.built id)),fun hp => .object ha.row rfl ((hu hp).symm.trans (by simpa using hset)),
        fun hk => ha.fresh (hplain.known hk),.of_row ha.row⟩

theorem Gives.newElements (h : Gives (newElements m d n xs) p es q) : Plain p q ∧
    (Sane p.store → ElementsBuilt q.store m d n xs es) ∧ (∀ e ∈ es, ¬ Known p.store e.key) ∧ (es.map Element.key).Nodup := by
  induction xs generalizing n p es with
  | nil =>
    simp only [Check.newElements,gives_pure] at h
    obtain ⟨rfl,rfl⟩ := h
    exact ⟨.refl _,fun _ => trivial,by simp,by simp⟩
  | cons x xs ih =>
    simp only [Check.newElements,gives_bind,gives_pure] at h
    obtain ⟨e,p1,he,rest,p2,hrest,rfl,rfl⟩ := h
    obtain ⟨hplain,hb,hf,hknown⟩ := he.newElement
    obtain ⟨hplain',hb',hf',hn⟩ := ih hrest
    refine ⟨hplain.trans hplain',fun hs => ⟨(hb hs).mono hplain'.extends rfl,hb' (hplain.sane hs)⟩,?_,?_⟩
    · intro y hy
      rcases List.mem_cons.mp hy with rfl | hy
      · exact hf
      · exact fun hk => hf' y hy (hplain.known hk)
    · rw [List.map_cons,List.nodup_cons]
      refine ⟨?_,hn⟩
      intro hmem
      obtain ⟨y,hy,hk⟩ := List.mem_map.mp hmem
      exact hf' y hy (hk ▸ hknown)

/-- The elements of an expansion; a body that cannot be read has none. -/
def elementsOf : Except Notation.SyntaxError Expansion → List Element
  | .ok e => e.elements
  | .error _ => []

theorem Gives.scopeOf (h : Gives (scopeOf i) p m q) : q = p ∧ ∃ j row, i = some j ∧ p.store.get? j = some row ∧ m =
    ⟨j,row.file⟩ := by
  cases i with
  | none => simp [Check.scopeOf] at h
  | some j =>
    simp only [Check.scopeOf,gives_bind,gives_load,gives_pure] at h
    obtain ⟨row,_,⟨hrow,rfl⟩,rfl,rfl⟩ := h
    exact ⟨rfl,j,row,rfl,hrow,rfl⟩

theorem Gives.readElements (h : Gives (readElements d) p e q) : Plain p q ∧ (Sane p.store → ExpansionBuilt q.store d e) ∧
    (∀ x ∈ elementsOf e, ¬ Known p.store x.key) ∧ ((elementsOf e).map Element.key).Nodup := by
  simp only [Check.readElements,gives_bind,gives_orStuck] at h
  obtain ⟨b,_,⟨hb,rfl⟩,h⟩ := h
  simp only [ExpansionBuilt,hb]
  cases hp : b.parseSet with
  | error x =>
    simp only [hp,gives_pure] at h
    obtain ⟨rfl,rfl⟩ := h
    exact ⟨.refl _,fun _ => rfl,by simp [elementsOf],by simp [elementsOf]⟩
  | ok body =>
    simp only [hp,gives_bind,gives_pure] at h ⊢
    obtain ⟨m,p1,hm,es,p2,hes,rfl,rfl⟩ := h
    obtain ⟨rfl,j,row,hj,hrow,rfl⟩ := hm.scopeOf
    obtain ⟨hplain,hbuilt,hfresh,hnodup⟩ := hes.newElements
    obtain ⟨row',hrow',hbare⟩ := hplain.extends.rows _ j row hrow
    refine ⟨hplain,fun hs => ⟨j,row',es,hj,hrow',rfl,?_⟩,hfresh,hnodup⟩
    rw [Module.file_of_bare hbare]
    exact hbuilt hs

theorem Gives.newSetting (h : Gives (newSetting m owner name x f) p st q) : Plain p q ∧
    SettingBuilt q.store m owner name x f st ∧ FreshValue p.store q.store st.value := by
  cases x with
  | int l | text l =>
    simp only [Check.newSetting,pure_bind,gives_pure] at h
    obtain ⟨rfl,rfl⟩ := h
    exact ⟨.refl _,⟨rfl,rfl,by constructor⟩,fun k hk => by simp [SettingValue.key?] at hk⟩
  | block b =>
    simp only [Check.newSetting,gives_bind,gives_build,gives_pure] at h
    obtain ⟨v,_,⟨s,hs,rfl⟩,rfl,rfl⟩ := h
    obtain ⟨hgrown,hbuilt,hfresh⟩ := Makes.blockSetting hs
    exact ⟨.of_built hgrown,⟨rfl,rfl,hbuilt⟩,hfresh⟩
  | reference n =>
    simp only [Check.newSetting,gives_bind,gives_build,gives_pure] at h
    obtain ⟨k,p1,hk,v,_,⟨s,hs,rfl⟩,rfl,rfl⟩ := h
    obtain ⟨hgrown,hbuilt,hfresh⟩ := Makes.referenceSetting hs
    have hplain : Plain p p1 := by
      simp only [Check.classifyReference,gives_bind,gives_lookup] at hk
      obtain ⟨a,p2,⟨_,ha,rfl⟩,hk⟩ := hk
      cases a with
      | none | some a => exact (gives_pure.mp hk).2 ▸ .lookup ha
    exact ⟨hplain.trans (.of_built hgrown),⟨rfl,rfl,.name hbuilt⟩,
      fun j hj => ⟨fun hp => (hfresh j hj).1 (hplain.known hp),(hfresh j hj).2⟩⟩

/-- What was built lately is put in its place: `N` tells the new entities by their places in the row. -/
theorem Plain.place {t : EntityType} {i : Id t} {b c : Row t} {N : Nat → Nat → Prop} (h : Plain p q)
    (hb : q.store.get? i = some b) (hm : Moves p.marker (X i.key) b c) (hk : ClassKept X q.marker q.store b c)
    (hh : ∀ j n k, Holds (q.store.put i c) j n k → Holds q.store j n k ∨ j = i.key ∧ N n k)
    (fresh : ∀ n k, N n k → ¬ Known p.store k) (inj : ∀ m n k, N m k → N n k → m = n)
    (hsane : Sane p.store → Sane q.store → (∀ i' j m n k, Holds (q.store.put i c) i' m k → Holds (q.store.put i c) j n k →
      i' = j ∧ m = n) → Sane (q.store.put i c)) : Evolves X p (q.put i c) := by
  have hpq : Evolves X p q := h.toEvolves.weaken fun _ hf => hf.elim
  refine { hpq with
    kept := Store.kept_put.trans hpq.kept
    names := ?_
    rows := ?_
    holds := ?_
    sane := ?_
    bounded := ?_}
  · simp only [Store.registry_put]
    exact hpq.names
  · intro u j x hx
    obtain ⟨y,hy,hxy,hky⟩ := hpq.rows u j x hx
    obtain ⟨z,hz,hyz,hkz⟩ := Store.get?_put_forth
      (R := fun i a b => Moves p.marker (X i.key) a b ∧ ClassKept X q.marker q.store a b)
      (fun _ _ => ⟨.refl ..,.refl ..⟩) hb ⟨hm,hk⟩ hy
    exact ⟨z,hz,hxy.trans hyz,hky.trans hpq.toGrows hxy hkz⟩
  · intro j n k hj
    rcases hh j n k hj with hq | ⟨_,hn⟩
    · exact .inl (h.unheld j n k hq)
    · exact .inr (fresh n k hn)
  · intro hs
    refine hsane hs (hpq.sane hs) ?_
    intro i' j m n k hi hj
    rcases hh i' m k hi with hold | ⟨rfl,hnew⟩
    · rcases hh j n k hj with hold' | ⟨_,hnew'⟩
      · exact hs.apart i' j m n k (h.unheld _ _ _ hold) (h.unheld _ _ _ hold')
      · exact absurd (hs.known (h.unheld _ _ _ hold)) (fresh n k hnew')
    · rcases hh j n k hj with hold' | ⟨rfl,hnew'⟩
      · exact absurd (hs.known (h.unheld _ _ _ hold')) (fresh m k hnew)
      · exact ⟨rfl,inj m n k hnew hnew'⟩
  · intro hbound u j x hx
    obtain ⟨y,hy,hyx⟩ := Store.get?_put_back (R := fun i a b => Moves p.marker (X i.key) a b)
      (fun _ _ => .refl ..) hb hm hx
    exact hyx.notNewer (hpq.bounded hbound u j y hy)

theorem elements_expanded (d : SetDef) (e : Except Notation.SyntaxError Expansion) :
    SetDef.elements {d with expansion := some e} = elementsOf e := by
  cases e <;> rfl

theorem Plain.expand {i : Id .setDef} (h : Plain p q) (hd : p.store.get? i = some d) (hn : d.expansion = none)
    (hd' : q.store.get? i = some d') (hb : Sane p.store → ExpansionBuilt q.store d e)
    (fresh : ∀ x ∈ elementsOf e, ¬ Known p.store x.key) (nodup : ((elementsOf e).map Element.key).Nodup) :
    Evolves X p (q.put i {d' with expansion := some e}) := by
  have hnone : d'.expansion = none := Eq.trans (h.parts .setDef i d d' hd hd') hn
  have hbare : d'.bare = d.bare := by
    obtain ⟨b,hb,hm⟩ := h.extends.rows _ i d hd
    cases hb.symm.trans hd'
    exact hm
  have hext : Extends q.store (q.store.put i {d' with expansion := some e}) := .put (t := .setDef) hd' rfl
  refine h.place (N := fun n k => ∃ x, (elementsOf e)[n]? = some x ∧ x.key = k) hd'
    ⟨rfl,.refl ..,fun x hx => by simp [hnone] at hx,.refl ..⟩ (fun c hc _ => hc) ?_ ?_ ?_ ?_
  · intro j n k hj
    cases hj with
    | default hc hf hst hk =>
      rw [Store.get?_put_other (by decide)] at hc
      exact .inl (.default hc hf hst hk)
    | @element j row n x hj hx =>
      rcases Store.get?_put_cases (t := .setDef) hd' hj with ⟨rfl,rfl⟩ | ⟨_,hj⟩
      · rw [elements_expanded] at hx
        exact .inr ⟨rfl,x,hx,rfl⟩
      · exact .inl (.element hj hx)
  · rintro n _ ⟨x,hx,rfl⟩
    exact fresh x (List.mem_of_getElem? hx)
  · rintro m n _ ⟨x,hx,rfl⟩ ⟨y,hy,hk⟩
    have hm : ((elementsOf e).map Element.key)[m]? = some x.key := by simp [hx]
    have hn : ((elementsOf e).map Element.key)[n]? = some x.key := by simp [hy,hk]
    exact (List.getElem?_inj (List.getElem?_eq_some_iff.mp hm).1 nodup).mp (hm.trans hn.symm)
  · refine fun hp hq => hq.renew (t := .setDef) hd' rfl fun y hy => ?_
    obtain rfl := Option.some.inj hy
    exact (hb hp).mono hext (hbare ▸ rfl)

theorem forall₂_modify (hR : ∀ a, R a a) (hg : ∀ a, l[n]? = some a → R a (g a)) : List.Forall₂ R l (l.modify n g) := by
  induction l generalizing n with
  | nil => simp
  | cons a l ih =>
    cases n with
    | zero => simpa using ⟨hg a rfl,fun x _ => hR x⟩
    | succ n => simpa using ⟨hR a,ih fun x hx => hg x (by simpa using hx)⟩

theorem Plain.default {i : Id .classDef} (h : Plain p q) (hc : p.store.get? i = some c) (hf : c.fields[n]? = some f)
    (hn : f.defaultSetting = none) (hc' : q.store.get? i = some c') (hb : DefaultBuilt q.store f st)
    (fresh : FreshValue p.store q.store st.value) : Evolves X p (q.put i (c'.withDefault n st)) := by
  have hfields : c'.fields = c.fields := h.parts .classDef i c c' hc hc'
  have hf' : c'.fields[n]? = some f := hfields ▸ hf
  have hmoves : List.Forall₂ FieldMoves c'.fields (c'.withDefault n st).fields := by
    refine forall₂_modify FieldMoves.refl ?_
    intro a ha
    cases hf'.symm.trans ha
    exact ⟨rfl,fun x hx => by simp [hn] at hx⟩
  have hbare := c'.withDefault_bare n st
  have hext : Extends q.store (q.store.put i (c'.withDefault n st)) := .put (t := .classDef) hc' hbare
  have at_place : ∀ m g, (c'.withDefault n st).fields[m]? = some g →
      m = n ∧ g = {f with defaultSetting := some st} ∨ c'.fields[m]? = some g := by
    intro m g hg
    by_cases hmn : m = n
    · subst hmn
      simp only [ClassDef.withDefault,List.getElem?_modify_eq,hf'] at hg
      exact .inl ⟨rfl,(Option.some.inj hg).symm⟩
    · simp only [ClassDef.withDefault] at hg
      rw [List.getElem?_modify_ne _ _ (Ne.symm hmn)] at hg
      exact .inr hg
  refine h.place (N := fun m k => m = n ∧ st.value.key? = some k) hc' ⟨hbare,.refl ..,hmoves⟩ trivial
    ?_ ?_ ?_ ?_
  · intro j m k hj
    cases hj with
    | @default j row m g x k hj hg hx hk =>
      rcases Store.get?_put_cases (t := .classDef) hc' hj with ⟨rfl,rfl⟩ | ⟨_,hj⟩
      · rcases at_place m g hg with ⟨rfl,rfl⟩ | hg
        · obtain rfl := Option.some.inj hx
          exact .inr ⟨rfl,rfl,hk⟩
        · exact .inl (.default hc' hg hx hk)
      · exact .inl (.default hj hg hx hk)
    | element hj hx =>
      rw [Store.get?_put_other (by decide)] at hj
      exact .inl (.element hj hx)
  · rintro _ k ⟨rfl,hk⟩
    exact (fresh k hk).1
  · rintro _ _ k ⟨rfl,_⟩ ⟨rfl,_⟩
    rfl
  · refine fun hp hq => hq.renew (t := .classDef) hc' hbare fun g y hg hy => ?_
    obtain ⟨m,hm⟩ := List.mem_iff_getElem?.mp hg
    rcases at_place m g hm with ⟨_,rfl⟩ | hm
    · obtain rfl := Option.some.inj hy
      exact (hb.mono hext).of_bare (f := f) (by rfl)
    · exact (hq.defaults i c' g y hc' (List.mem_of_getElem? hm) hy).mono hext

theorem Plain.settings {i : Id .objectDef} (h : Plain p q) (ho : q.store.get? i = some o)
    (hm : ObjectMoves p.marker (X i.key) o {o with settings := l})
    (hb : Sane p.store → ∀ st ∈ l, SettingIn q.store o st) :
    Evolves X p (q.put i {o with settings := l}) := by
  have hext : Extends q.store (q.store.put i {o with settings := l}) := .put (t := .objectDef) ho rfl
  refine h.place (t := .objectDef) (N := fun _ _ => False) ho hm (fun c hc _ => hc) ?_ ?_ ?_ ?_
  · intro j n k hj
    cases hj with
    | default hc hf hst hk =>
      rw [Store.get?_put_other (by decide)] at hc
      exact .inl (.default hc hf hst hk)
    | element hj hx =>
      rw [Store.get?_put_other (by decide)] at hj
      exact .inl (.element hj hx)
  · exact fun _ _ hf => hf.elim
  · exact fun _ _ _ hf => hf.elim
  · exact fun hp hq => hq.renew (t := .objectDef) ho rfl fun st hst => (hb hp st hst).mono hext rfl

end Places

end InfoObject.Check
