import EntityStore.Proofs.Schema.Same

/-! # Keywords that hand on what their subschemas no longer ask for

One lemma for each keyword of which the schema asks for less when a subschema does. -/

namespace EntityStore.Schema

open Compiled

variable {f g : Follow} {s t : Compiled} {ss ts : List Compiled}

/-! ### Lists of schemas -/

theorem countMet_le (h : List.Forall₂ (Looser f g) ss ts) (j : Json) :
    countMet f ss j ≤ countMet g ts j := by
  induction h with
  | nil => exact Nat.le_refl _
  | cons h _ ih =>
      rw [countMet, countMet]
      refine Nat.add_le_add ?_ ih
      split
      · next hs => exact Nat.le_of_eq (if_pos (h.isEmpty hs)).symm
      · exact Nat.zero_le _

theorem namesOfMet_subset (h : List.Forall₂ (Looser f g) ss ts) (j : Json) :
    namesOfMet f ss j ⊆ namesOfMet g ts j := by
  induction h with
  | nil => exact List.Subset.refl _
  | cons h _ ih =>
      rw [namesOfMet, namesOfMet]
      refine List.append_subset.mpr ⟨?_, List.subset_append_of_subset_right _ ih⟩
      refine List.subset_append_of_subset_left _ ?_
      split
      · next hs =>
          rw [if_pos (h.isEmpty hs)]
          exact h.names j
      · exact List.nil_subset _

theorem itemsOfMet_covers (h : List.Forall₂ (Looser f g) ss ts) (j : Json) :
    Covers (itemsOfMet f ss j) (itemsOfMet g ts j) := by
  induction h with
  | nil => exact covers_nil _
  | cons h _ ih =>
      rw [itemsOfMet, itemsOfMet]
      refine Covers.merge ?_ ih
      split
      · next hs =>
          rw [if_pos (h.isEmpty hs)]
          exact h.items j
      · exact covers_nil _

/-- The properties and items that meet a schema meet a looser one. -/
theorem Looser.names_filter (h : Looser f g s t) {p : String → Bool} (fields : Fields) :
    Fields.names (fields.filter fun (name, v) => p name && (violations f s v []).isEmpty) ⊆
      Fields.names (fields.filter fun (name, v) => p name && (violations g t v []).isEmpty) := by
  refine List.map_subset _ fun field hf => ?_
  rw [List.mem_filter, Bool.and_eq_true] at hf ⊢
  exact ⟨hf.1, hf.2.1, h.isEmpty hf.2.2⟩

theorem Looser.covers_met (h : Looser f g s t) (items : List Json) :
    Covers (items.map fun v => (violations f s v []).isEmpty)
      (items.map fun v => (violations g t v []).isEmpty) :=
  covers_map fun _ => h.isEmpty

namespace Looser

/-! ### Combinations -/

protected theorem all (h : LooserAll f g ss ts) : Looser f g (.all ss) (.all ts) where
  met hv := by
    rw [violations] at hv ⊢
    exact h.met hv
  names := h.names
  items := h.items
  references := h.references

protected theorem allOf (h : List.Forall₂ (Looser f g) ss ts) :
    Looser f g (.allOf ss) (.allOf ts) where
  met hv := by
    rw [violations] at hv ⊢
    exact (LooserAll.of_forall₂ h).met hv
  names := namesOfMet_subset h
  items := itemsOfMet_covers h
  references := (LooserAll.of_forall₂ h).references

protected theorem anyOf (h : List.Forall₂ (Looser f g) ss ts) :
    Looser f g (.anyOf ss) (.anyOf ts) where
  met {j l} hv := by
    rw [violations] at hv ⊢
    have hle := countMet_le h j
    split at hv
    · cases hv
    · next hne => exact if_neg (by omega)
  names := namesOfMet_subset h
  items := itemsOfMet_covers h
  references := (LooserAll.of_forall₂ h).references

/-- The condition decides alike for both; so the branches are compared in pairs. -/
protected theorem ifThenElse {c yes no yes' no' : Compiled}
    (hc : Same f g c) (hyes : Looser f g yes yes') (hno : Looser f g no no') :
    Looser f g (.ifThenElse c yes no) (.ifThenElse c yes' no') where
  met {j l} hv := by
    rw [violations] at hv ⊢
    rw [← hc.violations]
    by_cases hm : (violations f c j []).isEmpty = true
    · rw [if_pos hm] at hv ⊢
      exact hyes.met hv
    · rw [if_neg hm] at hv ⊢
      exact hno.met hv
  names j := by
    rw [evaluatedNames, evaluatedNames, ← hc.violations, ← hc.names]
    split
    · exact List.append_subset.mpr ⟨List.subset_append_left _ _,
        List.subset_append_of_subset_right _ (hyes.names j)⟩
    · exact hno.names j
  items j := by
    rw [evaluatedItems, evaluatedItems, ← hc.violations, ← hc.items]
    split
    · exact Covers.merge (fun _ h => h) (hyes.items j)
    · exact hno.items j
  references := by
    rw [Compiled.references, Compiled.references, hyes.references, hno.references]

/-! ### Properties -/

protected theorem property (h : Looser f g s t) (name : String) :
    Looser f g (.property name s) (.property name t) where
  met {j l} hv := by
    rw [violations] at hv ⊢
    cases hget : Fields.get? name (propertiesOf j) with
    | none => rfl
    | some v =>
        rw [hget] at hv
        exact h.met hv
  names j := by
    rw [evaluatedNames, evaluatedNames]
    cases Fields.get? name (propertiesOf j) with
    | none => exact List.Subset.refl _
    | some v =>
        show (if _ then [name] else []) ⊆ (if _ then [name] else [])
        split
        · next hs => simp only [if_pos (h.isEmpty hs), List.Subset.refl]
        · exact List.nil_subset _
  items _ := covers_nil _
  references := h.references

protected theorem matching (h : Looser f g s t) (regex : Regex) :
    Looser f g (.matching regex s) (.matching regex t) where
  met {j l} hv := by
    rw [violations, List.flatMap_eq_nil_iff] at hv ⊢
    intro (name, v) hf
    have hv := hv (name, v) hf
    dsimp only at hv ⊢
    split
    · next hm =>
        rw [if_pos hm] at hv
        exact h.met hv
    · rfl
  names j := by
    rw [evaluatedNames, evaluatedNames]
    exact h.names_filter (p := fun name => regex.occurs name) _
  items _ := covers_nil _
  references := h.references

protected theorem additional (h : Looser f g s t) (listed : List String)
    (patterns : List Regex) :
    Looser f g (.additional listed patterns s) (.additional listed patterns t) where
  met {j l} hv := by
    rw [violations, List.flatMap_eq_nil_iff] at hv ⊢
    intro (name, v) hf
    have hv := hv (name, v) hf
    dsimp only at hv ⊢
    split
    · next hm =>
        rw [if_pos hm] at hv
        exact h.met hv
    · rfl
  names j := h.names_filter (p := fun _ => true) _
  items _ := covers_nil _
  references := h.references

protected theorem propertyNames (h : Looser f g s t) : Looser f g (.names s) (.names t) where
  met {j l} hv := by
    rw [violations, List.flatMap_eq_nil_iff] at hv ⊢
    intro (name, v) hf
    have hv := hv (name, v) hf
    rw [List.map_eq_nil_iff] at hv ⊢
    exact h.met hv
  names _ := List.Subset.refl _
  items _ := covers_nil _
  references := h.references

protected theorem dependent (h : Looser f g s t) (name : String) :
    Looser f g (.dependent name s) (.dependent name t) where
  met {j l} hv := by
    rw [violations] at hv ⊢
    split
    · next hm =>
        rw [if_pos hm] at hv
        exact h.met hv
    · rfl
  names j := by
    rw [evaluatedNames, evaluatedNames]
    split
    · exact h.names j
    · exact List.Subset.refl _
  items _ := covers_nil _
  references := h.references

/-! ### Items -/

protected theorem item (h : Looser f g s t) (index : Nat) :
    Looser f g (.item index s) (.item index t) where
  met {j l} hv := by
    rw [violations] at hv ⊢
    cases hget : (itemsOf j)[index]? with
    | none => rfl
    | some v =>
        rw [hget] at hv
        exact h.met hv
  names _ := List.Subset.refl _
  items _ _ h := h
  references := h.references

protected theorem itemsFrom (h : Looser f g s t) (index : Nat) :
    Looser f g (.itemsFrom index s) (.itemsFrom index t) where
  met {j l} hv := by
    rw [violations, List.flatMap_eq_nil_iff] at hv ⊢
    exact fun v hmem => h.met (hv v hmem)
  names _ := List.Subset.refl _
  items _ _ h := h
  references := h.references

/-- Without an upper bound more items that meet the schema are no fault. -/
protected theorem contains (h : Looser f g s t) (low : Nat) :
    Looser f g (.contains low none s) (.contains low none t) where
  met {j l} hv := by
    cases j with
    | array items =>
        rw [violations] at hv ⊢
        have hsub : (items.filter fun v => (violations f s v []).isEmpty).Sublist
            (items.filter fun v => (violations g t v []).isEmpty) :=
          List.monotone_filter_right items fun v => h.isEmpty
        have hlen := hsub.length_le
        simp only [within, Option.all_none, Bool.and_true, decide_eq_true_eq] at hv ⊢
        split at hv
        · exact if_pos (by omega)
        · cases hv
    | _ => rfl
  names _ := List.Subset.refl _
  items j := h.covers_met (itemsOf j)
  references := h.references

/-! ### What is left over -/

protected theorem unevaluatedProperties (h : Looser f g s t) (hall : LooserAll f g ss ts) :
    Looser f g (.unevaluatedProperties ss s) (.unevaluatedProperties ts t) where
  met {j l} hv := by
    rw [violations] at hv ⊢
    split at hv
    · next hrest =>
        have hnone : (propertiesOf j).filter (fun (name, v) =>
            !(namesOfAll g ts j).contains name && !(violations g t v []).isEmpty) = [] := by
          rw [List.filter_eq_nil_iff] at hrest ⊢
          rintro ⟨name, v⟩ hf hbad
          refine hrest (name, v) hf ?_
          simp only [Bool.and_eq_true, Bool.not_eq_true', List.contains_eq_mem,
            decide_eq_false_iff_not] at hbad ⊢
          exact ⟨fun hmem => hbad.1 (hall.names j hmem),
            Bool.eq_false_iff.mpr fun hs => Bool.eq_false_iff.mp hbad.2 (h.isEmpty hs)⟩
        rw [hnone]
    · cases hv
  names j := h.names_filter (p := fun _ => true) _
  items _ := covers_nil _
  references := by
    rw [Compiled.references, Compiled.references, hall.references, h.references]

protected theorem unevaluatedItems (h : Looser f g s t) (hall : LooserAll f g ss ts) :
    Looser f g (.unevaluatedItems ss s) (.unevaluatedItems ts t) where
  met {j l} hv := by
    rw [violations] at hv ⊢
    split at hv
    · next hrest =>
        have hnone : (unmarked (itemsOfAll g ts j) (itemsOf j)).filter (fun v =>
            !(violations g t v []).isEmpty) = [] := by
          rw [List.filter_eq_nil_iff] at hrest ⊢
          intro v hmem hbad
          refine hrest v ((hall.items j).unmarked_sublist.subset hmem) ?_
          rw [Bool.not_eq_true', Bool.eq_false_iff] at hbad ⊢
          exact fun hs => hbad (h.isEmpty hs)
        rw [hnone]
    · cases hv
  names _ := List.Subset.refl _
  items j := h.covers_met (itemsOf j)
  references := by
    rw [Compiled.references, Compiled.references, hall.references, h.references]

end Looser

end EntityStore.Schema
