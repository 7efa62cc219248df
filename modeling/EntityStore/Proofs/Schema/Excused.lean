import EntityStore.Proofs.Schema.Relaxation
import EntityStore.Proofs.Schema.Same

/-! # Schemas that excuse what is missing

A schema is `Excused` by another one when that one reports the same violations in the same order, but
none of presence.  Keywords that report what their subschemas report hand this on; `not` and the
condition of a branch decide by whether anything is reported, and must be the same in both
schemas. -/

namespace EntityStore.Schema

open Compiled

variable {f g : Follow} {s t : Compiled} {ss ts : List Compiled}

/-- Under `g` the schema `t` reports what `s` reports under `f`, except what is missing. -/
structure Excused (f g : Follow) (s t : Compiled) : Prop where
  violations : ∀ j l,
    violations g t j l = (violations f s j l).filter fun v => !v.isPresence
  references : t.references = s.references

/-- The same of schemas that stand next to each other. -/
structure ExcusedAll (f g : Follow) (ss ts : List Compiled) : Prop where
  violations : ∀ j l,
    violationsAll g ts j l = (violationsAll f ss j l).filter fun v => !v.isPresence
  references : referencesOf ts = referencesOf ss

/-! ### Schemas next to each other -/

namespace ExcusedAll

theorem nil : ExcusedAll f g [] [] := ⟨fun _ _ => rfl, rfl⟩

theorem append {ss' ts' : List Compiled} (h : ExcusedAll f g ss ts) (h' : ExcusedAll f g ss' ts') :
    ExcusedAll f g (ss ++ ss') (ts ++ ts') where
  violations j l := by
    rw [violationsAll_append, violationsAll_append, List.filter_append, h.violations,
      h'.violations]
  references := by
    rw [referencesOf_append, referencesOf_append, h.references, h'.references]

theorem single (h : Excused f g s t) : ExcusedAll f g [s] [t] where
  violations j l := by
    rw [violationsAll, violationsAll, violationsAll, violationsAll, List.append_nil,
      List.append_nil, h.violations]
  references := by
    rw [referencesOf, referencesOf, h.references]
    rfl

theorem of_forall₂ (h : List.Forall₂ (Excused f g) ss ts) : ExcusedAll f g ss ts := by
  induction h with
  | nil => exact nil
  | cons h _ ih => exact (single h).append ih

end ExcusedAll

/-! ### Demands for presence -/

/-- All that demands for presence report is missing. -/
theorem isPresence_presence {keys : List String} {j : Json} {l : Location} :
    ∀ v ∈ violations f (presence keys) j l, v.isPresence = true := by
  rw [presence, violations]
  induction keys with
  | nil => nofun
  | cons key keys ih =>
      intro v hv
      rw [List.map_cons, violationsAll, List.mem_append] at hv
      rcases hv with hv | hv
      · rw [violations] at hv
        split at hv
        · cases hv
        · rw [List.mem_singleton.mp hv]
          rfl
      · exact ih v hv

theorem references_presence (keys : List String) : (presence keys).references = [] := by
  rw [presence, Compiled.references]
  induction keys with
  | nil => rfl
  | cons key keys ih => exact ih

/-- A schema that reports nothing but what is missing can be left out. -/
theorem ExcusedAll.drop (h : ∀ j l, ∀ v ∈ Compiled.violations f s j l, v.isPresence = true)
    (hreferences : s.references = []) : ExcusedAll f g [s] [] where
  violations j l := by
    rw [violationsAll, violationsAll, violationsAll, List.append_nil]
    refine (List.filter_eq_nil_iff.mpr fun v hv => ?_).symm
    rw [h j l v hv]
    decide
  references := by
    rw [referencesOf, referencesOf, hreferences]
    rfl

/-- A schema without subschemas reports what is wrong, if it demands no presence. -/
theorem isPresence_of_isLeaf (h : s.isLeaf = true) {j : Json} {l : Location} :
    ∀ v ∈ violations f s j l, v.isPresence = false := by
  have hsingle : ∀ {v w : Violation}, w.isPresence = false → v ∈ [w] → v.isPresence = false := by
    intro v w hw hv
    rw [List.mem_singleton.mp hv, hw]
  cases s with
  | always => nofun
  | never => exact fun v => hsingle rfl
  | check c =>
      rw [violations]
      split
      · nofun
      · cases c with
        | present name => cases h
        | _ => exact fun v => hsingle rfl
  | closed _ _ | noProperties | noNames | noItemsFrom _ =>
      rw [violations]
      split
      · nofun
      · exact fun v => hsingle rfl
  | _ => cases h

/-- A schema that reports only what is wrong, and the same either way, has nothing to excuse. -/
theorem Same.excused (hsame : Same f g s)
    (h : ∀ j l, ∀ v ∈ Compiled.violations f s j l, v.isPresence = false) : Excused f g s s where
  violations j l := by
    rw [← hsame.violations]
    refine (List.filter_eq_self.mpr fun v hv => ?_).symm
    rw [h j l v hv]
    rfl
  references := rfl

/-! ### Keywords -/

namespace Excused

protected theorem all (h : ExcusedAll f g ss ts) : Excused f g (.all ss) (.all ts) where
  violations j l := by
    rw [Compiled.violations, Compiled.violations, h.violations]
  references := h.references

protected theorem allOf (h : List.Forall₂ (Excused f g) ss ts) :
    Excused f g (.allOf ss) (.allOf ts) where
  violations j l := by
    rw [Compiled.violations, Compiled.violations, (ExcusedAll.of_forall₂ h).violations]
  references := (ExcusedAll.of_forall₂ h).references

/-- The condition decides alike for both; so the branches are compared in pairs. -/
protected theorem ifThenElse {c yes no yes' no' : Compiled} (hc : Same f g c)
    (hyes : Excused f g yes yes') (hno : Excused f g no no') :
    Excused f g (.ifThenElse c yes no) (.ifThenElse c yes' no') where
  violations j l := by
    rw [Compiled.violations, Compiled.violations, ← hc.violations]
    split
    · exact hyes.violations j l
    · exact hno.violations j l
  references := by
    rw [Compiled.references, Compiled.references, hyes.references, hno.references]

/-- What must not be met is reported as something wrong, whatever is missing in it. -/
protected theorem not (source : Json) (hs : Same f g s) :
    Excused f g (.not source s) (.not source s) where
  violations j l := by
    rw [Compiled.violations, Compiled.violations, ← hs.violations]
    split <;> rfl
  references := rfl

protected theorem property (h : Excused f g s t) (name : String) :
    Excused f g (.property name s) (.property name t) where
  violations j l := by
    rw [Compiled.violations, Compiled.violations]
    cases Fields.get? name (propertiesOf j) with
    | none => rfl
    | some v => exact h.violations v _
  references := h.references

protected theorem matching (h : Excused f g s t) (regex : Regex) :
    Excused f g (.matching regex s) (.matching regex t) where
  violations j l := by
    rw [Compiled.violations, Compiled.violations, List.filter_flatMap]
    refine List.flatMap_congr fun (name, v) _ => ?_
    dsimp only
    split
    · exact h.violations v _
    · rfl
  references := h.references

protected theorem additional (h : Excused f g s t) (listed : List String)
    (patterns : List Regex) :
    Excused f g (.additional listed patterns s) (.additional listed patterns t) where
  violations j l := by
    rw [Compiled.violations, Compiled.violations, List.filter_flatMap]
    refine List.flatMap_congr fun (name, v) _ => ?_
    dsimp only
    split
    · exact h.violations v _
    · rfl
  references := h.references

/-- What is wrong with a name is reported at the object, and stays what it is. -/
protected theorem propertyNames (h : Excused f g s t) : Excused f g (.names s) (.names t) where
  violations j l := by
    rw [Compiled.violations, Compiled.violations, List.filter_flatMap]
    refine List.flatMap_congr fun (name, v) _ => ?_
    dsimp only
    rw [h.violations, List.filter_map]
    rfl
  references := h.references

protected theorem dependent (h : Excused f g s t) (name : String) :
    Excused f g (.dependent name s) (.dependent name t) where
  violations j l := by
    rw [Compiled.violations, Compiled.violations]
    split
    · exact h.violations j l
    · rfl
  references := h.references

protected theorem item (h : Excused f g s t) (index : Nat) :
    Excused f g (.item index s) (.item index t) where
  violations j l := by
    rw [Compiled.violations, Compiled.violations]
    cases (itemsOf j)[index]? with
    | none => rfl
    | some v => exact h.violations v _
  references := h.references

protected theorem itemsFrom (h : Excused f g s t) (index : Nat) :
    Excused f g (.itemsFrom index s) (.itemsFrom index t) where
  violations j l := by
    rw [Compiled.violations, Compiled.violations, List.filter_flatMap]
    exact List.flatMap_congr fun (i, v) _ => h.violations v _
  references := h.references

end Excused

/-- Keywords that report what their subschemas report excuse what these excuse. -/
theorem excused_relaxation : Relaxation (Excused f g) (ExcusedAll f g) where
  nil := .nil
  append := .append
  single := .single
  drop keys := .drop (fun _ _ => isPresence_presence) (references_presence keys)
  dropDependent name keys := by
    refine .drop (fun j l v hv => ?_) (references_presence keys)
    rw [violations] at hv
    split at hv
    · exact isPresence_presence v hv
    · cases hv
  leaf h := (UsesOnly.same (P := fun _ => False) nofun _ (usesOnly_of_isLeaf h)).excused
    fun _ _ => isPresence_of_isLeaf h
  all := .all
  allOf := .allOf
  property name h := h.property name
  matching regex h := h.matching regex
  additional listed patterns h := h.additional listed patterns
  names := .propertyNames
  dependent name h := h.dependent name
  item index h := h.item index
  itemsFrom index h := h.itemsFrom index

end EntityStore.Schema
