import Mathlib.Data.List.Forall2
import EntityStore.Schema.Reference

/-! # Schemas that ask for less

A schema is `Looser` than another one when every value that meets the other one meets it too, and
when it takes at least as much of a value into account.  References are followed in two ways, one for
each schema.

Most keywords hand this on from their subschemas; there is one lemma for each of them.  The others
can refuse more when a subschema asks for less.  Their subschemas have to be the same and to lead to
nothing that has changed: `UsesOnly` says which references a schema uses, and `Same` that the
two ways of following references make no difference to it. -/

namespace EntityStore.Schema

open Compiled

variable {f g : Follow}

/-! ### Flags of items -/

/-- Every flag that is set in the first list is set in the second one. -/
def Covers (as bs : List Bool) : Prop := ∀ i : Nat, as[i]? = some true → bs[i]? = some true

theorem getElem?_mergeFlags_eq_true : ∀ {as bs : List Bool} {i : Nat},
    (mergeFlags as bs)[i]? = some true ↔ as[i]? = some true ∨ bs[i]? = some true
  | [], bs, i => by simp only [mergeFlags, List.getElem?_nil, reduceCtorEq, false_or]
  | a :: as, [], i => by simp only [mergeFlags, List.getElem?_nil, reduceCtorEq, or_false]
  | a :: as, b :: bs, 0 => by simp [mergeFlags]
  | a :: as, b :: bs, i + 1 => by
      rw [mergeFlags, List.getElem?_cons_succ, List.getElem?_cons_succ, List.getElem?_cons_succ]
      exact getElem?_mergeFlags_eq_true

theorem Covers.merge {as bs as' bs' : List Bool} (ha : Covers as as') (hb : Covers bs bs') :
    Covers (mergeFlags as bs) (mergeFlags as' bs') := by
  intro i hi
  rw [getElem?_mergeFlags_eq_true] at hi ⊢
  exact hi.imp (ha i) (hb i)

theorem covers_nil (flags : List Bool) : Covers [] flags := by
  intro i hi
  cases hi

/-- Flags that a value sets for each item cover those that a stricter condition sets. -/
theorem covers_map {items : List Json} {p q : Json → Bool} (h : ∀ j, p j = true → q j = true) :
    Covers (items.map p) (items.map q) := by
  intro i hi
  rw [List.getElem?_map, Option.map_eq_some_iff] at hi ⊢
  obtain ⟨j, hj, hp⟩ := hi
  exact ⟨j, hj, h j hp⟩

theorem unmarked_nil (items : List Json) : unmarked [] items = items := by
  cases items with
  | nil => rfl
  | cons _ _ => rfl

theorem unmarked_sublist_self : ∀ (flags : List Bool) (items : List Json),
    (unmarked flags items).Sublist items
  | _, [] => by simp only [unmarked, List.Sublist.refl]
  | [], _ :: _ => List.Sublist.refl _
  | true :: flags, j :: items => (unmarked_sublist_self flags items).cons j
  | false :: flags, j :: items => (unmarked_sublist_self flags items).cons_cons j

/-- More flags leave fewer items over. -/
theorem Covers.unmarked_sublist : ∀ {as bs : List Bool} {items : List Json}, Covers as bs →
    (unmarked bs items).Sublist (unmarked as items)
  | as, bs, [], _ => by simp only [unmarked, List.Sublist.refl]
  | [], bs, j :: items, _ => by
      rw [unmarked_nil]
      exact unmarked_sublist_self bs (j :: items)
  | true :: as, [], j :: items, h => by cases h 0 rfl
  | true :: as, false :: bs, j :: items, h => by cases h 0 rfl
  | true :: as, true :: bs, j :: items, h => by
      rw [unmarked, unmarked]
      exact Covers.unmarked_sublist fun i hi => h (i + 1) hi
  | false :: as, [], j :: items, h => by
      have ih : (unmarked [] items).Sublist (unmarked as items) :=
        Covers.unmarked_sublist fun i hi => h (i + 1) hi
      rw [unmarked_nil] at ih
      exact ih.cons_cons j
  | false :: as, true :: bs, j :: items, h => by
      rw [unmarked, unmarked]
      exact (Covers.unmarked_sublist fun i hi => h (i + 1) hi).cons j
  | false :: as, false :: bs, j :: items, h => by
      rw [unmarked, unmarked]
      exact (Covers.unmarked_sublist fun i hi => h (i + 1) hi).cons_cons j

/-! ### Asking for less -/

/-- Under `g` the schema `t` asks for no more than `s` does under `f`. -/
structure Looser (f g : Follow) (s t : Compiled) : Prop where
  met : ∀ {j l}, violations f s j l = [] → violations g t j l = []
  names : ∀ j, evaluatedNames f s j ⊆ evaluatedNames g t j
  items : ∀ j, Covers (evaluatedItems f s j) (evaluatedItems g t j)
  references : t.references = s.references

/-- The same of schemas that stand next to each other. -/
structure LooserAll (f g : Follow) (ss ts : List Compiled) : Prop where
  met : ∀ {j l}, violationsAll f ss j l = [] → violationsAll g ts j l = []
  names : ∀ j, namesOfAll f ss j ⊆ namesOfAll g ts j
  items : ∀ j, Covers (itemsOfAll f ss j) (itemsOfAll g ts j)
  references : referencesOf ts = referencesOf ss

variable {s t : Compiled} {ss ts : List Compiled}

/-- The conditions of the evaluation are met as well. -/
theorem Looser.isEmpty (h : Looser f g s t) {j : Json} {l : Location}
    (hs : (violations f s j l).isEmpty = true) : (violations g t j l).isEmpty = true :=
  List.isEmpty_iff.mpr (h.met (List.isEmpty_iff.mp hs))

/-! ### Schemas next to each other -/

theorem violationsAll_append (ss ts : List Compiled) (j : Json) (l : Location) :
    violationsAll f (ss ++ ts) j l = violationsAll f ss j l ++ violationsAll f ts j l := by
  induction ss with
  | nil => rfl
  | cons s ss ih => rw [List.cons_append, violationsAll, violationsAll, ih, List.append_assoc]

theorem namesOfAll_append (ss ts : List Compiled) (j : Json) :
    namesOfAll f (ss ++ ts) j = namesOfAll f ss j ++ namesOfAll f ts j := by
  induction ss with
  | nil => rfl
  | cons s ss ih => rw [List.cons_append, namesOfAll, namesOfAll, ih, List.append_assoc]

theorem getElem?_itemsOfAll_append (ss ts : List Compiled) (j : Json) (i : Nat) :
    (itemsOfAll f (ss ++ ts) j)[i]? = some true ↔
      (itemsOfAll f ss j)[i]? = some true ∨ (itemsOfAll f ts j)[i]? = some true := by
  induction ss with
  | nil => simp only [List.nil_append, itemsOfAll, List.getElem?_nil, reduceCtorEq, false_or]
  | cons s ss ih =>
      rw [List.cons_append, itemsOfAll, itemsOfAll, getElem?_mergeFlags_eq_true,
        getElem?_mergeFlags_eq_true, ih, or_assoc]

theorem referencesOf_append (ss ts : List Compiled) :
    referencesOf (ss ++ ts) = referencesOf ss ++ referencesOf ts := by
  induction ss with
  | nil => rfl
  | cons s ss ih => rw [List.cons_append, referencesOf, referencesOf, ih, List.append_assoc]

namespace LooserAll

theorem nil : LooserAll f g [] [] where
  met _ := rfl
  names _ := List.Subset.refl _
  items _ := covers_nil _
  references := rfl

theorem append {ss' ts' : List Compiled} (h : LooserAll f g ss ts) (h' : LooserAll f g ss' ts') :
    LooserAll f g (ss ++ ss') (ts ++ ts') where
  met hv := by
    rw [violationsAll_append, List.append_eq_nil_iff] at hv ⊢
    exact ⟨h.met hv.1, h'.met hv.2⟩
  names j := by
    rw [namesOfAll_append, namesOfAll_append]
    exact List.append_subset.mpr ⟨List.subset_append_of_subset_left _ (h.names j),
      List.subset_append_of_subset_right _ (h'.names j)⟩
  items j i hi := by
    rw [getElem?_itemsOfAll_append] at hi ⊢
    exact hi.imp (h.items j i) (h'.items j i)
  references := by
    rw [referencesOf_append, referencesOf_append, h.references, h'.references]

theorem single (h : Looser f g s t) : LooserAll f g [s] [t] where
  met hv := by
    rw [violationsAll, violationsAll, List.append_nil] at hv ⊢
    exact h.met hv
  names j := by
    rw [namesOfAll, namesOfAll, namesOfAll, namesOfAll, List.append_nil, List.append_nil]
    exact h.names j
  items j := by
    rw [itemsOfAll, itemsOfAll]
    exact (h.items j).merge (covers_nil _)
  references := by
    rw [referencesOf, referencesOf, h.references]
    rfl

theorem of_forall₂ (h : List.Forall₂ (Looser f g) ss ts) : LooserAll f g ss ts := by
  induction h with
  | nil => exact nil
  | cons h _ ih => exact (single h).append ih

end LooserAll

/-- Demands for presence can be left out: they evaluate nothing and make no reference. -/
theorem LooserAll.of_presence (keys : List String) : LooserAll f g [presence keys] [] where
  met _ := rfl
  names j := by
    have h : namesOfAll f (keys.map fun n => .check (.present n)) j = [] := by
      induction keys with
      | nil => rfl
      | cons n keys ih => exact ih
    show namesOfAll f (keys.map fun n => .check (.present n)) j ++ [] ⊆ []
    rw [h]
    exact List.Subset.refl _
  items j := by
    have h : itemsOfAll f (keys.map fun n => .check (.present n)) j = [] := by
      induction keys with
      | nil => rfl
      | cons n keys ih => exact ih
    show Covers (mergeFlags (itemsOfAll f (keys.map fun n => .check (.present n)) j) []) []
    rw [h]
    exact covers_nil _
  references := by
    have h : referencesOf (keys.map fun n => .check (.present n)) = [] := by
      induction keys with
      | nil => rfl
      | cons n keys ih => exact ih
    show [] = referencesOf (keys.map fun n => .check (.present n)) ++ []
    rw [h]
    rfl

end EntityStore.Schema
