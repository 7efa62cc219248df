import EntityStore.Proofs.Json.Canonical
import EntityStore.Wire.Fields
import Mathlib.Data.List.Forall2

/-! # Fields that are written and read back

In an object whose names ascend, each declared field is what is found under its name
(`slots?_object`).  A field is read back where its value is: `optional_optionalValue` for one that may
be absent, `readItems?_map` for a list. -/

namespace EntityStore.Wire

/-! ### Slots -/

/-- Where names ascend, a field is given at most once. -/
theorem single?_eq {name : String} : ∀ {fields : Fields}, fields.Ascending →
    single? name fields = some (fields.get? name)
  | [], _ => rfl
  | (k, v) :: rest, h => by
      obtain ⟨hk, hrest⟩ := List.pairwise_cons.mp h
      by_cases hname : k = name
      · have hnone : rest.filter (fun f => f.1 = name) = [] :=
          List.filter_eq_nil_iff.mpr fun f hf hsame => by
            have hlt := hk f hf
            rw [of_decide_eq_true hsame, hname] at hlt
            exact String.lt_irrefl _ hlt
        rw [single?, List.filter_cons, if_pos (decide_eq_true hname), hnone, Fields.get?,
          if_pos hname]
      · rw [single?, List.filter_cons, if_neg (by rwa [decide_eq_true_eq]), Fields.get?,
          if_neg hname]
        exact single?_eq hrest

/-- The declared fields of an object are those found under their names. -/
theorem slots?_object {fields : Fields} (h : fields.Ascending) : ∀ slots : List Slot,
    slots? slots (.object fields) = some (slots.map fun slot => fields.get? slot.name)
  | [] => rfl
  | slot :: rest => by
      have hrest : named? fields rest = some _ := slots?_object h rest
      rw [slots?, named?, single?_eq h, hrest]
      rfl

/-! ### Single fields -/

section reading
variable {α : Type} {read : Json → Option α} {write : α → Json}

theorem optional_of_ne_null {j : Json} (h : j ≠ .null) :
    optional read (some j) = (read j).map some := by
  rw [optional]
  exact h

theorem optional_optionalValue {a : Option α} (hread : ∀ x ∈ a, read (write x) = some x)
    (hnull : ∀ x ∈ a, write x ≠ .null) : optional read (some (optionalValue write a)) = some a := by
  cases a with
  | none => rfl
  | some x => rw [optionalValue, optional_of_ne_null (hnull x rfl), hread x rfl, Option.map_some]

theorem optional_string (text : Option String) :
    optional readString? (some (optionalValue .string text)) = some text :=
  optional_optionalValue (fun _ _ => rfl) fun _ _ => Json.noConfusion

/-! ### Lists -/

theorem forall₂_readItems? : ∀ {items : List Json} {as : List α},
    readItems? read items = some as ↔ List.Forall₂ (fun j a => read j = some a) items as
  | [], as => by
      rw [readItems?, Option.some.injEq, List.forall₂_nil_left_iff, eq_comm]
  | j :: rest, as => by
      simp only [readItems?, Option.bind_eq_bind, Option.bind_eq_some_iff, Option.pure_def,
        Option.some.injEq, List.forall₂_cons_left_iff]
      constructor
      · rintro ⟨a, ha, as', has', rfl⟩
        exact ⟨a, as', ha, forall₂_readItems?.mp has', rfl⟩
      · rintro ⟨a, as', ha, has', rfl⟩
        exact ⟨a, ha, as', forall₂_readItems?.mpr has', rfl⟩

theorem readItems?_map {as : List α} (h : ∀ a ∈ as, read (write a) = some a) :
    readItems? read (as.map write) = some as := by
  rw [forall₂_readItems?, List.forall₂_map_left_iff, List.forall₂_same]
  exact h

/-- What is true of everything that is read is true of the items that are read. -/
theorem forall_mem_of_readItems? {P : α → Prop} (h : ∀ j a, read j = some a → P a)
    {items : List Json} {as : List α} (hread : readItems? read items = some as) : ∀ a ∈ as, P a := by
  have hboth := forall₂_readItems?.mp hread
  induction hboth with
  | nil => exact nofun
  | cons ha hrest ih =>
      exact List.forall_mem_cons.mpr ⟨h _ _ ha, ih (forall₂_readItems?.mpr hrest)⟩

theorem readList?_eq_some {j : Json} {as : List α} : readList? read j = some as ↔
    ∃ items, j = .array items ∧ readItems? read items = some as := by
  constructor
  · intro h
    cases j with
    | array items => exact ⟨items, rfl, h⟩
    | null | bool _ | number _ | string _ | object _ => cases h
  · rintro ⟨items, rfl, h⟩
    exact h

end reading

/-! ### Documents -/

theorem required_readAny?_eq_some {given : Option Json} {data : Json}
    (h : required readAny? given = some data) : data.Canonical := by
  cases given with
  | none => cases h
  | some j =>
      cases h
      exact j.canonical_canonical

theorem orElse_readAny?_eq_some {default : Json} (hdefault : default.Canonical)
    {given : Option Json} {data : Json} (h : orElse default readAny? given = some data) :
    data.Canonical := by
  cases given with
  | none =>
      cases h
      exact hdefault
  | some j =>
      cases h
      exact j.canonical_canonical

/-- Null is read as absence. -/
theorem optional_readAny?_eq_some {given data : Option Json}
    (h : optional readAny? given = some data) : ∀ j ∈ data, j.Canonical ∧ j ≠ .null := by
  unfold optional at h
  split at h
  · cases h
    exact nofun
  · cases h
    exact nofun
  · next j hnull =>
      cases h
      rintro _ ⟨⟩
      refine ⟨j.canonical_canonical, fun h => hnull ?_⟩
      cases j with
      | null => rfl
      | bool _ | number _ | string _ | array _ | object _ => simp only [Json.canonical] at h; cases h

theorem readAny?_of_canonical {j : Json} (h : j.Canonical) : readAny? j = some j := by
  rw [readAny?, Json.canonical_eq_self j h]

/-! ### Numbers -/

theorem readInteger?_eq_some {low high i : Int} {j : Json} : readInteger? low high j = some i ↔
    j = .number (.integer i) ∧ low ≤ i ∧ i ≤ high := by
  unfold readInteger?
  split
  · next k =>
      split
      · next h =>
          constructor
          · rintro ⟨⟩
            exact ⟨rfl, h⟩
          · rintro ⟨hk, -⟩
            cases hk
            rfl
      · next h =>
          refine iff_of_false nofun ?_
          rintro ⟨hk, hrange⟩
          cases hk
          exact h hrange
  · next hno => exact iff_of_false nofun fun ⟨hj, _⟩ => hno i hj

theorem readNatural?_eq_some {bound n : Nat} {j : Json} :
    readNatural? bound j = some n ↔ j = natural n ∧ n < bound := by
  simp only [readNatural?, Option.map_eq_some_iff, readInteger?_eq_some]
  constructor
  · rintro ⟨i, ⟨rfl, hlow, hhigh⟩, rfl⟩
    refine ⟨?_, by omega⟩
    rw [natural, Int.toNat_of_nonneg hlow]
  · rintro ⟨rfl, hlt⟩
    exact ⟨n, ⟨rfl, by omega, by omega⟩, rfl⟩

end EntityStore.Wire
