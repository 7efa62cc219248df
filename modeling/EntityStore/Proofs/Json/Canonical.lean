import EntityStore.Proofs.Json.Merge

/-! # Canonical values

Sorting the fields of an object puts their names in ascending order (`Fields.ascending_sort`) and
takes nothing in that was not there, so every value has a canonical one with the same content
(`Json.canonical_canonical`).  It is nested no deeper, so what is read from a syntax tree is no deeper
than a reader allows (`Json.depth_le_of_ofSource?`). -/

namespace EntityStore

namespace Fields

variable {name : String} {value : Json}

theorem mem_insertNew {f : String × Json} : ∀ {fields : Fields},
    f ∈ insertNew name value fields → f = (name, value) ∨ f ∈ fields
  | [], h => .inl (List.mem_singleton.mp h)
  | (k, v) :: rest, h => by
      rw [insertNew] at h
      split at h
      · exact List.mem_cons.mp h
      · split at h
        · exact .inr h
        · rcases List.mem_cons.mp h with h | h
          · exact .inr (h ▸ List.mem_cons_self)
          · exact (mem_insertNew h).imp_right (List.mem_cons_of_mem _)

theorem ascending_insertNew : ∀ {fields : Fields}, fields.Ascending →
    (insertNew name value fields).Ascending
  | [], _ => List.pairwise_singleton _ _
  | (k, v) :: rest, h => by
      obtain ⟨hk, hrest⟩ := List.pairwise_cons.mp h
      rw [insertNew]
      split
      · next hlt =>
          refine List.pairwise_cons.mpr ⟨fun f hf => ?_, h⟩
          rcases List.mem_cons.mp hf with rfl | hf
          · exact hlt
          · exact String.lt_trans hlt (hk f hf)
      · split
        · exact h
        · next hnot hne =>
            refine List.pairwise_cons.mpr ⟨fun f hf => ?_, ascending_insertNew hrest⟩
            rcases mem_insertNew hf with rfl | hf
            · exact String.not_le.mp fun hle =>
                hne (String.le_antisymm (String.not_lt.mp hnot) hle)
            · exact hk f hf

theorem ascending_sort (fields : Fields) : fields.sort.Ascending := by
  induction fields with
  | nil => exact List.Pairwise.nil
  | cons f rest ih => exact ascending_insertNew ih

theorem mem_of_mem_sort {f : String × Json} : ∀ {fields : Fields}, f ∈ fields.sort → f ∈ fields
  | g :: rest, h => by
      rcases mem_insertNew h with rfl | h
      · exact List.mem_cons_self
      · exact List.mem_cons_of_mem _ (mem_of_mem_sort h)

/-- Names that ascend make ascending fields. -/
theorem ascending_iff_names {fields : Fields} :
    fields.Ascending ↔ fields.names.Pairwise (· < ·) := List.pairwise_map.symm

end Fields

namespace Json

theorem canonicalItems_iff {items : List Json} :
    CanonicalItems items ↔ ∀ j ∈ items, j.Canonical := by
  induction items with
  | nil => exact iff_of_true trivial nofun
  | cons j rest ih => rw [CanonicalItems, ih, List.forall_mem_cons]

theorem canonical_of_get? {name : String} {j : Json} : ∀ {fields : Fields},
    CanonicalFields fields → Fields.get? name fields = some j → j.Canonical
  | (k, v) :: rest, h, hj => by
      rw [Fields.get?] at hj
      split at hj
      · cases hj
        exact h.1
      · exact canonical_of_get? h.2 hj

mutual
/-- The canonical value is canonical. -/
theorem canonical_canonical : ∀ j : Json, j.canonical.Canonical
  | .null | .bool _ | .number _ | .string _ => by simp only [canonical, Canonical]
  | .array items => canonicalItems_canonicalItems items
  | .object fields => by
      refine ⟨Fields.ascending_sort _, canonicalFields_iff.mpr fun f hf => ?_⟩
      exact canonicalFields_iff.mp (canonicalFields_canonicalFields fields) f
        (Fields.mem_of_mem_sort hf)

theorem canonicalItems_canonicalItems : ∀ items : List Json, CanonicalItems (canonicalItems items)
  | [] => trivial
  | j :: rest => ⟨canonical_canonical j, canonicalItems_canonicalItems rest⟩

theorem canonicalFields_canonicalFields : ∀ fields : List (String × Json),
    CanonicalFields (canonicalFields fields)
  | [] => trivial
  | (_, j) :: rest => ⟨canonical_canonical j, canonicalFields_canonicalFields rest⟩
end

end Json

/-! ### Depth -/

section reader
variable [FloatReader]

mutual
/-- A tree and its value are equally deep. -/
theorem Source.depth_of_value? : ∀ {s : Source} {j : Json}, s.value? = some j → j.depth = s.depth
  | .null, _, h | .bool _, _, h => by
      rw [value?, Option.some.injEq] at h
      simp only [← h, Json.depth, depth]
  | .number _, _, h | .string _, _, h => by
      obtain ⟨_, -, rfl⟩ := Option.map_eq_some_iff.mp h
      simp only [Json.depth, depth]
  | .array items, _, h => by
      obtain ⟨js, hitems, rfl⟩ := Option.map_eq_some_iff.mp h
      rw [Json.depth, depth, depthItems_of_valueItems? hitems]
  | .object fields, _, h => by
      obtain ⟨fs, hfields, rfl⟩ := Option.map_eq_some_iff.mp h
      rw [Json.depth, depth, depthFields_of_valueFields? hfields]

theorem Source.depthItems_of_valueItems? : ∀ {items : List Source} {js : List Json},
    valueItems? items = some js → Json.depthItems js = depthItems items
  | [], _, h => by cases h; rfl
  | s :: rest, _, h => by
      obtain ⟨j, hj, h⟩ := Option.bind_eq_some_iff.mp h
      obtain ⟨js, hjs, h⟩ := Option.bind_eq_some_iff.mp h
      cases h
      rw [Json.depthItems, depthItems, depth_of_value? hj, depthItems_of_valueItems? hjs]

theorem Source.depthFields_of_valueFields? : ∀ {fields : List (List Char × Source)} {fs : Fields},
    valueFields? fields = some fs → Json.depthFields fs = depthFields fields
  | [], _, h => by cases h; rfl
  | (_, s) :: rest, _, h => by
      obtain ⟨name, -, h⟩ := Option.bind_eq_some_iff.mp h
      obtain ⟨j, hj, h⟩ := Option.bind_eq_some_iff.mp h
      obtain ⟨fs, hfs, h⟩ := Option.bind_eq_some_iff.mp h
      cases h
      rw [Json.depthFields, depthFields, depth_of_value? hj, depthFields_of_valueFields? hfs]
end

end reader

namespace Json

mutual
theorem depth_canonical_le : ∀ j : Json, j.canonical.depth ≤ j.depth
  | .null | .bool _ | .number _ | .string _ => by simp only [canonical, le_refl]
  | .array items => by
      rw [canonical, depth, depth]
      exact Nat.succ_le_succ (depthItems_canonicalItems_le items)
  | .object fields => by
      rw [canonical, depth, depth]
      refine Nat.succ_le_succ (depthFields_le_iff.mpr fun f hf => ?_)
      exact depthFields_le_iff.mp (depthFields_canonicalFields_le fields) f
        (Fields.mem_of_mem_sort hf)

theorem depthItems_canonicalItems_le : ∀ items : List Json,
    depthItems (canonicalItems items) ≤ depthItems items
  | [] => Nat.le_refl _
  | j :: rest => max_le_max (depth_canonical_le j) (depthItems_canonicalItems_le rest)

theorem depthFields_canonicalFields_le : ∀ fields : List (String × Json),
    depthFields (canonicalFields fields) ≤ depthFields fields
  | [] => Nat.le_refl _
  | (_, j) :: rest => max_le_max (depth_canonical_le j) (depthFields_canonicalFields_le rest)
end

theorem depth_le_of_ofSource? [FloatReader] {s : Source} {j : Json} (h : ofSource? s = some j) :
    j.depth ≤ depthLimit := by
  rw [ofSource?] at h
  split at h
  · next hdepth =>
      obtain ⟨raw, hraw, rfl⟩ := Option.map_eq_some_iff.mp h
      exact Nat.le_trans (depth_canonical_le raw) (Source.depth_of_value? hraw ▸ hdepth)
  · cases h

end Json
end EntityStore
