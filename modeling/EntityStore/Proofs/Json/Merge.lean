import EntityStore.Proofs.Json.ReadBack

/-! # Laying one document over another

The fields of the one replace those of the other or are put between them, so a key leads to what it
leads to in the one laid on top, if it is there (`Fields.get?_merge`).  Two patches make one
(`Fields.merge_merge`).  The result is storable when both are (`Json.Storable.merge`). -/

namespace EntityStore

namespace Fields

theorem mem_insert {name : String} {value : Json} {f : String × Json} : ∀ {fields : Fields},
    f ∈ insert name value fields → f = (name, value) ∨ f ∈ fields
  | [], h => .inl (List.mem_singleton.mp h)
  | (k, v) :: rest, h => by
      rw [insert] at h
      split at h
      · exact List.mem_cons.mp h
      · split at h
        · rcases List.mem_cons.mp h with h | h
          · exact .inl h
          · exact .inr (List.mem_cons_of_mem _ h)
        · rcases List.mem_cons.mp h with h | h
          · exact .inr (h ▸ List.mem_cons_self)
          · rcases mem_insert h with h | h
            · exact .inl h
            · exact .inr (List.mem_cons_of_mem _ h)

theorem ascending_insert {name : String} {value : Json} : ∀ {fields : Fields},
    fields.Ascending → (insert name value fields).Ascending
  | [], _ => List.pairwise_singleton _ _
  | (k, v) :: rest, h => by
      obtain ⟨hk, hrest⟩ := List.pairwise_cons.mp h
      rw [insert]
      split
      · next hlt =>
          refine List.pairwise_cons.mpr ⟨fun f hf => ?_, h⟩
          rcases List.mem_cons.mp hf with rfl | hf
          · exact hlt
          · exact String.lt_trans hlt (hk f hf)
      · split
        · next heq => exact List.pairwise_cons.mpr ⟨fun f hf => heq ▸ hk f hf, hrest⟩
        · next hnot hne =>
            refine List.pairwise_cons.mpr ⟨fun f hf => ?_, ascending_insert hrest⟩
            rcases mem_insert hf with rfl | hf
            · exact String.not_le.mp fun hle =>
                hne (String.le_antisymm (String.not_lt.mp hnot) hle)
            · exact hk f hf

/-- What holds of the fields of two documents holds of those of the one laid over the other. -/
theorem forall_mem_merge {P : String × Json → Prop} {base patch : Fields}
    (hbase : ∀ f ∈ base, P f) (hpatch : ∀ f ∈ patch, P f) : ∀ f ∈ merge base patch, P f := by
  induction patch generalizing base with
  | nil => exact hbase
  | cons g rest ih =>
      refine ih (fun f hf => ?_) fun f hf => hpatch f (List.mem_cons_of_mem _ hf)
      rcases mem_insert hf with rfl | hf
      · exact hpatch g List.mem_cons_self
      · exact hbase f hf

theorem ascending_merge {base patch : Fields} (h : base.Ascending) :
    (merge base patch).Ascending := by
  induction patch generalizing base with
  | nil => exact h
  | cons g rest ih => exact ih (ascending_insert h)

/-- A field that is there is put in its own place. -/
theorem insert_of_mem {name : String} {value : Json} : ∀ {fields : Fields}, fields.Ascending →
    (name, value) ∈ fields → insert name value fields = fields
  | (k, v) :: rest, h, hmem => by
      obtain ⟨hk, hrest⟩ := List.pairwise_cons.mp h
      rw [insert]
      rcases List.mem_cons.mp hmem with heq | hmem
      · cases heq
        rw [if_neg (String.lt_irrefl _), if_pos rfl]
      · have hlt : k < name := hk _ hmem
        rw [if_neg (String.lt_asymm hlt), if_neg (String.ne_of_lt hlt), insert_of_mem hrest hmem]

/-- Laying fields over themselves changes nothing. -/
theorem merge_of_subset {base patch : Fields} (h : base.Ascending) (hsub : patch ⊆ base) :
    merge base patch = base := by
  induction patch with
  | nil => rfl
  | cons f rest ih =>
      obtain ⟨hf, hrest⟩ := List.cons_subset.mp hsub
      rw [merge, List.foldl_cons, insert_of_mem h hf]
      exact ih hrest

/-! ### What a key leads to -/

theorem get?_insert (key name : String) (value : Json) : ∀ fields : Fields,
    get? key (insert name value fields) = if name = key then some value else get? key fields
  | [] => rfl
  | (k, v) :: rest => by
      rw [insert]
      split
      · rfl
      · split
        · next hk =>
            rw [get?, get?, hk]
            split <;> rfl
        · next hk =>
            rw [get?, get?_insert key name value rest, get?]
            by_cases hkey : k = key
            · rw [if_pos hkey, if_neg (fun h => hk (hkey.trans h.symm)), if_pos hkey]
            · rw [if_neg hkey, if_neg hkey]

theorem get?_eq_none {key : String} : ∀ {fields : Fields}, (∀ f ∈ fields, f.1 ≠ key) →
    get? key fields = none
  | [], _ => rfl
  | f :: rest, h => by
      obtain ⟨hf, hrest⟩ := List.forall_mem_cons.mp h
      rw [get?, if_neg hf, get?_eq_none hrest]

/-- A field of merged documents is that of the patch, or else that of the base. -/
theorem get?_merge (key : String) {patch : Fields} (h : patch.Ascending) (base : Fields) :
    get? key (merge base patch) = (get? key patch).or (get? key base) := by
  induction patch generalizing base with
  | nil => rfl
  | cons f rest ih =>
      obtain ⟨hf, hrest⟩ := List.pairwise_cons.mp h
      have hmerge : merge base (f :: rest) = merge (insert f.1 f.2 base) rest := rfl
      rw [hmerge, ih hrest, get?_insert, get?]
      split
      · next hname =>
          have hnone : get? key rest = none :=
            get?_eq_none fun g hg heq => String.ne_of_lt (hf g hg) (hname.trans heq.symm)
          rw [hnone, Option.none_or, Option.some_or]
      · rfl

/-- Before the first name there is no field. -/
theorem get?_eq_none_of_lt {key name : String} {value : Json} {rest : Fields}
    (h : Ascending ((name, value) :: rest)) (hlt : key < name) :
    get? key ((name, value) :: rest) = none :=
  get?_eq_none fun f hf heq => by
    rcases List.mem_cons.mp hf with rfl | hf
    · exact String.ne_of_lt hlt heq.symm
    · exact String.ne_of_lt (String.lt_trans hlt ((List.pairwise_cons.mp h).1 f hf)) heq.symm

theorem get?_rest {key name : String} {value : Json} {rest : Fields}
    (h : Ascending ((name, value) :: rest)) :
    get? key rest = if name = key then none else get? key ((name, value) :: rest) := by
  rw [get?]
  split
  · next hname =>
      exact get?_eq_none fun f hf heq =>
        String.ne_of_lt ((List.pairwise_cons.mp h).1 f hf) (hname.trans heq.symm)
  · rfl

/-- Sorted fields are determined by the values of the keys. -/
theorem eq_of_get? : ∀ {fields others : Fields}, fields.Ascending → others.Ascending →
    (∀ key, get? key fields = get? key others) → fields = others
  | [], [], _, _, _ => rfl
  | [], (k, v) :: rest, _, _, h => by
      have hk := h k
      rw [get?, get?, if_pos rfl] at hk
      cases hk
  | (k, v) :: rest, [], _, _, h => by
      have hk := h k
      rw [get?, get?, if_pos rfl] at hk
      cases hk
  | (k, v) :: rest, (l, w) :: rest', hleft, hright, h => by
      have hk : get? k ((k, v) :: rest) = some v := if_pos rfl
      have hl : get? l ((l, w) :: rest') = some w := if_pos rfl
      -- the first names are the least ones on both sides
      obtain rfl : k = l := by
        refine String.le_antisymm (String.not_lt.mp fun hlt => ?_) (String.not_lt.mp fun hlt => ?_)
        · rw [← h l, get?_eq_none_of_lt hleft hlt] at hl
          cases hl
        · rw [h k, get?_eq_none_of_lt hright hlt] at hk
          cases hk
      obtain rfl : v = w := by
        rw [h k, hl] at hk
        exact (Option.some.inj hk).symm
      have hrest : rest = rest' :=
        eq_of_get? (List.pairwise_cons.mp hleft).2 (List.pairwise_cons.mp hright).2 fun key => by
          rw [get?_rest hleft, get?_rest hright, h key]
      rw [hrest]

/-- Two patches, one after the other, are one patch. -/
theorem merge_merge {base p q : Fields} (hbase : base.Ascending) (hp : p.Ascending)
    (hq : q.Ascending) : merge (merge base p) q = merge base (merge p q) := by
  refine eq_of_get? (ascending_merge (ascending_merge hbase)) (ascending_merge hbase) fun key => ?_
  rw [get?_merge key hq, get?_merge key hp, get?_merge key (ascending_merge hp),
    get?_merge key hq, Option.or_assoc]

end Fields

namespace Json

theorem canonicalFields_iff {fields : Fields} :
    CanonicalFields fields ↔ ∀ f ∈ fields, f.2.Canonical := by
  induction fields with
  | nil => simp [CanonicalFields]
  | cons f rest ih => simp [CanonicalFields, ih]

theorem numbersFitFields_iff {fields : Fields} :
    NumbersFitFields fields ↔ ∀ f ∈ fields, f.2.NumbersFit := by
  induction fields with
  | nil => simp [NumbersFitFields]
  | cons f rest ih => simp [NumbersFitFields, ih]

theorem depthFields_le_iff {fields : Fields} {n : Nat} :
    depthFields fields ≤ n ↔ ∀ f ∈ fields, f.2.depth ≤ n := by
  induction fields with
  | nil => simp [depthFields]
  | cons f rest ih => simp [depthFields, ih]

theorem regular_object_iff {fields : Fields} : (object fields).Regular ↔
    fields.Ascending ∧ ∀ f ∈ fields, f.2.Regular := by
  constructor
  · rintro ⟨⟨hascending, hcanonical⟩, hnumbers⟩
    exact ⟨hascending, fun f hf =>
      ⟨canonicalFields_iff.mp hcanonical f hf, numbersFitFields_iff.mp hnumbers f hf⟩⟩
  · rintro ⟨hascending, h⟩
    exact ⟨⟨hascending, canonicalFields_iff.mpr fun f hf => (h f hf).canonical⟩,
      numbersFitFields_iff.mpr fun f hf => (h f hf).numbers⟩

/-- A regular object laid over another one gives a regular object. -/
theorem Regular.merge {base patch : Fields} (hbase : (object base).Regular)
    (hpatch : (object patch).Regular) : (object (Fields.merge base patch)).Regular := by
  rw [regular_object_iff] at hbase hpatch ⊢
  exact ⟨Fields.ascending_merge hbase.1, Fields.forall_mem_merge hbase.2 hpatch.2⟩

theorem depth_object_le_iff {fields : Fields} {n : Nat} :
    (object fields).depth ≤ n + 1 ↔ ∀ f ∈ fields, f.2.depth ≤ n := by
  rw [depth, Nat.succ_le_succ_iff, depthFields_le_iff]

/-- An object laid over another one gives an object that is no deeper than both. -/
theorem depth_merge_le {base patch : Fields} {n : Nat} (hbase : (object base).depth ≤ n)
    (hpatch : (object patch).depth ≤ n) : (object (Fields.merge base patch)).depth ≤ n := by
  obtain ⟨m, rfl⟩ : ∃ m, n = m + 1 := Nat.exists_eq_succ_of_ne_zero (Nat.ne_zero_of_lt hbase)
  rw [depth_object_le_iff] at hbase hpatch ⊢
  exact Fields.forall_mem_merge hbase hpatch

/-- The fields of a storable object are ascending, and their values can stand in one. -/
theorem storable_object_iff {fields : Fields} : (object fields).Storable ↔
    fields.Ascending ∧
      ∀ f ∈ fields, f.2.Canonical ∧ f.2.NumbersFit ∧ f.2.depth + 1 ≤ depthLimit := by
  rw [storable_iff, regular_object_iff, depthLimit, depth_object_le_iff, and_assoc]
  refine and_congr_right fun _ => ?_
  rw [← forall₂_and]
  refine forall₂_congr fun f _ => ⟨fun ⟨h, hd⟩ => ⟨h.canonical, h.numbers, Nat.succ_le_succ hd⟩,
    fun ⟨hcanonical, hnumbers, hd⟩ => ⟨⟨hcanonical, hnumbers⟩, Nat.le_of_succ_le_succ hd⟩⟩

/-- A storable object laid over another one gives a storable object. -/
theorem Storable.merge {base patch : Fields} (hbase : (object base).Storable)
    (hpatch : (object patch).Storable) : (object (Fields.merge base patch)).Storable :=
  storable_iff.mpr ⟨hbase.regular.merge hpatch.regular, depth_merge_le hbase.depth hpatch.depth⟩

end Json
end EntityStore
