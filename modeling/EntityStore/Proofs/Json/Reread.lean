import EntityStore.Proofs.Json.Canonical

/-! # What reading a value anew keeps

A value that is read of the text of another one (`Json.reread`) differs from it in doubles only.  It
has the same fields, in the same order (`Json.get?_rereadFields`), is as deep and can be stored again
(`Json.Storable.reread`).  Documents can be laid over one another before or after
(`Json.rereadFields_merge`). -/

namespace EntityStore

variable [FloatReader]

theorem Number.Fits.reread {n : Number} (h : n.Fits) : n.reread.Fits := by
  cases n with
  | integer _ => exact h
  | float _ => trivial

namespace Json

mutual
theorem numbersFit_reread : ∀ j : Json, j.NumbersFit → j.reread.NumbersFit
  | .null, _ | .bool _, _ | .string _, _ => trivial
  | .number _, h => Number.Fits.reread h
  | .array items, h => numbersFitItems_rereadItems items h
  | .object fields, h => numbersFitFields_rereadFields fields h

theorem numbersFitItems_rereadItems : ∀ items : List Json, NumbersFitItems items →
    NumbersFitItems (rereadItems items)
  | [], _ => trivial
  | j :: rest, h => ⟨numbersFit_reread j h.1, numbersFitItems_rereadItems rest h.2⟩

theorem numbersFitFields_rereadFields : ∀ fields : List (String × Json), NumbersFitFields fields →
    NumbersFitFields (rereadFields fields)
  | [], _ => trivial
  | (_, j) :: rest, h => ⟨numbersFit_reread j h.1, numbersFitFields_rereadFields rest h.2⟩
end

mutual
theorem depth_reread : ∀ j : Json, j.reread.depth = j.depth
  | .null | .bool _ | .number _ | .string _ => by simp only [reread, depth]
  | .array items => by rw [reread, depth, depth, depthItems_rereadItems]
  | .object fields => by rw [reread, depth, depth, depthFields_rereadFields]

theorem depthItems_rereadItems : ∀ items : List Json,
    depthItems (rereadItems items) = depthItems items
  | [] => rfl
  | j :: rest => by rw [rereadItems, depthItems, depthItems, depth_reread j, depthItems_rereadItems]

theorem depthFields_rereadFields : ∀ fields : List (String × Json),
    depthFields (rereadFields fields) = depthFields fields
  | [] => rfl
  | (_, j) :: rest => by
      rw [rereadFields, depthFields, depthFields, depth_reread j, depthFields_rereadFields]
end

theorem Regular.reread {j : Json} (h : j.Regular) : j.reread.Regular :=
  ⟨canonical_reread j h.canonical, numbersFit_reread j h.numbers⟩

theorem Storable.reread {j : Json} (h : j.Storable) : j.reread.Storable :=
  storable_iff.mpr ⟨h.regular.reread, by rw [depth_reread]; exact h.depth⟩

/-! ### Fields -/

theorem get?_rereadFields (key : String) (fields : Fields) :
    Fields.get? key (rereadFields fields) = (Fields.get? key fields).map reread := by
  induction fields with
  | nil => rfl
  | cons f rest ih =>
      rw [rereadFields, Fields.get?, Fields.get?, ih]
      split <;> rfl

theorem rereadFields_insert (name : String) (j : Json) (fields : Fields) :
    rereadFields (Fields.insert name j fields) =
      Fields.insert name j.reread (rereadFields fields) := by
  induction fields with
  | nil => rfl
  | cons f rest ih =>
      rw [Fields.insert, rereadFields, Fields.insert]
      split
      · rfl
      · split
        · rfl
        · rw [rereadFields, ih]

/-- Fields are laid over others, and read anew. -/
theorem rereadFields_merge (base patch : Fields) :
    rereadFields (Fields.merge base patch) =
      Fields.merge (rereadFields base) (rereadFields patch) := by
  induction patch generalizing base with
  | nil => rfl
  | cons f rest ih =>
      have hstep : Fields.merge base (f :: rest) = Fields.merge (Fields.insert f.1 f.2 base) rest := rfl
      rw [hstep, ih, rereadFields_insert]
      rfl

/-- Fields laid over what is read of them are put back. -/
theorem merge_rereadFields {fields : Fields} (h : fields.Ascending) :
    Fields.merge (rereadFields fields) fields = fields := by
  refine Fields.eq_of_get? (Fields.ascending_merge (ascending_rereadFields h)) h fun key => ?_
  rw [Fields.get?_merge key h, get?_rereadFields]
  cases Fields.get? key fields <;> rfl

end Json
end EntityStore
