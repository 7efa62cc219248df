import EntityStore.Proofs.Store.Consistency

/-! # Reading blueprints back

Where callers give storable schemas and times, every blueprint can be read
(`Reachable.readableBlueprints`), as every entity can (`Reachable.readable`).  A patched blueprint is
found under its id, and what is read of it is the patched row. -/

namespace EntityStore.Store

variable {call : Call} {t : Tables} {tenant id : String}

/-! ### Rows that can be read -/

/-- A row that can be read, and whose schema could be stored again. -/
structure BlueprintRow.Readable (r : BlueprintRow) : Prop where
  schema : ∃ j : Json, j.Storable ∧ r.schema = j.source
  created : ∃ i, readInstant r.created = .ok i
  updated : ∃ i, readInstant r.updated = .ok i

/-- A patched row can be read if the row could be and the patch can be stored. -/
theorem BlueprintRow.Readable.apply {r : BlueprintRow} (h : r.Readable) {patch : BlueprintPatch}
    (hnow : call.now.Storable) (hschema : ∀ schema ∈ patch.schema, schema.Storable) :
    (BlueprintPatch.apply patch call.time r).Readable where
  schema := by
    cases hpatch : patch.schema with
    | none =>
        simp only [BlueprintPatch.apply, hpatch]
        exact h.schema
    | some schema =>
        simp only [BlueprintPatch.apply, hpatch]
        exact ⟨schema, hschema schema hpatch, rfl⟩
  created := h.created
  updated := ⟨_, readInstant_stored (storable_time hnow)⟩

/-! ### What is found -/

/-- A new blueprint is found under its id. -/
theorem blueprint?_created {draft : BlueprintDraft} (entities : List EntityRow)
    (hfree : t.blueprint? call.tenant draft.id = none) :
    Tables.blueprint? ⟨t.blueprints ++ [.ofBlueprint (call.blueprint draft)], entities⟩ call.tenant
      draft.id = some (.ofBlueprint (call.blueprint draft)) := by
  have hown : (BlueprintRow.ofBlueprint (call.blueprint draft)).isAt call.tenant draft.id = true :=
    BlueprintRow.isAt_iff.mpr rfl
  rw [Tables.blueprint?] at hfree ⊢
  rw [List.find?_append, hfree, Option.none_or]
  exact List.find?_cons_of_pos hown

/-- What is found after the blueprint of an id is patched. -/
theorem blueprint?_updateBlueprint (patch : BlueprintPatch) (time : Time.Instant) :
    (t.updateBlueprint tenant id (BlueprintPatch.apply patch time)).blueprint? tenant id =
      (t.blueprint? tenant id).map (BlueprintPatch.apply patch time) := by
  have hsame : (fun r : BlueprintRow => r.isAt tenant id) ∘
      (fun r => if r.isAt tenant id then BlueprintPatch.apply patch time r else r) =
      fun r => r.isAt tenant id := by
    funext r
    rw [Function.comp_apply]
    split <;> rfl
  rw [Tables.blueprint?, Tables.updateBlueprint, List.find?_map, hsame, Tables.blueprint?]
  cases hfound : t.blueprints.find? (·.isAt tenant id) with
  | none => rfl
  | some r => rw [Option.map_some, Option.map_some, if_pos (List.find?_some hfound)]

variable [FloatReader]

/-! ### What is read -/

theorem getBlueprint_row {b : Blueprint} : getBlueprint tenant id t = .ok b ↔
    ∃ r, t.blueprint? tenant id = some r ∧ r.read = .ok b := by
  rw [getBlueprint]
  cases t.blueprint? tenant id with
  | none => exact iff_of_false nofun fun ⟨_, h, _⟩ => nomatch h
  | some r =>
      simp only [Option.some.injEq, exists_eq_left']
      cases r.read with
      | error fault => exact iff_of_false nofun nofun
      | ok b' => simp only [Except.ok.injEq]

theorem getBlueprint_of_found {r : BlueprintRow} (h : t.blueprint? tenant id = some r) :
    getBlueprint tenant id t = r.read.mapError .internal := by
  rw [getBlueprint, h]
  dsimp only
  cases r.read <;> rfl

theorem BlueprintRow.Readable.read {r : BlueprintRow} (h : r.Readable) : ∃ b, r.read = .ok b := by
  obtain ⟨⟨j, hj, hschema⟩, ⟨created, hcreated⟩, ⟨updated, hupdated⟩⟩ := h
  have hread : readDocument r.schema = .ok j.reread := by rw [hschema, readDocument_source hj]
  exact ⟨_, BlueprintRow.read_eq_ok.mpr ⟨_, _, _, hread, hcreated, hupdated, rfl⟩⟩

/-- An update leaves the tables as they are, or patches the row of the blueprint and then answers what
is read of it. -/
theorem updateBlueprint_cases (call : Call) (t : Tables) (id : String) (patch : BlueprintPatch) :
    (updateBlueprint call id patch t).2 = t ∨ ∃ r, t.blueprint? call.tenant id = some r ∧
      updateBlueprint call id patch t =
        ((BlueprintPatch.apply patch call.time r).read.mapError .internal,
          t.updateBlueprint call.tenant id (BlueprintPatch.apply patch call.time)) := by
  rw [updateBlueprint_eq]
  split
  · exact .inl rfl
  · split
    · exact .inl rfl
    · split
      · exact .inl rfl
      · next hsome =>
          obtain ⟨r, hfound⟩ := Option.ne_none_iff_exists'.mp fun hnone =>
            hsome (Option.isNone_iff_eq_none.mpr hnone)
          split
          · exact .inl rfl
          · refine .inr ⟨r, hfound, ?_⟩
            dsimp only
            rw [getBlueprint_of_found ((blueprint?_updateBlueprint patch call.time).trans
              (congrArg _ hfound))]

/-! ### Reachable tables -/

/-- The schemas that a caller gives can be stored, and so can the time. -/
def Change.SchemaStorable (call : Call) (c : Change) : Prop :=
  call.now.Storable ∧ ∀ schema ∈ c.schema?, schema.Storable

instance (c : Change) : Decidable (c.SchemaStorable call) :=
  inferInstanceAs (Decidable (call.now.Storable ∧ ∀ schema ∈ c.schema?, schema.Storable))

theorem Change.Effect.readableBlueprints {c : Change} {answer : Except StoreError Answer}
    {t' : Tables} (h : c.Effect call t answer t') (hc : c.SchemaStorable call)
    (ht : ∀ r ∈ t.blueprints, r.Readable) : ∀ r ∈ t'.blueprints, r.Readable := by
  cases h with
  | refused | looked | entityCreated | entityUpdated | entityDeleted => exact ht
  | @blueprintCreated draft =>
      refine List.forall_mem_append.mpr ⟨ht, List.forall_mem_singleton.mpr ?_⟩
      have htime := readInstant_stored (storable_time hc.1)
      exact ⟨⟨draft.schema, hc.2 _ rfl, rfl⟩, ⟨_, htime⟩, ⟨_, htime⟩⟩
  | blueprintUpdated =>
      refine List.forall_mem_map.mpr fun r hr => ?_
      split
      · exact (ht r hr).apply hc.1 hc.2
      · exact ht r hr
  | blueprintDeleted => exact fun r hr => ht r (List.mem_filter.mp hr).1

/-- Where callers give what can be stored, all blueprints can be read. -/
theorem Reachable.readableBlueprints (h : Reachable (fun call c => c.SchemaStorable call) t) :
    ∀ r ∈ t.blueprints, r.Readable := by
  induction h with
  | empty => exact nofun
  | change call c _ hc ih => exact (c.effect call _).readableBlueprints hc ih

end EntityStore.Store
