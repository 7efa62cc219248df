import EntityStore.Proofs.Json.Canonical
import EntityStore.Proofs.Sql.Document
import EntityStore.Proofs.Store.Assignment
import EntityStore.Proofs.Time.Stored

/-! # Rows that are written

A `Change` is an operation that can change the tables, with what its caller gives it.  A new entity
is a row of its own (`Call.entity`), an update replaces title, data and time in one
(`Call.replace`).  Where callers give storable documents and times, both leave rows that are
`Readable`: whichever way numbers are read, the row is read without error. -/

namespace EntityStore.Store

/-! ### Changes -/

/-- An operation that can change the tables. -/
inductive Change
  | createBlueprint (draft : BlueprintDraft)
  | updateBlueprint (id : String) (patch : BlueprintPatch)
  | deleteBlueprint (id : String)
  | createEntity (id : String) (draft : EntityDraft)
  | updateEntity (id : String) (patch : EntityPatch)
  | deleteEntity (id : String)

/-- The entity that a call creates. -/
def Call.entity (call : Call) (id : String) (draft : EntityDraft) : Entity :=
  ⟨id, call.tenant, draft.blueprint, draft.identifier, draft.title, draft.data, call.time, call.time⟩

/-- A row after a call has replaced its title and data. -/
def Call.replace (call : Call) (title : Option String) (data : Json) (r : EntityRow) : EntityRow :=
  { r with title, data := data.source, updated := call.time.stored }

variable {call : Call} {t : Tables}

/-! ### Inserting and writing -/

theorem entities_of_insertBlueprint {t' : Tables} {r : BlueprintRow}
    (h : t.insertBlueprint r = .ok t') : t'.entities = t.entities := by
  rw [Tables.insertBlueprint] at h
  split at h
  · cases h
  · split at h
    · cases h
    · cases h
      rfl

theorem insertEntity_eq_ok {t' : Tables} {e : Entity} (h : t.insertEntity (.ofEntity e) = .ok t') :
    Sql.isDocument e.data.source = true ∧ (∀ r ∈ t.entities, r.id ≠ some e.id) ∧
      t' = ⟨t.blueprints, t.entities ++ [.ofEntity e]⟩ := by
  rw [Tables.insertEntity] at h
  split at h
  · cases h
  · next hdocument =>
      split at h
      · cases h
      · next hfresh =>
          split at h
          · cases h
          · split at h
            · cases h
            · cases h
              refine ⟨by simpa [EntityRow.ofEntity] using hdocument, fun r hr heq => hfresh ?_, rfl⟩
              simp only [EntityRow.ofEntity, Option.isSome_some, Bool.true_and, List.any_eq_true]
              exact ⟨r, hr, decide_eq_true heq⟩

theorem createBlueprint_entities (draft : BlueprintDraft) :
    (createBlueprint call draft t).2.entities = t.entities := by
  rw [createBlueprint]
  split
  · rfl
  · split
    · rfl
    · dsimp only
      split
      · next h => exact entities_of_insertBlueprint h
      · rfl
      · rfl

/-- A row that is found is written if it then holds a document. -/
theorem writeEntity_of_found {tenant id : String} {r : EntityRow} (h : t.entity? tenant id = some r)
    (title : Option String) (data : Json) :
    t.writeEntity tenant id (call.replace title data) =
      if Sql.isDocument data.source then .ok (t.updateEntity tenant id (call.replace title data))
      else .error (.invalidDocument "data") := by
  rw [Tables.writeEntity]
  cases hdocument : Sql.isDocument data.source with
  | true => simp [Call.replace, hdocument]
  | false =>
      rw [if_pos, if_neg Bool.false_ne_true]
      refine List.any_eq_true.mpr ⟨r, List.mem_of_find?_eq_some h, ?_⟩
      rw [List.find?_some h, Call.replace, hdocument]
      rfl

/-! ### Ids -/

theorem EntityRow.isAt_iff {r : EntityRow} {tenant id : String} :
    r.isAt tenant id = true ↔ r.tenant = tenant ∧ r.id = some id := by
  rw [isAt, Bool.and_eq_true, decide_eq_true_eq, decide_eq_true_eq]

/-- A new entity is found under its id. -/
theorem entity?_created {id : String} {draft : EntityDraft} (blueprints : List BlueprintRow)
    (hfresh : ∀ r ∈ t.entities, r.id ≠ some id) :
    Tables.entity? ⟨blueprints, t.entities ++ [.ofEntity (call.entity id draft)]⟩ call.tenant id =
      some (.ofEntity (call.entity id draft)) := by
  have hother : t.entities.find? (·.isAt call.tenant id) = none :=
    List.find?_eq_none.mpr fun r hr hat => hfresh r hr (EntityRow.isAt_iff.mp hat).2
  have hown : (EntityRow.ofEntity (call.entity id draft)).isAt call.tenant id = true :=
    EntityRow.isAt_iff.mpr ⟨rfl, rfl⟩
  rw [Tables.entity?, List.find?_append, hother, Option.none_or]
  exact List.find?_cons_of_pos hown

/-- No two entities have one id. -/
def Distinct (es : List EntityRow) : Prop := es.Pairwise fun r s => r.id ≠ s.id

/-! ### Times -/

theorem readInstant_eq_ok {text : String} {i : Time.Instant} (hself : readText text = text)
    (hread : Time.readStored? text = some i) : readInstant text = .ok i := by
  unfold readInstant
  rw [hself, hread]

theorem readInstant_stored {i : Time.Instant} (h : i.Storable) :
    readInstant i.stored = .ok i.toMicros :=
  readInstant_eq_ok (readText_eq_self fun _ hc => (Time.Instant.toNat_of_mem_stored h hc).1)
    (Time.Instant.readStored?_stored h)

theorem storable_time (h : call.now.Storable) : call.time.Storable where
  firstYear := h.firstYear
  lastYear := h.lastYear
  nanos := Nat.lt_of_le_of_lt (Nat.div_mul_le_self _ _) h.nanos
  leap hle := h.leap (Nat.le_trans hle (Nat.div_mul_le_self _ _))

theorem Call.toMicros_time (call : Call) : call.time.toMicros = call.time := by
  simp only [time, Time.Instant.toMicros, Time.Instant.mk.injEq, true_and]
  omega

/-! ### Texts that are read as they are -/

/-- The text has no NUL. -/
def Plain (text : String) : Prop := Source.NoNul text.toList

-- Only the characters of the text are gone through, not all that there are.
instance (text : String) : Decidable (Plain text) :=
  List.decidableBAll (fun c : Char => c.toNat ≠ 0) text.toList

theorem readText_plain {text : String} (h : Plain text) : readText text = text := readText_eq_self h

theorem plain_readText (text : String) : Plain (readText text) := by
  intro c hc
  rw [readText, String.toList_ofList] at hc
  exact of_decide_eq_true (List.all_eq_true.mp List.all_takeWhile c hc)

theorem readText_readText (text : String) : readText (readText text) = readText text :=
  readText_plain (plain_readText text)

theorem readOptional_plain {text : Option String} (h : ∀ s ∈ text, Plain s) :
    readOptional text = text.filter (· ≠ "") := by
  cases text with
  | none => rfl
  | some s => rw [readOptional, Option.map_some, readText_plain (h s rfl)]

theorem readOptional_readOptional (text : Option String) :
    readOptional (readOptional text) = readOptional text := by
  cases text with
  | none => rfl
  | some s =>
      have hread : ∀ text : String, readOptional (some text) =
          if readText text = "" then none else some (readText text) := by
        intro text
        rw [readOptional, Option.map_some, Option.filter_some]
        split <;> simp_all
      rw [hread s]
      split
      · rfl
      · next hne => rw [hread, readText_readText, if_neg hne]

/-! ### What can be read back -/

/-- A row that can be read, and whose document could be stored again. -/
structure EntityRow.Readable (r : EntityRow) : Prop where
  id : ∃ id, r.id = some id
  data : ∃ j : Json, j.Storable ∧ r.data = j.source
  created : ∃ i, readInstant r.created = .ok i
  updated : ∃ i, readInstant r.updated = .ok i

/-- What a caller gives can be stored: times of four-digit years, and storable documents. -/
def Change.Storable (call : Call) : Change → Prop
  | .createEntity _ draft => call.now.Storable ∧ draft.data.Storable
  | .updateEntity _ patch => call.now.Storable ∧ ∀ data ∈ patch.data, data.Storable
  | _ => True

instance (c : Change) : Decidable (c.Storable call) :=
  match c with
  | .createEntity _ draft => inferInstanceAs (Decidable (call.now.Storable ∧ draft.data.Storable))
  | .updateEntity _ patch =>
    inferInstanceAs (Decidable (call.now.Storable ∧ ∀ data ∈ patch.data, data.Storable))
  | .createBlueprint _ | .updateBlueprint _ _ | .deleteBlueprint _ | .deleteEntity _ =>
    .isTrue trivial

theorem readable_created (id : String) (draft : EntityDraft) (hnow : call.now.Storable)
    (hdata : draft.data.Storable) : (EntityRow.ofEntity (call.entity id draft)).Readable where
  id := ⟨id, rfl⟩
  data := ⟨draft.data, hdata, rfl⟩
  created := ⟨_, readInstant_stored (storable_time hnow)⟩
  updated := ⟨_, readInstant_stored (storable_time hnow)⟩

theorem EntityRow.Readable.replace {r : EntityRow} (h : r.Readable) {data : Json}
    (title : Option String) (hnow : call.now.Storable) (hdata : data.Storable) :
    (call.replace title data r).Readable where
  id := h.id
  data := ⟨data, hdata, rfl⟩
  created := h.created
  updated := ⟨_, readInstant_stored (storable_time hnow)⟩

/-! ### Laying data over data -/

theorem storable_mergeData {base : Json} {patch : Fields} (hbase : base.Storable)
    (hpatch : (Json.object patch).Storable) : (mergeData base patch).Storable := by
  have hempty : (Json.object []).Storable :=
    Json.storable_object_iff.mpr ⟨List.Pairwise.nil, fun _ hf => absurd hf List.not_mem_nil⟩
  cases base with
  | object fields => exact hbase.merge hpatch
  | null | bool _ | number _ | string _ | array _ => exact hempty.merge hpatch

theorem isDocument_mergeData {base : Json} {patch : Fields}
    (hbase : Sql.isDocument base.source = true)
    (hpatch : Sql.isDocument (Json.object patch).source = true) :
    Sql.isDocument (mergeData base patch).source = true := by
  rw [Sql.isDocument_source] at hbase hpatch ⊢
  have hempty : (Json.object []).depth ≤ Sql.storageLimit := by decide
  cases base with
  | object fields => exact Json.depth_merge_le hbase hpatch
  | null | bool _ | number _ | string _ | array _ => exact Json.depth_merge_le hempty hpatch

end EntityStore.Store
