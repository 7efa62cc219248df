import EntityStore.Proofs.Store.Frame

/-! # A patch writes the fields it has

An update of a blueprint writes the fields of the patch into the row of the blueprint and the time of
the call beside them; a patch without fields writes nothing (`Patched`).  The statement that does it
numbers its values anew for every choice of fields, and still each of them gets into its own column of
this one row (`patch_writes`).

So of two updates one after the other the later one decides where it has a field, and else the earlier
one: both together do what one update with the fields of both would do (`BlueprintPatch.andThen`). -/

namespace EntityStore

/-- Each field from the later patch, if it has it. -/
def BlueprintPatch.andThen (p q : BlueprintPatch) : BlueprintPatch :=
  ⟨q.title.or p.title, q.description.or p.description, q.schema.or p.schema⟩

/-- The schema of the patch, if it has one, can be used, and its column takes it. -/
def BlueprintPatch.Accepted (p : BlueprintPatch) : Prop :=
  ∀ schema ∈ p.schema, Schema.checkSchema schema = .ok () ∧ schema.depth ≤ Sql.storageLimit

namespace Store

open Time (Instant)

/-- A row before and after it is patched. -/
structure Patched (patch : BlueprintPatch) (time : Instant) (r r' : BlueprintRow) : Prop where
  tenant : r'.tenant = r.tenant
  id : r'.id = r.id
  title : r'.title = patch.title.getD r.title
  description : r'.description = patch.description.getD r.description
  schema : r'.schema = (patch.schema.map Json.source).getD r.schema
  created : r'.created = r.created
  updated : r'.updated = if patch.isEmpty then r.updated else time.stored

variable {call : Call} {t : Tables} {tenant id : String} {patch p q : BlueprintPatch}
  {r r' : BlueprintRow} {time : Instant}

/-! ### Patched rows -/

theorem isEmpty_iff : patch.isEmpty = true ↔
    patch.title = none ∧ patch.description = none ∧ patch.schema = none := by
  rw [BlueprintPatch.isEmpty, Bool.and_eq_true, Bool.and_eq_true, Option.isNone_iff_eq_none,
    Option.isNone_iff_eq_none, Option.isNone_iff_eq_none, and_assoc]

theorem patched_self (h : patch.isEmpty = true) (r : BlueprintRow) (time : Instant) :
    Patched patch time r r := by
  obtain ⟨htitle, hdescription, hschema⟩ := isEmpty_iff.mp h
  constructor <;> simp only [h, htitle, hdescription, hschema, Option.getD_none, Option.map_none,
    if_true]

theorem patched_apply (h : patch.isEmpty = false) (r : BlueprintRow) (time : Instant) :
    Patched patch time r (BlueprintPatch.apply patch time r) := by
  constructor <;> simp only [BlueprintPatch.apply, h, Bool.false_eq_true, if_false]

/-- Two patches after one another set what the patch with the fields of both sets. -/
theorem Patched.andThen {time' time'' : Instant} {r₁ r₂ r₃ : BlueprintRow}
    (hp : Patched p time r r₁) (hq : Patched q time' r₁ r₂)
    (hboth : Patched (p.andThen q) time'' r r₃) :
    r₂.title = r₃.title ∧ r₂.description = r₃.description ∧ r₂.schema = r₃.schema := by
  rw [hq.title, hp.title, hboth.title, hq.description, hp.description, hboth.description, hq.schema,
    hp.schema, hboth.schema]
  simp only [BlueprintPatch.andThen, Option.getD_or, Option.map_or, and_self]

theorem accepted_andThen (hp : p.Accepted) (hq : q.Accepted) : (p.andThen q).Accepted := by
  intro schema hschema
  rw [BlueprintPatch.andThen, Option.mem_def, Option.or_eq_some_iff] at hschema
  rcases hschema with hlater | ⟨-, hearlier⟩
  · exact hq schema hlater
  · exact hp schema hearlier

section reader
variable [FloatReader]

/-! ### Updates -/

/-- What is read of a patched row. -/
theorem Patched.read (h : Patched patch call.time r r') {b : Blueprint} (hread : r.read = .ok b)
    (hempty : patch.isEmpty = false) (hnow : call.now.Storable)
    (hschema : ∀ schema ∈ patch.schema, schema.Storable) :
    r'.read = .ok { b with
      title := (patch.title.map readText).getD b.title
      description := (patch.description.map readOptional).getD b.description
      schema := (patch.schema.map Json.reread).getD b.schema
      updated := call.time } := by
  obtain ⟨schema, created, updated, hdocument, hcreated, -, rfl⟩ := BlueprintRow.read_eq_ok.mp hread
  have hdocument' : readDocument r'.schema = .ok ((patch.schema.map Json.reread).getD schema) := by
    rw [h.schema]
    cases hgiven : patch.schema with
    | none => exact hdocument
    | some given => exact readDocument_source (hschema given hgiven)
  have hupdated' : readInstant r'.updated = .ok call.time := by
    rw [h.updated, hempty, if_neg Bool.false_ne_true, readInstant_time hnow]
  refine BlueprintRow.read_eq_ok.mpr
    ⟨_, created, _, hdocument', h.created ▸ hcreated, hupdated', ?_⟩
  rw [h.tenant, h.id, h.title, h.description, Option.getD_map, Option.getD_map]

/-- An accepted update patches the row and answers what is read of it. -/
theorem updateBlueprint_of_accepted (hempty : patch.isEmpty = false) (hpatch : patch.Accepted)
    (hfound : t.blueprint? call.tenant id = some r) : updateBlueprint call id patch t =
      ((BlueprintPatch.apply patch call.time r).read.mapError .internal,
        t.updateBlueprint call.tenant id (BlueprintPatch.apply patch call.time)) := by
  have hschema : patch.schema.elim (.ok ()) Schema.checkSchema = .ok () := by
    cases hgiven : patch.schema with
    | none => rfl
    | some schema => exact (hpatch schema hgiven).1
  have hdocument : BlueprintPatch.holdsDocument patch = true :=
    BlueprintPatch.holdsDocument_iff.mpr fun schema hgiven =>
      Sql.isDocument_source.mpr (hpatch schema hgiven).2
  rw [updateBlueprint_eq, hempty, if_neg Bool.false_ne_true, hschema]
  dsimp only
  rw [hfound, Option.isNone_some, if_neg Bool.false_ne_true, hdocument, Bool.not_true,
    if_neg Bool.false_ne_true,
    getBlueprint_of_found ((blueprint?_updateBlueprint patch call.time).trans (congrArg _ hfound))]

/-- An update that is answered without an error was accepted. -/
theorem accepted_of_updateBlueprint {b : Blueprint} {t' : Tables}
    (h : updateBlueprint call id patch t = (.ok b, t')) :
    patch.Accepted ∧ ∃ r, t.blueprint? call.tenant id = some r := by
  rw [updateBlueprint_eq] at h
  split at h
  · next hempty =>
      obtain ⟨r, hfound, -⟩ := getBlueprint_row.mp (Prod.mk.inj h).1
      obtain ⟨-, -, hnone⟩ := isEmpty_iff.mp hempty
      refine ⟨fun schema hschema => ?_, r, hfound⟩
      rw [hnone] at hschema
      cases hschema
  · split at h
    · cases h
    · next hschema =>
        split at h
        · cases h
        · next hsome =>
            obtain ⟨r, hfound⟩ := Option.ne_none_iff_exists'.mp fun hnone =>
              hsome (Option.isNone_iff_eq_none.mpr hnone)
            split at h
            · cases h
            · next hdocument =>
                rw [Bool.not_eq_true', Bool.not_eq_false] at hdocument
                refine ⟨fun schema hgiven => ?_, r, hfound⟩
                rw [Option.mem_def.mp hgiven] at hschema
                exact ⟨hschema, Sql.isDocument_source.mp
                  (BlueprintPatch.holdsDocument_iff.mp hdocument schema hgiven)⟩

/-- The row of an accepted update is patched, and no other row changes. -/
theorem replaces_updateBlueprint (ht : Unique BlueprintRow.key t.blueprints)
    (hpatch : patch.Accepted) (hfound : t.blueprint? call.tenant id = some r) :
    ∃ r', Patched patch call.time r r' ∧
      Replaces (BlueprintRow.isAt call.tenant id) [r] [r'] t.blueprints
        (updateBlueprint call id patch t).2.blueprints ∧
      (updateBlueprint call id patch t).2.entities = t.entities ∧
      (updateBlueprint call id patch t).1 = r'.read.mapError .internal := by
  have hrows := filter_isAt_blueprints ht hfound
  cases hempty : patch.isEmpty with
  | true =>
      have hlooked : updateBlueprint call id patch t = (getBlueprint call.tenant id t, t) := by
        rw [updateBlueprint, if_pos hempty]
      rw [hlooked]
      exact ⟨r, patched_self hempty r _, ⟨hrows, hrows, rfl⟩, rfl, getBlueprint_of_found hfound⟩
  | false =>
      have hmap := replaces_map (p := (BlueprintRow.isAt call.tenant id ·))
        (f := BlueprintPatch.apply patch call.time) t.blueprints fun _ => rfl
      rw [hrows] at hmap
      rw [updateBlueprint_of_accepted hempty hpatch hfound]
      exact ⟨_, patched_apply hempty r _, hmap, rfl, rfl⟩

/-- A patch writes exactly the fields that it has.  In all tables that can be reached, an update without
fields changes nothing.  An accepted update of a blueprint that is there patches its row, changes no
other row, and answers what is read of the patched row; where the times and schemas can be stored, this
is the blueprint as it was, with the fields of the patch, as they are read, and the time of the call.
Only accepted updates are answered.  Two accepted updates in a row leave the same title, description
and schema as the one update that has each field from the later one that has it. -/
theorem patch_writes {allowed : Call → Change → Prop} (ht : Reachable allowed t) (id : String) :
    (∀ call patch, patch.isEmpty = true → (updateBlueprint call id patch t).2 = t) ∧
    (∀ call patch r, patch.Accepted → t.blueprint? call.tenant id = some r →
      ∃ r', Patched patch call.time r r' ∧
        Replaces (BlueprintRow.isAt call.tenant id) [r] [r'] t.blueprints
          (updateBlueprint call id patch t).2.blueprints ∧
        (updateBlueprint call id patch t).2.entities = t.entities ∧
        (updateBlueprint call id patch t).1 = r'.read.mapError .internal ∧
        ∀ b, r.read = .ok b → patch.isEmpty = false → call.now.Storable →
          (∀ schema ∈ patch.schema, schema.Storable) →
          (updateBlueprint call id patch t).1 = .ok { b with
            title := (patch.title.map readText).getD b.title
            description := (patch.description.map readOptional).getD b.description
            schema := (patch.schema.map Json.reread).getD b.schema
            updated := call.time }) ∧
    (∀ call patch b t', updateBlueprint call id patch t = (.ok b, t') →
      patch.Accepted ∧ ∃ r, t.blueprint? call.tenant id = some r) ∧
    ∀ (first second both : Call) p q r, first.tenant = both.tenant → second.tenant = both.tenant →
      p.Accepted → q.Accepted → t.blueprint? both.tenant id = some r →
      let twice := (updateBlueprint second id q (updateBlueprint first id p t).2).2
      let once := (updateBlueprint both id (p.andThen q) t).2
      (p.andThen q).Accepted ∧ twice.entities = once.entities ∧
      ∃ r₂ r₃, Replaces (BlueprintRow.isAt both.tenant id) [r] [r₂] t.blueprints twice.blueprints ∧
        Replaces (BlueprintRow.isAt both.tenant id) [r] [r₃] t.blueprints once.blueprints ∧
        r₂.title = r₃.title ∧ r₂.description = r₃.description ∧ r₂.schema = r₃.schema := by
  have hany : Reachable (fun _ _ => True) t := ht.mono fun _ _ _ => trivial
  refine ⟨fun call patch hempty => ?_, fun call patch r hpatch hfound => ?_,
    fun call patch b t' h => accepted_of_updateBlueprint h, ?_⟩
  · rw [updateBlueprint, if_pos hempty]
  · obtain ⟨r', hpatched, hrows, hentities, hanswer⟩ :=
      replaces_updateBlueprint hany.keys hpatch hfound
    refine ⟨r', hpatched, hrows, hentities, hanswer, fun b hread hempty hnow hschema => ?_⟩
    rw [hanswer, hpatched.read hread hempty hnow hschema]
    rfl
  · intro first second both p q r hfirst hsecond hp hq hfound
    obtain ⟨r₁, hpatched₁, hrows₁, hentities₁, -⟩ :=
      replaces_updateBlueprint hany.keys hp (hfirst ▸ hfound)
    have hany₁ : Reachable (fun _ _ => True) (updateBlueprint first id p t).2 :=
      hany.change first (.updateBlueprint id p) trivial
    have hfound₁ : (updateBlueprint first id p t).2.blueprint? second.tenant id = some r₁ := by
      rw [hsecond, ← hfirst]
      exact hrows₁.find?
    obtain ⟨r₂, hpatched₂, hrows₂, hentities₂, -⟩ :=
      replaces_updateBlueprint hany₁.keys hq hfound₁
    have hboth : (p.andThen q).Accepted := accepted_andThen hp hq
    obtain ⟨r₃, hpatched₃, hrows₃, hentities₃, -⟩ :=
      replaces_updateBlueprint hany.keys hboth hfound
    rw [hfirst] at hrows₁
    rw [hsecond] at hrows₂
    exact ⟨hboth, (hentities₂.trans hentities₁).trans hentities₃.symm, r₂, r₃, hrows₁.trans hrows₂,
      hrows₃, hpatched₁.andThen hpatched₂ hpatched₃⟩

end reader

/-- A title and a schema, and then a description. -/
def renamed : BlueprintPatch := ⟨some "Renamed", none, some (.object [("type", .string "object")])⟩

def described : BlueprintPatch := ⟨none, some (some "What runs"), none⟩

/-- One of two tenants renames its blueprint and then describes it. -/
theorem patch_writes_twin :
    let t := after .empty twinRun
    let call : Call := ⟨"acme", ⟨2, 0⟩⟩
    let later : Call := ⟨"acme", ⟨3, 0⟩⟩
    ∃ r r₁ r₂ r₃, t.blueprint? "acme" "service" = some r ∧ Patched renamed call.time r r₁ ∧
      r₁.title = "Renamed" ∧ r₁.description = r.description ∧
      (updateBlueprint call "service" renamed t).2.entities = t.entities ∧
      Replaces (BlueprintRow.isAt "acme" "service") [r] [r₂] t.blueprints (updateBlueprint later
        "service" described (updateBlueprint call "service" renamed t).2).2.blueprints ∧
      Replaces (BlueprintRow.isAt "acme" "service") [r] [r₃] t.blueprints
        (updateBlueprint later "service" (renamed.andThen described) t).2.blueprints ∧
      r₂.title = r₃.title ∧ r₂.description = r₃.description ∧ r₂.schema = r₃.schema := by
  intro t call later
  have ht : Reachable (fun _ _ => True) t := Reachable.empty.after fun _ _ _ _ => trivial
  have hrenamed : renamed.Accepted := by
    rintro schema hschema
    cases hschema
    decide +kernel
  have hdescribed : described.Accepted := nofun
  obtain ⟨r, hfound⟩ : ∃ r, t.blueprint? "acme" "service" = some r :=
    Option.isSome_iff_exists.mp (by decide +kernel)
  obtain ⟨-, hpatch, -, hboth⟩ := patch_writes ht "service"
  obtain ⟨r₁, hpatched, -, hentities, -⟩ := hpatch call renamed r hrenamed hfound
  obtain ⟨-, -, r₂, r₃, hrows₂, hrows₃, hsame⟩ := hboth call later later renamed described r rfl rfl
    hrenamed hdescribed hfound
  exact ⟨r, r₁, r₂, r₃, hfound, hpatched, hpatched.title, hpatched.description, hentities, hrows₂,
    hrows₃, hsame⟩

end Store
end EntityStore
