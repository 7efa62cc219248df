import EntityStore.Proofs.Store.Consistency
import EntityStore.Proofs.Store.History
import EntityStore.Proofs.Store.Resubmission

/-! # The store as a map with history

What is read of an entity after a run of the service is what the history of the run says of it
(`getEntity_history`).

What is found under an id is looked up in the entities alone (`found?`), and what a step does to it
is a turn (`turn_of_answer`): a new row is read as it was given, an updated one as the patch laid
over what was read before, both with doubles read anew, and a deletion takes away the one row of an
id or the rows of a blueprint.  So a run is a sequence of turns (`turns_after`). -/

namespace EntityStore.Store

/-! ### Texts that are read as they are -/

/-- The texts of a change that are kept as they are have no NUL. -/
def Change.Plain (call : Call) : Change → Prop
  | .createEntity id draft => Store.Plain call.tenant ∧ Store.Plain id ∧
    Store.Plain draft.blueprint ∧ Store.Plain draft.identifier ∧
    ∀ title ∈ draft.title, Store.Plain title
  | .updateEntity _ patch => ∀ title ∈ patch.title, Store.Plain title
  | _ => True

instance (call : Call) (c : Change) : Decidable (c.Plain call) :=
  match c with
  | .createEntity id draft => inferInstanceAs (Decidable (Store.Plain call.tenant ∧ Store.Plain id ∧
    Store.Plain draft.blueprint ∧ Store.Plain draft.identifier ∧
    ∀ title ∈ draft.title, Store.Plain title))
  | .updateEntity _ patch => inferInstanceAs (Decidable (∀ title ∈ patch.title, Store.Plain title))
  | .createBlueprint _ | .updateBlueprint _ _ | .deleteBlueprint _ | .deleteEntity _ =>
    .isTrue trivial

/-- What a caller gives can be stored and is read as it was given. -/
def Sound (call : Call) (c : Change) : Prop := c.Storable call ∧ c.Plain call

instance (call : Call) (c : Change) : Decidable (Sound call c) :=
  inferInstanceAs (Decidable (c.Storable call ∧ c.Plain call))

variable {call : Call} {t : Tables} {tenant id : String}

/-! ### What is found after a change -/

/-- Where ids are distinct, the row under an id is the only one. -/
theorem Distinct.find?_eq_some {es : List EntityRow} (h : Distinct es) {r : EntityRow} :
    es.find? (·.isAt tenant id) = some r ↔ r ∈ es ∧ r.isAt tenant id = true := by
  have hids : Unique EntityRow.id es := h
  refine hids.find?_eq_some fun r s hr hs => ?_
  exact (EntityRow.isAt_iff.mp hr).2.trans (EntityRow.isAt_iff.mp hs).2.symm

/-- What is found after some rows are taken away. -/
theorem Distinct.find?_filter {es : List EntityRow} (h : Distinct es) (keep : EntityRow → Bool) :
    (es.filter keep).find? (·.isAt tenant id) = (es.find? (·.isAt tenant id)).filter keep := by
  refine Option.ext fun r => ?_
  rw [Distinct.find?_eq_some (h.filter keep), Option.filter_eq_some_iff, h.find?_eq_some,
    List.mem_filter]
  exact and_right_comm

/-- What is found after the row of an id is replaced. -/
theorem find?_replace (es : List EntityRow) (tenant' id' : String) (title : Option String)
    (data : Json) :
    (es.map fun r => if r.isAt tenant' id' then call.replace title data r else r).find?
        (·.isAt tenant id) =
      (es.find? (·.isAt tenant id)).map fun r =>
        if r.isAt tenant' id' then call.replace title data r else r := by
  have hsame : (fun r : EntityRow => r.isAt tenant id) ∘
      (fun r => if r.isAt tenant' id' then call.replace title data r else r) =
      fun r => r.isAt tenant id := by
    funext r
    rw [Function.comp_apply]
    split <;> rfl
  rw [List.find?_map, hsame]

/-! ### Updates that can be stored -/

/-- The title of an updated entity is read as the new one or, without one, as it was read before. -/
theorem readOptional_or {title : Option String} (htitle : ∀ s ∈ title, Plain s)
    (before : Option String) :
    readOptional (title.or (readOptional before)) =
      (title.or (readOptional before)).filter (· ≠ "") := by
  cases title with
  | some s => exact readOptional_plain htitle
  | none =>
      rw [Option.none_or, readOptional_readOptional, readOptional, Option.filter_filter]
      simp

/-- The update is one of an entity of a tenant, and can be stored and read back. -/
def Update.SoundFor (tenant id : String) (u : Update) : Prop :=
  u.call.tenant = tenant ∧ Sound u.call (.updateEntity id u.patch)

theorem Update.SoundFor.andThen {u v : Update} (hu : u.SoundFor tenant id)
    (hv : v.SoundFor tenant id) (husorted : u.Sorted) (hvsorted : v.Sorted) :
    (u.andThen v).SoundFor tenant id := by
  refine ⟨hv.1, ⟨hv.2.1.1, fun data hdata => ?_⟩, fun title htitle => ?_⟩
  · cases hpatch' : v.patch.data with
    | none =>
        rw [Update.andThen_of_none hpatch'] at hdata
        exact hu.2.1.2 data hdata
    | some data' =>
        obtain ⟨more, rfl, -⟩ := hvsorted data' hpatch'
        cases hpatch : u.patch.data with
        | none =>
            simp only [Update.andThen, hpatch, hpatch'] at hdata
            cases hdata
            exact hv.2.1.2 _ hpatch'
        | some before =>
            obtain ⟨fields, rfl, -⟩ := husorted before hpatch
            simp only [Update.andThen, hpatch, hpatch'] at hdata
            cases hdata
            exact Json.Storable.merge (hu.2.1.2 _ hpatch) (hv.2.1.2 _ hpatch')
  · rcases Option.or_eq_some_iff.mp htitle with h | ⟨-, h⟩
    · exact hv.2.2 title h
    · exact hu.2.2 title h

section reader
variable [FloatReader]

theorem Reachable.storable (h : Reachable Sound t) :
    Reachable (fun call c => c.Storable call) t := h.mono fun _ _ hc => hc.1

/-- The blueprints and identifiers of entities have no NUL. -/
theorem Reachable.plain_name (h : Reachable Sound t) :
    ∀ r ∈ t.entities, Plain r.blueprint ∧ Plain r.identifier :=
  h.forall_entities (fun _ _ _ hc => ⟨hc.2.2.2.1, hc.2.2.2.2.1⟩) fun _ _ _ _ hr => hr

/-! ### What is found under an id -/

/-- The entity under an id of a tenant, if there is one that can be read. -/
def found? (tenant id : String) (es : List EntityRow) : Option Entity :=
  (es.find? (·.isAt tenant id)).bind fun r => r.read.toOption

theorem getEntity_eq_ok {e : Entity} :
    getEntity tenant id t = .ok e ↔ found? tenant id t.entities = some e := by
  rw [getEntity_row, found?, Option.bind_eq_some_iff, Tables.entity?]
  refine exists_congr fun r => and_congr_right fun _ => ?_
  cases r.read with
  | error fault => simp only [Except.toOption, reduceCtorEq]
  | ok e' => rw [Except.ok.injEq, Except.toOption, Option.some.injEq]

/-- Where a step takes away the rows that it removes, what is found makes a turn. -/
theorem turn_filtered {event : Event} {es : List EntityRow} (hdistinct : Distinct es)
    (hreadable : ∀ r ∈ es, r.Readable) (hcreates : ∀ origin, ¬ event.Creates tenant origin)
    (hu : event.update? tenant id = none) {keep : EntityRow → Bool}
    (hkeep : ∀ r ∈ es, r.isAt tenant id = true → ∀ e, r.read = .ok e →
      (keep r = false ↔ event.Removes tenant id e.blueprint)) :
    Turn tenant id event (found? tenant id es) (found? tenant id (es.filter keep)) := by
  rw [found?, found?, hdistinct.find?_filter]
  cases hfind : es.find? (·.isAt tenant id) with
  | none => exact .kept (fun _ h => absurd h (hcreates _)) hu nofun
  | some r =>
      have hr := List.mem_of_find?_eq_some hfind
      obtain ⟨e, hread, -⟩ := (hreadable r hr).read
      have hremoves := hkeep r hr (List.find?_some hfind) e hread
      cases hkept : keep r with
      | true =>
          rw [Option.filter_some_pos hkept, Option.bind_some, hread]
          refine .kept (fun _ h => absurd h (hcreates _)) hu fun e' he' hremoved => ?_
          cases he'
          rw [hremoves.mpr hremoved] at hkept
          cases hkept
      | false =>
          rw [Option.filter_some_neg (Bool.not_eq_true _ ▸ hkept), Option.bind_some, hread]
          exact .removed (hremoves.mp hkept)

/-! ### New entities -/

/-- The data of a draft that passes is an object. -/
theorem isObject_of_checkDraft {draft : EntityDraft} (h : checkDraft tenant draft t = .ok ()) :
    draft.data.isObject := by
  obtain ⟨-, -, -, hobject, -, -⟩ := checkDraft_iff.mp h
  exact hobject

/-- A new entity is read as it was given, without an empty title and with its data read anew. -/
theorem read_asCreated {draft : EntityDraft}
    (hc : Sound call (.createEntity id draft)) :
    (EntityRow.ofEntity (call.entity id draft)).read =
      .ok (Entity.asCreated (call.entity id draft)) := by
  obtain ⟨⟨hnow, hdata⟩, htenant, hid, hblueprint, hidentifier, htitle⟩ := hc
  rw [read_created id draft hnow hdata, readText_plain hid, readText_plain htenant,
    readText_plain hblueprint, readText_plain hidentifier, readOptional_plain htitle,
    call.toMicros_time]
  rfl

theorem turn_created {es : List EntityRow} {id' : String} {draft : EntityDraft}
    (hc : Sound call (.createEntity id' draft)) (hobject : draft.data.isObject)
    (hfresh : ∀ r ∈ es, r.id ≠ some id') :
    Turn tenant id ⟨⟨call, .change (.createEntity id' draft)⟩, .entity (call.entity id' draft)⟩
      (found? tenant id es) (found? tenant id (es ++ [.ofEntity (call.entity id' draft)])) := by
  rw [found?, found?, List.find?_append]
  by_cases hsame : call.tenant = tenant ∧ id' = id
  · obtain ⟨rfl, rfl⟩ := hsame
    have hnone : es.find? (·.isAt call.tenant id') = none :=
      List.find?_eq_none.mpr fun r hr hat => hfresh r hr (EntityRow.isAt_iff.mp hat).2
    have hown : (EntityRow.ofEntity (call.entity id' draft)).isAt call.tenant id' = true :=
      EntityRow.isAt_iff.mpr ⟨rfl, rfl⟩
    rw [hnone, Option.none_or, List.find?_cons_of_pos hown, Option.bind_some, read_asCreated hc]
    exact .created ⟨rfl, rfl, id', draft, rfl⟩ rfl (recalls_asCreated hobject hc.1.2)
  · have hother : ¬ (EntityRow.ofEntity (call.entity id' draft)).isAt tenant id = true :=
      fun hat => hsame ((EntityRow.isAt_iff.mp hat).imp_right Option.some.inj)
    rw [List.find?_cons_of_neg hother, List.find?_nil, Option.or_none]
    refine .kept ?_ rfl fun e _ => Event.not_removes (by simp) (by simp) _
    rintro origin ⟨htenant, hanswer, -⟩ hid
    injection hanswer with horigin
    rw [← horigin] at hid
    exact hsame ⟨htenant, hid⟩

/-! ### Updates -/

/-- The data that was accepted is the patch laid over what was read. -/
theorem eq_laid {u : Update} {e : Entity} {data : Json}
    (h : patchedData tenant e u.patch.data t = .ok data) : data = u.laid e := by
  obtain ⟨hpatch, rfl⟩ | ⟨fields, _, hpatch, rfl, -, -⟩ := patchedData_eq_ok.mp h
  · exact (Update.laid_of_none e hpatch).symm
  · exact (Update.laid_of_some e hpatch).symm

theorem sorted_of_patchedData {u : Update} {e : Entity} {data : Json}
    (h : patchedData tenant e u.patch.data t = .ok data)
    (hstorable : ∀ j ∈ u.patch.data, j.Storable) : u.Sorted := by
  intro j hj
  obtain ⟨hpatch, -⟩ | ⟨fields, _, hpatch, -, -, -⟩ := patchedData_eq_ok.mp h
  · rw [hpatch] at hj
    cases hj
  · have hfields := hstorable j hj
    rw [hpatch] at hj
    cases hj
    exact ⟨fields, rfl, (Json.storable_object_iff.mp hfields).1⟩

/-- An updated entity is read as the patch laid over what was read before, all read anew. -/
theorem getEntity_updated (ht : Reachable Sound t) {patch : EntityPatch}
    (hc : Sound call (.updateEntity id patch)) {e : Entity} {data : Json}
    (hget : getEntity call.tenant id t = .ok e)
    (hdata : patchedData call.tenant e patch.data t = .ok data) :
    getEntity call.tenant id
        (t.updateEntity call.tenant id (call.replace (patch.title.or e.title) data)) =
      .ok (Update.onto ⟨call, patch⟩ e) := by
  have hstorable := storable_patchedData hdata
    (storable_getEntity hget ht.storable.readable) hc.1.2
  obtain ⟨r, hfind, hread⟩ := getEntity_row.mp hget
  rw [Tables.entity?] at hfind
  have hat : r.isAt call.tenant id = true := List.find?_some hfind
  have htitle : e.title = readOptional r.title := by
    obtain ⟨_, _, _, _, -, -, -, -, rfl⟩ := EntityRow.read_eq_ok.mp hread
    rfl
  rw [getEntity_eq_ok, found?, Tables.updateEntity, find?_replace, hfind, Option.map_some,
    if_pos hat, Option.bind_some, read_replace hread hc.1.1 hstorable, call.toMicros_time, htitle,
    readOptional_or hc.2]
  have hlaid : data = Update.laid ⟨call, patch⟩ e := eq_laid hdata
  rw [Except.toOption, Option.some.injEq, hlaid, ← htitle]
  rfl

theorem turn_updated (ht : Reachable Sound t) {id' : String} {patch : EntityPatch}
    (hc : Sound call (.updateEntity id' patch)) {e : Entity} {data : Json}
    (hget : getEntity call.tenant id' t = .ok e)
    (hdata : patchedData call.tenant e patch.data t = .ok data) (answer : Answer) :
    Turn tenant id ⟨⟨call, .change (.updateEntity id' patch)⟩, answer⟩ (found? tenant id t.entities)
      (found? tenant id
        (t.updateEntity call.tenant id' (call.replace (patch.title.or e.title) data)).entities) := by
  by_cases hsame : call.tenant = tenant ∧ id' = id
  · obtain ⟨rfl, rfl⟩ := hsame
    rw [getEntity_eq_ok.mp hget, getEntity_eq_ok.mp (getEntity_updated ht hc hget hdata)]
    exact .updated (if_pos ⟨rfl, rfl⟩) (sorted_of_patchedData hdata hc.1.2)
  · have hother : found? tenant id
        (t.updateEntity call.tenant id' (call.replace (patch.title.or e.title) data)).entities =
        found? tenant id t.entities := by
      rw [found?, found?, Tables.updateEntity, find?_replace]
      cases hfind : t.entities.find? (·.isAt tenant id) with
      | none => rfl
      | some r =>
          have hat := EntityRow.isAt_iff.mp (List.find?_some hfind)
          have hnot : ¬ r.isAt call.tenant id' = true := fun hat' => by
            have hat' := EntityRow.isAt_iff.mp hat'
            exact hsame ⟨hat'.1.symm.trans hat.1, Option.some.inj (hat'.2.symm.trans hat.2)⟩
          rw [Option.map_some, if_neg hnot]
    rw [hother]
    exact .kept (fun _ h => absurd h (Event.not_creates (by simp) _)) (if_neg hsame) fun e _ =>
      Event.not_removes (by simp) (by simp) _

/-! ### Deletions -/

theorem turn_deleted (ht : Reachable Sound t) (id' : String) (answer : Answer) :
    Turn tenant id ⟨⟨call, .change (.deleteEntity id')⟩, answer⟩ (found? tenant id t.entities)
      (found? tenant id (t.deleteEntity call.tenant id').entities) := by
  refine turn_filtered ht.distinct ht.storable.readable (Event.not_creates (by simp)) rfl
    fun r _ hat e _ => ?_
  obtain ⟨htenant, hid⟩ := EntityRow.isAt_iff.mp hat
  rw [Bool.not_eq_false', EntityRow.isAt_iff, htenant, hid]
  constructor
  · rintro ⟨rfl, hsame⟩
    exact ⟨rfl, .inl (by rw [Option.some.inj hsame])⟩
  · rintro ⟨rfl, hoperation | hoperation⟩
    · cases hoperation
      exact ⟨rfl, rfl⟩
    · cases hoperation

theorem turn_blueprint_deleted (ht : Reachable Sound t) (blueprint : String) (answer : Answer) :
    Turn tenant id ⟨⟨call, .change (.deleteBlueprint blueprint)⟩, answer⟩
      (found? tenant id t.entities)
      (found? tenant id (t.deleteBlueprint call.tenant blueprint).entities) := by
  refine turn_filtered ht.distinct ht.storable.readable (Event.not_creates (by simp)) rfl
    fun r hr hat e hread => ?_
  have hblueprint : e.blueprint = r.blueprint := by
    obtain ⟨_, _, _, _, -, -, -, -, rfl⟩ := EntityRow.read_eq_ok.mp hread
    exact readText_plain (ht.plain_name r hr).1
  rw [Bool.not_eq_false', EntityRow.isOf, Bool.and_eq_true, decide_eq_true_eq, decide_eq_true_eq,
    (EntityRow.isAt_iff.mp hat).1, hblueprint]
  constructor
  · rintro ⟨rfl, rfl⟩
    exact ⟨rfl, .inr rfl⟩
  · rintro ⟨rfl, hoperation | hoperation⟩
    · cases hoperation
    · cases hoperation
      exact ⟨rfl, rfl⟩

/-! ### Steps and runs -/

/-- What a successful change does to what is found. -/
theorem turn_of_change (ht : Reachable Sound t) {c : Change} (hc : Sound call c) {answer : Answer}
    (hanswer : c.answer call t = .ok answer) :
    Turn tenant id ⟨⟨call, .change c⟩, answer⟩ (found? tenant id t.entities)
      (found? tenant id (c.apply call t).entities) := by
  cases c with
  | createBlueprint draft =>
      rw [Change.apply, createBlueprint_entities]
      exact .idle rfl
  | updateBlueprint blueprint patch =>
      rw [Change.apply, updateBlueprint_entities]
      exact .idle rfl
  | deleteBlueprint blueprint =>
      rw [Change.answer, deleteBlueprint] at hanswer
      rw [Change.apply, deleteBlueprint]
      split at hanswer
      · cases hanswer
      · next hthere =>
          rw [if_neg hthere]
          exact turn_blueprint_deleted ht blueprint answer
  | createEntity id' draft =>
      obtain ⟨fault, hrefused⟩ | ⟨hcheck, -, hfresh, hcreated⟩ := createEntity_cases call t id' draft
      · rw [Change.answer, hrefused] at hanswer
        cases hanswer
      · rw [Change.answer, hcreated] at hanswer
        rw [Change.apply, hcreated]
        cases hanswer
        exact turn_created hc (isObject_of_checkDraft hcheck) hfresh
  | updateEntity id' patch =>
      obtain ⟨fault, hrefused⟩ | ⟨e, data, hget, hdata, -, hupdated⟩ :=
        updateEntity_cases call t id' patch
      · rw [Change.answer, hrefused] at hanswer
        cases hanswer
      · rw [Change.apply, hupdated]
        exact turn_updated ht hc hget hdata answer
  | deleteEntity id' =>
      rw [Change.answer, deleteEntity] at hanswer
      rw [Change.apply, deleteEntity]
      split at hanswer
      · cases hanswer
      · next hthere =>
          rw [if_neg hthere]
          exact turn_deleted ht id' answer

/-- What a successful step does to what is found. -/
theorem turn_of_answer (ht : Reachable Sound t) {s : Step} (hs : s.Allowed Sound) {answer : Answer}
    (hanswer : s.answer t = .ok answer) :
    Turn tenant id ⟨s, answer⟩ (found? tenant id t.entities)
      (found? tenant id (s.next t).entities) := by
  obtain ⟨call, operation⟩ := s
  cases operation with
  | change c => exact turn_of_change ht (hs c rfl) hanswer
  | getBlueprint _ | listBlueprints | getEntity _ | getEntityNamed _ _ | search _ _ =>
      exact .idle rfl

/-- A run is a sequence of turns. -/
theorem turns_after : ∀ {steps : List Step} {t : Tables}, Reachable Sound t →
    (∀ s ∈ steps, s.Allowed Sound) →
    Turns tenant id (found? tenant id t.entities) (events t steps)
      (found? tenant id (after t steps).entities)
  | [], _, _, _ => .nil _
  | s :: steps, t, ht, hsteps => by
      obtain ⟨hs, hrest⟩ := List.forall_mem_cons.mp hsteps
      have hturns := turns_after (ht.next hs) hrest
      rw [events]
      cases hanswer : s.answer t with
      | ok answer => exact .cons (turn_of_answer ht hs hanswer) hturns
      | error fault =>
          rw [Step.entities_of_error hanswer] at hturns
          exact hturns

/-! ### One update after another -/

/-- What a successful update finds and leaves. -/
theorem updateEntity_eq_ok (ht : Reachable Sound t) {u : Update} (hu : u.SoundFor tenant id)
    {e' : Entity} {t' : Tables} (h : updateEntity u.call id u.patch t = (.ok e', t')) :
    Reachable Sound t' ∧ t'.blueprints = t.blueprints ∧ u.Sorted ∧ ∃ e data,
      getEntity tenant id t = .ok e ∧ patchedData tenant e u.patch.data t = .ok data ∧
      getEntity tenant id t' = .ok (u.onto e) := by
  obtain ⟨rfl, hu⟩ := hu
  obtain ⟨fault, hrefused⟩ | ⟨e, data, hget, hdata, -, hupdated⟩ :=
    updateEntity_cases u.call t id u.patch
  · rw [hrefused] at h
    cases h
  · have ht' : Reachable Sound t' := by
      have happly : (Change.updateEntity id u.patch).apply u.call t = t' := by
        rw [Change.apply, h]
      rw [← happly]
      exact ht.change _ _ hu
    rw [hupdated] at h
    cases h
    exact ⟨ht', rfl, sorted_of_patchedData hdata hu.1.2, e, data, hget, hdata,
      getEntity_updated ht hu hget hdata⟩

/-- An update whose data is accepted succeeds. -/
theorem exists_updateEntity_onto (ht : Reachable Sound t) {u : Update}
    (hu : u.SoundFor tenant id) {e : Entity} {data : Json} (hget : getEntity tenant id t = .ok e)
    (hdata : patchedData tenant e u.patch.data t = .ok data) :
    ∃ e' t', updateEntity u.call id u.patch t = (.ok e', t') ∧
      getEntity tenant id t' = .ok (u.onto e) := by
  obtain ⟨rfl, hu⟩ := hu
  have hupdated : updateEntity u.call id u.patch t =
      (.ok { e with data, title := u.patch.title.or e.title, updated := u.call.time },
        t.updateEntity u.call.tenant id (u.call.replace (u.patch.title.or e.title) data)) := by
    have hdocument := isDocument_patchedData hdata hget fun j hj => (hu.1.2 j hj).isDocument
    rw [updateEntity_of_patchedData hget hdata, if_pos hdocument]
  exact ⟨_, _, hupdated, getEntity_updated ht hu hget hdata⟩

/-- What is accepted after an update is accepted with the update, if what the update leaves reads
back. -/
theorem patchedData_andThen {u v : Update} {e : Entity} {data data' : Json} {t' : Tables}
    (he : e.data.Storable) (hback : (u.laid e).ReadsBack) (hu : u.Sorted) (hv : v.Sorted)
    (hsame : t'.blueprints = t.blueprints)
    (hdata : patchedData tenant e u.patch.data t = .ok data)
    (hdata' : patchedData tenant (u.onto e) v.patch.data t' = .ok data') :
    patchedData tenant e (u.andThen v).patch.data t = .ok data' := by
  obtain ⟨hpatch, rfl⟩ | ⟨more, schema, hpatch, rfl, hrequired, hvalid⟩ :=
    patchedData_eq_ok.mp hdata'
  · rw [Update.andThen_of_none hpatch, hdata, eq_laid hdata, Update.onto, hback.eq]
  · obtain ⟨fields, hfields, hmerged⟩ := Update.andThen_of_some he hu hv hpatch
    rw [Update.onto, hback.eq, ← hmerged] at hvalid ⊢
    rw [requireSchema, schemaOf?, Tables.blueprint?, hsame] at hrequired
    exact patchedData_eq_ok.mpr (.inr ⟨fields, schema, hfields, rfl, hrequired, hvalid⟩)

/-- Where two updates succeed, so does the one that gives what both give, and it leaves the same, if
what was there and what the first one gives read back. -/
theorem updateEntity_andThen (ht : Reachable Sound t) {u v : Update} (hu : u.SoundFor tenant id)
    (hv : v.SoundFor tenant id) {e₀ : Entity} (hget : getEntity tenant id t = .ok e₀)
    (hback₀ : e₀.data.ReadsBack) (hback : ∀ data ∈ u.patch.data, data.ReadsBack) {e e' : Entity}
    {t₁ t₂ : Tables}
    (h₁ : updateEntity u.call id u.patch t = (.ok e, t₁))
    (h₂ : updateEntity v.call id v.patch t₁ = (.ok e', t₂)) :
    ∃ e'' t₃, updateEntity v.call id (u.andThen v).patch t = (.ok e'', t₃) ∧
      getEntity tenant id t₃ = getEntity tenant id t₂ := by
  obtain ⟨ht₁, hsame, husorted, e₀', data, hget', hdata, hget₁⟩ := updateEntity_eq_ok ht hu h₁
  obtain rfl : e₀ = e₀' := Except.ok.inj (hget.symm.trans hget')
  obtain ⟨-, -, hvsorted, e₁, data', hget₁', hdata', hget₂⟩ := updateEntity_eq_ok ht₁ hv h₂
  obtain rfl : u.onto e₀ = e₁ := Except.ok.inj (hget₁.symm.trans hget₁')
  have he₀ := storable_getEntity hget ht.storable.readable
  have hlaid := Update.laid_readsBack hback₀ hback
  obtain ⟨e'', t₃, h₃, hget₃⟩ := exists_updateEntity_onto ht
    (hu.andThen hv husorted hvsorted) hget
    (patchedData_andThen he₀ hlaid husorted hvsorted hsame hdata hdata')
  refine ⟨e'', t₃, h₃, ?_⟩
  rw [hget₃, hget₂, Update.onto_onto he₀ hlaid husorted hvsorted]

/-! ### What is read after a run -/

theorem Recalls.field? {origin e : Entity} {updates : List Update} (h : Recalls origin updates e)
    {key : String}
    (hback : ∀ j ∈ (latest (Update.field? key) updates).or (origin.data.field? key), j.ReadsBack) :
    e.data.field? key = (latest (Update.field? key) updates).or (origin.data.field? key) := by
  obtain ⟨fields, hfields, -, hget⟩ := h.data
  rw [← recalled_of_readsBack hback, ← hget, hfields, Json.field?]

/-- The store is a map with history.  After any run, the entity under an id of a tenant is the one
that was created under it, if neither it nor its blueprint was deleted later, and it is read as the
history recalls it: each key has what was given to it last, read anew for each write since.  Where
that reads back, as everything does for an exact reader and what has short doubles for a quick one, it
is there as it was given.

Two updates in a row are one if what was there and what the first one gives read back, and an update
whose data has no fields reads the data anew, so it leaves data that reads back as it is.

Callers give storable documents and texts without NUL, and the clock shows years of four digits. -/
theorem getEntity_history {steps : List Step} (hsteps : ∀ s ∈ steps, s.Allowed Sound)
    (tenant id : String) :
    ((∃ e, getEntity tenant id (after .empty steps) = .ok e) ↔
      ∃ origin updates, Remembered tenant id (events .empty steps) origin updates) ∧
    (∀ origin updates, Remembered tenant id (events .empty steps) origin updates → ∀ e,
      (getEntity tenant id (after .empty steps) = .ok e ↔ Recalls origin updates e) ∧
      (Recalls origin updates e → ∀ key,
        (∀ j ∈ (latest (Update.field? key) updates).or (origin.data.field? key), j.ReadsBack) →
        e.data.field? key = (latest (Update.field? key) updates).or (origin.data.field? key))) ∧
    (∀ u v : Update, u.SoundFor tenant id → v.SoundFor tenant id → ∀ e₀,
      getEntity tenant id (after .empty steps) = .ok e₀ → e₀.data.ReadsBack →
      (∀ data ∈ u.patch.data, data.ReadsBack) → ∀ e e' t t',
      updateEntity u.call id u.patch (after .empty steps) = (.ok e, t) →
      updateEntity v.call id v.patch t = (.ok e', t') →
      ∃ e'' t'', updateEntity v.call id (u.andThen v).patch (after .empty steps) = (.ok e'', t'') ∧
        getEntity tenant id t'' = getEntity tenant id t') ∧
    ∀ u : Update, u.SoundFor tenant id → u.patch.data = some (.object []) → ∀ e t,
      updateEntity u.call id u.patch (after .empty steps) = (.ok e, t) →
      ∃ e₀ e₁, getEntity tenant id (after .empty steps) = .ok e₀ ∧
        getEntity tenant id t = .ok e₁ ∧ e₁.data = e₀.data.reread ∧
        (e₀.data.ReadsBack → e₁.data = e₀.data) := by
  have ht : Reachable Sound (after .empty steps) := Reachable.empty.after hsteps
  have hturns : Turns tenant id none (events .empty steps)
      (found? tenant id (after .empty steps).entities) := turns_after .empty hsteps
  have hrecalls : ∀ origin updates, Remembered tenant id (events .empty steps) origin updates →
      ∃ e, getEntity tenant id (after .empty steps) = .ok e ∧ Recalls origin updates e := by
    intro origin updates hremembered
    obtain ⟨e, hfound, he⟩ := hremembered.recalls hturns
    exact ⟨e, getEntity_eq_ok.mpr hfound, he⟩
  have hremembered : ∀ e, getEntity tenant id (after .empty steps) = .ok e →
      ∃ origin updates, Remembered tenant id (events .empty steps) origin updates := by
    intro e hget
    rw [getEntity_eq_ok.mp hget] at hturns
    exact hturns.remembered
  refine ⟨⟨fun ⟨e, hget⟩ => hremembered e hget, ?_⟩, ?_,
    fun u v hu hv e₀ hget hback₀ hback e e' t t' => updateEntity_andThen ht hu hv hget hback₀ hback,
    ?_⟩
  · rintro ⟨origin, updates, h⟩
    obtain ⟨e, hget, -⟩ := hrecalls origin updates h
    exact ⟨e, hget⟩
  · intro origin updates h e
    obtain ⟨e₀, hget, he₀⟩ := hrecalls origin updates h
    rw [hget, Except.ok.injEq]
    exact ⟨⟨fun hsame => hsame ▸ he₀, he₀.unique⟩, fun he key => he.field?⟩
  · intro u hu hpatch e t hupdated
    obtain ⟨-, -, -, e₀, -, hget, -, hget'⟩ := updateEntity_eq_ok ht hu hupdated
    obtain ⟨origin, updates, h⟩ := hremembered e₀ hget
    obtain ⟨e₁, hget₁, he₁⟩ := hrecalls origin updates h
    obtain rfl : e₀ = e₁ := Except.ok.inj (hget.symm.trans hget₁)
    obtain ⟨fields, hfields, hsorted, -⟩ := he₁.data
    have hlaid : u.laid e₀ = e₀.data := by
      rw [Update.laid_of_some e₀ hpatch, hfields, mergeData,
        Fields.merge_of_subset hsorted (List.nil_subset _)]
    have hdata : (u.onto e₀).data = e₀.data.reread := congrArg Json.reread hlaid
    exact ⟨e₀, u.onto e₀, hget, hget', hdata, fun hback => hdata.trans hback⟩

end reader

/-! ### A run -/

/-- An entity is created and patched: the title becomes empty, and the owner is replaced whole. -/
def apiRun : List Step := [
  ⟨⟨"acme", ⟨0, 0⟩⟩, .change (.createBlueprint ⟨"service", "Service", none, .object []⟩)⟩,
  ⟨⟨"acme", ⟨1, 0⟩⟩, .change (.createEntity "ent-1" ⟨"service", "api", some "API",
    .object [("owner", .object [("name", .string "ops")]), ("public", .bool true)]⟩)⟩,
  ⟨⟨"acme", ⟨2, 0⟩⟩, .change (.updateEntity "ent-1"
    ⟨some "", some (.object [("owner", .object [])])⟩)⟩,
  ⟨⟨"globex", ⟨3, 0⟩⟩, .change (.deleteEntity "ent-1")⟩]

/-- What is read of it then. -/
def apiEntity : Entity := ⟨"ent-1", "acme", "service", "api", none,
  .object [("owner", .object []), ("public", .bool true)], ⟨1, 0⟩, ⟨2, 0⟩⟩

def ownerUpdate : Update := ⟨⟨"acme", ⟨4, 0⟩⟩, ⟨none, some (.object [("owner", .null)])⟩⟩

def titleUpdate : Update := ⟨⟨"acme", ⟨5, 0⟩⟩, ⟨some "API", some (.object [])⟩⟩

theorem sound_apiRun : ∀ s ∈ apiRun, s.Allowed Sound := by decide +kernel

theorem soundFor_ownerUpdate : ownerUpdate.SoundFor "acme" "ent-1" :=
  ⟨rfl, by decide +kernel⟩

theorem soundFor_titleUpdate : titleUpdate.SoundFor "acme" "ent-1" :=
  ⟨rfl, by decide +kernel⟩

theorem getEntity_history_api :
    getEntity "acme" "ent-1" (after .empty apiRun) = .ok apiEntity ∧
    (∃ origin updates, Remembered "acme" "ent-1" (events .empty apiRun) origin updates ∧
      Recalls origin updates apiEntity ∧ ∀ key, apiEntity.data.field? key =
        (latest (Update.field? key) updates).or (origin.data.field? key)) ∧
    (∃ e t e' t' e'' t'',
      updateEntity ownerUpdate.call "ent-1" ownerUpdate.patch (after .empty apiRun) = (.ok e, t) ∧
      updateEntity titleUpdate.call "ent-1" titleUpdate.patch t = (.ok e', t') ∧
      updateEntity titleUpdate.call "ent-1" (ownerUpdate.andThen titleUpdate).patch
        (after .empty apiRun) = (.ok e'', t'') ∧
      getEntity "acme" "ent-1" t'' = getEntity "acme" "ent-1" t') ∧
    ∃ e t e₁,
      updateEntity titleUpdate.call "ent-1" titleUpdate.patch (after .empty apiRun) = (.ok e, t) ∧
      getEntity "acme" "ent-1" t = .ok e₁ ∧ e₁.data = apiEntity.data := by
  obtain ⟨hpresent, hrecalls, hcomposed, hempty⟩ :=
    getEntity_history sound_apiRun "acme" "ent-1"
  have hget : getEntity "acme" "ent-1" (after .empty apiRun) = .ok apiEntity := by decide +kernel
  refine ⟨hget, ?_, ?_, ?_⟩
  · obtain ⟨origin, updates, h⟩ := hpresent.mp ⟨apiEntity, hget⟩
    obtain ⟨hiff, hverbatim⟩ := hrecalls origin updates h apiEntity
    exact ⟨origin, updates, h, hiff.mp hget, fun key =>
      hverbatim (hiff.mp hget) key fun _ _ => Json.readsBack_exact _⟩
  · have howner : (updateEntity ownerUpdate.call "ent-1" ownerUpdate.patch
        (after .empty apiRun)).1.isOk = true := by decide +kernel
    have htitle : (updateEntity titleUpdate.call "ent-1" titleUpdate.patch
        (updateEntity ownerUpdate.call "ent-1" ownerUpdate.patch
          (after .empty apiRun)).2).1.isOk = true := by decide +kernel
    obtain ⟨e, t, h₁⟩ := exists_answer _ howner
    rw [h₁] at htitle
    obtain ⟨e', t', h₂⟩ := exists_answer _ htitle
    obtain ⟨e'', t'', h₃, hsame⟩ :=
      hcomposed _ _ soundFor_ownerUpdate soundFor_titleUpdate apiEntity hget
        (Json.readsBack_exact _) (fun _ _ => Json.readsBack_exact _) e e' t t' h₁ h₂
    exact ⟨e, t, e', t', e'', t'', h₁, h₂, h₃, hsame⟩
  · have htitle : (updateEntity titleUpdate.call "ent-1" titleUpdate.patch
        (after .empty apiRun)).1.isOk = true := by decide +kernel
    obtain ⟨e, t, h₁⟩ := exists_answer _ htitle
    obtain ⟨e₀, e₁, hget₀, hget₁, -, hdata⟩ := hempty _ soundFor_titleUpdate rfl e t h₁
    obtain rfl : apiEntity = e₀ := Except.ok.inj (hget.symm.trans hget₀)
    exact ⟨e, t, e₁, h₁, hget₁, hdata (Json.readsBack_exact _)⟩

end EntityStore.Store
