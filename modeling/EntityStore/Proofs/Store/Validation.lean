import EntityStore.Proofs.Store.Effect
import EntityStore.Proofs.Store.Recall
import Mathlib.Data.List.Induction

/-! # Every stored document was accepted

After any run of the service, the data of every entity is what the last successful write of it left:
its creation, or an update that gives data.  At that instant the schema of its blueprint accepted the
data, in full for a creation and apart from what is missing for an update (`accepted_last`).  An
update without data writes again what it has read, so each of them has the data read anew; data that
reads back, which is all data for an exact reader, stays exactly as it was accepted.

A step writes the data of an entity and has it accepted, or leaves it as it is
(`Change.Effect.accepted_or_kept`); the first half of a run up to the last write, and the steps after
it that keep what was written (`Step.Keeps`), come from an induction on the end of the run.

An update is held to the blueprint that is read from the row, and a text is read up to its first NUL.
Where the blueprint of an entity has one, that is another blueprint (`accepted_by_another`). -/

namespace EntityStore.Store

open Schema (Mode)

/-- The blueprint that a write of an entity is held to: an update reads it from the row. -/
def heldTo (blueprint : String) : Mode → String
  | .full => blueprint
  | .lenient => readText blueprint

/-- Where a blueprint has no NUL, all writes of its entities are held to it. -/
theorem heldTo_plain {blueprint : String} (h : Plain blueprint) (mode : Mode) :
    heldTo blueprint mode = blueprint := by
  cases mode with
  | full => rfl
  | lenient => exact readText_plain h

/-- The step is an update without data. -/
def Step.retitles (s : Step) : Bool :=
  match s.operation with
  | .change (.updateEntity _ patch) => patch.data.isNone
  | _ => false

/-- The documents of a change are regular. -/
def Change.Regular : Change → Prop
  | .createEntity _ draft => draft.data.Regular
  | .updateEntity _ patch => ∀ data ∈ patch.data, data.Regular
  | _ => True

instance (c : Change) : Decidable c.Regular :=
  match c with
  | .createEntity _ draft => inferInstanceAs (Decidable draft.data.Regular)
  | .updateEntity _ patch => inferInstanceAs (Decidable (∀ data ∈ patch.data, data.Regular))
  | .createBlueprint _ | .updateBlueprint _ _ | .deleteBlueprint _ | .deleteEntity _ =>
    .isTrue trivial

theorem regular_mergeData {base : Json} {patch : Fields} (hbase : base.Regular)
    (hpatch : (Json.object patch).Regular) : (mergeData base patch).Regular := by
  cases base with
  | object fields => exact hbase.merge hpatch
  | null | bool _ | number _ | string _ | array _ =>
      exact Json.Regular.merge (Json.regular_object_iff.mpr ⟨List.Pairwise.nil, nofun⟩) hpatch

theorem exists_ok_of_map {ε α β : Type} {x : Except ε α} {f : α → β} {b : β}
    (h : x.map f = .ok b) : ∃ a, x = .ok a := by
  cases x with
  | error _ => cases h
  | ok a => exact ⟨a, rfl⟩

theorem eq_ok_of_toOption {ε α : Type} {x : Except ε α} {a : α} (h : x.toOption = some a) :
    x = .ok a := by
  cases x with
  | error _ => cases h
  | ok _ => rw [Option.some.inj h]

/-- The places of a list that has grown at its end. -/
theorem eq_of_append_singleton {α : Type} {xs ys rest : List α} {x y : α}
    (h : xs ++ [x] = ys ++ y :: rest) :
    (ys = xs ∧ y = x ∧ rest = []) ∨ ∃ rest', xs = ys ++ y :: rest' ∧ rest = rest' ++ [x] := by
  obtain rfl | ⟨rest', z, rfl⟩ := List.eq_nil_or_concat rest
  · obtain ⟨hxs, hx⟩ := List.append_inj' h rfl
    exact .inl ⟨hxs.symm, (List.cons.inj hx).1.symm, rfl⟩
  · rw [List.concat_eq_append, ← List.cons_append, ← List.append_assoc] at h
    obtain ⟨hxs, hx⟩ := List.append_inj' h rfl
    exact .inr ⟨rest', hxs, by rw [List.concat_eq_append, (List.cons.inj hx).1]⟩

section reader
variable [FloatReader]

/-! ### Writes -/

/-- The step gives an entity of a tenant its data, which it holds in a mode to a blueprint. -/
inductive Step.Writes (tenant id : String) (t : Tables) : Step → Mode → String → Json → Prop
  | created {call : Call} {draft : EntityDraft} {e : Entity} :
      call.tenant = tenant → (createEntity call id draft t).1 = .ok e →
      Writes tenant id t ⟨call, .change (.createEntity id draft)⟩ .full draft.blueprint draft.data
  | patched {call : Call} {patch : EntityPatch} {fields : Fields} {e e' : Entity} :
      call.tenant = tenant → patch.data = some (.object fields) →
      getEntity tenant id t = .ok e → (updateEntity call id patch t).1 = .ok e' →
      Writes tenant id t ⟨call, .change (.updateEntity id patch)⟩ .lenient e.blueprint
        (mergeData e.data fields)

/-- The document is left of one that was written, and was read anew at most so many times since. -/
def Left (times : Nat) (data : Json) (stored : Source) : Prop :=
  ∃ n ≤ times, stored = (Json.reread^[n] data).source

/-- The step writes data of the row, which the schema of the blueprint accepts at that instant, and
the row has what is left of it after at most so many updates without data. -/
def Step.Accepted (t : Tables) (s : Step) (times : Nat) (r : EntityRow) : Prop :=
  ∃ id mode schema, ∃ data : Json, r.id = some id ∧
    s.Writes r.tenant id t mode (heldTo r.blueprint mode) data ∧
    requireSchema r.tenant (heldTo r.blueprint mode) t = .ok schema ∧
    Schema.validate mode schema data = .ok () ∧ data.Regular ∧ Left times data r.data

/-- The two rows are of one entity, and the second one has what is left of the data of the first one
after at most so many updates without data. -/
structure SameData (times : Nat) (r r' : EntityRow) : Prop where
  id : r.id = r'.id
  tenant : r.tenant = r'.tenant
  blueprint : r.blueprint = r'.blueprint
  data : ∃ n ≤ times, ∀ j : Json, j.Regular → r.data = j.source →
    r'.data = (Json.reread^[n] j).source

/-- The entity is in these tables, the step does not write it, and the row has what is left of its
data in the end. -/
structure Step.Keeps (t : Tables) (s : Step) (times : Nat) (r : EntityRow) : Prop where
  same : ∃ r' ∈ t.entities, SameData times r' r
  unwritten : ∀ id mode blueprint data, r.id = some id →
    ¬ s.Writes r.tenant id t mode blueprint data

variable {call : Call} {t : Tables}

/-- What reads back is left as it was written. -/
theorem Left.eq_of_readsBack {times : Nat} {data : Json} {stored : Source}
    (h : Left times data stored) (hback : data.ReadsBack) : stored = data.source := by
  obtain ⟨n, -, rfl⟩ := h
  rw [Function.iterate_fixed hback.eq]

theorem regular_iterate {j : Json} (h : j.Regular) (n : Nat) : (Json.reread^[n] j).Regular := by
  induction n with
  | zero => exact h
  | succ n ih =>
      rw [Function.iterate_succ_apply']
      exact ih.reread

theorem SameData.refl (times : Nat) (r : EntityRow) : SameData times r r :=
  ⟨rfl, rfl, rfl, 0, Nat.zero_le _, fun _ _ h => h⟩

theorem SameData.trans {m n : Nat} {r r' r'' : EntityRow} (h : SameData m r r')
    (h' : SameData n r' r'') : SameData (m + n) r r'' where
  id := h.id.trans h'.id
  tenant := h.tenant.trans h'.tenant
  blueprint := h.blueprint.trans h'.blueprint
  data := by
    obtain ⟨k, hk, hdata⟩ := h.data
    obtain ⟨k', hk', hdata'⟩ := h'.data
    refine ⟨k' + k, by omega, fun j hj hsource => ?_⟩
    rw [Function.iterate_add_apply]
    exact hdata' _ (regular_iterate hj k) (hdata j hj hsource)

theorem SameData.accepted {s : Step} {m n : Nat} {r r' : EntityRow} (h : SameData n r r')
    (hr : s.Accepted t m r) : s.Accepted t (m + n) r' := by
  obtain ⟨id, mode, schema, data, hid, hwrites, hschema, hvalid, hregular, k, hk, hdata⟩ := hr
  obtain ⟨k', hk', hsame⟩ := h.data
  rw [h.tenant, h.blueprint] at hwrites hschema
  refine ⟨id, mode, schema, data, h.id.symm.trans hid, hwrites, hschema, hvalid, hregular, k' + k,
    by omega, ?_⟩
  rw [Function.iterate_add_apply]
  exact hsame _ (regular_iterate hregular k) hdata

theorem SameData.keeps {s : Step} {m n : Nat} {r r' : EntityRow} (h : SameData n r r')
    (hr : s.Keeps t m r) : s.Keeps t (m + n) r' where
  same := by
    obtain ⟨r₀, hr₀, hsame⟩ := hr.same
    exact ⟨r₀, hr₀, hsame.trans h⟩
  unwritten := by
    rw [← h.id, ← h.tenant]
    exact hr.unwritten

/-! ### What is stored is regular -/

/-- The data of an entity that is read is that of its row, read anew. -/
theorem source_of_getEntity {tenant id : String} {e : Entity}
    (ht : ∀ r ∈ t.entities, ∃ j : Json, j.Regular ∧ r.data = j.source)
    (h : getEntity tenant id t = .ok e) :
    ∃ r, t.entity? tenant id = some r ∧ e.data.Regular ∧ e.blueprint = readText r.blueprint ∧
      ∀ j : Json, j.Regular → r.data = j.source → e.data = j.reread := by
  obtain ⟨r, hfound, hread⟩ := getEntity_row.mp h
  obtain ⟨_, data, _, _, -, hdocument, -, -, rfl⟩ := EntityRow.read_eq_ok.mp hread
  have hanew : ∀ j : Json, j.Regular → r.data = j.source → data = j.reread := by
    intro j hj hsource
    rw [hsource] at hdocument
    exact eq_of_readDocument_source hj hdocument
  obtain ⟨j, hj, hsource⟩ := ht r (List.mem_of_find?_eq_some hfound)
  exact ⟨r, hfound, hanew j hj hsource ▸ hj.reread, rfl, hanew⟩

theorem regular_patchedData {tenant : String} {e : Entity} {patch : Option Json} {data : Json}
    (h : patchedData tenant e patch t = .ok data) (he : e.data.Regular)
    (hpatch : ∀ j ∈ patch, j.Regular) : data.Regular := by
  obtain ⟨-, rfl⟩ | ⟨fields, schema, rfl, rfl, -, -⟩ := patchedData_eq_ok.mp h
  · exact he
  · exact regular_mergeData he (hpatch _ rfl)

theorem Change.regular_apply {c : Change} (hc : c.Regular)
    (ht : ∀ r ∈ t.entities, ∃ j : Json, j.Regular ∧ r.data = j.source) :
    ∀ r ∈ (c.apply call t).entities, ∃ j : Json, j.Regular ∧ r.data = j.source := by
  refine Change.forall_entities ht ?_ ?_
  · rintro id draft rfl
    exact ⟨draft.data, hc, rfl⟩
  · rintro id patch e title data rfl hget hdata r -
    obtain ⟨-, -, he, -, -⟩ := source_of_getEntity ht hget
    exact ⟨data, regular_patchedData hdata he hc, rfl⟩

theorem Reachable.regular (h : Reachable (fun _ c => c.Regular) t) :
    ∀ r ∈ t.entities, ∃ j : Json, j.Regular ∧ r.data = j.source := by
  induction h with
  | empty => exact nofun
  | change call c _ hc ih => exact Change.regular_apply hc ih

/-! ### One step -/

/-- A write is a step that succeeds. -/
theorem Step.Writes.answer {tenant id blueprint : String} {s : Step} {mode : Mode} {data : Json}
    (h : s.Writes tenant id t mode blueprint data) : ∃ a, s.answer t = .ok a := by
  cases h with
  | created _ h =>
      exact ⟨_, congrArg (Except.map Answer.entity) h⟩
  | patched _ _ _ h =>
      exact ⟨_, congrArg (Except.map Answer.entity) h⟩

/-- The row that an update has replaced has data that was accepted, or its own data read anew. -/
theorem accepted_or_kept_replaced {id : String} {patch : EntityPatch} {e : Entity} {data : Json}
    {a : Answer} (hanswer : Change.answer call t (.updateEntity id patch) = .ok a)
    (hget : getEntity call.tenant id t = .ok e)
    (hdata : patchedData call.tenant e patch.data t = .ok data)
    (hpatch : ∀ data ∈ patch.data, data.Regular)
    (ht : ∀ r ∈ t.entities, ∃ j : Json, j.Regular ∧ r.data = j.source)
    (hdistinct : Distinct t.entities) {r : EntityRow} (hr : r ∈ t.entities)
    (hat : EntityRow.isAt call.tenant id r = true) (title : Option String) :
    Step.Accepted t ⟨call, .change (.updateEntity id patch)⟩ 0 (call.replace title data r) ∨
      Step.Keeps t ⟨call, .change (.updateEntity id patch)⟩
        ([⟨call, .change (.updateEntity id patch)⟩].countP Step.retitles)
        (call.replace title data r) := by
  obtain ⟨htenant, hid⟩ := EntityRow.isAt_iff.mp hat
  obtain ⟨r₀, hfound, he, hblueprint, hanew⟩ := source_of_getEntity ht hget
  -- ids are distinct, so the row that is replaced is the one that was read
  obtain rfl : r₀ = r :=
    Option.some.inj (hfound.symm.trans (hdistinct.find?_eq_some.mpr ⟨hr, hat⟩))
  have hregular := regular_patchedData hdata he hpatch
  obtain ⟨hnone, rfl⟩ | ⟨fields, schema, hsome, rfl, hschema, hvalid⟩ := patchedData_eq_ok.mp hdata
  · have hretitles : Step.retitles ⟨call, .change (.updateEntity id patch)⟩ = true := by
      show patch.data.isNone = true
      rw [hnone]
      rfl
    have hcount := List.countP_pos_iff.mpr ⟨_, List.mem_singleton_self _, hretitles⟩
    refine .inr ⟨⟨r₀, hr, ⟨rfl, rfl, rfl, 1, hcount, fun j hj hsource => ?_⟩⟩,
      fun id' mode blueprint data _ hwrites => ?_⟩
    · exact congrArg Json.source (hanew j hj hsource)
    · cases hwrites with
      | patched _ hsome =>
          rw [hnone] at hsome
          cases hsome
  · obtain ⟨e', he'⟩ := exists_ok_of_map hanswer
    have hwrites : Step.Writes call.tenant id t ⟨call, .change (.updateEntity id patch)⟩ .lenient
        e.blueprint (mergeData e.data fields) := .patched rfl hsome hget he'
    rw [hblueprint, ← htenant] at hwrites hschema
    exact .inl ⟨id, .lenient, schema, mergeData e.data fields, hid, hwrites, hschema,
      requireValid_eq_ok.mp hvalid, hregular, 0, Nat.le_refl _, rfl⟩

/-- A row after a change was written by it and accepted, or it was kept. -/
theorem Change.Effect.accepted_or_kept {c : Change} {answer : Except StoreError Answer}
    {t' : Tables} (h : c.Effect call t answer t') (hanswer : c.answer call t = answer)
    (hc : c.Regular) (ht : ∀ r ∈ t.entities, ∃ j : Json, j.Regular ∧ r.data = j.source)
    (hdistinct : Distinct t.entities) {r : EntityRow} (hr : r ∈ t'.entities) :
    Step.Accepted t ⟨call, .change c⟩ 0 r ∨
      Step.Keeps t ⟨call, .change c⟩ ([⟨call, .change c⟩].countP Step.retitles) r := by
  cases h with
  | refused c fault =>
      refine .inr ⟨⟨r, hr, .refl _ r⟩, fun id mode blueprint data _ hwrites => ?_⟩
      obtain ⟨a, ha⟩ := hwrites.answer
      cases hanswer.symm.trans ha
  | looked | blueprintCreated | blueprintUpdated => exact .inr ⟨⟨r, hr, .refl _ r⟩, nofun⟩
  | blueprintDeleted | entityDeleted =>
      exact .inr ⟨⟨r, (List.mem_filter.mp hr).1, .refl _ r⟩, nofun⟩
  | @entityCreated id draft hcheck _ hfresh =>
      rcases List.mem_append.mp hr with hr | hr
      · refine .inr ⟨⟨r, hr, .refl _ r⟩, fun id' mode blueprint data hid hwrites => ?_⟩
        cases hwrites with
        | created => exact hfresh r hr hid
      · obtain rfl := List.mem_singleton.mp hr
        obtain ⟨schema, hschema, -, -, hvalid, -⟩ := checkDraft_iff.mp hcheck
        obtain ⟨e, he⟩ := exists_ok_of_map hanswer
        exact .inl ⟨id, .full, schema, draft.data, rfl, .created rfl he, hschema,
          requireValid_eq_ok.mp hvalid, hc, 0, Nat.le_refl _, rfl⟩
  | @entityUpdated id patch e data _ hget hdata =>
      obtain ⟨r', hr', rfl⟩ := List.mem_map.mp hr
      split
      · next hat => exact accepted_or_kept_replaced hanswer hget hdata hc ht hdistinct hr' hat _
      · next hnot =>
          refine .inr ⟨⟨r', hr', .refl _ r'⟩, fun id' mode blueprint data hid hwrites => ?_⟩
          cases hwrites with
          | patched htenant => exact hnot (EntityRow.isAt_iff.mpr ⟨htenant.symm, hid⟩)

theorem Step.accepted_or_kept {s : Step} (hs : s.Allowed fun _ c => c.Regular)
    (ht : ∀ r ∈ t.entities, ∃ j : Json, j.Regular ∧ r.data = j.source)
    (hdistinct : Distinct t.entities) {r : EntityRow} (hr : r ∈ (s.next t).entities) :
    s.Accepted t 0 r ∨ s.Keeps t ([s].countP Step.retitles) r := by
  obtain ⟨call, operation⟩ := s
  cases operation with
  | change c => exact (c.effect call t).accepted_or_kept rfl (hs c rfl) ht hdistinct hr
  | getBlueprint _ | listBlueprints | getEntity _ | getEntityNamed _ _ | search _ _ =>
      exact .inr ⟨⟨r, hr, .refl _ r⟩, nofun⟩

/-! ### Runs -/

/-- No document is stored that was not accepted.  The run of the service ends, for every entity, in a
write that the schema of the blueprint accepted at that instant and steps that keep what it wrote: the
row has the document that was accepted, read anew at most once for each of these steps that is an
update without data, and exactly as it was accepted if it reads back.  The blueprint is the one of the
entity, unless its id has a NUL. -/
theorem accepted_last {steps : List Step} (hsteps : ∀ s ∈ steps, s.Allowed fun _ c => c.Regular) :
    (∀ r ∈ (after .empty steps).entities, ∃ before s later, steps = before ++ s :: later ∧
      s.Accepted (after .empty before) (later.countP Step.retitles) r ∧
      ∀ kept s' rest, later = kept ++ s' :: rest →
        s'.Keeps (after .empty (before ++ s :: kept)) ((s' :: rest).countP Step.retitles) r) ∧
    (∀ times data stored, Left times data stored → data.ReadsBack → stored = data.source) ∧
    ∀ blueprint, Plain blueprint → ∀ mode, heldTo blueprint mode = blueprint := by
  refine ⟨?_, fun _ _ _ => Left.eq_of_readsBack, fun _ => heldTo_plain⟩
  induction steps using List.reverseRecOn with
  | nil => nofun
  | append_singleton steps s ih =>
      intro r hr
      obtain ⟨hbefore, hs⟩ := List.forall_mem_append.mp hsteps
      have ht := Reachable.empty.after hbefore
      rw [after, List.foldl_append] at hr
      obtain haccepted | hkept :=
        Step.accepted_or_kept (hs s List.mem_cons_self) ht.regular ht.distinct hr
      · refine ⟨steps, s, [], rfl, haccepted, fun kept s' rest hsplit => ?_⟩
        exact absurd hsplit (by simp)
      · obtain ⟨r₀, hr₀, hsame⟩ := hkept.same
        obtain ⟨before, s₀, later, rfl, haccepted, hlater⟩ := ih hbefore r₀ hr₀
        refine ⟨before, s₀, later ++ [s], List.append_assoc before (s₀ :: later) [s], ?_,
          fun kept s' rest hsplit => ?_⟩
        · rw [List.countP_append]
          exact hsame.accepted haccepted
        · obtain ⟨rfl, rfl, rfl⟩ | ⟨rest', hsplit', rfl⟩ := eq_of_append_singleton hsplit
          · exact hkept
          · rw [← List.cons_append, List.countP_append]
            exact hsame.keeps (hlater kept s' rest' hsplit')

end reader

/-- A document is created and patched; then the schema changes, so that it would not be accepted any
more, the title is set, and another patch is refused. -/
def portRun : List Step := [
  ⟨⟨"acme", ⟨0, 0⟩⟩, .change (.createBlueprint ⟨"service", "Service", none,
    .object [("required", .array [.string "port"])]⟩)⟩,
  ⟨⟨"acme", ⟨1, 0⟩⟩, .change (.createEntity "ent-1" ⟨"service", "api", none,
    .object [("port", .number (.integer 80))]⟩)⟩,
  ⟨⟨"acme", ⟨2, 0⟩⟩, .change (.updateEntity "ent-1" ⟨none, some (.object [("port", .null)])⟩)⟩,
  ⟨⟨"acme", ⟨3, 0⟩⟩, .change (.updateBlueprint "service" ⟨none, none,
    some (.object [("maxProperties", .number (.integer 0))])⟩)⟩,
  ⟨⟨"acme", ⟨4, 0⟩⟩, .change (.updateEntity "ent-1" ⟨some "API", none⟩)⟩,
  ⟨⟨"acme", ⟨5, 0⟩⟩, .change (.updateEntity "ent-1" ⟨none, some (.object [])⟩)⟩]

theorem regular_portRun : ∀ s ∈ portRun, s.Allowed fun _ c => c.Regular := by decide +kernel

theorem accepted_last_port :
    ∃ r ∈ (after .empty portRun).entities,
      (r.title, String.ofList r.data.text) = (some "API", "\x7b\"port\":null\x7d") ∧
      ∃ before s later, portRun = before ++ s :: later ∧
        s.Accepted (after .empty before) (later.countP Step.retitles) r ∧
        ∀ kept s' rest, later = kept ++ s' :: rest →
          s'.Keeps (after .empty (before ++ s :: kept)) ((s' :: rest).countP Step.retitles) r := by
  have hrows : (after .empty portRun).entities.map
      (fun r => (r.title, String.ofList r.data.text)) =
        [(some "API", "\x7b\"port\":null\x7d")] := by decide +kernel
  have hmem := List.mem_singleton_self (some "API", "\x7b\"port\":null\x7d")
  rw [← hrows] at hmem
  obtain ⟨r, hr, hshown⟩ := List.mem_map.mp hmem
  exact ⟨r, hr, hshown, (accepted_last regular_portRun).1 r hr⟩

/-! ### A blueprint with a NUL -/

/-- The port of an entity has to be a number. -/
def portSchema : Json :=
  .object [("properties", .object [("port", .object [("type", .string "integer")])])]

/-- The blueprint of an entity has a NUL, and what is before it is another blueprint. -/
def cutRun : List Step := [
  ⟨⟨"acme", ⟨0, 0⟩⟩, .change (.createBlueprint ⟨"service\x00v2", "Service", none, portSchema⟩)⟩,
  ⟨⟨"acme", ⟨1, 0⟩⟩, .change (.createBlueprint ⟨"service", "Service", none, .object []⟩)⟩,
  ⟨⟨"acme", ⟨2, 0⟩⟩, .change (.createEntity "ent-1" ⟨"service\x00v2", "api", none,
    .object [("port", .number (.integer 80))]⟩)⟩]

def cutPatch : EntityPatch := ⟨none, some (.object [("port", .string "http")])⟩

def cutStep : Step := ⟨⟨"acme", ⟨3, 0⟩⟩, .change (.updateEntity "ent-1" cutPatch)⟩

/-- What is left of the entity was never accepted by the schema of its blueprint. -/
theorem accepted_by_another :
    let written : Json := .object [("port", .string "http")]
    (after .empty (cutRun ++ [cutStep])).entities.map (fun r => (r.blueprint, r.data.text)) =
        [("service\x00v2", written.source.text)] ∧
      cutStep.Writes "acme" "ent-1" (after .empty cutRun) .lenient "service" written ∧
      requireSchema "acme" "service\x00v2" (after .empty cutRun) = .ok portSchema ∧
      Schema.validate .lenient portSchema written ≠ .ok () := by
  intro written
  refine ⟨by decide +kernel, ?_, by decide +kernel, by decide +kernel⟩
  have hread : (getEntity "acme" "ent-1" (after .empty cutRun)).toOption.map
      (fun e => (e.blueprint, e.data)) =
        some ("service", .object [("port", .number (.integer 80))]) := by decide +kernel
  obtain ⟨e, he, hfields⟩ := Option.map_eq_some_iff.mp hread
  obtain ⟨hblueprint, hdata⟩ := Prod.mk.inj hfields
  have hupdates : (updateEntity cutStep.call "ent-1" cutPatch (after .empty cutRun)).1.toOption.isSome =
      true := by decide +kernel
  obtain ⟨e', he'⟩ := Option.isSome_iff_exists.mp hupdates
  have hmerged : written = mergeData e.data [("port", .string "http")] := by
    rw [hdata]
    decide +kernel
  rw [hmerged, ← hblueprint]
  exact .patched rfl rfl (eq_ok_of_toOption he) (eq_ok_of_toOption he')

end EntityStore.Store
