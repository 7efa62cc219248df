import EntityStore.Proofs.Store.Effect
import EntityStore.Store.Search
import Mathlib.Data.List.Basic

/-! # Tenants do not see one another

What a tenant is answered in a run, and the rows it has at the end, are those of the run without the
steps of all other tenants (`isolated`).  The two halves of the argument: an operation of the tenant
looks at nothing but the tenant's rows and does to them what it would do without the others
(`Confined`), and an operation of another tenant leaves them as they are (`only_of_ne`).

The ids of entities are unique across tenants, so one tenant could learn of an id that another one
has; that is why the ids that are generated have to be distinct. -/

namespace EntityStore.Store

/-- The rows of a tenant. -/
def Tables.only (tenant : String) (t : Tables) : Tables :=
  ⟨t.blueprints.filter (·.tenant = tenant), t.entities.filter (·.tenant = tenant)⟩

variable {t : Tables} {tenant : String}

/-! ### Looking up -/

theorem BlueprintRow.tenant_of_isAt {id : String} {b : BlueprintRow}
    (h : b.isAt tenant id = true) : b.tenant = tenant :=
  of_decide_eq_true (Bool.and_eq_true_iff.mp h).1

theorem EntityRow.tenant_of_isAt {id : String} {r : EntityRow} (h : r.isAt tenant id = true) :
    r.tenant = tenant := (EntityRow.isAt_iff.mp h).1

theorem EntityRow.tenant_of_isOf {blueprint : String} {r : EntityRow}
    (h : r.isOf tenant blueprint = true) : r.tenant = tenant :=
  of_decide_eq_true (Bool.and_eq_true_iff.mp h).1

theorem EntityRow.tenant_of_isNamed {blueprint identifier : String} {r : EntityRow}
    (h : r.isNamed tenant blueprint identifier = true) : r.tenant = tenant :=
  r.tenant_of_isOf (Bool.and_eq_true_iff.mp h).1

section rows

variable {ρ : Type} {p q : ρ → Bool}

/-- Rows that are looked for among those with `p`, and have `p`. -/
theorem find?_filter_of_imp (rows : List ρ) (h : ∀ r, q r = true → p r = true) :
    (rows.filter p).find? q = rows.find? q := by
  rw [List.find?_filter]
  congr 1
  funext r
  cases hq : q r with
  | true => simp [h r hq]
  | false => simp

theorem filter_filter_of_imp (rows : List ρ) (h : ∀ r, q r = true → p r = true) :
    (rows.filter p).filter q = rows.filter q := by
  rw [List.filter_filter]
  refine List.filter_congr fun r _ => ?_
  cases hq : q r with
  | true => rw [h r hq, Bool.and_self]
  | false => rw [Bool.false_and]

/-- Taking some rows before or after rows are changed, where a change does not take a row in or
out. -/
theorem filter_map_comm {f : ρ → ρ} (rows : List ρ) (hf : ∀ r, p (f r) = p r) :
    (rows.map f).filter p = (rows.filter p).map f := by
  rw [List.filter_map]
  congr 2
  funext r
  exact hf r

/-- Where only rows without `p` are changed, the rows with `p` stay as they are. -/
theorem filter_map_of_eq {f : ρ → ρ} (rows : List ρ) (hf : ∀ r, p (f r) = p r)
    (hsame : ∀ r, p r = true → f r = r) : (rows.map f).filter p = rows.filter p := by
  rw [filter_map_comm rows hf]
  exact (List.map_congr_left fun r hr => hsame r (List.mem_filter.mp hr).2).trans (List.map_id' _)

end rows

theorem blueprint?_only (id : String) :
    (t.only tenant).blueprint? tenant id = t.blueprint? tenant id :=
  find?_filter_of_imp _ fun _ hat => decide_eq_true (BlueprintRow.tenant_of_isAt hat)

theorem entity?_only (id : String) : (t.only tenant).entity? tenant id = t.entity? tenant id :=
  find?_filter_of_imp _ fun _ hat => decide_eq_true (EntityRow.tenant_of_isAt hat)

theorem entityNamed?_only (blueprint identifier : String) :
    (t.only tenant).entityNamed? tenant blueprint identifier =
      t.entityNamed? tenant blueprint identifier :=
  find?_filter_of_imp _ fun _ hnamed => decide_eq_true (EntityRow.tenant_of_isNamed hnamed)

theorem entitiesOf_only (blueprint : String) :
    (t.only tenant).entitiesOf tenant blueprint = t.entitiesOf tenant blueprint :=
  filter_filter_of_imp _ fun _ hof => decide_eq_true (EntityRow.tenant_of_isOf hof)

/-! ### Changing the tables -/

theorem only_updateBlueprint (tenant' id : String) {f : BlueprintRow → BlueprintRow}
    (hf : ∀ b, (f b).tenant = b.tenant) :
    (t.updateBlueprint tenant' id f).only tenant = (t.only tenant).updateBlueprint tenant' id f := by
  have hrows := filter_map_comm t.blueprints (p := (·.tenant = tenant))
    (f := fun b => if b.isAt tenant' id then f b else b) fun b => by split <;> simp [hf]
  rw [Tables.only, Tables.updateBlueprint, hrows]
  rfl

theorem only_updateEntity (tenant' id : String) {f : EntityRow → EntityRow}
    (hf : ∀ r, (f r).tenant = r.tenant) :
    (t.updateEntity tenant' id f).only tenant = (t.only tenant).updateEntity tenant' id f := by
  have hrows := filter_map_comm t.entities (p := (·.tenant = tenant))
    (f := fun r => if r.isAt tenant' id then f r else r) fun r => by split <;> simp [hf]
  rw [Tables.only, Tables.updateEntity, hrows]
  rfl

theorem only_deleteBlueprint (tenant' id : String) :
    (t.deleteBlueprint tenant' id).only tenant = (t.only tenant).deleteBlueprint tenant' id := by
  rw [Tables.only, Tables.deleteBlueprint, List.filter_comm, List.filter_comm (p := _) _ t.entities]
  rfl

theorem only_deleteEntity (tenant' id : String) :
    (t.deleteEntity tenant' id).only tenant = (t.only tenant).deleteEntity tenant' id := by
  simp only [Tables.only, Tables.deleteEntity, List.filter_comm]

/-- A new blueprint is checked against the rows of its tenant alone. -/
theorem insertBlueprint_only (b : BlueprintRow) :
    (t.only b.tenant).insertBlueprint b = (t.insertBlueprint b).map (Tables.only b.tenant) := by
  rw [Tables.insertBlueprint, Tables.insertBlueprint, blueprint?_only]
  split
  · rfl
  · split
    · rfl
    · simp [Except.map, Tables.only]

/-- So is a new entity, unless another tenant has its id. -/
theorem insertEntity_only {r : EntityRow} (hfresh : ∀ s ∈ t.entities, s.id ≠ r.id) :
    (t.only r.tenant).insertEntity r = (t.insertEntity r).map (Tables.only r.tenant) := by
  have hnone : ∀ rows : List EntityRow, (∀ s ∈ rows, s ∈ t.entities) →
      (r.id.isSome && rows.any (·.id = r.id)) = false := by
    intro rows hrows
    rw [Bool.and_eq_false_iff, List.any_eq_false]
    exact .inr fun s hs => by simpa using hfresh s (hrows s hs)
  rw [Tables.insertEntity, Tables.insertEntity, blueprint?_only, entityNamed?_only,
    hnone (t.only r.tenant).entities fun s hs => (List.mem_filter.mp hs).1,
    hnone t.entities fun _ hs => hs]
  simp only [Bool.false_eq_true, if_false]
  split
  · rfl
  · split
    · rfl
    · split
      · rfl
      · simp [Except.map, Tables.only]

theorem only_congr {t' : Tables}
    (hblueprints : t'.blueprints.filter (·.tenant = tenant) = t.blueprints.filter (·.tenant = tenant))
    (hentities : t'.entities.filter (·.tenant = tenant) = t.entities.filter (·.tenant = tenant)) :
    t'.only tenant = t.only tenant := by
  rw [Tables.only, Tables.only, hblueprints, hentities]

/-! ### Operations of the tenant -/

/-- The operation answers what it would answer without the rows of other tenants, and does to the
rows of the tenant what it would do then. -/
def Confined {α : Type} (tenant : String) (a : Action α) (t : Tables) : Prop :=
  a (t.only tenant) = ((a t).1, (a t).2.only tenant)

variable {call : Call}

theorem confined_createBlueprint (draft : BlueprintDraft) :
    Confined call.tenant (createBlueprint call draft) t := by
  rw [Confined, createBlueprint, createBlueprint]
  split
  · rfl
  · split
    · rfl
    · have hinsert := insertBlueprint_only (t := t) (.ofBlueprint (call.blueprint draft))
      dsimp only
      rw [Call.blueprint] at hinsert
      rw [BlueprintRow.ofBlueprint] at hinsert ⊢
      rw [hinsert]
      cases t.insertBlueprint _ with
      | ok t' => rfl
      | error c => cases c <;> rfl

theorem confined_deleteBlueprint (id : String) :
    Confined call.tenant (deleteBlueprint call id) t := by
  rw [Confined, deleteBlueprint, deleteBlueprint, blueprint?_only]
  split
  · rfl
  · rw [← only_deleteBlueprint]

theorem confined_deleteEntity (id : String) : Confined call.tenant (deleteEntity call id) t := by
  rw [Confined, deleteEntity, deleteEntity, entity?_only]
  split
  · rfl
  · rw [← only_deleteEntity]

section reader
variable [FloatReader]

/-! ### Operations that look -/

theorem getBlueprint_only (id : String) :
    getBlueprint tenant id (t.only tenant) = getBlueprint tenant id t := by
  rw [getBlueprint, getBlueprint, blueprint?_only]

theorem listBlueprints_only : listBlueprints tenant (t.only tenant) = listBlueprints tenant t := by
  simp only [listBlueprints, Tables.only, List.filter_filter, Bool.and_self]

theorem requireSchema_only (id : String) :
    requireSchema tenant id (t.only tenant) = requireSchema tenant id t := by
  rw [requireSchema, requireSchema, schemaOf?, schemaOf?, blueprint?_only]

theorem getEntity_only (id : String) :
    getEntity tenant id (t.only tenant) = getEntity tenant id t := by
  rw [getEntity, getEntity, entity?_only]

theorem getEntityNamed_only (blueprint identifier : String) :
    getEntityNamed tenant blueprint identifier (t.only tenant) =
      getEntityNamed tenant blueprint identifier t := by
  rw [getEntityNamed, getEntityNamed, entityNamed?_only]

theorem checkDraft_only (draft : EntityDraft) :
    checkDraft tenant draft (t.only tenant) = checkDraft tenant draft t := by
  rw [checkDraft, checkDraft, requireSchema_only, entityNamed?_only]

theorem patchedData_only (e : Entity) (patch : Option Json) :
    patchedData tenant e patch (t.only tenant) = patchedData tenant e patch t := by
  unfold patchedData
  rw [requireSchema_only]

theorem search_only (limits : Query.Limits) (request : Query.Search) :
    search limits tenant request (t.only tenant) = search limits tenant request t := by
  simp only [search, countRows, fetchRows, entitiesOf_only]

/-! ### Operations that look and change -/

theorem confined_updateBlueprint (id : String) (patch : BlueprintPatch) :
    Confined call.tenant (updateBlueprint call id patch) t := by
  rw [Confined, updateBlueprint_eq, updateBlueprint_eq, getBlueprint_only, blueprint?_only]
  split
  · rfl
  · split
    · rfl
    · split
      · rfl
      · split
        · rfl
        · have honly : (t.updateBlueprint call.tenant id (BlueprintPatch.apply patch call.time)).only
              call.tenant = (t.only call.tenant).updateBlueprint call.tenant id
                (BlueprintPatch.apply patch call.time) := only_updateBlueprint _ _ fun _ => rfl
          dsimp only
          rw [← honly, getBlueprint_only]

theorem confined_createEntity {id : String} {draft : EntityDraft}
    (hfresh : checkDraft call.tenant draft t = .ok () → ∀ r ∈ t.entities, r.id ≠ some id) :
    Confined call.tenant (createEntity call id draft) t := by
  rw [Confined, createEntity, createEntity, checkDraft_only]
  split
  · rfl
  · next hcheck =>
      have hinsert := insertEntity_only (r := .ofEntity (call.entity id draft)) (hfresh hcheck)
      dsimp only
      rw [Call.entity] at hinsert
      rw [EntityRow.ofEntity] at hinsert ⊢
      rw [hinsert]
      cases t.insertEntity _ with
      | ok t' => rfl
      | error c => cases c <;> rfl

theorem confined_updateEntity (id : String) (patch : EntityPatch) :
    Confined call.tenant (updateEntity call id patch) t := by
  rw [Confined]
  cases hget : getEntity call.tenant id t with
  | error fault => rw [updateEntity, updateEntity, getEntity_only, hget]; rfl
  | ok e =>
      have hget' : getEntity call.tenant id (t.only call.tenant) = .ok e := by
        rw [getEntity_only, hget]
      cases hdata : patchedData call.tenant e patch.data t with
      | error fault =>
          rw [updateEntity, updateEntity, hget, hget']
          dsimp only
          rw [patchedData_only, hdata]
          rfl
      | ok data =>
          have honly : (t.updateEntity call.tenant id
              (call.replace (patch.title.or e.title) data)).only call.tenant =
                (t.only call.tenant).updateEntity call.tenant id
                  (call.replace (patch.title.or e.title) data) :=
            only_updateEntity _ _ fun _ => rfl
          rw [updateEntity_of_patchedData hget hdata,
            updateEntity_of_patchedData hget' ((patchedData_only ..).trans hdata), ← honly]
          split <;> rfl

/-! ### Steps -/

/-- The id that is generated in a step: it is for a new entity whose draft is accepted. -/
def Step.generated? (t : Tables) (s : Step) : Option String :=
  match s.operation with
  | .change (.createEntity id draft) =>
    match checkDraft s.call.tenant draft t with
    | .ok () => some id
    | .error _ => none
  | _ => none

theorem Step.generated?_of_checkDraft {id : String} {draft : EntityDraft}
    (h : checkDraft call.tenant draft t = .ok ()) :
    Step.generated? t ⟨call, .change (.createEntity id draft)⟩ = some id := by
  simp only [Step.generated?, h]

/-- No entity has the id that is generated in the step. -/
def Step.Fresh (t : Tables) (s : Step) : Prop :=
  ∀ id ∈ s.generated? t, ∀ r ∈ t.entities, r.id ≠ some id

theorem Change.confined {c : Change} (h : Step.Fresh t ⟨call, .change c⟩) :
    c.answer call (t.only call.tenant) = c.answer call t ∧
      c.apply call (t.only call.tenant) = (c.apply call t).only call.tenant := by
  -- the answer and the tables are the two halves of what the operation gives
  have halves : ∀ {α : Type} {a : Action α}, Confined call.tenant a t →
      (a (t.only call.tenant)).1 = (a t).1 ∧
        (a (t.only call.tenant)).2 = (a t).2.only call.tenant := fun ha => by
    rw [Confined] at ha
    rw [ha]
    exact ⟨rfl, rfl⟩
  cases c with
  | createBlueprint draft =>
      exact (halves (confined_createBlueprint draft)).imp_left (congrArg (Except.map _))
  | updateBlueprint id patch =>
      exact (halves (confined_updateBlueprint id patch)).imp_left (congrArg (Except.map _))
  | deleteBlueprint id =>
      exact (halves (confined_deleteBlueprint id)).imp_left (congrArg (Except.map _))
  | createEntity id draft =>
      have hfresh : checkDraft call.tenant draft t = .ok () → ∀ r ∈ t.entities, r.id ≠ some id :=
        fun hcheck => h id (Step.generated?_of_checkDraft hcheck)
      exact (halves (confined_createEntity hfresh)).imp_left (congrArg (Except.map _))
  | updateEntity id patch =>
      exact (halves (confined_updateEntity id patch)).imp_left (congrArg (Except.map _))
  | deleteEntity id =>
      exact (halves (confined_deleteEntity id)).imp_left (congrArg (Except.map _))

/-- A step of a tenant is answered from the rows of the tenant, and does to them what it would do
without the others. -/
theorem Step.confined {s : Step} (h : s.Fresh t) :
    s.answer (t.only s.call.tenant) = s.answer t ∧
      s.next (t.only s.call.tenant) = (s.next t).only s.call.tenant := by
  obtain ⟨call, operation⟩ := s
  cases operation with
  | change c => exact Change.confined h
  | getBlueprint id => exact ⟨congrArg (Except.map _) (getBlueprint_only id), rfl⟩
  | listBlueprints => exact ⟨congrArg (Except.map _) listBlueprints_only, rfl⟩
  | getEntity id => exact ⟨congrArg (Except.map _) (getEntity_only id), rfl⟩
  | getEntityNamed blueprint identifier =>
      exact ⟨congrArg (Except.map _) (getEntityNamed_only blueprint identifier), rfl⟩
  | search limits request => exact ⟨congrArg (Except.map _) (search_only limits request), rfl⟩

/-! ### Steps of other tenants -/

/-- A change of one tenant leaves the rows of another one as they are. -/
theorem Change.Effect.only_of_ne {c : Change} {answer : Except StoreError Answer} {t' : Tables}
    (h : c.Effect call t answer t') (hne : call.tenant ≠ tenant) : t'.only tenant = t.only tenant := by
  -- a row of the tenant is not among those that the change is about
  have notAt : ∀ {id : String} {r : EntityRow}, r.tenant = tenant → ¬ r.isAt call.tenant id = true :=
    fun htenant hat => hne ((EntityRow.tenant_of_isAt hat).symm.trans htenant)
  have notOf : ∀ {id : String} {r : EntityRow}, r.tenant = tenant → ¬ r.isOf call.tenant id = true :=
    fun htenant hof => hne ((EntityRow.tenant_of_isOf hof).symm.trans htenant)
  have notBlueprintAt : ∀ {id : String} {b : BlueprintRow}, b.tenant = tenant →
      ¬ b.isAt call.tenant id = true :=
    fun htenant hat => hne ((BlueprintRow.tenant_of_isAt hat).symm.trans htenant)
  have newRow : ∀ {ρ : Type} {p : ρ → Bool} (rows : List ρ) {r : ρ}, p r = false →
      (rows ++ [r]).filter p = rows.filter p := fun rows r hr => by
    rw [List.filter_append, List.filter_singleton, hr]
    exact List.append_nil _
  cases h with
  | refused | looked => rfl
  | blueprintCreated => exact only_congr (newRow _ (decide_eq_false hne)) rfl
  | blueprintUpdated =>
      refine only_congr (filter_map_of_eq _ (fun b => ?_) fun b hb => ?_) rfl
      · split <;> rfl
      · rw [if_neg (notBlueprintAt (of_decide_eq_true hb))]
  | blueprintDeleted =>
      refine only_congr (filter_filter_of_imp _ fun b hb => ?_) (filter_filter_of_imp _ fun r hr => ?_)
      · rw [Bool.not_eq_true', Bool.eq_false_iff]
        exact notBlueprintAt (of_decide_eq_true hb)
      · rw [Bool.not_eq_true', Bool.eq_false_iff]
        exact notOf (of_decide_eq_true hr)
  | entityCreated => exact only_congr rfl (newRow _ (decide_eq_false hne))
  | entityUpdated =>
      refine only_congr rfl (filter_map_of_eq _ (fun r => ?_) fun r hr => ?_)
      · split <;> rfl
      · rw [if_neg (notAt (of_decide_eq_true hr))]
  | entityDeleted =>
      refine only_congr rfl (filter_filter_of_imp _ fun r hr => ?_)
      rw [Bool.not_eq_true', Bool.eq_false_iff]
      exact notAt (of_decide_eq_true hr)

theorem Step.only_of_ne {s : Step} (hne : s.call.tenant ≠ tenant) :
    (s.next t).only tenant = t.only tenant := by
  obtain ⟨call, operation⟩ := s
  cases operation with
  | change c => exact (c.effect call t).only_of_ne hne
  | getBlueprint _ | listBlueprints | getEntity _ | getEntityNamed _ _ | search _ _ => rfl

/-! ### Generated ids -/

/-- The ids that are generated in a run, in order. -/
def generated : Tables → List Step → List String
  | _, [] => []
  | t, s :: rest => (s.generated? t).toList ++ generated (s.next t) rest

/-- An entity has the id that it had before, or the one that is generated. -/
theorem Change.Effect.id_of_mem {c : Change} {answer : Except StoreError Answer} {t' : Tables}
    (h : c.Effect call t answer t') {r : EntityRow} (hr : r ∈ t'.entities) :
    (∃ r' ∈ t.entities, r.id = r'.id) ∨
      ∃ id ∈ Step.generated? t ⟨call, .change c⟩, r.id = some id := by
  cases h with
  | refused | looked | blueprintCreated | blueprintUpdated => exact .inl ⟨r, hr, rfl⟩
  | blueprintDeleted | entityDeleted => exact .inl ⟨r, (List.mem_filter.mp hr).1, rfl⟩
  | entityCreated hcheck =>
      rcases List.mem_append.mp hr with hr | hr
      · exact .inl ⟨r, hr, rfl⟩
      · rw [List.mem_singleton.mp hr]
        exact .inr ⟨_, Step.generated?_of_checkDraft hcheck, rfl⟩
  | entityUpdated =>
      obtain ⟨r', hr', rfl⟩ := List.mem_map.mp hr
      refine .inl ⟨r', hr', ?_⟩
      split <;> rfl

/-- The ids that are generated in a run are distinct, and no entity has one of them. -/
structure AllFresh (t : Tables) (steps : List Step) : Prop where
  nodup : (generated t steps).Nodup
  fresh : ∀ r ∈ t.entities, ∀ id ∈ generated t steps, r.id ≠ some id

theorem AllFresh.head {s : Step} {steps : List Step} (h : AllFresh t (s :: steps)) : s.Fresh t :=
  fun id hid r hr => h.fresh r hr id (List.mem_append_left _ (Option.mem_toList.mpr hid))

theorem AllFresh.tail {s : Step} {steps : List Step} (h : AllFresh t (s :: steps)) :
    AllFresh (s.next t) steps := by
  obtain ⟨-, hnodup, hdisjoint⟩ := List.nodup_append.mp h.nodup
  refine ⟨hnodup, fun r hr id hid hsame => ?_⟩
  have hmem : (∃ r' ∈ t.entities, r.id = r'.id) ∨ ∃ id ∈ s.generated? t, r.id = some id := by
    obtain ⟨call, operation⟩ := s
    cases operation with
    | change c => exact (c.effect call t).id_of_mem hr
    | getBlueprint _ | listBlueprints | getEntity _ | getEntityNamed _ _ | search _ _ =>
        exact .inl ⟨r, hr, rfl⟩
  obtain ⟨r', hr', hid'⟩ | ⟨id', hid', hr'⟩ := hmem
  · exact h.fresh r' hr' id (List.mem_append_right _ hid) (hid'.symm.trans hsame)
  · obtain rfl : id' = id := Option.some.inj (hr'.symm.trans hsame)
    exact hdisjoint id' (Option.mem_toList.mpr hid') id' hid rfl

/-! ### Runs -/

/-- The steps of a tenant. -/
def stepsOf (tenant : String) (steps : List Step) : List Step :=
  steps.filter (·.call.tenant = tenant)

/-- What a tenant is answered in a run. -/
def answersTo (tenant : String) : Tables → List Step → List (Except StoreError Answer)
  | _, [] => []
  | t, s :: rest =>
    if s.call.tenant = tenant then s.answer t :: answersTo tenant (s.next t) rest
    else answersTo tenant (s.next t) rest

/-- By induction on the run: a step of the tenant stays in step with the run of the tenant alone,
and a step of another one does not change what the tenant sees. -/
theorem only_run (tenant : String) : ∀ {steps : List Step} {t : Tables}, AllFresh t steps →
    answersTo tenant t steps = answersTo tenant (t.only tenant) (stepsOf tenant steps) ∧
      (after t steps).only tenant = after (t.only tenant) (stepsOf tenant steps)
  | [], _, _ => ⟨rfl, rfl⟩
  | s :: steps, t, h => by
      obtain ⟨hanswers, htables⟩ := only_run tenant h.tail
      by_cases hown : s.call.tenant = tenant
      · obtain ⟨hanswer, hnext⟩ := Step.confined h.head
        rw [hown] at hanswer hnext
        have hsteps : stepsOf tenant (s :: steps) = s :: stepsOf tenant steps :=
          List.filter_cons_of_pos (decide_eq_true hown)
        rw [hsteps, answersTo, answersTo, if_pos hown, if_pos hown, hanswer, after, List.foldl_cons,
          after, List.foldl_cons, hnext]
        exact ⟨congrArg _ hanswers, htables⟩
      · have hsame := Step.only_of_ne (t := t) hown
        have hsteps : stepsOf tenant (s :: steps) = stepsOf tenant steps :=
          List.filter_cons_of_neg (by simpa using hown)
        rw [hsame] at hanswers htables
        rw [hsteps, answersTo, if_neg hown]
        exact ⟨hanswers, htables⟩

/-- Tenants are isolated: in a run of the steps of any number of tenants in any order, what a tenant
is answered and the rows that it has at the end are those of the run of its steps alone. -/
theorem isolated {steps : List Step} (h : (generated .empty steps).Nodup) (tenant : String) :
    answersTo tenant .empty steps = answersTo tenant .empty (stepsOf tenant steps) ∧
      (after .empty steps).only tenant = after .empty (stepsOf tenant steps) :=
  only_run tenant ⟨h, nofun⟩

end reader

/-- Two tenants have a blueprint of the same id; one deletes its own, and then the other one looks. -/
def sharedRun : List Step := [
  ⟨⟨"acme", ⟨0, 0⟩⟩, .change (.createBlueprint ⟨"service", "Service", none, .object []⟩)⟩,
  ⟨⟨"globex", ⟨1, 0⟩⟩, .change (.createBlueprint ⟨"service", "Dienst", none, .object []⟩)⟩,
  ⟨⟨"acme", ⟨2, 0⟩⟩, .change (.createEntity "ent-1" ⟨"service", "api", none, .object []⟩)⟩,
  ⟨⟨"globex", ⟨3, 0⟩⟩, .change (.createEntity "ent-2" ⟨"service", "api", none, .object []⟩)⟩,
  ⟨⟨"globex", ⟨4, 0⟩⟩, .change (.updateEntity "ent-1" ⟨some "taken", none⟩)⟩,
  ⟨⟨"globex", ⟨5, 0⟩⟩, .change (.deleteBlueprint "service")⟩,
  ⟨⟨"acme", ⟨6, 0⟩⟩, .getEntityNamed "service" "api"⟩,
  ⟨⟨"acme", ⟨7, 0⟩⟩, .listBlueprints⟩]

theorem isolated_shared :
    (generated .empty sharedRun).Nodup ∧ (stepsOf "acme" sharedRun).length = 4 ∧
    answersTo "acme" .empty sharedRun = answersTo "acme" .empty (stepsOf "acme" sharedRun) ∧
    (after .empty sharedRun).only "acme" = after .empty (stepsOf "acme" sharedRun) := by
  have hnodup : (generated .empty sharedRun).Nodup := by decide +kernel
  exact ⟨hnodup, by decide, isolated hnodup "acme"⟩

end EntityStore.Store
