import EntityStore.Proofs.Store.Operation
import Mathlib.Data.List.Induction

/-! # What a history says of an entity

The successful steps of a run say what is left of an entity.  It is `Remembered` if it was created
and neither it nor its blueprint was deleted since; it has what it was created with, apart from what
the updates since then gave it (`Recalls`), and that is all there is to it (`Recalls.unique`).  Every
update reads the data and writes it again, so a value is read anew as often as there were writes
since it was given; where it reads back it stays what it was (`recalled_of_readsBack`).

All that one step can do to what is found under an id is a `Turn`.  Whatever goes from one turn to
the next and finds nothing at first, finds in the end what is remembered, as it is recalled
(`Turns.remembered`, `Remembered.recalls`). -/

namespace EntityStore.Store

/-! ### What a history says -/

/-- A successful update of an entity. -/
structure Update where
  call : Call
  patch : EntityPatch

/-- The value that the data of an update gives to a key. -/
def Update.field? (key : String) (u : Update) : Option Json := u.patch.data.bind (Json.field? key)

/-- The event is the creation of the entity for a tenant. -/
def Event.Creates (tenant : String) (origin : Entity) (event : Event) : Prop :=
  event.step.call.tenant = tenant ∧ event.answer = .entity origin ∧
    ∃ id draft, event.step.operation = .change (.createEntity id draft)

/-- The event removes an entity of a tenant, by itself or with its blueprint. -/
def Event.Removes (tenant id blueprint : String) (event : Event) : Prop :=
  event.step.call.tenant = tenant ∧ (event.step.operation = .change (.deleteEntity id) ∨
    event.step.operation = .change (.deleteBlueprint blueprint))

/-- The update of an entity of a tenant, if the event is one. -/
def Event.update? (tenant id : String) (event : Event) : Option Update :=
  match event.step.operation with
  | .change (.updateEntity id' patch) =>
    if event.step.call.tenant = tenant ∧ id' = id then some ⟨event.step.call, patch⟩ else none
  | _ => none

/-- The updates of an entity of a tenant, the first one first. -/
def updatesOf (tenant id : String) (history : List Event) : List Update :=
  history.filterMap (Event.update? tenant id)

/-- The latest update that gives something gives this. -/
def latest {α : Type} (f : Update → Option α) (updates : List Update) : Option α :=
  updates.reverse.findSome? f

/-- What is left of the value of a key: the value that was given last, read anew for each write since
then. -/
def recalled [FloatReader] (key : String) (data : Json) (updates : List Update) : Option Json :=
  updates.foldl (fun value u => ((u.field? key).or value).map Json.reread)
    ((data.field? key).map Json.reread)

/-- The entity is what was created, changed by the updates. -/
structure Recalls [FloatReader] (origin : Entity) (updates : List Update) (e : Entity) : Prop where
  id : e.id = origin.id
  tenant : e.tenant = origin.tenant
  blueprint : e.blueprint = origin.blueprint
  identifier : e.identifier = origin.identifier
  title : e.title = ((latest (·.patch.title) updates).or origin.title).filter (· ≠ "")
  data : ∃ fields : Fields, e.data = .object fields ∧ fields.Ascending ∧
    ∀ key, Fields.get? key fields = recalled key origin.data updates
  created : e.created = origin.created
  updated : e.updated = (updates.getLast?.map (·.call.time)).getD origin.updated

/-- The entity was created under an id of a tenant and had these updates since then, and neither it
nor its blueprint was deleted later. -/
def Remembered (tenant id : String) (history : List Event) (origin : Entity)
    (updates : List Update) : Prop :=
  ∃ before creation later, history = before ++ creation :: later ∧
    creation.Creates tenant origin ∧ origin.id = id ∧
    (∀ event ∈ later, ¬ event.Removes tenant id origin.blueprint) ∧
    updates = updatesOf tenant id later

/-! ### Recalling -/

theorem latest_append {α : Type} (f : Update → Option α) (updates : List Update) (u : Update) :
    latest f (updates ++ [u]) = (f u).or (latest f updates) := by
  rw [latest, latest, List.reverse_append, List.reverse_singleton, List.singleton_append,
    List.findSome?_cons]
  cases f u <;> rfl

/-- The data of a patch that can be stored is an object, if there is any. -/
def Update.Sorted (u : Update) : Prop :=
  ∀ data ∈ u.patch.data, ∃ fields : Fields, data = .object fields ∧ fields.Ascending

/-- The data of an entity with that of an update laid over it. -/
def Update.laid (u : Update) (e : Entity) : Json :=
  match u.patch.data with
  | some (.object fields) => mergeData e.data fields
  | _ => e.data

theorem Update.laid_of_some {u : Update} {fields : Fields} (e : Entity)
    (h : u.patch.data = some (.object fields)) : u.laid e = mergeData e.data fields := by
  simp only [laid, h]

theorem Update.laid_of_none {u : Update} (e : Entity) (h : u.patch.data = none) :
    u.laid e = e.data := by
  simp only [laid, h]

section reader
variable [FloatReader]

theorem recalled_append (key : String) (data : Json) (updates : List Update) (u : Update) :
    recalled key data (updates ++ [u]) =
      ((u.field? key).or (recalled key data updates)).map Json.reread := by
  rw [recalled, List.foldl_append]
  rfl

/-- A value that reads back is left as it was given. -/
theorem recalled_of_readsBack {key : String} {data : Json} {updates : List Update}
    (h : ∀ j ∈ (latest (Update.field? key) updates).or (data.field? key), j.ReadsBack) :
    recalled key data updates = (latest (Update.field? key) updates).or (data.field? key) := by
  have hkept : ∀ value : Option Json, (∀ j ∈ value, j.ReadsBack) → value.map Json.reread = value := by
    rintro (_ | j) hback
    · rfl
    · exact congrArg some (hback j rfl)
  induction updates using List.reverseRecOn with
  | nil => exact hkept _ h
  | append_singleton updates u ih =>
      rw [latest_append, Option.or_assoc] at h ⊢
      rw [recalled_append]
      cases hfield : u.field? key with
      | some j =>
          rw [hfield, Option.some_or] at h
          rw [Option.some_or, Option.some_or]
          exact hkept _ h
      | none =>
          rw [hfield, Option.none_or] at h
          rw [Option.none_or, Option.none_or, ih h]
          exact hkept _ h

/-- What is recalled is determined. -/
theorem Recalls.unique {origin e e' : Entity} {updates : List Update}
    (h : Recalls origin updates e) (h' : Recalls origin updates e') : e = e' := by
  obtain ⟨id, tenant, blueprint, identifier, title, data, made, updated⟩ := e
  obtain ⟨id', tenant', blueprint', identifier', title', data', made', updated'⟩ := e'
  obtain ⟨rfl, rfl, rfl, rfl, rfl, ⟨fields, rfl, hsorted, hget⟩, rfl, rfl⟩ := h
  obtain ⟨rfl, rfl, rfl, rfl, rfl, ⟨fields', rfl, hsorted', hget'⟩, rfl, rfl⟩ := h'
  rw [Fields.eq_of_get? hsorted hsorted' fun key => (hget key).trans (hget' key).symm]

/-- What is read of a new entity. -/
def Entity.asCreated (e : Entity) : Entity :=
  { e with title := e.title.filter (· ≠ ""), data := e.data.reread }

/-- What is read of an entity after an update. -/
def Update.onto (u : Update) (e : Entity) : Entity :=
  { e with
    title := (u.patch.title.or e.title).filter (· ≠ "")
    data := (u.laid e).reread
    updated := u.call.time }

theorem recalls_asCreated {e : Entity} (hobject : e.data.isObject) (hdata : e.data.Storable) :
    Recalls e [] (Entity.asCreated e) where
  id := rfl
  tenant := rfl
  blueprint := rfl
  identifier := rfl
  title := rfl
  data := by
    obtain ⟨id, tenant, blueprint, identifier, title, data, made, updated⟩ := e
    cases data with
    | object fields =>
        exact ⟨Json.rereadFields fields, rfl,
          Json.ascending_rereadFields (Json.storable_object_iff.mp hdata).1,
          fun key => Json.get?_rereadFields key fields⟩
    | null | bool _ | number _ | string _ | array _ => cases hobject
  created := rfl
  updated := rfl

/-- An update gives its fields and its title, and sets the time. -/
theorem Recalls.onto {origin e : Entity} {updates : List Update} (h : Recalls origin updates e)
    {u : Update} (hu : u.Sorted) : Recalls origin (updates ++ [u]) (u.onto e) where
  id := h.id
  tenant := h.tenant
  blueprint := h.blueprint
  identifier := h.identifier
  title := by
    rw [latest_append, Update.onto, h.title]
    cases u.patch.title with
    | some title => rfl
    | none =>
        rw [Option.none_or, Option.none_or, Option.filter_filter]
        simp
  data := by
    obtain ⟨fields, hfields, hsorted, hget⟩ := h.data
    cases hpatch : u.patch.data with
    | none =>
        refine ⟨Json.rereadFields fields, ?_, Json.ascending_rereadFields hsorted, fun key => ?_⟩
        · rw [Update.onto, Update.laid_of_none e hpatch, hfields, Json.reread]
        · rw [recalled_append, Update.field?, hpatch, Option.bind_none, Option.none_or, ← hget,
            Json.get?_rereadFields]
    | some data =>
        obtain ⟨patch, rfl, hpatchSorted⟩ := hu data hpatch
        refine ⟨Json.rereadFields (Fields.merge fields patch), ?_,
          Json.ascending_rereadFields (Fields.ascending_merge hsorted), fun key => ?_⟩
        · rw [Update.onto, Update.laid_of_some e hpatch, hfields, mergeData, Json.reread]
        · rw [recalled_append, Json.get?_rereadFields, Fields.get?_merge key hpatchSorted, hget,
            Update.field?, hpatch]
          rfl
  created := h.created
  updated := by
    rw [List.getLast?_append, List.getLast?_singleton]
    rfl

end reader

/-! ### One update after another -/

/-- One update that gives what two give. -/
def Update.andThen (u v : Update) : Update where
  call := v.call
  patch :=
    { title := v.patch.title.or u.patch.title
      data := match u.patch.data, v.patch.data with
        | some (.object fields), some (.object more) => some (.object (Fields.merge fields more))
        | data, none => data
        | _, data => data }

theorem mergeData_mergeData {base : Json} {p q : Fields} (hbase : base.Storable)
    (hp : p.Ascending) (hq : q.Ascending) :
    mergeData (mergeData base p) q = mergeData base (Fields.merge p q) := by
  cases base with
  | object fields =>
      simp only [mergeData, Fields.merge_merge (Json.storable_object_iff.mp hbase).1 hp hq]
  | null | bool _ | number _ | string _ | array _ =>
      simp only [mergeData, Fields.merge_merge List.Pairwise.nil hp hq]

/-- An update without data leaves the data of the one before it. -/
theorem Update.andThen_of_none {u v : Update} (h : v.patch.data = none) :
    (u.andThen v).patch.data = u.patch.data := by
  simp only [andThen, h]

/-- The data of two updates, laid over the data of an entity at once. -/
theorem Update.andThen_of_some {u v : Update} {e : Entity} {more : Fields} (he : e.data.Storable)
    (hu : u.Sorted) (hv : v.Sorted) (h : v.patch.data = some (.object more)) :
    ∃ fields, (u.andThen v).patch.data = some (.object fields) ∧
      mergeData e.data fields = mergeData (u.laid e) more := by
  have hmore : more.Ascending := by
    obtain ⟨_, hsame, hsorted⟩ := hv _ h
    cases hsame
    exact hsorted
  cases hpatch : u.patch.data with
  | none => exact ⟨more, by simp only [andThen, hpatch, h], by rw [laid_of_none e hpatch]⟩
  | some data =>
      obtain ⟨fields, rfl, hfields⟩ := hu data hpatch
      refine ⟨Fields.merge fields more, by simp only [andThen, hpatch, h], ?_⟩
      rw [laid_of_some e hpatch, mergeData_mergeData he hfields hmore]

section reader
variable [FloatReader]

/-- What reads back, laid over what reads back. -/
theorem Update.laid_readsBack {u : Update} {e : Entity} (he : e.data.ReadsBack)
    (hu : ∀ data ∈ u.patch.data, data.ReadsBack) : (u.laid e).ReadsBack := by
  unfold laid
  split
  · next fields hpatch =>
      have hfields : Json.rereadFields fields = fields := Json.object.inj (hu _ hpatch)
      rw [Json.ReadsBack, reread_mergeData, he.eq, hfields]
  · exact he

/-- Two updates that are laid over an entity lay one over it, if what the first one leaves reads
back. -/
theorem Update.onto_onto {u v : Update} {e : Entity} (he : e.data.Storable)
    (hback : (u.laid e).ReadsBack) (hu : u.Sorted) (hv : v.Sorted) :
    v.onto (u.onto e) = (u.andThen v).onto e := by
  have htitle : (v.onto (u.onto e)).title = ((u.andThen v).onto e).title := by
    simp only [onto, andThen]
    cases v.patch.title with
    | some _ => rfl
    | none =>
        rw [Option.none_or, Option.none_or, Option.filter_filter]
        simp
  have hdata : v.laid (u.onto e) = (u.andThen v).laid e := by
    cases hpatch : v.patch.data with
    | none =>
        have hsame : (u.andThen v).laid e = u.laid e := by simp only [laid, andThen_of_none hpatch]
        rw [laid_of_none _ hpatch, hsame]
        exact hback.eq
    | some data =>
        obtain ⟨more, rfl, -⟩ := hv data hpatch
        obtain ⟨fields, hfields, hmerged⟩ := andThen_of_some he hu hv hpatch
        rw [laid_of_some _ hpatch, laid_of_some e hfields, hmerged, onto, hback.eq]
  calc v.onto (u.onto e)
      = { e with
          title := (v.onto (u.onto e)).title
          data := (v.laid (u.onto e)).reread
          updated := v.call.time } := rfl
    _ = (u.andThen v).onto e := by
      rw [htitle, hdata]
      rfl

end reader

/-! ### Events -/

section events
variable {tenant id : String}

theorem Event.not_creates {event : Event}
    (h : ∀ id draft, event.step.operation ≠ .change (.createEntity id draft)) (origin : Entity) :
    ¬ event.Creates tenant origin := by
  rintro ⟨-, -, id, draft, hoperation⟩
  exact h id draft hoperation

theorem Event.not_removes {event : Event}
    (hentity : ∀ id, event.step.operation ≠ .change (.deleteEntity id))
    (hblueprint : ∀ id, event.step.operation ≠ .change (.deleteBlueprint id)) (blueprint : String) :
    ¬ event.Removes tenant id blueprint := by
  rintro ⟨-, hoperation | hoperation⟩
  · exact hentity _ hoperation
  · exact hblueprint _ hoperation

theorem Event.update?_eq_none {event : Event}
    (h : ∀ id patch, event.step.operation ≠ .change (.updateEntity id patch)) :
    event.update? tenant id = none := by
  rw [update?]
  split
  · next hoperation => exact absurd hoperation (h _ _)
  · rfl

theorem Event.operation_ne {event : Event} {c c' : Change}
    (h : event.step.operation = .change c) (hne : c ≠ c') : event.step.operation ≠ .change c' :=
  fun heq => hne (Operation.change.inj (h.symm.trans heq))

/-- A creation is no update and removes nothing. -/
theorem Event.Creates.other {origin : Entity} {event : Event} (h : event.Creates tenant origin) :
    event.update? tenant id = none ∧ ∀ blueprint, ¬ event.Removes tenant id blueprint := by
  obtain ⟨-, -, _, _, hoperation⟩ := h
  exact ⟨Event.update?_eq_none fun _ _ => operation_ne hoperation Change.noConfusion,
    Event.not_removes (fun _ => operation_ne hoperation Change.noConfusion)
      fun _ => operation_ne hoperation Change.noConfusion⟩

/-- An update removes nothing. -/
theorem Event.not_removes_of_update {event : Event} {u : Update}
    (h : event.update? tenant id = some u) (blueprint : String) :
    ¬ event.Removes tenant id blueprint := by
  rw [update?] at h
  split at h
  · next hoperation =>
      exact Event.not_removes (fun _ => operation_ne hoperation Change.noConfusion)
        (fun _ => operation_ne hoperation Change.noConfusion) blueprint
  · cases h

theorem Remembered.cons {history : List Event} {origin : Entity} {updates : List Update}
    (event : Event) (h : Remembered tenant id history origin updates) :
    Remembered tenant id (event :: history) origin updates := by
  obtain ⟨before, creation, later, rfl, hrest⟩ := h
  exact ⟨event :: before, creation, later, rfl, hrest⟩

end events

/-! ### Turns -/

/-- The operation can change the entities. -/
def Operation.changesEntities : Operation → Bool
  | .change (.createEntity _ _) | .change (.updateEntity _ _) | .change (.deleteEntity _) => true
  | .change (.deleteBlueprint _) => true
  | _ => false

variable [FloatReader]

/-- What a successful step can do to what is read under an id of a tenant. -/
inductive Turn (tenant id : String) (event : Event) : Option Entity → Option Entity → Prop
  | created {origin : Entity} (horigin : event.Creates tenant origin) (hid : origin.id = id)
      (hrecalls : Recalls origin [] (Entity.asCreated origin)) :
      Turn tenant id event none (some (Entity.asCreated origin))
  | updated {e : Entity} {u : Update} (hu : event.update? tenant id = some u) (hsorted : u.Sorted) :
      Turn tenant id event (some e) (some (u.onto e))
  | removed {e : Entity} (hremoves : event.Removes tenant id e.blueprint) :
      Turn tenant id event (some e) none
  | kept {m : Option Entity} (hcreates : ∀ origin, event.Creates tenant origin → origin.id ≠ id)
      (hu : event.update? tenant id = none)
      (hremoves : ∀ e, m = some e → ¬ event.Removes tenant id e.blueprint) :
      Turn tenant id event m m

/-- One turn after the other. -/
inductive Turns (tenant id : String) : Option Entity → List Event → Option Entity → Prop
  | nil (m : Option Entity) : Turns tenant id m [] m
  | cons {event : Event} {history : List Event} {m m' m'' : Option Entity}
      (hturn : Turn tenant id event m m') (hturns : Turns tenant id m' history m'') :
      Turns tenant id m (event :: history) m''

section turns
variable {tenant id : String}

theorem Turns.of_append {before history : List Event} : ∀ {m m' : Option Entity},
    Turns tenant id m (before ++ history) m' →
    ∃ m₁, Turns tenant id m before m₁ ∧ Turns tenant id m₁ history m' := by
  induction before with
  | nil => exact fun h => ⟨_, .nil _, h⟩
  | cons event before ih =>
      intro m m' h
      obtain _ | ⟨hturn, hturns⟩ := h
      obtain ⟨m₁, hbefore, hafter⟩ := ih hturns
      exact ⟨m₁, .cons hturn hbefore, hafter⟩

/-- A step that can change no entities keeps what is found. -/
theorem Turn.idle {event : Event} {m : Option Entity}
    (h : event.step.operation.changesEntities = false) : Turn tenant id event m m := by
  have hne : ∀ c, Operation.changesEntities (.change c) = true →
      event.step.operation ≠ .change c := by
    intro c hc heq
    rw [heq, hc] at h
    cases h
  exact .kept
    (fun origin hcreates => absurd hcreates (Event.not_creates (fun _ _ => hne _ rfl) origin))
    (Event.update?_eq_none fun _ _ => hne _ rfl)
    fun e _ => Event.not_removes (fun _ => hne _ rfl) (fun _ => hne _ rfl) e.blueprint

/-- As long as it is not removed, an entity is recalled. -/
theorem Turns.recalls {origin : Entity} {history : List Event} :
    ∀ {e : Entity} {m : Option Entity} {updates : List Update},
      Turns tenant id (some e) history m → Recalls origin updates e →
      (∀ event ∈ history, ¬ event.Removes tenant id origin.blueprint) →
      ∃ e', m = some e' ∧ Recalls origin (updates ++ updatesOf tenant id history) e' := by
  -- the updates grow at their end while the history is taken apart at its front
  induction history with
  | nil =>
      intro e m updates hturns hrecalls _
      cases hturns
      exact ⟨e, rfl, by rwa [updatesOf, List.filterMap_nil, List.append_nil]⟩
  | cons event history ih =>
      intro e m updates hturns hrecalls hstays
      obtain ⟨hevent, hrest⟩ := List.forall_mem_cons.mp hstays
      obtain _ | ⟨hturn, hturns⟩ := hturns
      cases hturn with
      | @updated e u hu hsorted =>
          have hupdates : updatesOf tenant id (event :: history) =
              u :: updatesOf tenant id history := List.filterMap_cons_some hu
          rw [hupdates, List.append_cons]
          exact ih hturns (hrecalls.onto hsorted) hrest
      | removed hremoves =>
          rw [hrecalls.blueprint] at hremoves
          exact absurd hremoves hevent
      | kept _ hu _ =>
          have hupdates : updatesOf tenant id (event :: history) = updatesOf tenant id history :=
            List.filterMap_cons_none hu
          rw [hupdates]
          exact ih hturns hrecalls hrest

/-- An entity that is there in the end was there all the time, or it is remembered. -/
theorem Turns.kept_or_remembered {history : List Event} : ∀ {m : Option Entity} {e : Entity},
    Turns tenant id m history (some e) →
    (∃ e₀, m = some e₀ ∧ ∀ event ∈ history, ¬ event.Removes tenant id e₀.blueprint) ∨
      ∃ origin updates, Remembered tenant id history origin updates := by
  induction history with
  | nil =>
      intro m e hturns
      cases hturns
      exact .inl ⟨e, rfl, fun _ hmem => absurd hmem List.not_mem_nil⟩
  | cons event history ih =>
      intro m e hturns
      obtain _ | ⟨hturn, hturns⟩ := hturns
      -- either the rest of the history remembers the entity, or it was there before the rest
      rcases ih hturns with ⟨e₁, hm, hstays⟩ | ⟨origin, updates, hremembered⟩
      · cases hturn with
        | @created origin horigin hid _ =>
            cases hm
            exact .inr ⟨origin, _, [], event, history, rfl, horigin, hid, hstays, rfl⟩
        | @updated e₀ u hu _ =>
            cases hm
            exact .inl ⟨e₀, rfl, List.forall_mem_cons.mpr
              ⟨Event.not_removes_of_update hu e₀.blueprint, hstays⟩⟩
        | removed => cases hm
        | kept _ _ hremoves =>
            exact .inl ⟨e₁, hm, List.forall_mem_cons.mpr ⟨hremoves e₁ hm, hstays⟩⟩
      · exact .inr ⟨origin, updates, hremembered.cons event⟩

/-- Where nothing was there at first, what is there in the end is remembered. -/
theorem Turns.remembered {history : List Event} {e : Entity}
    (h : Turns tenant id none history (some e)) :
    ∃ origin updates, Remembered tenant id history origin updates := by
  rcases h.kept_or_remembered with ⟨_, hnone, -⟩ | hremembered
  · cases hnone
  · exact hremembered

/-- What is remembered is there in the end, as it is recalled. -/
theorem Remembered.recalls {history : List Event} {m m' : Option Entity} {origin : Entity}
    {updates : List Update} (h : Remembered tenant id history origin updates)
    (hturns : Turns tenant id m history m') : ∃ e, m' = some e ∧ Recalls origin updates e := by
  obtain ⟨before, creation, later, rfl, hcreates, hid, hstays, rfl⟩ := h
  obtain ⟨m₁, -, hturns⟩ := hturns.of_append
  obtain _ | ⟨hturn, hlater⟩ := hturns
  -- the creation can be no other turn than the one that creates
  cases hturn with
  | @created origin' horigin' _ hrecalls' =>
      have hsame : origin' = origin := by
        have hanswer := horigin'.2.1.symm.trans hcreates.2.1
        injection hanswer
      rw [hsame] at hrecalls' hlater
      exact hlater.recalls hrecalls' hstays
  | updated hu _ =>
      rw [hcreates.other.1] at hu
      cases hu
  | removed hremoves => exact absurd hremoves (hcreates.other.2 _)
  | kept hother _ _ => exact absurd hid (hother origin hcreates)

end turns

end EntityStore.Store
