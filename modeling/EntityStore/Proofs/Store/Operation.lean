import EntityStore.Proofs.Store.Run

/-! # Runs of the service

A `Step` is an operation of the service, one that changes the tables or one that only looks, with
what its caller gives it.  `after` gives the tables after a run of steps, and `events` the steps of
the run that succeeded, each with its answer.  A step does a change or nothing, so the tables after a
run are reachable (`Reachable.after`). -/

namespace EntityStore.Store

/-- An operation of the service.  A new entity is given the id that is generated for it. -/
inductive Operation
  | change (c : Change)
  | getBlueprint (id : String)
  | listBlueprints
  | getEntity (id : String)
  | getEntityNamed (blueprint identifier : String)
  | search (limits : Query.Limits) (request : Query.Search)

/-- What the service answers. -/
inductive Answer
  | blueprint (b : Blueprint)
  | blueprints (bs : List Blueprint)
  | entity (e : Entity)
  | page (p : EntityPage)
  | done

/-- An operation with its caller. -/
structure Step where
  call : Call
  operation : Operation

theorem exists_error_of_toOption {ε α : Type} {x : Except ε α} (h : x.toOption.isSome = false) :
    ∃ e, x = .error e := by
  cases x with
  | error e => exact ⟨e, rfl⟩
  | ok a => cases h

theorem exists_answer {α : Type} (result : Except StoreError α × Tables)
    (h : result.1.isOk = true) : ∃ answer t', result = (.ok answer, t') := by
  obtain ⟨answer, t'⟩ := result
  cases answer with
  | error fault => cases h
  | ok answer => exact ⟨answer, t', rfl⟩

variable [FloatReader]

/-- The answer to a change. -/
def Change.answer (call : Call) (t : Tables) : Change → Except StoreError Answer
  | .createBlueprint draft => (Store.createBlueprint call draft t).1.map .blueprint
  | .updateBlueprint id patch => (Store.updateBlueprint call id patch t).1.map .blueprint
  | .deleteBlueprint id => (Store.deleteBlueprint call id t).1.map fun _ => .done
  | .createEntity id draft => (Store.createEntity call id draft t).1.map .entity
  | .updateEntity id patch => (Store.updateEntity call id patch t).1.map .entity
  | .deleteEntity id => (Store.deleteEntity call id t).1.map fun _ => .done

namespace Step

/-- The answer to a step. -/
def answer (t : Tables) (s : Step) : Except StoreError Answer :=
  match s.operation with
  | .change c => c.answer s.call t
  | .getBlueprint id => (Store.getBlueprint s.call.tenant id t).map .blueprint
  | .listBlueprints => (Store.listBlueprints s.call.tenant t).map .blueprints
  | .getEntity id => (Store.getEntity s.call.tenant id t).map .entity
  | .getEntityNamed blueprint identifier =>
    (Store.getEntityNamed s.call.tenant blueprint identifier t).map .entity
  | .search limits request => (Store.search limits s.call.tenant request t).map .page

/-- The tables after a step. -/
def next (t : Tables) (s : Step) : Tables :=
  match s.operation with
  | .change c => c.apply s.call t
  | _ => t

end Step

/-- The tables after a run. -/
def after (t : Tables) (steps : List Step) : Tables := steps.foldl Step.next t

/-- A step that succeeded. -/
structure Event where
  step : Step
  answer : Answer

/-- The steps of a run that succeed, in order. -/
def events : Tables → List Step → List Event
  | _, [] => []
  | t, s :: rest =>
    match s.answer t with
    | .ok a => ⟨s, a⟩ :: events (s.next t) rest
    | .error _ => events (s.next t) rest

/-! ### Reachable tables -/

/-- What is asked of the changes is asked of the changes in a step. -/
def Step.Allowed (allowed : Call → Change → Prop) (s : Step) : Prop :=
  ∀ c, s.operation = .change c → allowed s.call c

instance {allowed : Call → Change → Prop} [∀ call c, Decidable (allowed call c)] (s : Step) :
    Decidable (s.Allowed allowed) :=
  match s with
  | ⟨call, .change c⟩ =>
    decidable_of_iff (allowed call c) ⟨fun h _ hc => by cases hc; exact h, fun h => h c rfl⟩
  | ⟨_, .getBlueprint _⟩ | ⟨_, .listBlueprints⟩ | ⟨_, .getEntity _⟩ | ⟨_, .getEntityNamed _ _⟩
  | ⟨_, .search _ _⟩ => .isTrue nofun

theorem Reachable.next {allowed : Call → Change → Prop} {t : Tables} (h : Reachable allowed t)
    {s : Step} (hs : s.Allowed allowed) : Reachable allowed (s.next t) := by
  obtain ⟨call, operation⟩ := s
  cases operation with
  | change c => exact h.change call c (hs c rfl)
  | getBlueprint _ | listBlueprints | getEntity _ | getEntityNamed _ _ | search _ _ => exact h

theorem Reachable.after {allowed : Call → Change → Prop} {t : Tables} (h : Reachable allowed t) :
    ∀ {steps : List Step}, (∀ s ∈ steps, s.Allowed allowed) → Reachable allowed (after t steps)
  | [], _ => h
  | s :: _, hsteps =>
      Reachable.after (h.next (hsteps s List.mem_cons_self)) fun r hr =>
        hsteps r (List.mem_cons_of_mem _ hr)

end EntityStore.Store
