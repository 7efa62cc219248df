import EntityStore.Proofs.Store.Blueprints

/-! # A step that fails changes nothing

A step that looks never changes the tables, and one that would change them but fails leaves every row
as it was, with one exception: a blueprint is patched before it is read for the answer, so the patch
stays where its row cannot be read (`unchanged_of_error`).  Where callers give what can be stored there
are no such rows. -/

namespace EntityStore.Store

theorem exists_error_of_map {ε ε' α β : Type} {x : Except ε α} {f : ε → ε'} {g : α → β} {e' : ε'}
    (h : (x.mapError f).map g = .error e') : ∃ e, x = .error e ∧ e' = f e := by
  cases x with
  | error e =>
      cases h
      exact ⟨e, rfl, rfl⟩
  | ok a => cases h

section reader
variable [FloatReader] {call : Call} {t : Tables}

/-- The step patches a blueprint whose row cannot be read afterwards. -/
def Step.Spoils (t : Tables) (s : Step) (fault : StoreError) : Prop :=
  ∃ id patch r e, s.operation = .change (.updateBlueprint id patch) ∧
    t.blueprint? s.call.tenant id = some r ∧
    (BlueprintPatch.apply patch s.call.time r).read = .error e ∧ fault = .internal e

theorem Change.unchanged_or_spoils {c : Change} {fault : StoreError}
    (h : c.answer call t = .error fault) :
    c.apply call t = t ∨ Step.Spoils t ⟨call, .change c⟩ fault := by
  have heffect := c.effect call t
  rw [h] at heffect
  obtain hsame | ⟨id, patch, rfl⟩ := heffect.eq_of_error
  · exact .inl hsame
  · obtain hsame | ⟨r, hfound, hupdate⟩ := updateBlueprint_cases call t id patch
    · exact .inl hsame
    · rw [answer, hupdate] at h
      obtain ⟨e, hread, rfl⟩ := exists_error_of_map h
      exact .inr ⟨id, patch, r, e, rfl, hfound, hread, rfl⟩

/-- Where callers give what can be stored, a patched row can be read. -/
theorem Step.not_spoils {s : Step} {fault : StoreError}
    (ht : Reachable (fun call c => c.SchemaStorable call) t)
    (hs : s.Allowed fun call c => c.SchemaStorable call) : ¬ s.Spoils t fault := by
  rintro ⟨id, patch, r, e, hoperation, hfound, hread, rfl⟩
  obtain ⟨hnow, hschema⟩ := hs _ hoperation
  obtain ⟨b, hb⟩ := ((ht.readableBlueprints r (List.mem_of_find?_eq_some hfound)).apply hnow
    hschema).read
  rw [hb] at hread
  cases hread

/-- A step that looks changes nothing, and neither does a step that fails.  The exception is a patch of
a blueprint whose row cannot be read afterwards, which does not occur where callers give schemas and
times that can be stored. -/
theorem unchanged_of_error (t : Tables) (s : Step) :
    ((∀ c, s.operation ≠ .change c) → s.next t = t) ∧
    (∀ fault, s.answer t = .error fault → s.next t = t ∨ s.Spoils t fault) ∧
    (Reachable (fun call c => c.SchemaStorable call) t →
      s.Allowed (fun call c => c.SchemaStorable call) →
      ∀ fault, s.answer t = .error fault → s.next t = t) := by
  have hunchanged : ∀ fault, s.answer t = .error fault → s.next t = t ∨ s.Spoils t fault := by
    intro fault h
    obtain ⟨call, operation⟩ := s
    cases operation with
    | change c => exact Change.unchanged_or_spoils h
    | getBlueprint _ | listBlueprints | getEntity _ | getEntityNamed _ _ | search _ _ =>
        exact .inl rfl
  refine ⟨fun hlooks => ?_, hunchanged, fun ht hs fault h =>
    (hunchanged fault h).resolve_right (Step.not_spoils ht hs)⟩
  obtain ⟨call, operation⟩ := s
  cases operation with
  | change c => exact absurd rfl (hlooks c)
  | getBlueprint _ | listBlueprints | getEntity _ | getEntityNamed _ _ | search _ _ => rfl

end reader

/-! ### A patch that is refused late -/

/-- A service has a tier, which is a number. -/
def tierRun : List Step := [
  ⟨⟨"acme", ⟨0, 0⟩⟩, .change (.createBlueprint ⟨"service", "Service", none, .object [("properties",
    .object [("tier", .object [("type", .string "integer")])])]⟩)⟩,
  ⟨⟨"acme", ⟨1, 0⟩⟩, .change (.createEntity "ent-1" ⟨"service", "api", none,
    .object [("tier", .number (.integer 1))]⟩)⟩]

/-- The patch is laid over the data before the result is refused. -/
def tierStep : Step :=
  ⟨⟨"acme", ⟨2, 0⟩⟩,
    .change (.updateEntity "ent-1" ⟨some "API", some (.object [("tier", .string "gold")])⟩)⟩

theorem unchanged_of_error_tier :
    ∃ fault, tierStep.answer (after .empty tierRun) = .error fault ∧
      tierStep.next (after .empty tierRun) = after .empty tierRun ∧
      (Step.next (after .empty tierRun) ⟨⟨"acme", ⟨3, 0⟩⟩, .listBlueprints⟩) =
        after .empty tierRun := by
  have hallowed : ∀ s ∈ tierRun, s.Allowed fun call c => c.SchemaStorable call := by decide +kernel
  have hstep : tierStep.Allowed fun call c => c.SchemaStorable call := by decide +kernel
  have hfails : (tierStep.answer (after .empty tierRun)).toOption.isSome = false := by
    decide +kernel
  obtain ⟨fault, hfault⟩ := exists_error_of_toOption hfails
  exact ⟨fault, hfault, (unchanged_of_error _ _).2.2 (Reachable.empty.after hallowed) hstep fault
    hfault, (unchanged_of_error _ _).1 nofun⟩

/-! ### A patch that stays -/

/-- A schema that can be stored but not read: 128 arrays and objects stand inside one another. -/
def deepSchema : Json := .object [("const", (fun j => Json.array [j])^[127] .null)]

def deepRun : List Step := [
  ⟨⟨"acme", ⟨0, 0⟩⟩, .change (.createBlueprint ⟨"service", "Service", none, deepSchema⟩)⟩]

def renameStep : Step :=
  ⟨⟨"acme", ⟨1, 0⟩⟩, .change (.updateBlueprint "service" ⟨some "Renamed", none, none⟩)⟩

/-- The patch is answered with an error, and the blueprint has its new title. -/
theorem renamed_despite_error :
    Reachable (fun _ _ => True) (after .empty deepRun) ∧
      (updateBlueprint ⟨"acme", ⟨1, 0⟩⟩ "service" ⟨some "Renamed", none, none⟩
        (after .empty deepRun)).1 = .error (.internal (.query "Invalid JSON in column")) ∧
      (after .empty deepRun).blueprints.map (·.title) = ["Service"] ∧
      (renameStep.next (after .empty deepRun)).blueprints.map (·.title) = ["Renamed"] := by
  refine ⟨Reachable.empty.after fun _ _ _ _ => trivial, by decide +kernel, by decide +kernel,
    by decide +kernel⟩

end EntityStore.Store
