import EntityStore.Store.Service
import Mathlib.Data.List.Forall2

/-! # What the statement of a patch does

The numbers in a statement are handed out while it is put together.  A number that was handed out
stands for the value it was handed out for, whatever values come after it (`Assignments.Resolves`),
and this holds for any selection of columns.  So the statement of a patch writes the fields of the
patch into their own columns, and the row that it selects is that of the tenant and the id
(`statement_resolves`).

All in all it replaces this one row by the patched row (`run_statement`), and the update of a
blueprint is a check of the schema followed by this replacement (`updateBlueprint_eq`). -/

namespace EntityStore.Store

open Time (Instant)

/-- The row with the fields of the patch. -/
def BlueprintPatch.apply (patch : BlueprintPatch) (time : Instant) (r : BlueprintRow) :
    BlueprintRow :=
  { r with
    title := patch.title.getD r.title
    description := patch.description.getD r.description
    schema := (patch.schema.map Json.source).getD r.schema
    updated := time.stored }

/-- The schema of a patch, if it has one, is a document. -/
def BlueprintPatch.holdsDocument (patch : BlueprintPatch) : Bool :=
  patch.schema.all fun schema => Sql.isDocument schema.source

theorem BlueprintPatch.holdsDocument_iff {patch : BlueprintPatch} :
    BlueprintPatch.holdsDocument patch = true ↔
      ∀ schema ∈ patch.schema, Sql.isDocument schema.source = true := by
  simp only [holdsDocument, Option.all_eq_true, Option.mem_def]

/-! ### Lists in a monad -/

/-- What is done for each of several values succeeds if all of it does. -/
theorem forall₂_mapM {α β ε : Type} {f : α → Except ε β} : ∀ {xs : List α} {ys : List β},
    xs.mapM f = .ok ys ↔ List.Forall₂ (fun x y => f x = .ok y) xs ys
  | [], ys => by
      rw [List.mapM_nil, List.forall₂_nil_left_iff]
      exact ⟨fun h => by cases h; rfl, fun h => by rw [h]; rfl⟩
  | x :: rest, ys => by
      have ih : ∀ {ys}, rest.mapM f = .ok ys ↔ _ := forall₂_mapM
      simp only [List.mapM_cons, List.forall₂_cons_left_iff, ← ih]
      constructor
      · intro h
        cases hx : f x with
        | error e => rw [hx] at h; cases h
        | ok y =>
            cases hrest : rest.mapM f with
            | error e => rw [hx, hrest] at h; cases h
            | ok ys' =>
                rw [hx, hrest] at h
                cases h
                exact ⟨y, ys', rfl, rfl, rfl⟩
      · rintro ⟨y, ys', hx, hrest, rfl⟩
        rw [hx, hrest]
        rfl

theorem mapM_eq_ok {α β ε : Type} {f : α → Except ε β} {g : α → β} (xs : List α)
    (h : ∀ x ∈ xs, f x = .ok (g x)) : xs.mapM f = .ok (xs.map g) :=
  forall₂_mapM.mpr (List.forall₂_map_right_iff.mpr (List.forall₂_same.mpr h))

/-- What is done for each of several values fails if it fails for one of them, where there is only one
way to fail. -/
theorem mapM_eq_error {α β ε : Type} {f : α → Except ε β} {e : ε} : ∀ {xs : List α},
    (∀ x ∈ xs, ∀ e', f x = .error e' → e' = e) → (∃ x ∈ xs, f x = .error e) →
    xs.mapM f = .error e
  | x :: rest, hall, hone => by
      obtain ⟨hx, hrest⟩ := List.forall_mem_cons.mp hall
      rw [List.mapM_cons]
      cases hvalue : f x with
      | error e' => rw [hx e' hvalue]; rfl
      | ok y =>
          obtain ⟨x', hx', hfails⟩ := hone
          rcases List.mem_cons.mp hx' with rfl | hx'
          · rw [hvalue] at hfails
            cases hfails
          · rw [mapM_eq_error hrest ⟨x', hx', hfails⟩]
            rfl

/-! ### Numbers and values -/

/-- The columns with the values that their numbers stand for. -/
def resolve (values : List Cell) (columns : List (BlueprintColumn × Nat)) :
    List (BlueprintColumn × Cell) :=
  columns.map fun (column, number) => (column, cellAt values number)

theorem cellAt_length (values : List Cell) (value : Cell) (more : List Cell) :
    cellAt (values ++ value :: more) (values.length + 1) = value := by
  rw [cellAt, List.getElem?_append_right (Nat.le_refl _), Nat.sub_self]
  rfl

namespace Assignments

/-- The columns are set to these values, also with more values after them. -/
structure Resolves (a : Assignments) (written : List (BlueprintColumn × Cell)) : Prop where
  next : a.next = a.values.length + 1
  columns : ∀ more, resolve (a.values ++ more) a.columns = written

variable {a : Assignments} {written : List (BlueprintColumn × Cell)}

theorem resolves_empty : empty.Resolves [] := ⟨rfl, fun _ => rfl⟩

/-- One more column is set, and the others are set to what they were. -/
theorem Resolves.set (h : a.Resolves written) (column : BlueprintColumn) (value : Cell) :
    (a.set column value).Resolves (written ++ [(column, value)]) where
  next := by
    rw [Assignments.set, List.length_append, h.next]
    rfl
  columns more := by
    have hlast : cellAt (a.values ++ value :: more) a.next = value := by
      rw [h.next, cellAt_length]
    have hfirst := h.columns (value :: more)
    simp only [resolve] at hfirst
    simp only [Assignments.set, resolve, List.append_assoc, List.singleton_append, List.map_append,
      List.map_cons, List.map_nil, hfirst, hlast]

theorem Resolves.setSome (h : a.Resolves written) (column : BlueprintColumn) :
    ∀ value : Option Cell,
      (a.setSome column value).Resolves (written ++ (value.map (column, ·)).toList)
  | none => by
      rw [Option.map_none, Option.toList_none, List.append_nil]
      exact h
  | some value => h.set column value

/-- The next two numbers stand for the values that are bound next. -/
theorem Resolves.tenant (h : a.Resolves written) (tenant id : Cell) :
    cellAt (a.values ++ [tenant, id]) a.next = tenant := by
  rw [h.next, cellAt_length]

theorem Resolves.id (h : a.Resolves written) (tenant id : Cell) :
    cellAt (a.values ++ [tenant, id]) (a.next + 1) = id := by
  have hlast := cellAt_length (a.values ++ [tenant]) id []
  rwa [List.append_assoc, List.length_append, List.singleton_append, List.length_singleton,
    ← h.next] at hlast

end Assignments

/-! ### The statement of a patch -/

section statement
variable (patch : BlueprintPatch) (time : Instant) (tenant id : String)

/-- What a patch writes into which column. -/
def BlueprintPatch.writes : List (BlueprintColumn × Cell) :=
  ((patch.title.map .text).map (.title, ·)).toList ++
    ((patch.description.map .ofOption).map (.description, ·)).toList ++
    ((patch.schema.map fun schema => .document schema.source).map (.schema, ·)).toList ++
    [(.updated, .text time.stored)]

/-- In the statement of a patch every number stands for the value that belongs there. -/
theorem statement_resolves :
    let s := BlueprintPatch.statement patch time tenant id
    resolve s.values s.columns = BlueprintPatch.writes patch time ∧
      cellAt s.values s.tenant = .text tenant ∧ cellAt s.values s.id = .text id := by
  have h := (((Assignments.resolves_empty.setSome .title (patch.title.map .text)).setSome
    .description (patch.description.map .ofOption)).setSome .schema
      (patch.schema.map fun schema => .document schema.source)).set .updated (.text time.stored)
  exact ⟨h.columns _, h.tenant _ _, h.id _ _⟩

/-- The statement writes the patched row, if its schema is a document. -/
theorem write_statement (r : BlueprintRow) :
    (BlueprintPatch.statement patch time tenant id).write r =
      if BlueprintPatch.holdsDocument patch then .ok (BlueprintPatch.apply patch time r)
      else .error (.invalidDocument "schema") := by
  obtain ⟨hcolumns, -, -⟩ := statement_resolves patch time tenant id
  have hwrite : (BlueprintPatch.statement patch time tenant id).write r =
      (BlueprintPatch.writes patch time).foldlM (fun r (column, value) => r.set column value) r := by
    rw [← hcolumns, resolve, List.foldlM_map]
    rfl
  rw [hwrite]
  obtain ⟨title, description, schema⟩ := patch
  rcases schema with _ | schema
  · rcases title with _ | title <;> rcases description with _ | _ | description <;> rfl
  · rw [BlueprintPatch.holdsDocument, Option.all_some]
    cases hdocument : Sql.isDocument schema.source with
    | true =>
        have hset : ∀ r : BlueprintRow, r.set .schema (.document schema.source) =
            .ok { r with schema := schema.source } := fun r => by
          rw [BlueprintRow.set, Cell.toDocument, if_pos hdocument]
          rfl
        rcases title with _ | title <;> rcases description with _ | _ | description <;>
          exact congrArg (· >>= fun r => r.set .updated (.text time.stored) >>= pure) (hset _)
    | false =>
        have hset : ∀ r : BlueprintRow, r.set .schema (.document schema.source) =
            .error (.invalidDocument "schema") := fun r => by
          rw [BlueprintRow.set, Cell.toDocument, hdocument, if_neg Bool.false_ne_true]
          rfl
        rcases title with _ | title <;> rcases description with _ | _ | description <;>
          exact congrArg (· >>= fun r => r.set .updated (.text time.stored) >>= pure) (hset _)

/-- The statement is about the row of the tenant and the id. -/
theorem selects_statement : (BlueprintPatch.statement patch time tenant id).selects =
    fun r => r.isAt tenant id := by
  obtain ⟨-, htenant, hid⟩ := statement_resolves patch time tenant id
  funext r
  rw [BlueprintUpdate.selects, htenant, hid]
  simp only [Cell.text?, Option.some.injEq, BlueprintRow.isAt, eq_comm]

/-- The statement patches the row of the tenant and the id, if it then holds a document. -/
theorem run_statement {t : Tables}
    (h : (t.blueprint? tenant id).isSome = true → BlueprintPatch.holdsDocument patch = true) :
    (BlueprintPatch.statement patch time tenant id).run t =
      .ok (t.blueprints.countP (·.isAt tenant id),
        t.updateBlueprint tenant id (BlueprintPatch.apply patch time)) := by
  have hrows : ∀ r ∈ t.blueprints, (if r.isAt tenant id then
      (BlueprintPatch.statement patch time tenant id).write r else .ok r) =
      .ok (if r.isAt tenant id then BlueprintPatch.apply patch time r else r) := fun r hr => by
    by_cases hat : r.isAt tenant id = true
    · rw [if_pos hat, if_pos hat, write_statement, if_pos (h (List.find?_isSome.mpr ⟨r, hr, hat⟩))]
    · rw [if_neg hat, if_neg hat]
  rw [BlueprintUpdate.run, selects_statement, mapM_eq_ok t.blueprints hrows]
  rfl

/-- Otherwise it changes nothing. -/
theorem run_statement_refused {t : Tables} (hfound : (t.blueprint? tenant id).isSome = true)
    (h : BlueprintPatch.holdsDocument patch = false) :
    (BlueprintPatch.statement patch time tenant id).run t = .error (.invalidDocument "schema") := by
  obtain ⟨r, hr, hat⟩ := List.find?_isSome.mp hfound
  have hrows : t.blueprints.mapM (fun r => if r.isAt tenant id then
      (BlueprintPatch.statement patch time tenant id).write r else .ok r) =
      .error (.invalidDocument "schema") := by
    refine mapM_eq_error (fun r _ e he => ?_) ⟨r, hr, ?_⟩
    · rw [write_statement, h, if_neg Bool.false_ne_true] at he
      split at he <;> cases he
      rfl
    · rw [if_pos hat, write_statement, h, if_neg Bool.false_ne_true]
  rw [BlueprintUpdate.run, selects_statement, hrows]
  rfl

end statement

/-- Where there is no such row nothing is updated. -/
theorem updateBlueprint_of_none {t : Tables} {tenant id : String} (f : BlueprintRow → BlueprintRow)
    (h : t.blueprint? tenant id = none) : t.updateBlueprint tenant id f = t := by
  have hrows : t.blueprints.map (fun r => if r.isAt tenant id then f r else r) = t.blueprints :=
    (List.map_congr_left fun r hr => if_neg (List.find?_eq_none.mp h r hr)).trans (List.map_id _)
  rw [Tables.updateBlueprint, hrows]

/-- An update checks the schema and patches the row, if there is one and it then holds a document. -/
theorem updateBlueprint_eq [FloatReader] (call : Call) (id : String) (patch : BlueprintPatch)
    (t : Tables) :
    updateBlueprint call id patch t =
      if patch.isEmpty then (getBlueprint call.tenant id t, t)
      else
        match patch.schema.elim (.ok ()) Schema.checkSchema with
        | .error fault => refuse (.schema fault) t
        | .ok () =>
          if (t.blueprint? call.tenant id).isNone then refuse (.blueprintNotFound id) t
          else if !BlueprintPatch.holdsDocument patch then
            refuse (.internal (Constraint.invalidDocument "schema").databaseError) t
          else
            let t := t.updateBlueprint call.tenant id (BlueprintPatch.apply patch call.time)
            (getBlueprint call.tenant id t, t) := by
  have hcount : t.blueprints.countP (·.isAt call.tenant id) = 0 ↔
      t.blueprint? call.tenant id = none := by
    rw [List.countP_eq_zero, Tables.blueprint?, List.find?_eq_none]
  rw [updateBlueprint]
  cases patch.schema.elim (.ok ()) Schema.checkSchema with
  | error fault => rfl
  | ok _ =>
      dsimp only
      cases hfound : t.blueprint? call.tenant id with
      | none =>
          rw [run_statement _ _ _ _ (by rw [hfound]; nofun)]
          dsimp only
          rw [if_pos (hcount.mpr hfound), updateBlueprint_of_none _ hfound]
          rfl
      | some r =>
          have hsome : (t.blueprint? call.tenant id).isSome = true := by rw [hfound]; rfl
          cases hdocument : BlueprintPatch.holdsDocument patch with
          | false =>
              rw [run_statement_refused _ _ _ _ hsome hdocument]
              rfl
          | true =>
              rw [run_statement _ _ _ _ fun _ => hdocument]
              dsimp only
              rw [if_neg (mt hcount.mp (by rw [hfound]; nofun))]
              rfl

end EntityStore.Store
