import EntityStore.Schema.Validator

/-! # Parts of a schema document in a mode

A part of a schema document stands there as it was written, or without its demands for presence.
`Mode.schema` says so of a whole schema, `Mode.value` of the value of a keyword and `Mode.fields` of
the keywords of a schema object.  Either way only demands for presence are missing from the keywords
of the object, and what a keyword reads from its neighbours stays. -/

namespace EntityStore.Schema

/-! ### Values of keywords -/

/-- The value of a keyword without demands for presence. -/
def stripValue (keyword : String) (j : Json) : Json :=
  match StripRule.of keyword, j with
  | .dependencies, .object members => .object (stripDependencies members)
  | .members, .object members => .object (stripMembers members)
  | .schema, j => stripRequired j
  | _, j => j

theorem keyword_of_dependencies {keyword : String}
    (h : StripRule.of keyword = .dependencies) : keyword = "dependencies" := by
  unfold StripRule.of at h
  split at h
  all_goals first | rfl | cases h

namespace Mode

/-- The value of a keyword as it counts in a mode. -/
def value (m : Mode) (keyword : String) (j : Json) : Json :=
  match m with
  | full => j
  | lenient => stripValue keyword j

/-- The keywords of a schema object that count in a mode, with their values. -/
def fields (m : Mode) (fields : Fields) : Fields :=
  match m with
  | full => fields
  | lenient => stripFields fields

/-- The keyword counts in the mode. -/
def keeps (m : Mode) (keyword : String) : Bool := m = full || StripRule.of keyword ≠ .drop

end Mode

/-! ### Lists as they are gone through -/

theorem stripItems_eq_map (items : List Json) : stripItems items = items.map stripRequired := by
  induction items with
  | nil => rfl
  | cons j rest ih => rw [stripItems, List.map_cons, ih]

theorem stripMembers_eq_map (members : Fields) :
    stripMembers members = members.map fun m => (m.1, stripRequired m.2) := by
  induction members with
  | nil => rfl
  | cons m rest ih => rw [stripMembers, List.map_cons, ih]

theorem stripDependencies_eq_map (members : Fields) : stripDependencies members =
    (members.filter fun m => !m.2.isArray).map fun m => (m.1, stripRequired m.2) := by
  induction members with
  | nil => rfl
  | cons m rest ih =>
      obtain ⟨name, j⟩ := m
      cases j with
      | array items => exact ih
      | _ => exact congrArg (List.cons _) ih

theorem stripFields_cons (keyword : String) (j : Json) (rest : Fields) :
    stripFields ((keyword, j) :: rest) = if StripRule.of keyword = .drop then stripFields rest
      else (keyword, stripValue keyword j) :: stripFields rest := by
  rw [stripFields.eq_def, stripValue.eq_def]
  dsimp only
  generalize StripRule.of keyword = rule
  cases rule <;> cases j <;> rfl

theorem stripFields_eq_map (fields : Fields) : stripFields fields =
    (fields.filter fun f => StripRule.of f.1 ≠ .drop).map fun f => (f.1, stripValue f.1 f.2) := by
  induction fields with
  | nil => rfl
  | cons f rest ih =>
      rw [stripFields_cons, List.filter_cons, ih]
      by_cases hdrop : StripRule.of f.1 = .drop
      · simp only [hdrop, if_true, ne_eq, not_true_eq_false, decide_false, Bool.false_eq_true,
          if_false]
      · simp only [hdrop, if_false, ne_eq, not_false_eq_true, decide_true, if_true,
          List.map_cons]

namespace Mode

variable (m : Mode)

theorem schema_object (fields : Fields) : m.schema (.object fields) = .object (m.fields fields) := by
  cases m <;> rfl

theorem schema_array (items : List Json) :
    m.schema (.array items) = .array (items.map m.schema) := by
  cases m with
  | full => rw [show full.schema = id from rfl, List.map_id, id]
  | lenient => exact congrArg Json.array (stripItems_eq_map items)

theorem fields_eq_map (fields : Fields) : m.fields fields =
    (fields.filter fun f => m.keeps f.1).map fun f => (f.1, m.value f.1 f.2) := by
  cases m with
  | full =>
      rw [show (fun f : String × Json => full.keeps f.1) = fun _ => true from rfl,
        List.filter_eq_self.mpr fun _ _ => rfl]
      exact (List.map_id fields).symm
  | lenient => exact stripFields_eq_map fields

theorem value_keep {keyword : String} (h : StripRule.of keyword = .keep) (j : Json) :
    m.value keyword j = j := by
  cases m with
  | full => rfl
  | lenient => simp only [value, stripValue, h]

theorem value_schema {keyword : String} (h : StripRule.of keyword = .schema) (j : Json) :
    m.value keyword j = m.schema j := by
  cases m with
  | full => rfl
  | lenient => simp only [value, stripValue, h, Mode.schema]

theorem value_members {keyword : String} (h : StripRule.of keyword = .members)
    (members : Fields) : m.value keyword (.object members) =
      .object (members.map fun f => (f.1, m.schema f.2)) := by
  cases m with
  | full => exact congrArg Json.object (List.map_id members).symm
  | lenient => simp only [value, stripValue, h, stripMembers_eq_map, Mode.schema]

/-- The lists of names among dependencies do not count in the lenient mode. -/
theorem value_dependencies (members : Fields) : m.value "dependencies" (.object members) =
    .object ((members.filter fun f => m = full || !f.2.isArray).map
      fun f => (f.1, m.schema f.2)) := by
  cases m with
  | full =>
      have hall : members.filter (fun f => full = full || !f.2.isArray) = members :=
        List.filter_eq_self.mpr fun _ _ => rfl
      rw [hall]
      exact congrArg Json.object (List.map_id members).symm
  | lenient => exact congrArg Json.object (stripDependencies_eq_map members)

/-- A value that is no object of schemas is left alone. -/
theorem value_of_not_object {keyword : String} (h : StripRule.of keyword ≠ .schema) {j : Json}
    (hj : j.isObject = false) : m.value keyword j = j := by
  cases m with
  | full => rfl
  | lenient =>
      rw [value, stripValue.eq_def]
      split
      · cases hj
      · cases hj
      · next hrule => exact (h hrule).elim
      · rfl

end Mode

/-! ### What a keyword reads from its neighbours -/

theorem get?_filter_map {keyword : String} (p : String → Bool) (value : String → Json → Json)
    (hp : p keyword = true) : ∀ fields : Fields, Fields.get? keyword
      ((fields.filter fun f => p f.1).map fun f => (f.1, value f.1 f.2)) =
        (Fields.get? keyword fields).map (value keyword)
  | [] => rfl
  | (k, v) :: rest => by
      have ih := get?_filter_map p value hp rest
      rw [List.filter_cons, Fields.get?]
      by_cases hk : k = keyword
      · rw [if_pos hk, hk, if_pos hp, List.map_cons, Fields.get?, if_pos rfl]
        rfl
      · rw [if_neg hk, ← ih]
        split
        · rw [List.map_cons, Fields.get?, if_neg hk]
        · rfl

namespace Mode

variable (m : Mode)

theorem get?_fields {keyword : String} (h : m.keeps keyword = true) (fields : Fields) :
    Fields.get? keyword (m.fields fields) = (Fields.get? keyword fields).map (m.value keyword) := by
  rw [fields_eq_map]
  exact get?_filter_map m.keeps m.value h fields

theorem keeps_of_ne {keyword : String} (h : StripRule.of keyword ≠ .drop) :
    m.keeps keyword = true := by
  rw [keeps, Bool.or_eq_true, decide_eq_true_eq, decide_eq_true_eq]
  exact .inr h

/-- A keyword without schemas in its value is there as it was written. -/
theorem get?_fields_keep {keyword : String} (h : StripRule.of keyword = .keep) (fields : Fields) :
    Fields.get? keyword (m.fields fields) = Fields.get? keyword fields := by
  rw [get?_fields m (keeps_of_ne m (by rw [h]; decide)),
    show m.value keyword = id from funext fun j => value_keep m h j]
  exact Option.map_id_apply

theorem contains_fields {keyword : String} (h : StripRule.of keyword ≠ .drop) (fields : Fields) :
    Fields.contains keyword (m.fields fields) = Fields.contains keyword fields := by
  rw [Fields.contains, Fields.contains, get?_fields m (keeps_of_ne m h), Option.isSome_map]

end Mode

end EntityStore.Schema
