import EntityStore.Proofs.Json.Alike
import EntityStore.Proofs.Json.Canonical
import EntityStore.Proofs.Query.Meaning
import EntityStore.Proofs.Sql.Number

/-! # Predicates on stored values

What a path leads to in the syntax tree of a value is the tree of what it leads to in the value
(`lookup?_source`), and what is found equals a filter value as trees exactly if the two values are
equal in the sense of the operator `eq` (`equals_source`): this is `Json.EqualTo`, which speaks of
values only. -/

namespace EntityStore

namespace Json

/-- The value that a path of object keys leads to.  An array has no keys. -/
def at? : List String → Json → Option Json
  | [], j => some j
  | name :: path, .object fields => (Fields.get? name fields).bind (at? path)
  | _ :: _, _ => none

/-- Equal in the sense of a filter: of the same kind, with a number as it is stored compared with one
as it is bound, and arrays and objects by their texts. -/
def EqualTo : Json → Json → Prop
  | .null, .null => True
  | .bool a, .bool b => a = b
  | .number m, .number n => m.stored = Sql.extend n.bound
  | .string s, .string t => s = t
  | .array items, .array others => (Json.array items).print = (Json.array others).print
  | .object fields, .object others => (Json.object fields).print = (Json.object others).print
  | _, _ => False

/-- A value in a column: sorted fields, numbers of 64 bits, and nested no deeper than the engine
reads. -/
structure InColumn (j : Json) : Prop where
  canonical : j.Canonical
  numbers : j.NumbersFit
  depth : j.depth ≤ Sql.storageLimit

/-! ### Parts of a value -/

/-- A property that an object hands down to the values of its fields is handed down along paths. -/
theorem of_at? {P : Json → Prop}
    (hfield : ∀ fields name j, P (.object fields) → Fields.get? name fields = some j → P j) :
    ∀ {path : List String} {document j : Json}, P document → document.at? path = some j → P j
  | [], _, _, h, hj => by
      cases hj
      exact h
  | name :: path, .object fields, j, h, hj => by
      obtain ⟨k, hk, hj⟩ := Option.bind_eq_some_iff.mp hj
      exact of_at? hfield (hfield fields name k h hk) hj
  | _ :: _, .null, _, _, hj | _ :: _, .bool _, _, _, hj | _ :: _, .number _, _, _, hj
  | _ :: _, .string _, _, _, hj | _ :: _, .array _, _, _, hj => nomatch hj

theorem numbersFit_of_get? {name : String} {j : Json} : ∀ {fields : Fields},
    NumbersFitFields fields → Fields.get? name fields = some j → j.NumbersFit
  | (k, v) :: rest, h, hj => by
      rw [Fields.get?] at hj
      split at hj
      · cases hj
        exact h.1
      · exact numbersFit_of_get? h.2 hj

theorem depth_le_of_get? {name : String} {j : Json} : ∀ {fields : Fields},
    Fields.get? name fields = some j → j.depth ≤ depthFields fields
  | (k, v) :: rest, hj => by
      rw [Fields.get?] at hj
      rw [depthFields]
      split at hj
      · cases hj
        exact Nat.le_max_left _ _
      · exact Nat.le_trans (depth_le_of_get? hj) (Nat.le_max_right _ _)

/-- What a path leads to in a column could itself stand in a column. -/
theorem InColumn.at? {document j : Json} {path : List String} (h : document.InColumn)
    (hj : document.at? path = some j) : j.InColumn := by
  refine of_at? (fun fields name k hobject hk => ?_) h hj
  refine ⟨canonical_of_get? hobject.canonical.2 hk, numbersFit_of_get? hobject.numbers hk, ?_⟩
  have hdepth := hobject.depth
  have hle := depth_le_of_get? hk
  rw [Json.depth] at hdepth
  omega

theorem InColumn.item {items : List Json} (h : (Json.array items).InColumn) {x : Json}
    (hx : x ∈ items) : x.InColumn := by
  have hparts : ∀ {items : List Json}, CanonicalItems items → NumbersFitItems items → x ∈ items →
      x.Canonical ∧ x.NumbersFit ∧ x.depth ≤ depthItems items := by
    intro items
    induction items with
    | nil => exact fun _ _ hx => nomatch hx
    | cons y rest ih =>
        intro hc hn hx
        rw [depthItems]
        rcases List.mem_cons.mp hx with rfl | hx
        · exact ⟨hc.1, hn.1, Nat.le_max_left _ _⟩
        · obtain ⟨hcanonical, hnumbers, hdepth⟩ := ih hc.2 hn.2 hx
          exact ⟨hcanonical, hnumbers, Nat.le_trans hdepth (Nat.le_max_right _ _)⟩
  obtain ⟨hcanonical, hnumbers, hle⟩ := hparts h.canonical h.numbers hx
  have hdepth := h.depth
  rw [Json.depth] at hdepth
  exact ⟨hcanonical, hnumbers, by omega⟩

end Json

theorem Json.sourceItems_eq_map (items : List Json) : sourceItems items = items.map source := by
  induction items with
  | nil => rfl
  | cons j rest ih => rw [sourceItems, ih, List.map_cons]

namespace Sql

theorem bodyText_escape (s : String) : bodyText (Source.escape s) = s.toList := by
  rw [bodyText, Source.escape, Source.unescape?_flatMap, List.reverse_nil, List.nil_append]

theorem field?_sourceFields (name : List Char) : ∀ fields : Fields,
    field? name (Json.sourceFields fields) =
      (Fields.get? (String.ofList name) fields).map Json.source
  | [] => rfl
  | (k, v) :: rest => by
      have hname : k.toList = name ↔ k = String.ofList name :=
        ⟨fun h => by rw [← h, String.ofList_toList], fun h => by rw [h, String.toList_ofList]⟩
      rw [Json.sourceFields, field?, bodyText_escape, Fields.get?, field?_sourceFields name rest]
      simp only [hname]
      split <;> rfl

/-- A path leads to the tree of what it leads to in the value. -/
theorem lookup?_source : ∀ (words : List (List Char)) (j : Json),
    lookup? words j.source = (j.at? (words.map String.ofList)).map Json.source
  | [], _ => rfl
  | name :: words, .object fields => by
      rw [Json.source, lookup?, field?_sourceFields, List.map_cons, Json.at?]
      cases Fields.get? (String.ofList name) fields with
      | none => rfl
      | some j => exact lookup?_source words j
  | _ :: _, .null | _ :: _, .bool _ | _ :: _, .number _ | _ :: _, .string _ | _ :: _, .array _ => rfl

theorem kind_number (n : Number) :
    kind (Json.number n).source = .integer ∨ kind (Json.number n).source = .real := by
  rw [Json.source, kind]
  split
  · exact .inl rfl
  · exact .inr rfl

end Sql

namespace Query

open Sql (Expr Fault Kind Param Scope Value)

/-- The kinds that the tree of a value can have. -/
def kindsOf : Json → List Kind
  | .null => [.null]
  | .bool true => [.true]
  | .bool false => [.false]
  | .number _ => [.integer, .real]
  | .string _ => [.text]
  | .array _ => [.array]
  | .object _ => [.object]

theorem kind_mem_kindsOf (j : Json) : Sql.kind j.source ∈ kindsOf j := by
  cases j with
  | number n => simpa [kindsOf] using Sql.kind_number n
  | bool b => cases b <;> exact List.mem_singleton_self _
  | null | string _ | array _ | object _ => exact List.mem_singleton_self _

/-- Equal trees have a kind in common. -/
theorem kind_of_equals {s : Source} {w : Json} (h : equals s w = true) :
    Sql.kind s ∈ kindsOf w := by
  cases w with
  | null => exact List.mem_singleton.mpr (of_decide_eq_true h)
  | bool b =>
      cases b with
      | true => exact List.mem_singleton.mpr (of_decide_eq_true h)
      | false => exact List.mem_singleton.mpr (of_decide_eq_true h)
  | number n =>
      have hn := (Bool.and_eq_true_iff.mp h).1
      simpa [kindsOf, isNumber] using hn
  | string t => exact List.mem_singleton.mpr (of_decide_eq_true (Bool.and_eq_true_iff.mp h).1)
  | array items => exact List.mem_singleton.mpr (of_decide_eq_true (Bool.and_eq_true_iff.mp h).1)
  | object fields => exact List.mem_singleton.mpr (of_decide_eq_true (Bool.and_eq_true_iff.mp h).1)

theorem not_equals_of_kinds {j w : Json} (h : ∀ k ∈ kindsOf j, k ∉ kindsOf w) :
    ¬ equals j.source w = true :=
  fun heq => h _ (kind_mem_kindsOf j) (kind_of_equals heq)

theorem equals_number (m n : Number) :
    equals (Json.number m).source (.number n) = true ↔ m.stored = Sql.extend n.bound := by
  have hkind : isNumber (Sql.kind (Json.number m).source) = true := isNumber_kind m.numeral
  have hstored : (Sql.scalar (Json.number m).source).number? = some m.stored :=
    Sql.numeralValue_number? m
  rw [equals, Bool.and_eq_true_iff, and_iff_right hkind, decide_eq_true_iff,
    Sql.equal_test_number hstored (Sql.ofNumber_number? n)]

theorem equals_string (s t : String) :
    equals (Json.string s).source (.string t) = true ↔ s = t := by
  have hkind : Sql.kind (Json.string s).source = .text := rfl
  rw [equals, Bool.and_eq_true_iff, decide_eq_true_iff, decide_eq_true_iff, and_iff_right hkind,
    Json.source, Sql.scalar, Sql.bodyText_escape, Sql.Value.text.injEq, String.toList_inj]

theorem equals_array (items others : List Json) :
    equals (Json.array items).source (.array others) = true ↔
      (Json.array items).print = (Json.array others).print := by
  have hkind : Sql.kind (Json.array items).source = .array := rfl
  rw [equals, Bool.and_eq_true_iff, decide_eq_true_iff, decide_eq_true_iff, and_iff_right hkind,
    Json.print, Json.print, String.ofList_inj]

theorem equals_object (fields others : Fields) :
    equals (Json.object fields).source (.object others) = true ↔
      (Json.object fields).print = (Json.object others).print := by
  have hkind : Sql.kind (Json.object fields).source = .object := rfl
  rw [equals, Bool.and_eq_true_iff, decide_eq_true_iff, decide_eq_true_iff, and_iff_right hkind,
    Json.print, Json.print, String.ofList_inj]

/-- Values are equal as trees exactly if they are equal in the sense of a filter. -/
theorem equals_source (j w : Json) :
    equals j.source w = true ↔ j.EqualTo w := by
  have hkinds : (∀ k ∈ kindsOf j, k ∉ kindsOf w) → ¬ j.EqualTo w →
      (equals j.source w = true ↔ j.EqualTo w) :=
    fun hk hne => iff_of_false (not_equals_of_kinds hk) hne
  cases j with
  | null =>
      cases w with
      | null => exact iff_of_true rfl trivial
      | bool b => cases b <;> exact hkinds (by simp [kindsOf]) id
      | number _ | string _ | array _ | object _ => exact hkinds (by simp [kindsOf]) id
  | bool a =>
      cases w with
      | bool b =>
          cases a with
          | true => cases b <;> simp [equals, Json.source, Sql.kind, Json.EqualTo]
          | false => cases b <;> simp [equals, Json.source, Sql.kind, Json.EqualTo]
      | null | number _ | string _ | array _ | object _ =>
          cases a <;> exact hkinds (by simp [kindsOf]) id
  | number m =>
      cases w with
      | number n => exact equals_number m n
      | bool b => cases b <;> exact hkinds (by simp [kindsOf]) id
      | null | string _ | array _ | object _ => exact hkinds (by simp [kindsOf]) id
  | string s =>
      cases w with
      | string t => exact equals_string s t
      | bool b => cases b <;> exact hkinds (by simp [kindsOf]) id
      | null | number _ | array _ | object _ => exact hkinds (by simp [kindsOf]) id
  | array items =>
      cases w with
      | array others => exact equals_array items others
      | bool b => cases b <;> exact hkinds (by simp [kindsOf]) id
      | null | number _ | string _ | object _ => exact hkinds (by simp [kindsOf]) id
  | object fields =>
      cases w with
      | object others => exact equals_object fields others
      | bool b => cases b <;> exact hkinds (by simp [kindsOf]) id
      | null | number _ | string _ | array _ => exact hkinds (by simp [kindsOf]) id

/-! ### Filter values that are nested too deep -/

/-- The evaluation fails, or it gives the value. -/
def GivesIfAny (result : Except Fault Value) (v : Value) : Prop :=
  result = .ok v ∨ ∃ f, result = .error f

section equality
variable {row : Sql.Row} {element : Option Source} {s : Subject Param} {found : Option Source}

/-- A conjunction fails where its right side is looked at and fails. -/
theorem and_eval_error {scope : Scope Param} {x y : Expr Param} {a : Option Bool} {f : Fault}
    (hx : x.eval scope = .ok (.ofTruth a)) (ha : a ≠ some false) (hy : y.eval scope = .error f) :
    (Expr.and x y).eval scope = .error f := by
  simp only [Expr.eval, hx, truth_ofTruth, if_neg ha, hy]

/-- The text of a value is the document of the value, or none for the database. -/
theorem minify_givesIfAny (value : Json) :
    GivesIfAny ((Expr.minify (.param (.text value.print))).eval ⟨Param.value, row, element⟩)
      (.text value.source.text) := by
  rw [GivesIfAny, minify_print_eval]
  split
  · exact .inl rfl
  · exact .inr ⟨_, rfl⟩

theorem equality_text_givesIfAny (h : Finds ⟨Param.value, row, element⟩ s found) (k : Kind)
    (hk : k ≠ .null) {e : Expr Param} {cs : List Char}
    (he : GivesIfAny (e.eval ⟨Param.value, row, element⟩) (.text cs)) :
    GivesIfAny ((Expr.group (.and (isKind s k.name) (.compare .equal s.value e))).eval
        ⟨Param.value, row, element⟩)
      (.ofTruth (found.map fun x => decide (Sql.kind x = k) &&
        decide (Sql.Relation.equal.test (Sql.scalar x) (.text cs) = some true))) := by
  rcases he with he | ⟨f, he⟩
  · exact .inl (equality_text_eval h k hk he)
  · have hcompare : (Expr.compare .equal s.value e).eval ⟨Param.value, row, element⟩ =
        .error f := by
      simp only [Expr.eval, h.value, he]
    have hkind := isKind_eval h k
    rw [GivesIfAny, Expr.eval]
    by_cases hfalse : found.map (fun x => decide (Sql.kind x = k)) = some false
    · obtain ⟨x, rfl, hx⟩ := Option.map_eq_some_iff.mp hfalse
      rw [hfalse] at hkind
      rw [and_eval_false hkind, Option.map_some, hx, Bool.false_and]
      exact .inl rfl
    · exact .inr ⟨f, and_eval_error hkind hfalse hcompare⟩

/-- Arrays and objects are compared by their texts. -/
theorem structure_test_eq {k : Kind} {w : Json} (hk : k = .array ∨ k = .object)
    (hw : ∀ x, equals x w = (decide (Sql.kind x = k) && decide (x.text = w.source.text))) :
    (fun x => decide (Sql.kind x = k) && decide (Sql.Relation.equal.test (Sql.scalar x)
      (.text w.source.text) = some true)) = (equals · w) := by
  funext x
  rw [hw]
  by_cases hx : Sql.kind x = k
  · have hstructure : Sql.kind x = .array ∨ Sql.kind x = .object := hx ▸ hk
    simp [scalar_structure hstructure, equal_test_text]
  · simp [hx]

/-- An equality says whether what is found equals the value, or it fails. -/
theorem equality_givesIfAny (h : Finds ⟨Param.value, row, element⟩ s found) (value : Json) :
    GivesIfAny ((equality s value ()).1.eval ⟨Param.value, row, element⟩)
      (.ofTruth (found.map (equals · value))) := by
  have hshallow : value.depth ≤ Sql.storageLimit →
      GivesIfAny ((equality s value ()).1.eval ⟨Param.value, row, element⟩)
        (.ofTruth (found.map (equals · value))) :=
    fun hd => .inl (equality_eval h value hd)
  cases value with
  | null | bool _ | number _ | string _ => exact hshallow (Nat.zero_le _)
  | array items =>
      have htext := equality_text_givesIfAny h .array (by decide) (minify_givesIfAny (.array items))
      rwa [structure_test_eq (.inl rfl) fun _ => rfl] at htext
  | object fields =>
      have htext := equality_text_givesIfAny h .object (by decide)
        (minify_givesIfAny (.object fields))
      rwa [structure_test_eq (.inr rfl) fun _ => rfl] at htext

end equality

/-- A stored value equals no filter value that is nested too deep. -/
theorem depth_le_of_equalTo {j w : Json} (hj : j.InColumn) (h : j.EqualTo w) :
    w.depth ≤ Sql.storageLimit := by
  have htext : j.print = w.print → w.depth ≤ Sql.storageLimit := by
    intro hprint
    have hread := Json.parse?_print hj.depth
    rw [hprint] at hread
    have hsource := Json.eq_source_of_parse? hread
    rw [← Json.depth_source w, ← hsource, Json.depth_source]
    exact hj.depth
  cases w with
  | null | bool _ | number _ | string _ => exact Nat.zero_le _
  | array others =>
      cases j with
      | array items => exact htext h
      | null | bool _ | number _ | string _ | object _ => exact absurd h id
  | object others =>
      cases j with
      | object fields => exact htext h
      | null | bool _ | number _ | string _ | array _ => exact absurd h id

end Query
end EntityStore
