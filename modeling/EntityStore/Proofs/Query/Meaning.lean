import EntityStore.Proofs.Query.Placeholders
import EntityStore.Proofs.Sql.Document

/-! # What predicates ask for

`Predicate.holds` says directly which documents meet a predicate, in terms of what its path leads
to.  The condition of a predicate, with its values in place, is true of a row exactly when the
document of the row meets the predicate, and its evaluation never fails (`Predicate.inPlace_eval`):
the path can be read (`readPath?_jsonPath`), a text is taken for a document only after it has been
found to be one, and the values that are compared as documents are documents.  Two limits of the
engine stand against this (`Predicate.Fits`): a value must not be nested too deep, and a pattern
must not be too long.  The key of an ordering is evaluated without fail too
(`Target.inPlace_eval`). -/

namespace EntityStore.Query

open Sql (Expr Branches Fault Kind Param Relation Scope Value)

/-! ### Paths -/

theorem span_label {w : List Char} (h : isWord w = true) (rest : List Char) :
    (w ++ '"' :: rest).span (· ≠ '"') = (w, '"' :: rest) := by
  have hchars : ∀ c ∈ w, decide (c ≠ '"') = true := by
    intro c hc
    rw [isWord, Bool.and_eq_true, List.all_eq_true] at h
    have hword := h.2 c hc
    rw [decide_eq_true_eq]
    rintro rfl
    exact absurd hword (by decide)
  rw [List.span_eq_takeWhile_dropWhile, List.takeWhile_append_of_pos hchars,
    List.dropWhile_append_of_pos hchars]
  simp

theorem readLabels?_words : ∀ (ws : List (List Char)) (fuel : Nat),
    (∀ w ∈ ws, isWord w = true) → ws.length ≤ fuel →
    Sql.readLabels? fuel (ws.flatMap fun w => '.' :: '"' :: w ++ ['"']) = some ws
  | [], fuel, _, _ => by cases fuel <;> rfl
  | w :: ws, fuel + 1, h, hfuel => by
      have hrest := readLabels?_words ws fuel (fun v hv => h v (List.mem_cons_of_mem _ hv))
        (by simpa using hfuel)
      have hspan := span_label (h w List.mem_cons_self)
        (ws.flatMap fun w => '.' :: '"' :: w ++ ['"'])
      simp only [List.flatMap_cons, List.cons_append, List.append_assoc, List.nil_append,
        Sql.readLabels?] at hspan hrest ⊢
      rw [hspan]
      simp only [hrest, Option.map_some]

/-- The database reads a path as the words of the path. -/
theorem readPath?_jsonPath (p : Path) : Sql.readPath? p.jsonPath.toList = some p.words := by
  have hlen : ∀ ws : List (List Char),
      ws.length ≤ (ws.flatMap fun w => '.' :: '"' :: w ++ ['"']).length := by
    intro ws
    induction ws with
    | nil => exact Nat.zero_le _
    | cons w ws ih =>
        rw [List.flatMap_cons, List.length_append, List.length_cons]
        simp only [List.cons_append, List.length_cons] at ih ⊢
        omega
  rw [Path.jsonPath, String.toList_ofList, Sql.readPath?]
  exact readLabels?_words p.words _ p.isWord_of_mem (hlen p.words)

/-! ### The meaning of predicates -/

/-- The value is a number. -/
def isNumber (k : Kind) : Bool := k = .integer || k = .real

/-- What is found equals a value: the kinds agree, and so do numbers by value, strings, and arrays
and objects as texts. -/
def equals (s : Source) : Json → Bool
  | .null => Sql.kind s = .null
  | .bool b => Sql.kind s = if b then .true else .false
  | .number n =>
    isNumber (Sql.kind s) && Relation.equal.test (Sql.scalar s) (Param.ofNumber n).value = some true
  | .string t => Sql.kind s = .text && Sql.scalar s = .text t.toList
  | .array items => Sql.kind s = .array && s.text = (Json.array items).source.text
  | .object fields => Sql.kind s = .object && s.text = (Json.object fields).source.text

/-- What is found is a number, or a text that spells one, in a relation to a number. -/
def compares (s : Source) (relation : Comparison) (n : Number) : Bool :=
  let stands (x : Value) : Bool :=
    (Relation.order relation).test x (Param.ofNumber n).value = some true
  match s with
  | .number _ => stands (Sql.scalar s)
  | .string body =>
    match Sql.readDocument? (Sql.bodyText body) with
    | some spelled =>
      isNumber (Sql.kind spelled) && stands (.real (Sql.leadingReal (Sql.bodyText body)))
    | none => false
  | _ => false

/-- The text that is searched in what is found. -/
def searchedText (s : Source) : Value :=
  match s with
  | .bool true => .text "true".toList
  | .bool false => .text "false".toList
  | s => (Sql.scalar s).toText

/-- The pattern of a needle, in lower case. -/
def needlePattern (needle : Json) : List Char :=
  Text.lower (Sql.Like.containing (needleText needle))

/-- A text, in lower case, has the pattern; what is no text has none. -/
def hasPattern (pattern : List Char) : Value → Bool
  | .text cs => Sql.Like.holds pattern (Text.lower cs)
  | _ => false

/-- An array has an element that equals the needle; the text of another value contains it. -/
def containsNeedle (s : Source) (needle : Json) : Bool :=
  match s with
  | .array items => items.any (equals · needle)
  | s => hasPattern (needlePattern needle) (searchedText s)

/-- The document meets the predicate. -/
def Predicate.holds (p : Predicate) (document : Source) : Bool :=
  let found := Sql.lookup? p.path.words document
  match p with
  | .equals _ value => found.any (Query.equals · value)
  | .notEquals _ value => found.any fun s => !Query.equals s value
  | .compares _ relation n => found.any (Query.compares · relation n)
  | .contains _ needle => found.any (containsNeedle · needle)
  | .presence _ present => found.isSome == present
  | .among _ values => found.any fun s => values.any (Query.equals s)

/-- The key of a row: the text of a column, or of what a path leads to; none where it is missing. -/
def Target.keyOf (t : Target) (row : Sql.Row) : Option (List Char) :=
  match t with
  | .column c => (row.column c).map String.toList
  | .path p =>
    match (Sql.scalarValue (Sql.lookup? p.words row.document)).toText with
    | .text cs => some cs
    | _ => none

/-- The values of a predicate are inside the limits of the engine. -/
def Predicate.Fits : Predicate → Prop
  | .equals _ value | .notEquals _ value => value.depth ≤ Sql.storageLimit
  | .contains _ needle => needle.depth ≤ Sql.storageLimit ∧
    (String.ofList (needlePattern needle)).utf8ByteSize ≤ Sql.Like.maxLength
  | .among _ values => ∀ value ∈ values, value.depth ≤ Sql.storageLimit
  | .compares _ _ _ | .presence _ _ => True

/-! ### Evaluation -/

theorem truth_ofTruth (t : Option Bool) : (Value.ofTruth t).truth = t := by
  cases t with
  | none => rfl
  | some b => cases b <;> rfl

/-- What a subject is evaluated to, for what its path leads to. -/
structure Finds (scope : Scope Param) (s : Subject Param) (found : Option Source) : Prop where
  kind : s.kind.eval scope = .ok (Sql.kindValue found)
  value : s.value.eval scope = .ok (Sql.scalarValue found)

theorem find?_jsonPath (p : Path) (document : Source) :
    Sql.find? document (.text p.jsonPath.toList) = .ok (Sql.lookup? p.words document) := by
  rw [Sql.find?, readPath?_jsonPath]

theorem finds_at (p : Path) (row : Sql.Row) (element : Option Source) :
    Finds ⟨Param.value, row, element⟩ (.at (.param (.text p.jsonPath)))
      (Sql.lookup? p.words row.document) where
  kind := by
    simp only [Subject.at, Expr.eval, Param.value, find?_jsonPath]
    rfl
  value := by
    simp only [Subject.at, Expr.eval, Param.value, find?_jsonPath]
    rfl

theorem finds_element (row : Sql.Row) (s : Source) :
    Finds ⟨Param.value, row, some s⟩ .element (some s) where
  kind := by simp only [Subject.element, Expr.eval]
  value := by simp only [Subject.element, Expr.eval]

theorem Kind.name_injective {k l : Kind} (h : k.name.toList = l.name.toList) : k = l := by
  revert h
  cases k <;> cases l <;> decide

theorem isNumber_kind (n : Numeral) : isNumber (Sql.kind (.number n)) = true := by
  rw [Sql.kind]
  split <;> rfl

/-- What has the kind of a number, a text, an array or an object has its constructor. -/
theorem exists_number {x : Source} (h : isNumber (Sql.kind x) = true) : ∃ n, x = .number n := by
  cases x with
  | number n => exact ⟨n, rfl⟩
  | bool b => cases b <;> exact absurd h Bool.false_ne_true
  | null | string _ | array _ | object _ => exact absurd h Bool.false_ne_true

theorem exists_string {x : Source} (h : Sql.kind x = .text) : ∃ body, x = .string body := by
  cases x with
  | string body => exact ⟨body, rfl⟩
  | number n => exact absurd (isNumber_kind n) (by rw [h]; decide)
  | bool b => cases b <;> cases h
  | null | array _ | object _ => cases h

theorem exists_array {x : Source} (h : Sql.kind x = .array) : ∃ items, x = .array items := by
  cases x with
  | array items => exact ⟨items, rfl⟩
  | number n => exact absurd (isNumber_kind n) (by rw [h]; decide)
  | bool b => cases b <;> cases h
  | null | string _ | object _ => cases h

/-- Equality of texts. -/
theorem equal_test_text (a b : List Char) :
    Relation.equal.test (.text a) (.text b) = some (decide (a = b)) := by
  by_cases h : a = b
  · simp [Relation.test, Value.compare?, h]
  · by_cases hlt : a < b
    · simp [Relation.test, Value.compare?, h, hlt]
    · simp [Relation.test, Value.compare?, h, hlt]

/-- The kind of what is found is told from its name. -/
theorem kindValue_test (x : Source) (k : Kind) :
    Relation.equal.test (Sql.kindValue (some x)) (.text k.name.toList) =
      some (decide (Sql.kind x = k)) := by
  have hname : ((Sql.kind x).name.toList = k.name.toList) = (Sql.kind x = k) :=
    propext ⟨Kind.name_injective, fun h => by rw [h]⟩
  simp only [Sql.kindValue, equal_test_text, hname]

section eval
variable {scope : Scope Param}

/-- The right side of a conjunction does not matter where the left one is false. -/
theorem and_eval {x y : Expr Param} {a b : Option Bool} (hx : x.eval scope = .ok (.ofTruth a))
    (hy : a ≠ some false → y.eval scope = .ok (.ofTruth b)) :
    (Expr.and x y).eval scope = .ok (.ofTruth (Sql.Truth.and a b)) := by
  simp only [Expr.eval, hx, truth_ofTruth]
  by_cases ha : a = some false
  · rw [if_pos ha, ha, Sql.Truth.and]
  · rw [if_neg ha, hy ha]
    simp only [truth_ofTruth]

theorem and_eval_false {x y : Expr Param} (hx : x.eval scope = .ok (.ofTruth (some false))) :
    (Expr.and x y).eval scope = .ok (.ofTruth (some false)) := by
  simp only [Expr.eval, hx, truth_ofTruth, if_true]

variable {s : Subject Param} {found : Option Source}

theorem isKind_eval (h : Finds scope s found) (k : Kind) : (isKind s k.name).eval scope =
    .ok (.ofTruth (found.map fun x => decide (Sql.kind x = k))) := by
  simp only [isKind, Expr.eval, h.kind]
  cases found with
  | none => rfl
  | some x => rw [kindValue_test, Option.map_some]

theorem isNumeric_eval (h : Finds scope s found) : (isNumeric s.kind).eval scope =
    .ok (.ofTruth (found.map fun x => isNumber (Sql.kind x))) := by
  simp only [isNumeric, Expr.eval, h.kind]
  cases found with
  | none => rfl
  | some x =>
      simp only [Sql.kindValue, Value.among, Option.map_some]
      cases Sql.kind x <;> rfl

theorem compare_eval (h : Finds scope s found) {e : Expr Param} {v : Value}
    (he : e.eval scope = .ok v) (r : Relation) : (Expr.compare r s.value e).eval scope =
      .ok (.ofTruth (r.test (Sql.scalarValue found) v)) := by
  simp only [Expr.eval, h.value, he]

end eval

/-! ### Comparing what is found -/

theorem compare?_isSome {x y : Value} (hx : x ≠ .null) (hy : y ≠ .null) :
    ∃ o, x.compare? y = some o := by
  cases x <;> cases y <;> first | contradiction | exact ⟨_, rfl⟩

theorem test_isSome (r : Relation) {x y : Value} (hx : x ≠ .null) (hy : y ≠ .null) :
    ∃ b, r.test x y = some b := by
  obtain ⟨o, ho⟩ := compare?_isSome hx hy
  exact ⟨_, by rw [Relation.test, ho, Option.map_some]⟩

theorem scalar_ne_null {x : Source} (h : Sql.kind x ≠ .null) : Sql.scalar x ≠ .null := by
  cases x with
  | null => exact absurd rfl h
  | bool b => cases b <;> simp [Sql.scalar, Value.ofTruth]
  | number n =>
      simp only [Sql.scalar, Sql.numeralValue]
      generalize (if n.negative = true then -(n.digits : Int) else n.digits) = i
      split <;> simp
  | string body => simp [Sql.scalar]
  | array items => simp [Sql.scalar]
  | object fields => simp [Sql.scalar]

theorem scalar_structure {x : Source} (h : Sql.kind x = .array ∨ Sql.kind x = .object) :
    Sql.scalar x = .text x.text := by
  cases x with
  | array items => rfl
  | object fields => rfl
  | bool b => cases b <;> rcases h with h | h <;> cases h
  | number n =>
      have hn := isNumber_kind n
      rcases h with h | h <;> exact absurd hn (by rw [h]; decide)
  | null | string _ => rcases h with h | h <;> cases h

theorem ofNumber_ne_null (n : Number) : (Param.ofNumber n).value ≠ .null := by
  cases n with
  | integer i =>
      simp only [Param.ofNumber]
      split <;> simp [Param.value]
  | float x => simp [Param.ofNumber, Param.value]

/-- A comparison behind a test of the kind is known where something is found. -/
theorem and_test (r : Relation) {v : Value} (hv : v ≠ .null) {k : Source → Bool}
    (hk : ∀ x, k x = true → Sql.kind x ≠ .null) (found : Option Source) :
    Sql.Truth.and (found.map k) (r.test (Sql.scalarValue found) v) =
      found.map fun x => k x && decide (r.test (Sql.scalar x) v = some true) := by
  cases found with
  | none => rfl
  | some x =>
      simp only [Option.map_some, Sql.scalarValue]
      cases hkx : k x with
      | false => rfl
      | true =>
          obtain ⟨b, hb⟩ := test_isSome r (scalar_ne_null (hk x hkx)) hv
          rw [hb]
          cases b <;> rfl

/-! ### Equality -/

section equality
variable {row : Sql.Row} {element : Option Source} {s : Subject Param} {found : Option Source}

/-- The text of a value, if it is a document for the database. -/
theorem minify_print_eval (value : Json) :
    (Expr.minify (.param (.text value.print))).eval ⟨Param.value, row, element⟩ =
      if Sql.isDocument value.source then .ok (.text value.source.text)
      else .error .malformedDocument := by
  simp only [Expr.eval, Param.value, Value.document?, Sql.readDocument?_print]
  cases Sql.isDocument value.source <;> rfl

theorem minify_eval {value : Json} (h : value.depth ≤ Sql.storageLimit) :
    (Expr.minify (.param (.text value.print))).eval ⟨Param.value, row, element⟩ =
      .ok (.text value.source.text) := by
  rw [minify_print_eval, if_pos (Sql.isDocument_source.mpr h)]

theorem equality_text_eval (h : Finds ⟨Param.value, row, element⟩ s found) (k : Kind)
    (hk : k ≠ .null) {e : Expr Param} {cs : List Char}
    (he : e.eval ⟨Param.value, row, element⟩ = .ok (.text cs)) :
    (Expr.group (.and (isKind s k.name) (.compare .equal s.value e))).eval
        ⟨Param.value, row, element⟩ =
      .ok (.ofTruth (found.map fun x => decide (Sql.kind x = k) &&
        decide (Relation.equal.test (Sql.scalar x) (.text cs) = some true))) := by
  have hkind : ∀ x, decide (Sql.kind x = k) = true → Sql.kind x ≠ .null := by
    intro x hx
    rw [of_decide_eq_true hx]
    exact hk
  rw [Expr.eval, and_eval (isKind_eval h k) fun _ => compare_eval h he .equal,
    and_test .equal (by simp) hkind]

/-- An equality says whether what is found equals the value. -/
theorem equality_eval (h : Finds ⟨Param.value, row, element⟩ s found) (value : Json)
    (hd : value.depth ≤ Sql.storageLimit) :
    (equality s value ()).1.eval ⟨Param.value, row, element⟩ =
      .ok (.ofTruth (found.map (equals · value))) := by
  cases value with
  | null => exact isKind_eval h .null
  | bool b =>
      cases b with
      | false => exact isKind_eval h .false
      | true => exact isKind_eval h .true
  | number n =>
      have hkind : ∀ x, isNumber (Sql.kind x) = true → Sql.kind x ≠ .null := by
        intro x hx hnull
        rw [hnull] at hx
        exact absurd hx (by decide)
      simp only [equality, Supply.bind_unit]
      rw [Expr.eval, and_eval (isNumeric_eval h) fun _ => compare_eval h rfl .equal,
        and_test .equal (ofNumber_ne_null n) hkind]
      rfl
  | string t =>
      refine (equality_text_eval h .text (by decide) rfl).trans ?_
      congr 3
      funext x
      by_cases hk : Sql.kind x = .text
      · obtain ⟨body, rfl⟩ := exists_string hk
        simp [equals, hk, Sql.scalar, equal_test_text]
      · simp [equals, hk]
  | array items =>
      refine (equality_text_eval h .array (by decide) (minify_eval hd)).trans ?_
      congr 3
      funext x
      by_cases hk : Sql.kind x = .array
      · simp [equals, hk, scalar_structure (.inl hk), equal_test_text]
      · simp [equals, hk]
  | object fields =>
      refine (equality_text_eval h .object (by decide) (minify_eval hd)).trans ?_
      congr 3
      funext x
      by_cases hk : Sql.kind x = .object
      · simp [equals, hk, scalar_structure (.inr hk), equal_test_text]
      · simp [equals, hk]

theorem or_eval {scope : Scope Param} {x y : Expr Param} {f g : Source → Bool}
    (hx : x.eval scope = .ok (.ofTruth (found.map f)))
    (hy : y.eval scope = .ok (.ofTruth (found.map g))) :
    (Expr.or x y).eval scope = .ok (.ofTruth (found.map fun z => f z || g z)) := by
  simp only [Expr.eval, hx, hy, truth_ofTruth]
  cases found with
  | none => rfl
  | some z => cases hf : f z <;> cases hg : g z <;> simp [hf, hg, Sql.Truth.or]

/-- A chain of equalities says whether what is found equals one of the values. -/
theorem equalityAny_eval (h : Finds ⟨Param.value, row, element⟩ s found) :
    ∀ (values : List Json) (e : Expr Param) (f : Source → Bool),
      e.eval ⟨Param.value, row, element⟩ = .ok (.ofTruth (found.map f)) →
      (∀ value ∈ values, value.depth ≤ Sql.storageLimit) →
      (equalityAny s e values ()).1.eval ⟨Param.value, row, element⟩ =
        .ok (.ofTruth (found.map fun x => f x || values.any (equals x)))
  | [], e, f, he, _ => by simpa [equalityAny] using he
  | value :: rest, e, f, he, hd => by
      have hvalue := equality_eval h value (hd value List.mem_cons_self)
      have hrest := equalityAny_eval h rest _ _ (or_eval he hvalue)
        fun v hv => hd v (List.mem_cons_of_mem _ hv)
      simp only [equalityAny]
      rw [hrest]
      simp only [List.any_cons, Bool.or_assoc]

end equality

/-! ### Comparison -/

/-- The result of an evaluation is a value, and it is true or not. -/
def Decides (result : Except Fault Value) (answer : Bool) : Prop :=
  ∃ v, result = .ok v ∧ decide (v.truth = some true) = answer

theorem decides_ofTruth {result : Except Fault Value} {t : Option Bool}
    (h : result = .ok (.ofTruth t)) : Decides result (decide (t = some true)) :=
  ⟨.ofTruth t, h, by rw [truth_ofTruth]⟩

theorem decides_bool {result : Except Fault Value} {b : Bool}
    (h : result = .ok (.ofTruth (some b))) : Decides result b :=
  ⟨.ofTruth (some b), h, by cases b <;> rfl⟩

theorem decides_any {result : Except Fault Value} {found : Option Source} {f : Source → Bool}
    (h : result = .ok (.ofTruth (found.map f))) : Decides result (found.any f) := by
  cases found with
  | none => exact decides_ofTruth h
  | some x => exact decides_bool h

section comparison
variable {scope : Scope Param} {s : Subject Param} {found : Option Source}

/-- The kind of the document that a text spells; none where it spells no document. -/
theorem spelled_eval {cs : List Char} (h : s.value.eval scope = .ok (.text cs)) :
    (isNumeric (.group (.cases (.branch (.isDocument s.value) (.kindOf s.value) .none)))).eval
        scope = .ok (.ofTruth ((Sql.readDocument? cs).map fun d => isNumber (Sql.kind d))) := by
  simp only [isNumeric, Expr.eval, Branches.eval, h, Value.document?]
  cases Sql.readDocument? cs with
  | none => rfl
  | some d =>
      simp only [Except.map, Value.truth, Sql.kindValue, Option.map_some]
      cases Sql.kind d <;> rfl

theorem spelled_eval_null (h : s.value.eval scope = .ok .null) :
    (isNumeric (.group (.cases (.branch (.isDocument s.value) (.kindOf s.value) .none)))).eval
        scope = .ok (.ofTruth none) := by
  simp only [isNumeric, Expr.eval, Branches.eval, h]
  rfl

/-- The comparison of a text that spells a number. -/
theorem comparison_text_eval {body : List Char} (h : Finds scope s (some (.string body)))
    (r : Comparison) (n : Number) (hb : scope.bound = Param.value) :
    Decides (Branches.eval scope (fun guard => guard.truth)
        (.branch (.and (isKind s "text") (isNumeric
            (.group (.cases (.branch (.isDocument s.value) (.kindOf s.value) .none)))))
          (.compare (.order r) (.cast s.value .real) (.param (.ofNumber n)))
          (.otherwise (.integer 0))))
      (compares (.string body) r n) := by
  have htext : (isKind s "text").eval scope = .ok (.ofTruth (some true)) := isKind_eval h .text
  have hguard := and_eval htext fun _ => spelled_eval h.value
  rw [Branches.eval, hguard]
  dsimp only
  rw [truth_ofTruth, compares]
  cases hread : Sql.readDocument? (Sql.bodyText body) with
  | none =>
      rw [Option.map_none, if_neg (by decide), Branches.eval, Expr.eval]
      exact ⟨.integer 0, rfl, rfl⟩
  | some d =>
      rw [Option.map_some]
      cases hd : isNumber (Sql.kind d) with
      | false =>
          rw [if_neg (by decide), Branches.eval, Expr.eval]
          exact ⟨.integer 0, rfl, by simp [hd, Value.truth]⟩
      | true =>
          rw [if_pos (by decide)]
          have hc : (Expr.compare (.order r) (.cast s.value .real)
              (.param (.ofNumber n))).eval scope = .ok (.ofTruth ((Relation.order r).test
                (.real (Sql.leadingReal (Sql.bodyText body))) (Param.ofNumber n).value)) := by
            simp only [Expr.eval, h.value, hb]
            rfl
          simpa [hd] using decides_ofTruth hc

/-- A comparison says whether what is found is a number, or spells one, in the relation. -/
theorem comparison_eval (h : Finds scope s found) (r : Comparison) (n : Number)
    (hb : scope.bound = Param.value) :
    Decides ((comparison s r (.param (.ofNumber n))).eval scope) (found.any (compares · r n)) := by
  have hn : (Expr.param (Param.ofNumber n)).eval scope = .ok (Param.ofNumber n).value := by
    rw [Expr.eval, hb]
  have hnumeric := isNumeric_eval h
  have htext : (isKind s "text").eval scope =
      .ok (.ofTruth (found.map fun x => decide (Sql.kind x = .text))) := isKind_eval h .text
  have hordered := compare_eval h hn (.order r)
  simp only [comparison]
  rw [Expr.eval, Expr.eval, Branches.eval, hnumeric]
  dsimp only
  rw [truth_ofTruth]
  cases found with
  | none =>
      have hand := and_eval htext fun _ => spelled_eval_null h.value
      rw [Option.map_none, if_neg (by simp), Branches.eval, hand]
      exact ⟨.integer 0, rfl, rfl⟩
  | some x =>
      simp only [Option.map_some, Option.some.injEq, Option.any_some]
      by_cases hk : isNumber (Sql.kind x) = true
      · rw [if_pos hk, hordered]
        obtain ⟨m, rfl⟩ := exists_number hk
        exact decides_ofTruth rfl
      · rw [if_neg hk]
        by_cases ht : Sql.kind x = .text
        · obtain ⟨body, rfl⟩ := exists_string ht
          exact comparison_text_eval h r n hb
        · have hfalse : compares x r n = false := by
            cases x with
            | string body => exact absurd rfl ht
            | number m => exact absurd (isNumber_kind m) hk
            | null | bool _ | array _ | object _ => rfl
          rw [Option.map_some, decide_eq_false ht] at htext
          rw [Branches.eval, and_eval_false htext, hfalse]
          exact ⟨.integer 0, rfl, rfl⟩

end comparison

/-! ### Containment -/

theorem anyTrue_eq {condition : Source → Except Fault Value} {f : Source → Bool} :
    ∀ items : List Source, (∀ s ∈ items, condition s = .ok (.ofTruth (some (f s)))) →
      Sql.anyTrue condition items = .ok (items.any f)
  | [], _ => rfl
  | s :: rest, h => by
      have hrest := anyTrue_eq rest fun x hx => h x (List.mem_cons_of_mem _ hx)
      simp only [Sql.anyTrue, h s List.mem_cons_self, truth_ofTruth, hrest, List.any_cons]
      cases f s <;> rfl

section containment
variable {row : Sql.Row} {element : Option Source}

/-- The text that is searched in, as a condition computes it. -/
def searchedExpr (s : Subject Param) : Expr Param :=
  .casesOf s.kind (.branch (.word "true") (.word "true") (.branch (.word "false") (.word "false")
    (.otherwise (.cast s.value .text))))

/-- The value that is searched for the pattern. -/
theorem searched_eval {s : Subject Param} {found : Option Source}
    (h : Finds ⟨Param.value, row, element⟩ s found) :
    (searchedExpr s).eval ⟨Param.value, row, element⟩ =
      .ok ((found.map searchedText).getD .null) := by
  simp only [searchedExpr, Expr.eval, Branches.eval, h.kind, h.value]
  cases found with
  | none => rfl
  | some x =>
      have htrue : Relation.equal.test (Sql.kindValue (some x)) (.text "true".toList) =
          some (decide (Sql.kind x = .true)) := kindValue_test x .true
      have hfalse : Relation.equal.test (Sql.kindValue (some x)) (.text "false".toList) =
          some (decide (Sql.kind x = .false)) := kindValue_test x .false
      simp only [htrue, hfalse]
      cases x with
      | bool b => cases b <;> rfl
      | number n =>
          simp only [Sql.kind]
          split <;> rfl
      | null | string _ | array _ | object _ => rfl

theorem searchedText_eq (x : Source) :
    searchedText x = .null ∨ ∃ cs, searchedText x = .text cs := by
  cases x with
  | bool b => cases b <;> exact .inr ⟨_, rfl⟩
  | number n =>
      simp only [searchedText, Sql.scalar, Sql.numeralValue]
      generalize (if n.negative = true then -(n.digits : Int) else n.digits) = i
      split <;> exact .inr ⟨_, rfl⟩
  | null => exact .inl rfl
  | string _ | array _ | object _ => exact .inr ⟨_, rfl⟩

/-- The text that is searched contains the needle. -/
theorem like_eval {text pattern : Expr Param} {scope : Scope Param} {v : Value} {cs : List Char}
    (ht : text.eval scope = .ok v) (hp : pattern.eval scope = .ok (.text cs))
    (hv : v = .null ∨ ∃ ds, v = .text ds)
    (hlen : (String.ofList (Text.lower cs)).utf8ByteSize ≤ Sql.Like.maxLength) :
    Decides ((Expr.like (.lower text) (.lower pattern)).eval scope)
      (hasPattern (Text.lower cs) v) := by
  have hshort : ¬ Sql.Like.maxLength < (String.ofList (Text.lower cs)).utf8ByteSize := by omega
  obtain rfl | ⟨ds, rfl⟩ := hv
  · refine ⟨.null, ?_, rfl⟩
    simp only [Expr.eval, ht, hp, Value.lower, Value.toText, Value.like, if_neg hshort]
    rfl
  · refine decides_bool ?_
    simp only [Expr.eval, ht, hp, Value.lower, Value.toText, Value.like, if_neg hshort]
    rfl

/-- The pattern of a needle, as it is bound. -/
def patternExpr (needle : Json) : Expr Param :=
  .param (.text (String.ofList (Sql.Like.containing (needleText needle))))

theorem containment_isArray_eval (row : Sql.Row) (p : Path) :
    (isKind (Subject.at (.param (Param.text p.jsonPath))) "array").eval ⟨Param.value, row, none⟩ =
      .ok (.ofTruth ((Sql.lookup? p.words row.document).map
        fun x => decide (Sql.kind x = .array))) :=
  isKind_eval (finds_at p row none) .array

/-- Where an array is found, its elements are compared with the needle. -/
theorem containment_array_eval (p : Path) (needle : Json) {items : List Source}
    (hfound : Sql.lookup? p.words row.document = some (.array items)) :
    (containment (.param (Param.text p.jsonPath)) needle ()).1.eval ⟨Param.value, row, none⟩ =
      (Sql.anyTrue (fun s => (equality .element needle ()).1.eval ⟨Param.value, row, some s⟩)
        items).map fun found => .ofTruth (some found) := by
  have harray := containment_isArray_eval row p
  have hkind : Sql.kind (.array items) = .array := rfl
  rw [hfound, Option.map_some, decide_eq_true hkind] at harray
  simp only [containment, Supply.bind_unit]
  rw [Expr.eval, Expr.eval, Branches.eval, harray]
  dsimp only
  rw [truth_ofTruth, if_pos rfl]
  simp only [Expr.eval, Param.value, find?_jsonPath, hfound, Sql.elements]

/-- Where none is found, a text is searched for the needle. -/
theorem containment_text_eval (p : Path) (needle : Json)
    (hfound : ∀ items, Sql.lookup? p.words row.document ≠ some (.array items)) :
    (containment (.param (Param.text p.jsonPath)) needle ()).1.eval ⟨Param.value, row, none⟩ =
      (Expr.like (.lower (searchedExpr (.at (.param (Param.text p.jsonPath)))))
        (.lower (patternExpr needle))).eval ⟨Param.value, row, none⟩ := by
  have harray := containment_isArray_eval row p
  have hkind : (Sql.lookup? p.words row.document).map (fun x => decide (Sql.kind x = .array)) ≠
      some true := by
    intro hmap
    obtain ⟨x, hx, hk⟩ := Option.map_eq_some_iff.mp hmap
    obtain ⟨items, rfl⟩ := exists_array (of_decide_eq_true hk)
    exact hfound items hx
  generalize hlike : (Expr.like (.lower (searchedExpr (.at (.param (Param.text p.jsonPath)))))
    (.lower (patternExpr needle))).eval ⟨Param.value, row, none⟩ = result
  simp only [containment, Supply.bind_unit]
  rw [Expr.eval, Expr.eval, Branches.eval, harray]
  dsimp only
  rw [truth_ofTruth, if_neg hkind, Branches.eval]
  exact hlike

theorem pattern_eval (needle : Json) (row : Sql.Row) :
    (patternExpr needle).eval ⟨Param.value, row, none⟩ =
      .ok (.text (Sql.Like.containing (needleText needle))) := by
  rw [patternExpr, Expr.eval]
  dsimp only
  rw [Param.value, String.toList_ofList]

/-- A containment says whether what is found contains the needle. -/
theorem containment_eval (p : Path) (needle : Json) (h : (Predicate.contains p needle).Fits) :
    Decides ((containment (.param (Param.text p.jsonPath)) needle ()).1.eval
        ⟨Param.value, row, none⟩)
      ((Sql.lookup? p.words row.document).any (containsNeedle · needle)) := by
  obtain ⟨hdepth, hlen⟩ := h
  have hsearched := searched_eval (finds_at p row none)
  have hpattern := pattern_eval needle row
  cases hfound : Sql.lookup? p.words row.document with
  | none =>
      rw [containment_text_eval p needle (by rw [hfound]; exact nofun)]
      rw [hfound] at hsearched
      exact like_eval hsearched hpattern (.inl rfl) hlen
  | some x =>
      cases x with
      | array items =>
          have hmember := anyTrue_eq items fun s _ =>
            equality_eval (finds_element row s) needle hdepth
          rw [containment_array_eval p needle hfound, hmember]
          exact decides_bool rfl
      | null | bool _ | number _ | string _ | object _ =>
          rw [containment_text_eval p needle (by rw [hfound]; exact nofun)]
          rw [hfound, Option.map_some, Option.getD_some] at hsearched
          exact like_eval hsearched hpattern (searchedText_eq _) hlen

end containment

/-! ### Predicates -/

section predicates
variable {row : Sql.Row} {s : Subject Param} {found : Option Source}

theorem isNotNull_eval {scope : Scope Param} (h : Finds scope s found) :
    (Expr.isNotNull s.kind).eval scope = .ok (.ofTruth (some found.isSome)) := by
  simp only [Expr.eval, h.kind]
  cases found <;> rfl

theorem isNull_eval {scope : Scope Param} (h : Finds scope s found) :
    (Expr.isNull s.kind).eval scope = .ok (.ofTruth (some found.isNone)) := by
  simp only [Expr.eval, h.kind]
  cases found <;> rfl

/-- A difference says whether something is found that does not equal the value. -/
theorem difference_eval (h : Finds ⟨Param.value, row, none⟩ s found) (value : Json)
    (hd : value.depth ≤ Sql.storageLimit) :
    Decides ((Expr.group (.and (.isNotNull s.kind) (.not (equality s value ()).1))).eval
      ⟨Param.value, row, none⟩) (found.any fun x => !equals x value) := by
  have hnot : (Expr.not (equality s value ()).1).eval ⟨Param.value, row, none⟩ =
      .ok (.ofTruth (Sql.Truth.not (found.map (equals · value)))) := by
    rw [Expr.eval, equality_eval h value hd]
    dsimp only
    rw [truth_ofTruth]
  rw [Expr.eval, and_eval (isNotNull_eval h) fun _ => hnot]
  cases found with
  | none => exact decides_bool rfl
  | some x =>
      refine decides_bool ?_
      rw [Option.any_some, Option.map_some]
      cases equals x value <;> rfl

/-- The condition of a predicate is true of the rows whose documents meet it, and never fails. -/
theorem Predicate.inPlace_eval (p : Predicate) (h : p.Fits) (row : Sql.Row) :
    Decides (p.inPlace.eval ⟨Param.value, row, none⟩) (p.holds row.document) := by
  have hfinds := finds_at p.path row none
  cases p with
  | equals path value => exact decides_any (equality_eval hfinds value h)
  | notEquals path value => exact difference_eval hfinds value h
  | compares path relation n => exact comparison_eval hfinds relation n rfl
  | contains path needle => exact containment_eval path needle h
  | presence path present =>
      rw [Predicate.holds]
      cases present with
      | true =>
          rw [beq_true]
          exact decides_bool (isNotNull_eval hfinds)
      | false =>
          rw [beq_false, Option.not_isSome]
          exact decides_bool (isNull_eval hfinds)
  | among path values =>
      cases values with
      | nil =>
          refine ⟨.integer 0, rfl, ?_⟩
          cases hfound : Sql.lookup? path.words row.document <;>
            simp [Predicate.holds, Predicate.path, hfound, Value.truth]
      | cons value rest =>
          have hvalue := equality_eval hfinds value (h value List.mem_cons_self)
          have hany := equalityAny_eval hfinds rest _ _ hvalue
            fun v hv => h v (List.mem_cons_of_mem _ hv)
          exact decides_any hany

end predicates

/-- A text, or null where it is missing. -/
def textValue : Option (List Char) → Value
  | none => .null
  | some cs => .text cs

theorem Target.inPlace_eval (t : Target) (row : Sql.Row) :
    t.inPlace.eval ⟨Param.value, row, none⟩ = .ok (textValue (t.keyOf row)) := by
  cases t with
  | column c =>
      simp only [Target.inPlace, Target.key, Target.keyOf, Expr.eval]
      cases row.column c <;> rfl
  | path p =>
      have hvalue := (finds_at p row none).value
      rw [Subject.at] at hvalue
      simp only [Target.inPlace, Target.key, Target.keyOf, Supply.bind_unit]
      rw [Expr.eval, hvalue]
      generalize Sql.scalarValue (Sql.lookup? p.words row.document) = v
      cases v <;> rfl

end EntityStore.Query
