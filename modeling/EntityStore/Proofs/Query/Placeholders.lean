import EntityStore.Proofs.Sql.Substitution
import EntityStore.Query.Statement
import EntityStore.Store.Search
import Mathlib.Tactic.Tauto

/-! # Placeholders and their values

A statement numbers its placeholders and keeps the values bound to them in three lists.  What a
placeholder stands for is said by the same expressions with another supply of placeholders, one that
hands out the values themselves: `Predicate.inPlace` and `Target.inPlace` have every value written
where its placeholder was handed out.

`Predicate.values` lists what a predicate binds, in order, and a binder is carried on by exactly
that list (`Predicate.condition_snd`).  `Binds σ f n vs` says that `σ` has the image of `vs` at the
numbers from `n` on; wherever it does, the numbered condition becomes the one in place
(`Predicate.condition_map`).  `mem_params_condition` says which numbers a condition makes use of.

The main statement is `statement_linesUp`: every placeholder lies in the range of its part, the
value at its position is its own, and each value is used, but for the path of an empty `among`. -/

namespace EntityStore.Query

open Sql (Expr Branches Param Table Token Value paramsOf)

variable {ρ : Type}

/-! ### Values in place -/

/-- Every value is its own placeholder. -/
instance : Supply Param Unit := ⟨fun _ value => (value, ())⟩

theorem Supply.bind_unit (u : Unit) (v : Param) : Supply.bind u v = (v, ()) := rfl

/-- The condition of a predicate with its values in place. -/
def Predicate.inPlace (p : Predicate) : Expr Param := (p.condition ()).1

/-- The key of an ordering with its value in place. -/
def Target.inPlace (t : Target) : Expr Param := (t.key ()).1

/-! ### What is bound -/

/-- The values that an equality binds. -/
def equalityValues : Json → List Param
  | .null | .bool _ => []
  | .number n => [.ofNumber n]
  | .string s => [.text s]
  | .array items => [.text (Json.array items).print]
  | .object fields => [.text (Json.object fields).print]

/-- The values that a predicate binds, in order. -/
def Predicate.values (p : Predicate) : List Param :=
  .text p.path.jsonPath ::
    match p with
    | .equals _ value | .notEquals _ value => equalityValues value
    | .compares _ _ n => [.ofNumber n]
    | .contains _ needle =>
      equalityValues needle ++ [.text (String.ofList (Sql.Like.containing (needleText needle)))]
    | .presence _ _ => []
    | .among _ values => values.flatMap equalityValues

/-- The values that the key of an ordering binds. -/
def Target.values : Target → List Param
  | .column _ => []
  | .path p => [.text p.jsonPath]

theorem Target.length_values_le (t : Target) : t.values.length ≤ 1 := by
  cases t with
  | column c => exact Nat.zero_le 1
  | path p => exact Nat.le_refl 1

/-- The binder after some more values. -/
def Binder.extend (b : Binder) (vs : List Param) : Binder := ⟨b.next + vs.length, b.values ++ vs⟩

@[simp] theorem Binder.extend_next (b : Binder) (vs : List Param) :
    (b.extend vs).next = b.next + vs.length := rfl

@[simp] theorem Binder.extend_nil (b : Binder) : b.extend [] = b := by simp [Binder.extend]

theorem Binder.extend_append (b : Binder) (vs ws : List Param) :
    b.extend (vs ++ ws) = (b.extend vs).extend ws := by
  simp [Binder.extend, Nat.add_assoc]

theorem Binder.bind_eq (b : Binder) (v : Param) : Supply.bind b v = (b.next, b.extend [v]) := rfl

theorem equality_snd (subject : Subject Nat) (value : Json) (b : Binder) :
    (equality subject value b).2 = b.extend (equalityValues value) := by
  cases value with
  | bool x => cases x <;> simp [equality, equalityValues]
  | _ => simp [equality, equalityValues, Binder.bind_eq]

theorem equalityAny_snd (subject : Subject Nat) : ∀ (values : List Json) (found : Expr Nat)
    (b : Binder), (equalityAny subject found values b).2 = b.extend (values.flatMap equalityValues)
  | [], _, b => by simp [equalityAny]
  | value :: rest, found, b => by
      simp only [equalityAny, equalityAny_snd subject rest, equality_snd, List.flatMap_cons,
        Binder.extend_append]

/-- The values of a predicate are what its condition binds. -/
theorem Predicate.condition_snd (p : Predicate) (b : Binder) :
    (p.condition b).2 = b.extend p.values := by
  have cons : ∀ (v : Param) (vs : List Param), b.extend (v :: vs) = (b.extend [v]).extend vs :=
    fun v vs => b.extend_append [v] vs
  cases p with
  | equals path value | notEquals path value =>
      rw [Predicate.values, cons]
      simp [Predicate.condition, Binder.bind_eq, equality_snd, Predicate.path]
  | compares path relation n =>
      rw [Predicate.values, cons]
      simp [Predicate.condition, Binder.bind_eq, Predicate.path]
  | contains path needle =>
      rw [Predicate.values, cons, Binder.extend_append]
      simp [Predicate.condition, containment, Binder.bind_eq, equality_snd, Predicate.path]
  | presence path present =>
      cases present <;> simp [Predicate.condition, Predicate.values, Binder.bind_eq, Predicate.path]
  | among path values =>
      cases values with
      | nil => simp [Predicate.condition, Predicate.values, Binder.bind_eq, Predicate.path]
      | cons value rest =>
          rw [Predicate.values, cons, List.flatMap_cons, Binder.extend_append]
          simp [Predicate.condition, Binder.bind_eq, equality_snd, equalityAny_snd, Predicate.path]

theorem conditions_snd : ∀ (ps : List Predicate) (b : Binder),
    (conditions ps b).2 = b.extend (ps.flatMap Predicate.values)
  | [], b => by simp [conditions]
  | p :: rest, b => by
      simp only [conditions, Predicate.condition_snd, conditions_snd rest, List.flatMap_cons,
        Binder.extend_append]

theorem Target.key_snd (t : Target) (b : Binder) : (t.key b).2 = b.extend t.values := by
  cases t <;> simp [Target.key, Target.values, Binder.bind_eq]

/-! ### What a placeholder stands for -/

/-- The numbers from `n` on stand for the values of a list. -/
def Binds (σ : Nat → ρ) (f : Param → ρ) (n : Nat) (vs : List Param) : Prop :=
  ∀ (i : Nat) (v : Param), vs[i]? = some v → σ (n + i) = f v

section binds
variable {σ : Nat → ρ} {f : Param → ρ} {n : Nat}

theorem Binds.append {vs ws : List Param} (h : Binds σ f n (vs ++ ws)) :
    Binds σ f n vs ∧ Binds σ f (n + vs.length) ws := by
  constructor
  · intro i v hv
    obtain ⟨hi, -⟩ := List.getElem?_eq_some_iff.mp hv
    exact h i v (by rw [List.getElem?_append_left hi, hv])
  · intro i v hv
    rw [Nat.add_assoc]
    exact h _ v (by rw [List.getElem?_append_right (Nat.le_add_right _ _)]; simpa using hv)

theorem Binds.cons {v : Param} {vs : List Param} (h : Binds σ f n (v :: vs)) :
    σ n = f v ∧ Binds σ f (n + 1) vs :=
  ⟨h 0 v rfl, (@Binds.append _ _ _ _ [v] vs h).2⟩

theorem Binds.head {v : Param} {vs : List Param} (h : Binds σ f n (v :: vs)) : σ n = f v :=
  h.cons.1

end binds

def Subject.map {π : Type} (σ : π → ρ) (s : Subject π) : Subject ρ :=
  ⟨s.kind.map σ, s.value.map σ⟩

/-- An equality becomes the one in place when its placeholder stands for its value. -/
theorem equality_map {σ : Nat → ρ} {f : Param → ρ} {s : Subject Nat} {s' : Subject Param}
    (hs : s.map σ = s'.map f) (value : Json) (b : Binder)
    (h : Binds σ f b.next (equalityValues value)) :
    (equality s value b).1.map σ = (equality s' value ()).1.map f := by
  injection hs with hk hv
  cases value with
  | null => simp only [equality, isKind, Expr.map, hk]
  | bool x => cases x <;> simp only [equality, isKind, Expr.map, hk]
  | number n | string n | array n | object n =>
      have hp := h.head
      simp only [equality, Supply.bind, Binder.bind, isKind, isNumeric, Expr.map, hk, hv, hp]

theorem equalityAny_map {σ : Nat → ρ} {f : Param → ρ} {s : Subject Nat} {s' : Subject Param}
    (hs : s.map σ = s'.map f) : ∀ (values : List Json) (found : Expr Nat) (found' : Expr Param)
      (b : Binder), found.map σ = found'.map f →
      Binds σ f b.next (values.flatMap equalityValues) →
      (equalityAny s found values b).1.map σ = (equalityAny s' found' values ()).1.map f
  | [], _, _, _, hfound, _ => hfound
  | value :: rest, found, found', b, hfound, h => by
      rw [List.flatMap_cons] at h
      obtain ⟨hvalue, hrest⟩ := h.append
      have he := equality_map hs value b hvalue
      refine equalityAny_map hs rest (.or found (equality s value b).1)
        (.or found' (equality s' value ()).1) (equality s value b).2 ?_ ?_
      · rw [Expr.map, Expr.map, hfound, he]
      · rwa [equality_snd]

/-- A condition becomes the one in place when its placeholders stand for its values. -/
theorem Predicate.condition_map {σ : Nat → ρ} {f : Param → ρ} (p : Predicate) (b : Binder)
    (h : Binds σ f b.next p.values) : (p.condition b).1.map σ = p.inPlace.map f := by
  obtain ⟨hplace, hrest⟩ := h.cons
  have hs : (Subject.at (.param b.next)).map σ =
      (Subject.at (.param (.text p.path.jsonPath))).map f := by
    simp only [Subject.map, Subject.at, Expr.map, hplace]
  rw [Predicate.inPlace]
  cases p with
  | equals path value => exact equality_map hs value (b.extend [_]) hrest
  | notEquals path value =>
      have he := equality_map hs value (b.extend [.text path.jsonPath]) hrest
      injection hs with hk
      simp only [Predicate.path] at hk he
      simp only [Predicate.condition, Binder.bind_eq, Supply.bind_unit, Predicate.path, Expr.map,
        hk, he]
  | compares path relation n =>
      have hn := hrest.head
      simp only [Predicate.path] at hplace
      simp only [Predicate.condition, Binder.bind_eq, Supply.bind_unit, Binder.extend_next,
        List.length_singleton, comparison, Subject.at, isKind, isNumeric, Expr.map, Branches.map,
        Predicate.path, hplace, hn]
  | contains path needle =>
      obtain ⟨hneedle, hpattern⟩ := hrest.append
      have helement : (Subject.element : Subject Nat).map σ =
          (Subject.element : Subject Param).map f := rfl
      have he := equality_map helement needle (b.extend [.text path.jsonPath]) hneedle
      have hp := hpattern.head
      simp only [Predicate.path] at hplace
      simp only [Predicate.condition, containment, Binder.bind_eq, Supply.bind_unit, equality_snd,
        Binder.extend_next, List.length_singleton, Subject.at, isKind, Expr.map, Branches.map,
        Predicate.path, hplace, he, hp]
  | presence path present =>
      injection hs with hk
      simp only [Predicate.path] at hk
      cases present <;>
        simp only [Predicate.condition, Binder.bind_eq, Supply.bind_unit, Predicate.path, Expr.map,
          hk]
  | among path values =>
      cases values with
      | nil => rfl
      | cons value rest =>
          simp only [List.flatMap_cons] at hrest
          obtain ⟨hvalue, hlater⟩ := hrest.append
          have he := equality_map hs value (b.extend [.text path.jsonPath]) hvalue
          have hany := equalityAny_map hs rest _ _
            ((b.extend [.text path.jsonPath]).extend (equalityValues value)) he hlater
          simp only [Predicate.path] at hany
          simp only [Predicate.condition, Binder.bind_eq, Supply.bind_unit, equality_snd,
            Predicate.path, Expr.map, hany]

theorem conditions_map {σ : Nat → ρ} {f : Param → ρ} : ∀ (ps : List Predicate) (b : Binder),
    Binds σ f b.next (ps.flatMap Predicate.values) →
    (conditions ps b).1.map (Expr.map σ) = ps.map (fun p => p.inPlace.map f)
  | [], _, _ => rfl
  | p :: rest, b, h => by
      rw [List.flatMap_cons] at h
      obtain ⟨hp, hrest⟩ := h.append
      have hlater := conditions_map rest (p.condition b).2 (by rwa [Predicate.condition_snd])
      simp only [conditions, List.map_cons, Predicate.condition_map p b hp, hlater]

theorem Target.key_map {σ : Nat → ρ} {f : Param → ρ} (t : Target) (b : Binder)
    (h : Binds σ f b.next t.values) : (t.key b).1.map σ = t.inPlace.map f := by
  cases t with
  | column c => rfl
  | path p =>
      have hp := h.head
      simp only [Target.inPlace, Target.key, Supply.bind, Binder.bind, Expr.map, hp]

/-! ### Which placeholders are used -/

/-- The number is one of those handed out for `vs` from `n` on. -/
def InRange (n : Nat) (vs : List Param) (i : Nat) : Prop := n ≤ i ∧ i < n + vs.length

theorem inRange_nil {n i : Nat} : ¬ InRange n [] i := by
  simp only [InRange, List.length_nil]
  omega

theorem inRange_singleton {n i : Nat} {v : Param} : InRange n [v] i ↔ i = n := by
  simp only [InRange, List.length_singleton]
  omega

theorem inRange_append {n i : Nat} {vs ws : List Param} :
    InRange n (vs ++ ws) i ↔ InRange n vs i ∨ InRange (n + vs.length) ws i := by
  simp only [InRange, List.length_append]
  omega

theorem inRange_cons {n i : Nat} {v : Param} {vs : List Param} :
    InRange n (v :: vs) i ↔ i = n ∨ InRange (n + 1) vs i := by
  rw [← inRange_singleton (v := v)]
  exact @inRange_append n i [v] vs

/-- An equality uses the placeholders of its subject and the one for its value. -/
theorem mem_params_equality {s : Subject Nat} (hs : s.value.params = s.kind.params) (value : Json)
    (b : Binder) (i : Nat) : i ∈ (equality s value b).1.params ↔
      i ∈ s.kind.params ∨ InRange b.next (equalityValues value) i := by
  cases value with
  | null => simp [equality, equalityValues, isKind, Expr.params, inRange_nil]
  | bool x => cases x <;> simp [equality, equalityValues, isKind, Expr.params, inRange_nil]
  | number n | string n | array n | object n =>
      simp [equality, equalityValues, isKind, isNumeric, Expr.params, inRange_singleton,
        Binder.bind_eq, hs]

theorem mem_params_equalityAny {s : Subject Nat} (hs : s.value.params = s.kind.params) :
    ∀ (values : List Json) (found : Expr Nat) (b : Binder) (i : Nat),
      (∀ j ∈ s.kind.params, j ∈ found.params) →
      (i ∈ (equalityAny s found values b).1.params ↔
        i ∈ found.params ∨ InRange b.next (values.flatMap equalityValues) i)
  | [], found, b, i, _ => by simp [equalityAny, inRange_nil]
  | value :: rest, found, b, i, h => by
      have he := mem_params_equality hs value b
      have hor : ∀ j, j ∈ (Expr.or found (equality s value b).1).params ↔
          j ∈ found.params ∨ InRange b.next (equalityValues value) j := by
        intro j
        rw [Expr.params, List.mem_append, he j]
        have := h j
        tauto
      rw [equalityAny, mem_params_equalityAny hs rest _ _ i fun j hj => (hor j).mpr (.inl (h j hj)),
        hor i, equality_snd, List.flatMap_cons, inRange_append, or_assoc]
      rfl

theorem mem_params_at (n i : Nat) : i ∈ (Subject.at (.param n)).kind.params ↔ i = n := by
  simp [Subject.at, Expr.params]

/-- A condition uses every placeholder that it hands out, unless it asks for one of no values. -/
theorem Predicate.mem_params_condition (p : Predicate) (b : Binder) (i : Nat) :
    i ∈ (p.condition b).1.params ↔ InRange b.next p.values i ∧ ∀ path, p ≠ .among path [] := by
  have hs : (Subject.at (.param b.next)).value.params =
      (Subject.at (.param b.next)).kind.params := rfl
  have heq : ∀ (path : Path) (value : Json),
      i ∈ (equality (Subject.at (.param b.next)) value (b.extend [.text path.jsonPath])).1.params ↔
        InRange b.next (.text path.jsonPath :: equalityValues value) i := by
    intro path value
    rw [mem_params_equality hs, mem_params_at, inRange_cons]
    rfl
  cases p with
  | equals path value =>
      simp only [Predicate.condition, Predicate.values, Predicate.path, Binder.bind_eq, heq]
      simp
  | notEquals path value =>
      simp only [Predicate.condition, Predicate.values, Predicate.path, Binder.bind_eq, Expr.params,
        List.mem_append, mem_params_at, heq, inRange_cons]
      simp
  | compares path relation n =>
      simp [Predicate.condition, Predicate.values, Binder.bind_eq, inRange_cons, inRange_nil,
        comparison, isKind, isNumeric, Subject.at, Expr.params, Branches.params]
      tauto
  | contains path needle =>
      have he := mem_params_equality (s := .element) rfl needle (b.extend [.text path.jsonPath]) i
      have hn : i ∉ (Subject.element : Subject Nat).kind.params := by
        simp [Subject.element, Expr.params]
      simp only [Predicate.condition, Predicate.values, Predicate.path, containment, Binder.bind_eq,
        equality_snd, isKind, Subject.at, Expr.params, Branches.params, List.mem_append,
        List.mem_singleton, he, hn, inRange_cons, inRange_append, Binder.extend_next,
        List.length_singleton]
      simp [inRange_nil]
      tauto
  | presence path present =>
      cases present <;>
        simp [Predicate.condition, Predicate.values, Binder.bind_eq, inRange_singleton,
          mem_params_at, Expr.params]
  | among path values =>
      cases values with
      | nil => simp [Predicate.condition, Expr.params]
      | cons value rest =>
          have he := mem_params_equality hs value (b.extend [.text path.jsonPath])
          have hany := mem_params_equalityAny hs rest
            (equality (Subject.at (.param b.next)) value (b.extend [.text path.jsonPath])).1
            ((b.extend [.text path.jsonPath]).extend (equalityValues value)) i
            fun j hj => (he j).mpr (.inl hj)
          simp only [Predicate.condition, Predicate.values, Predicate.path, Binder.bind_eq,
            equality_snd, Expr.params, hany, heq, List.flatMap_cons, inRange_cons, inRange_append,
            Binder.extend_next, List.length_singleton, or_assoc]
          simp

/-- The predicates ask, after those before it, for one of no values, and `i` is the number of the
path of that demand. -/
def IdleAt (ps : List Predicate) (b : Binder) (i : Nat) : Prop :=
  ∃ before path after, ps = before ++ .among path [] :: after ∧ i = (conditions before b).2.next

theorem idleAt_cons {p : Predicate} {ps : List Predicate} {b : Binder} {i : Nat} :
    IdleAt (p :: ps) b i ↔
      (i = b.next ∧ ∃ path, p = .among path []) ∨ IdleAt ps (p.condition b).2 i := by
  constructor
  · rintro ⟨before, path, after, h, hi⟩
    cases before with
    | nil =>
        injection h with hp _
        exact .inl ⟨hi, path, hp⟩
    | cons q before =>
        injection h with hp hps
        subst hp
        exact .inr ⟨before, path, after, hps, hi⟩
  · rintro (⟨hi, path, hp⟩ | ⟨before, path, after, hps, hi⟩)
    · exact ⟨[], path, ps, by rw [hp, List.nil_append], hi⟩
    · exact ⟨p :: before, path, after, by rw [hps, List.cons_append], hi⟩

theorem idleAt_le {ps : List Predicate} {b : Binder} {i : Nat} (h : IdleAt ps b i) :
    b.next ≤ i := by
  obtain ⟨before, path, after, -, rfl⟩ := h
  rw [conditions_snd, Binder.extend_next]
  exact Nat.le_add_right _ _

/-- Conditions use the placeholders that they hand out but for the idle ones. -/
theorem mem_params_conditions : ∀ (ps : List Predicate) (b : Binder) (i : Nat),
    i ∈ (conditions ps b).1.flatMap Expr.params ↔
      InRange b.next (ps.flatMap Predicate.values) i ∧ ¬ IdleAt ps b i
  | [], b, i => by simp [conditions, inRange_nil]
  | p :: rest, b, i => by
      have hlater := mem_params_conditions rest (p.condition b).2 i
      have hle : IdleAt rest (p.condition b).2 i → (p.condition b).2.next ≤ i := idleAt_le
      have hpos : 0 < p.values.length := by simp [Predicate.values]
      rw [p.condition_snd b] at hlater hle
      have hp := p.mem_params_condition b i
      simp only [conditions, List.flatMap_cons, List.mem_append, hp, p.condition_snd, hlater,
        inRange_append, idleAt_cons, Binder.extend_next]
      simp only [Binder.extend_next] at hle
      constructor
      · rintro (⟨hr, hne⟩ | ⟨hr, hi⟩)
        · refine ⟨.inl hr, ?_⟩
          rintro (⟨-, path, he⟩ | hi)
          · exact hne path he
          · have := hle hi
            have := hr.2
            omega
        · refine ⟨.inr hr, ?_⟩
          rintro (⟨he, -⟩ | h)
          · have := hr.1
            omega
          · exact hi h
      · rintro ⟨hr | hr, hn⟩
        · refine .inl ⟨hr, fun path he => hn (.inl ⟨?_, path, he⟩)⟩
          subst he
          exact inRange_singleton.mp hr
        · exact .inr ⟨hr, fun h => hn (.inr h)⟩

theorem params_foldl_and (es : List (Expr Nat)) (e : Expr Nat) :
    (es.foldl Expr.and e).params = e.params ++ es.flatMap Expr.params := by
  induction es generalizing e with
  | nil => simp
  | cons x xs ih => rw [List.foldl_cons, ih, Expr.params, List.flatMap_cons, List.append_assoc]

theorem params_conjunction (es : List (Expr Nat)) :
    (conjunction es).params = es.flatMap Expr.params := by
  cases es with
  | nil => rfl
  | cons e es => rw [conjunction, params_foldl_and, List.flatMap_cons]

theorem Target.params_key (t : Target) (b : Binder) (i : Nat) :
    i ∈ (t.key b).1.params ↔ InRange b.next t.values i := by
  cases t with
  | column c => simp [Target.key, Target.values, Expr.params, inRange_nil]
  | path p => simp [Target.key, Target.values, Expr.params, inRange_singleton, Binder.bind_eq]

/-! ### The parts of a statement -/

section parts
variable (plan : Plan) (first : Nat)

theorem statement_conditionValues :
    (plan.statement first).conditionValues = plan.predicates.flatMap Predicate.values := by
  change (conditions plan.predicates (⟨first, []⟩ : Binder)).2.values = _
  rw [conditions_snd, Binder.extend, List.nil_append]

theorem statement_key : (plan.statement first).key =
    (plan.order.target.key
      (⟨first + (plan.statement first).conditionValues.length, []⟩ : Binder)).1 := by
  rw [statement_conditionValues]
  change (plan.order.target.key (conditions plan.predicates (⟨first, []⟩ : Binder)).2.take.2).1 = _
  rw [conditions_snd]
  rfl

theorem statement_keyValues : (plan.statement first).keyValues = plan.order.target.values := by
  change (plan.order.target.key
    (conditions plan.predicates (⟨first, []⟩ : Binder)).2.take.2).2.values = _
  rw [Target.key_snd]
  rfl

theorem statement_pageValues : (plan.statement first).pageValues =
    [.integer plan.page.limit, .ofNatural plan.page.offset] := rfl

theorem statement_limit : (plan.statement first).limit =
    first + (plan.statement first).conditionValues.length +
      (plan.statement first).keyValues.length := by
  rw [statement_conditionValues, statement_keyValues]
  change (plan.order.target.key
    (conditions plan.predicates (⟨first, []⟩ : Binder)).2.take.2).2.next = _
  rw [Target.key_snd, conditions_snd]
  rfl

theorem statement_offset : (plan.statement first).offset = (plan.statement first).limit + 1 := rfl

end parts

/-! ### Looking values up -/

/-- The value at the position of a number, numbers counted from `first` on. -/
def valueAt (values : List Param) (first n : Nat) : Option Param := values[n - first]?

theorem binds_valueAt (before vs after : List Param) (first : Nat) :
    Binds (valueAt (before ++ (vs ++ after)) first) some (first + before.length) vs := by
  intro i v h
  obtain ⟨hi, -⟩ := List.getElem?_eq_some_iff.mp h
  have he : first + before.length + i - first = before.length + i := by omega
  rw [valueAt, he, List.getElem?_append_right (Nat.le_add_right _ _), Nat.add_sub_cancel_left,
    List.getElem?_append_left hi, h]

/-- Bound by a search, a number from the first one on stands for the value at its position. -/
theorem boundTo_of_valueAt {tenant blueprint : String} {values : List Param} {n : Nat} {v : Param}
    (hn : Store.firstPlaceholder ≤ n) (h : valueAt values Store.firstPlaceholder n = some v) :
    Store.boundTo tenant blueprint values n = v.value := by
  obtain ⟨m, rfl⟩ : ∃ m, n = m + 3 := ⟨n - 3, by simp only [Store.firstPlaceholder] at hn; omega⟩
  have hm : values[m]? = some v := by simpa [valueAt, Store.firstPlaceholder] using h
  simp only [Store.boundTo, hm]

/-- Every placeholder of a statement stands for its own value, both where results are counted, with
`counted` for the values, and where they are fetched, with `fetched`. -/
structure OwnValues (plan : Plan) (s : Statement) (counted fetched : Nat → ρ) (f : Param → ρ) :
    Prop where
  count : s.conditions.map (Expr.map counted) = plan.predicates.map fun p => p.inPlace.map f
  fetch : s.conditions.map (Expr.map fetched) = plan.predicates.map fun p => p.inPlace.map f
  key : s.key.map fetched = plan.order.target.inPlace.map f
  limit : fetched s.limit = f (.integer plan.page.limit)
  offset : fetched s.offset = f (.ofNatural plan.page.offset)

theorem ownValues_of_binds {plan : Plan} {first : Nat} {counted fetched : Nat → ρ} {f : Param → ρ}
    (hc : Binds counted f first (plan.statement first).countValues)
    (hf : Binds fetched f first (plan.statement first).fetchValues) :
    OwnValues plan (plan.statement first) counted fetched f := by
  obtain ⟨hrest, hpage⟩ := Binds.append hf
  obtain ⟨hconditions, hkey⟩ := hrest.append
  rw [Statement.countValues, statement_conditionValues] at hc
  rw [List.length_append, ← Nat.add_assoc, ← statement_limit, statement_pageValues] at hpage
  exact {
    count := conditions_map plan.predicates ⟨first, []⟩ hc
    fetch := conditions_map plan.predicates ⟨first, []⟩
      (statement_conditionValues plan first ▸ hconditions)
    key := by
      rw [statement_key]
      rw [statement_keyValues] at hkey
      exact plan.order.target.key_map _ hkey
    limit := hpage.head
    offset := hpage.cons.2.head }

theorem binds_values (values : List Param) (first : Nat) :
    Binds (valueAt values first) some first values := by
  simpa using binds_valueAt [] values [] first

/-- The placeholders of a search stand for their own values. -/
theorem ownValues_boundTo (plan : Plan) (tenant blueprint : String) :
    let s := plan.statement Store.firstPlaceholder
    OwnValues plan s (Store.boundTo tenant blueprint s.countValues)
      (Store.boundTo tenant blueprint s.fetchValues) Param.value :=
  ownValues_of_binds
    (fun i v h => boundTo_of_valueAt (Nat.le_add_right _ _) (binds_values _ _ i v h))
    (fun i v h => boundTo_of_valueAt (Nat.le_add_right _ _) (binds_values _ _ i v h))

/-! ### Placeholders line up with values -/

/-- The numbers of a statement: those of its conditions, then those of its key, then the window. -/
structure Numbered (s : Statement) (table : Table) (first : Nat) : Prop where
  conditions : ∀ n ∈ paramsOf (s.conditionTokens table),
    first ≤ n ∧ n < first + s.conditionValues.length
  counted : ∀ n ∈ paramsOf (s.conditionTokens table), n - first < s.countValues.length
  order : ∀ n ∈ paramsOf (s.orderTokens table), first + s.conditionValues.length ≤ n ∧
    n < first + s.conditionValues.length + s.keyValues.length
  page : s.pageTokens =
    [.fixed "LIMIT ", .param (first + s.conditionValues.length + s.keyValues.length),
      .fixed " OFFSET ", .param (first + s.conditionValues.length + s.keyValues.length + 1)]
  length_pageValues : s.pageValues.length = 2

theorem mem_params_conditionTokens (plan : Plan) (table : Table) (first n : Nat) :
    n ∈ paramsOf ((plan.statement first).conditionTokens table) ↔
      InRange first (plan.statement first).conditionValues n ∧
        ¬ IdleAt plan.predicates ⟨first, []⟩ n := by
  rw [Statement.conditionTokens, Expr.paramsOf_tokens, params_conjunction,
    statement_conditionValues]
  exact mem_params_conditions plan.predicates ⟨first, []⟩ n

theorem mem_params_orderTokens (plan : Plan) (table : Table) (first n : Nat) :
    n ∈ paramsOf ((plan.statement first).orderTokens table) ↔
      InRange (first + (plan.statement first).conditionValues.length)
        (plan.statement first).keyValues n := by
  have h := plan.order.target.params_key
    ⟨first + (plan.statement first).conditionValues.length, []⟩ n
  rw [← statement_key, ← statement_keyValues plan first] at h
  simp only [Statement.orderTokens, Expr.tokens, Sql.paramsOf_append, Expr.paramsOf_tokens,
    Sql.paramsOf_fixed, Sql.paramsOf_nil, List.append_nil, h]

theorem statement_numbered (plan : Plan) (table : Table) (first : Nat) :
    Numbered (plan.statement first) table first where
  conditions n h := ((mem_params_conditionTokens plan table first n).mp h).1
  counted n h := by
    obtain ⟨hle, hlt⟩ := ((mem_params_conditionTokens plan table first n).mp h).1
    rw [Statement.countValues]
    omega
  order n h := (mem_params_orderTokens plan table first n).mp h
  page := by rw [Statement.pageTokens, statement_offset, statement_limit]
  length_pageValues := rfl

/-- Every number that is handed out is used, but for those of idle paths. -/
theorem mem_params_statement (plan : Plan) (table : Table) (first n : Nat) :
    n ∈ paramsOf ((plan.statement first).conditionTokens table ++
        (plan.statement first).orderTokens table ++ (plan.statement first).pageTokens) ↔
      InRange first (plan.statement first).fetchValues n ∧
        ¬ IdleAt plan.predicates ⟨first, []⟩ n := by
  have hidle : IdleAt plan.predicates ⟨first, []⟩ n →
      n < first + (plan.statement first).conditionValues.length := by
    rintro ⟨before, path, after, hps, rfl⟩
    rw [statement_conditionValues, hps, conditions_snd, Binder.extend_next, List.flatMap_append,
      List.flatMap_cons]
    simp only [List.length_append, Predicate.values, List.length_cons]
    omega
  rw [Sql.paramsOf_append, Sql.paramsOf_append, List.mem_append, List.mem_append,
    mem_params_conditionTokens, mem_params_orderTokens, Statement.pageTokens, statement_offset,
    statement_limit, Statement.fetchValues, inRange_append, inRange_append, List.length_append,
    statement_pageValues]
  simp only [Sql.paramsOf_fixed, Sql.paramsOf_param, Sql.paramsOf_nil, List.mem_cons,
    List.not_mem_nil, or_false, InRange, List.length_cons, List.length_nil]
  constructor
  · rintro ((⟨hr, hi⟩ | hr) | hr)
    · exact ⟨.inl (.inl hr), hi⟩
    · exact ⟨.inl (.inr hr), fun hi => by have := hidle hi; omega⟩
    · exact ⟨.inr (by omega), fun hi => by have := hidle hi; omega⟩
  · rintro ⟨(hr | hr) | hr, hi⟩
    · exact .inl (.inl ⟨hr, hi⟩)
    · exact .inl (.inr hr)
    · exact .inr (by omega)

/-- The window comes last. -/
theorem le_offset_of_mem_params {plan : Plan} {table : Table} {first n : Nat}
    (h : n ∈ paramsOf ((plan.statement first).conditionTokens table ++
      (plan.statement first).orderTokens table ++ (plan.statement first).pageTokens)) :
    n ≤ (plan.statement first).offset := by
  obtain ⟨⟨-, hlt⟩, -⟩ := (mem_params_statement plan table first n).mp h
  rw [Statement.fetchValues, List.length_append, List.length_append, statement_pageValues] at hlt
  rw [statement_offset, statement_limit]
  simp only [List.length_cons, List.length_nil] at hlt
  omega

theorem le_offset_of_mem_conditionParams {plan : Plan} {table : Table} {first n : Nat}
    (h : n ∈ paramsOf ((plan.statement first).conditionTokens table)) :
    n ≤ (plan.statement first).offset := by
  refine @le_offset_of_mem_params plan table first n ?_
  rw [Sql.paramsOf_append, Sql.paramsOf_append]
  exact List.mem_append_left _ (List.mem_append_left _ h)

theorem offset_mem_params (plan : Plan) (table : Table) (first : Nat) :
    (plan.statement first).offset ∈ paramsOf ((plan.statement first).conditionTokens table ++
      (plan.statement first).orderTokens table ++ (plan.statement first).pageTokens) := by
  rw [Sql.paramsOf_append, Statement.pageTokens]
  refine List.mem_append_right _ ?_
  simp only [Sql.paramsOf_fixed, Sql.paramsOf_param, List.mem_cons, true_or, or_true]

/-- Placeholders and values line up.  The numbers of a statement come in the order conditions, key,
window, and a count covers those of the conditions; every placeholder stands for its own value in
the list it is looked up in; and each number of the list is used, but for the path of a demand for
one of no values.  A search puts tenant and blueprint before the values of its statement, and there
too each placeholder stands for its own value. -/
theorem statement_linesUp (plan : Plan) (table : Table) (first : Nat) :
    let s := plan.statement first
    Numbered s table first ∧
      OwnValues plan s (valueAt s.countValues first) (valueAt s.fetchValues first) some ∧
      (∀ n, first ≤ n → n < first + s.fetchValues.length →
        (n ∈ paramsOf (s.conditionTokens table ++ s.orderTokens table ++ s.pageTokens) ↔
          ¬ IdleAt plan.predicates ⟨first, []⟩ n)) ∧
      ∀ tenant blueprint : String,
        let s := plan.statement Store.firstPlaceholder
        let counted := Store.boundTo tenant blueprint s.countValues
        let fetched := Store.boundTo tenant blueprint s.fetchValues
        counted 1 = .text tenant.toList ∧ counted 2 = .text blueprint.toList ∧
          fetched 1 = .text tenant.toList ∧ fetched 2 = .text blueprint.toList ∧
          OwnValues plan s counted fetched Param.value := by
  have hcount : Binds (valueAt (plan.statement first).countValues first) some first
      (plan.statement first).countValues := binds_values _ first
  have hfetch : Binds (valueAt (plan.statement first).fetchValues first) some first
      (plan.statement first).fetchValues := binds_values _ first
  refine ⟨statement_numbered plan table first, ownValues_of_binds hcount hfetch,
    fun n hle hlt => ?_, fun tenant blueprint =>
      ⟨rfl, rfl, rfl, rfl, ownValues_boundTo plan tenant blueprint⟩⟩
  rw [mem_params_statement]
  exact and_iff_right ⟨hle, hlt⟩

end EntityStore.Query
