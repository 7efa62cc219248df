import EntityStore.Query.Statement

/-! # The text of a statement depends on its shape alone

The shape of a plan keeps which predicates there are, the kinds of their values, the column that is
ordered by or the fact that it is a path, and the direction.  It forgets paths, strings, numbers,
needles, the contents of arrays and objects, and the window.

Every shape has a sample, a plan with nothing in it but the shape, and a plan has the text of the
sample of its shape: each function that hands out placeholders keeps the two runs in step
(`InStep`), with the same expression and the same next number, while the values they hold may
differ.  So two plans of one shape have the same text in all three parts of their statements
(`statement_text_eq`). -/

namespace EntityStore.Query

open Sql (Expr Table textOf)

/-! ### Shapes -/

/-- The kind of a value; the two truth values are kinds of their own. -/
inductive ValueKind
  | null
  | true
  | false
  | number
  | string
  | array
  | object
deriving DecidableEq

def ValueKind.of : Json → ValueKind
  | .null => null
  | .bool .true => true
  | .bool .false => false
  | .number _ => number
  | .string _ => string
  | .array _ => array
  | .object _ => object

/-- What is left of a predicate without its path and its values. -/
inductive PredicateShape
  | equals (value : ValueKind)
  | notEquals (value : ValueKind)
  | compares (relation : Comparison)
  | contains (needle : ValueKind)
  | presence (present : Bool)
  | among (values : List ValueKind)
deriving DecidableEq

def Predicate.shape : Predicate → PredicateShape
  | .equals _ value => .equals (.of value)
  | .notEquals _ value => .notEquals (.of value)
  | .compares _ relation _ => .compares relation
  | .contains _ needle => .contains (.of needle)
  | .presence _ present => .presence present
  | .among _ values => .among (values.map .of)

/-- The column of a target, none for a path. -/
def Target.column? : Target → Option Column
  | .column c => some c
  | .path _ => none

/-- What the text of a statement may depend on. -/
structure Shape where
  predicates : List PredicateShape
  column : Option Column
  direction : Direction
deriving DecidableEq

def Plan.shape (plan : Plan) : Shape :=
  ⟨plan.predicates.map Predicate.shape, plan.order.target.column?, plan.order.direction⟩

/-! ### Samples -/

def ValueKind.sample : ValueKind → Json
  | null => .null
  | true => .bool .true
  | false => .bool .false
  | number => .number (.integer 0)
  | string => .string ""
  | array => .array []
  | object => .object []

def Path.sample : Path := ⟨[['a']], by decide, by decide⟩

def PredicateShape.sample : PredicateShape → Predicate
  | equals value => .equals .sample value.sample
  | notEquals value => .notEquals .sample value.sample
  | compares relation => .compares .sample relation (.integer 0)
  | contains needle => .contains .sample needle.sample
  | presence present => .presence .sample present
  | among values => .among .sample (values.map ValueKind.sample)

def Target.sample : Option Column → Target
  | some c => .column c
  | none => .path .sample

def Shape.sample (s : Shape) : Plan :=
  ⟨s.predicates.map PredicateShape.sample, ⟨.sample s.column, s.direction⟩, ⟨0, 0⟩⟩

/-! ### Two runs in step -/

/-- Two runs that hand out placeholders give the same result and go on with the same number. -/
structure InStep {α : Type} (x y : α × Binder) : Prop where
  result : x.1 = y.1
  next : x.2.next = y.2.next

section inStep
variable {b c : Binder}

theorem bind_inStep (h : b.next = c.next) (v w : Sql.Param) :
    InStep (Supply.bind b v) (Supply.bind c w) :=
  ⟨h, congrArg Nat.succ h⟩

theorem equality_inStep (subject : Subject Nat) (value : Json) (h : b.next = c.next) :
    InStep (equality subject value b) (equality subject (ValueKind.of value).sample c) := by
  cases value with
  | null => exact ⟨rfl, h⟩
  | bool x => cases x <;> exact ⟨rfl, h⟩
  | number n | string n | array n | object n =>
      refine ⟨?_, congrArg Nat.succ h⟩
      simp only [equality, Supply.bind, Binder.bind, ValueKind.of, ValueKind.sample, h]

theorem equalityAny_inStep (subject : Subject Nat) : ∀ (values : List Json) (found : Expr Nat)
    (b c : Binder), b.next = c.next →
    InStep (equalityAny subject found values b)
      (equalityAny subject found (values.map fun v => (ValueKind.of v).sample) c)
  | [], _, _, _, h => ⟨rfl, h⟩
  | value :: rest, found, b, c, h => by
      obtain ⟨he, hn⟩ := equality_inStep subject value h
      simp only [equalityAny, List.map_cons, he]
      exact equalityAny_inStep subject rest _ _ _ hn

theorem containment_inStep (path : Expr Nat) (needle : Json) (h : b.next = c.next) :
    InStep (containment path needle b) (containment path (ValueKind.of needle).sample c) := by
  obtain ⟨he, hn⟩ := equality_inStep .element needle h
  obtain ⟨hp, hm⟩ := bind_inStep hn
    (.text (String.ofList (Sql.Like.containing (needleText needle))))
    (.text (String.ofList (Sql.Like.containing (needleText (ValueKind.of needle).sample))))
  refine ⟨?_, hm⟩
  simp only [containment, he, hp]

/-- A predicate has the condition of the sample of its shape. -/
theorem Predicate.condition_inStep (p : Predicate) (h : b.next = c.next) :
    InStep (p.condition b) (p.shape.sample.condition c) := by
  obtain ⟨hp, hn⟩ := bind_inStep h (.text p.path.jsonPath) (.text p.shape.sample.path.jsonPath)
  cases p with
  | equals path value =>
      simp only [Predicate.condition, hp]
      exact equality_inStep _ value hn
  | notEquals path value =>
      simp only [Predicate.condition, Predicate.shape, PredicateShape.sample] at hp hn ⊢
      rw [hp]
      obtain ⟨he, hm⟩ := equality_inStep (.at (.param _)) value hn
      exact ⟨by simp only [he], hm⟩
  | compares path relation n =>
      simp only [Predicate.condition, Predicate.shape, PredicateShape.sample] at hp hn ⊢
      obtain ⟨hv, hm⟩ := bind_inStep hn (.ofNumber n) (.ofNumber (.integer 0))
      exact ⟨by simp only [hp, hv], hm⟩
  | contains path needle =>
      simp only [Predicate.condition, hp]
      exact containment_inStep _ needle hn
  | presence path present =>
      simp only [Predicate.condition, Predicate.shape, PredicateShape.sample] at hp hn ⊢
      cases present with
      | false => exact ⟨by simp only [hp], hn⟩
      | true => exact ⟨by simp only [hp], hn⟩
  | among path values =>
      cases values with
      | nil => exact ⟨rfl, hn⟩
      | cons value rest =>
          simp only [Predicate.condition, Predicate.shape, PredicateShape.sample, List.map_cons,
            List.map_map] at hp hn ⊢
          rw [hp]
          obtain ⟨he, hm⟩ := equality_inStep (.at (.param _)) value hn
          rw [he]
          obtain ⟨ha, hl⟩ := equalityAny_inStep (.at (.param _)) rest _ _ _ hm
          exact ⟨congrArg Expr.group ha, hl⟩

theorem conditions_inStep : ∀ (ps : List Predicate) (b c : Binder), b.next = c.next →
    InStep (conditions ps b) (conditions ((ps.map Predicate.shape).map PredicateShape.sample) c)
  | [], _, _, h => ⟨rfl, h⟩
  | p :: rest, b, c, h => by
      obtain ⟨he, hn⟩ := p.condition_inStep h
      obtain ⟨hes, hm⟩ := conditions_inStep rest _ _ hn
      refine ⟨?_, hm⟩
      simp only [conditions, List.map_cons, he, hes]

theorem Target.key_inStep (t : Target) (h : b.next = c.next) :
    InStep (t.key b) ((Target.sample t.column?).key c) := by
  cases t with
  | column column => exact ⟨rfl, h⟩
  | path p =>
      refine ⟨?_, congrArg Nat.succ h⟩
      simp only [Target.key, Target.column?, Target.sample, Supply.bind, Binder.bind, h]

end inStep

/-! ### Statements -/

/-- A plan has the expressions and the numbers of the sample of its shape. -/
theorem statement_sample (plan : Plan) (first : Nat) :
    let s := plan.statement first
    let t := plan.shape.sample.statement first
    s.conditions = t.conditions ∧ s.key = t.key ∧ s.limit = t.limit ∧ s.offset = t.offset := by
  obtain ⟨hc, hn⟩ := conditions_inStep plan.predicates ⟨first, []⟩ ⟨first, []⟩ rfl
  obtain ⟨hk, hm⟩ := plan.order.target.key_inStep
    (b := (conditions plan.predicates (⟨first, []⟩ : Binder)).2.take.2)
    (c := (conditions plan.shape.sample.predicates (⟨first, []⟩ : Binder)).2.take.2) hn
  exact ⟨hc, hk, hm, congrArg Nat.succ hm⟩

/-- The text of a statement is a function of the shape of its plan: two searches of one shape,
whatever their paths, values and windows, are put to the database in the same words. -/
theorem statement_text_eq {p q : Plan} (h : p.shape = q.shape) (table : Table) (first : Nat) :
    let s := p.statement first
    let t := q.statement first
    textOf (s.conditionTokens table) = textOf (t.conditionTokens table) ∧
      textOf (s.orderTokens table) = textOf (t.orderTokens table) ∧
      textOf s.pageTokens = textOf t.pageTokens := by
  have hd : (p.statement first).direction = (q.statement first).direction :=
    congrArg Shape.direction h
  obtain ⟨hc, hk, hl, ho⟩ := statement_sample p first
  obtain ⟨hc', hk', hl', ho'⟩ := statement_sample q first
  rw [h] at hc hk hl ho
  refine ⟨?_, ?_, ?_⟩
  · rw [Statement.conditionTokens, Statement.conditionTokens, hc, hc']
  · rw [Statement.orderTokens, Statement.orderTokens, hk, hk', hd]
  · rw [Statement.pageTokens, Statement.pageTokens, hl, hl', ho, ho']

/-- A quotation mark in a value and another path and window leave the text as it is. -/
theorem statement_text_eq_hostile :
    let p : Plan := ⟨[.equals .sample (.string "x' OR '1'='1"), .among .sample [.null, .array []]],
      Order.standard, ⟨50, 0⟩⟩
    let q : Plan := ⟨[.equals ⟨[['b'], ['c']], by decide, by decide⟩ (.string ""),
      .among .sample [.null, .array [.bool true]]], Order.standard, ⟨7, 3⟩⟩
    p.shape = q.shape ∧
      textOf ((p.statement 3).conditionTokens .standard) =
        textOf ((q.statement 3).conditionTokens .standard) ∧
      textOf ((p.statement 3).orderTokens .standard) =
        textOf ((q.statement 3).orderTokens .standard) ∧
      textOf (p.statement 3).pageTokens = textOf (q.statement 3).pageTokens := by
  intro p q
  have h : p.shape = q.shape := by decide
  exact ⟨h, statement_text_eq h .standard 3⟩

end EntityStore.Query
