import EntityStore.Proofs.Query.Literals
import EntityStore.Proofs.Query.Paths

/-! # Which searches compile

A search compiles exactly if each filter names a path and has a value that fits its operator
(`Filter.Acceptable`), and what it is ordered by is nothing, a column or a path (`Orderable`).  Then
there is one predicate for each filter, in order, that says the same (`Filter.Means`).  Otherwise
nothing is compiled: the error is the one of the first filter that is not acceptable, which is about
its property before its value (`Filter.Outcome`), or the one of the ordering if all filters are
(`compile_all_or_nothing`). -/

namespace EntityStore.Query

/-! ### Filters -/

/-- What an operator expects of a value, if it does not take all of them. -/
def Operator.expected? : Operator → Option Expected
  | equal | notEqual | contains => none
  | greater | greaterEqual | less | lessEqual => some .number
  | present => some .boolean
  | among => some .array

namespace Filter

/-- The value is one that the operator takes. -/
def ValueFits (f : Filter) : Prop :=
  match f.operator with
  | .equal | .notEqual | .contains => True
  | .greater | .greaterEqual | .less | .lessEqual => ∃ n, StandsFor f.value n
  | .present => ∃ present, f.value = .bool present
  | .among => ∃ values, f.value = .array values

/-- The property is a path and the value fits. -/
structure Acceptable (f : Filter) : Prop where
  path : IsPath f.property
  value : f.ValueFits

/-- The predicate has the kind of the operator, is about the property and carries the value. -/
inductive Means : Filter → Predicate → Prop
  | equals {path : Path} {value : Json} : Means ⟨path.display, .equal, value⟩ (.equals path value)
  | notEquals {path : Path} {value : Json} :
      Means ⟨path.display, .notEqual, value⟩ (.notEquals path value)
  | compares {path : Path} {operator : Operator} {relation : Comparison} {value : Json}
      {n : Number} : operator.comparison? = some relation → StandsFor value n →
      Means ⟨path.display, operator, value⟩ (.compares path relation n)
  | contains {path : Path} {value : Json} :
      Means ⟨path.display, .contains, value⟩ (.contains path value)
  | presence {path : Path} {present : Bool} :
      Means ⟨path.display, .present, .bool present⟩ (.presence path present)
  | among {path : Path} {values : List Json} :
      Means ⟨path.display, .among, .array values⟩ (.among path values)

/-- What can come of a filter.  A property that is no path is refused before the value is looked
at. -/
inductive Outcome (f : Filter) : Except Error Predicate → Prop
  | noPath {fault : PathFault} : ¬ IsPath f.property →
      Outcome f (.error (.invalidProperty f.property fault))
  | misfit {expected : Expected} : IsPath f.property → ¬ f.ValueFits →
      f.operator.expected? = some expected →
      Outcome f (.error (.invalidValue f.property f.operator expected))
  | predicate {p : Predicate} : f.Acceptable → f.Means p → Outcome f (.ok p)

/-- A comparison takes what stands for a number. -/
theorem outcome_comparison {path : Path} {operator : Operator} {relation : Comparison}
    (value : Json) (hpath : IsPath path.display) (hrelation : operator.comparison? = some relation)
    (hexpected : operator.expected? = some .number)
    (hfits : ValueFits ⟨path.display, operator, value⟩ ↔ ∃ n, StandsFor value n) :
    Outcome ⟨path.display, operator, value⟩
      (match operand? value with
        | some n => .ok (.compares path relation n)
        | none => .error (.invalidValue path.display operator .number)) := by
  cases hvalue : operand? value with
  | some n =>
      have hstands := operand?_eq_some.mp hvalue
      exact .predicate ⟨hpath, hfits.mpr ⟨n, hstands⟩⟩ (.compares hrelation hstands)
  | none =>
      refine .misfit hpath (fun h => ?_) hexpected
      obtain ⟨n, hstands⟩ := hfits.mp h
      rw [operand?_eq_some.mpr hstands] at hvalue
      cases hvalue

theorem outcome_predicateAt {path : Path} (operator : Operator) (value : Json)
    (hpath : IsPath path.display) :
    Outcome ⟨path.display, operator, value⟩ (predicateAt ⟨path.display, operator, value⟩ path) := by
  cases operator with
  | equal => exact .predicate ⟨hpath, trivial⟩ .equals
  | notEqual => exact .predicate ⟨hpath, trivial⟩ .notEquals
  | contains => exact .predicate ⟨hpath, trivial⟩ .contains
  | greater => exact outcome_comparison value hpath rfl rfl Iff.rfl
  | greaterEqual => exact outcome_comparison value hpath rfl rfl Iff.rfl
  | less => exact outcome_comparison value hpath rfl rfl Iff.rfl
  | lessEqual => exact outcome_comparison value hpath rfl rfl Iff.rfl
  | present =>
      cases value with
      | bool present => exact .predicate ⟨hpath, present, rfl⟩ .presence
      | null | number _ | string _ | array _ | object _ => exact .misfit hpath nofun rfl
  | among =>
      cases value with
      | array values => exact .predicate ⟨hpath, values, rfl⟩ .among
      | null | bool _ | number _ | string _ | object _ => exact .misfit hpath nofun rfl

theorem outcome (f : Filter) : f.Outcome f.compile := by
  obtain ⟨property, operator, value⟩ := f
  by_cases hpath : IsPath property
  · obtain ⟨path, hread⟩ := exists_readPath_iff.mpr hpath
    obtain rfl := display_of_readPath hread
    rw [compile, hread]
    exact outcome_predicateAt operator value hpath
  · obtain ⟨fault, hread⟩ := exists_error_of_not_isPath hpath
    rw [compile, hread]
    exact .noPath hpath

variable {f : Filter} {p : Predicate}

theorem means_of_compile (h : f.compile = .ok p) : f.Acceptable ∧ f.Means p := by
  have houtcome := f.outcome
  rw [h] at houtcome
  cases houtcome with
  | predicate haccepted hmeans => exact ⟨haccepted, hmeans⟩

theorem exists_compile_iff : (∃ p, f.compile = .ok p) ↔ f.Acceptable := by
  refine ⟨fun ⟨p, hp⟩ => (means_of_compile hp).1, fun h => ?_⟩
  have houtcome := f.outcome
  generalize f.compile = answer at houtcome
  cases houtcome with
  | noPath hnot => exact absurd h.path hnot
  | misfit _ hnot => exact absurd h.value hnot
  | predicate => exact ⟨_, rfl⟩

theorem exists_error_of_not_acceptable (h : ¬ f.Acceptable) : ∃ e, f.compile = .error e := by
  cases hcompile : f.compile with
  | ok p => exact absurd (means_of_compile hcompile).1 h
  | error e => exact ⟨e, rfl⟩

/-! ### Lists of filters -/

/-- All filters are compiled, one after the other. -/
theorem compileAll_eq_ok : ∀ {fs : List Filter} {ps : List Predicate},
    compileAll fs = .ok ps ↔ List.Forall₂ (fun f p => f.compile = .ok p) fs ps
  | [], ps => by
      rw [compileAll, List.forall₂_nil_left_iff, Except.ok.injEq, eq_comm]
  | f :: fs, ps => by
      rw [compileAll, List.forall₂_cons_left_iff]
      cases hf : f.compile with
      | error e => exact iff_of_false nofun fun ⟨_, _, h, _, _⟩ => nomatch h
      | ok p =>
          dsimp only
          constructor
          · intro h
            cases hfs : compileAll fs with
            | error e => rw [hfs] at h; cases h
            | ok qs =>
                rw [hfs] at h
                cases h
                exact ⟨p, qs, rfl, compileAll_eq_ok.mp hfs, rfl⟩
          · rintro ⟨q, qs, hq, hqs, rfl⟩
            cases hq
            rw [compileAll_eq_ok.mpr hqs]

theorem exists_compileAll_iff {fs : List Filter} :
    (∃ ps, compileAll fs = .ok ps) ↔ ∀ f ∈ fs, f.Acceptable := by
  simp only [compileAll_eq_ok]
  induction fs with
  | nil => exact iff_of_true ⟨[], .nil⟩ nofun
  | cons f fs ih =>
      rw [List.forall_mem_cons, ← ih, ← exists_compile_iff]
      constructor
      · rintro ⟨ps, h⟩
        cases h with
        | cons hp hps => exact ⟨⟨_, hp⟩, _, hps⟩
      · rintro ⟨⟨p, hp⟩, ps, hps⟩
        exact ⟨p :: ps, .cons hp hps⟩

/-- The first filter that is refused decides. -/
theorem compileAll_append_error {before after : List Filter} {e : Error}
    (hbefore : ∀ g ∈ before, g.Acceptable) (hf : f.compile = .error e) :
    compileAll (before ++ f :: after) = .error e := by
  induction before with
  | nil => rw [List.nil_append, compileAll, hf]
  | cons g before ih =>
      obtain ⟨hg, hrest⟩ := List.forall_mem_cons.mp hbefore
      obtain ⟨p, hp⟩ := exists_compile_iff.mpr hg
      rw [List.cons_append, compileAll, hp]
      dsimp only
      rw [ih hrest]

end Filter

/-! ### Orderings -/

/-- Results can be ordered by this: by nothing, a column or a path. -/
def Orderable (orderBy : Option String) : Prop :=
  ∀ text ∈ orderBy, Text.trim text = "" ∨
    Text.trim text ∈ ["created_at", "updated_at", "identifier", "title"] ∨ IsPath (Text.trim text)

theorem Column.ofName?_isSome {text : String} : (ofName? text).isSome = true ↔
    text ∈ ["created_at", "updated_at", "identifier", "title"] := by
  have hnames : ["created_at", "updated_at", "identifier", "title"] = all.map name := rfl
  rw [ofName?, List.find?_isSome, hnames, List.mem_map]
  simp only [decide_eq_true_eq]

/-- What comes of what results are ordered by. -/
theorem Order.compile_cases (orderBy : Option String) (direction : Option Direction) :
    Orderable orderBy ∧ (∃ order, Order.compile orderBy direction = .ok order) ∨
      ∃ text fault, orderBy = some text ∧ ¬ Orderable orderBy ∧
        Order.compile orderBy direction = .error (.invalidProperty (Text.trim text) fault) := by
  rw [Order.compile]
  cases orderBy with
  | none => exact .inl ⟨nofun, _, rfl⟩
  | some text =>
      have horderable : Orderable (some text) ↔ Text.trim text = "" ∨
          Text.trim text ∈ ["created_at", "updated_at", "identifier", "title"] ∨
            IsPath (Text.trim text) := by
        simp only [Orderable, Option.mem_def, Option.some.injEq, forall_eq']
      rw [horderable]
      simp only [Option.map_some, Option.getD_some]
      split
      · next hempty => exact .inl ⟨.inl (String.isEmpty_iff.mp hempty), _, rfl⟩
      · next hempty =>
          split
          · next column hcolumn =>
              have hname := Column.ofName?_isSome.mp (Option.isSome_iff_exists.mpr ⟨column, hcolumn⟩)
              exact .inl ⟨.inr (.inl hname), _, rfl⟩
          · next hcolumn =>
              by_cases hpath : IsPath (Text.trim text)
              · obtain ⟨path, hread⟩ := exists_readPath_iff.mpr hpath
                rw [hread]
                exact .inl ⟨.inr (.inr hpath), _, rfl⟩
              · obtain ⟨fault, hread⟩ := exists_error_of_not_isPath hpath
                rw [hread]
                refine .inr ⟨text, fault, rfl, ?_, rfl⟩
                rintro (h | h | h)
                · exact hempty (String.isEmpty_iff.mpr h)
                · rw [← Column.ofName?_isSome, hcolumn] at h
                  cases h
                · exact hpath h

/-! ### Searches -/

variable {limits : Limits} {s : Search}

/-- The predicates of a plan come from the filters. -/
theorem Search.predicates_of_compile {plan : Plan} (h : s.compile limits = .ok plan) :
    Filter.compileAll s.filters = .ok plan.predicates ∧
      ∃ order, Order.compile s.orderBy s.direction = .ok order := by
  rw [Search.compile] at h
  cases hfilters : Filter.compileAll s.filters with
  | error e => rw [hfilters] at h; cases h
  | ok predicates =>
      cases horder : Order.compile s.orderBy s.direction with
      | error e => rw [hfilters, horder] at h; cases h
      | ok order =>
          rw [hfilters, horder] at h
          cases h
          exact ⟨rfl, order, rfl⟩

theorem Search.compile_of_filters_error {e : Error} (h : Filter.compileAll s.filters = .error e) :
    s.compile limits = .error e := by
  rw [Search.compile, h]

theorem Search.compile_of_order_error {predicates : List Predicate} {e : Error}
    (hfilters : Filter.compileAll s.filters = .ok predicates)
    (horder : Order.compile s.orderBy s.direction = .error e) : s.compile limits = .error e := by
  rw [Search.compile, hfilters, horder]

theorem Search.exists_compile_iff : (∃ plan, s.compile limits = .ok plan) ↔
    (∀ f ∈ s.filters, f.Acceptable) ∧ Orderable s.orderBy := by
  constructor
  · rintro ⟨plan, hplan⟩
    obtain ⟨hfilters, order, horder⟩ := predicates_of_compile hplan
    refine ⟨Filter.exists_compileAll_iff.mp ⟨_, hfilters⟩, ?_⟩
    obtain ⟨horderable, -⟩ | ⟨text, fault, -, -, herror⟩ :=
      Order.compile_cases s.orderBy s.direction
    · exact horderable
    · rw [herror] at horder
      cases horder
  · rintro ⟨hfilters, horderable⟩
    obtain ⟨predicates, hpredicates⟩ := Filter.exists_compileAll_iff.mpr hfilters
    obtain ⟨-, order, horder⟩ | ⟨text, fault, -, hnot, -⟩ :=
      Order.compile_cases s.orderBy s.direction
    · exact ⟨_, by rw [Search.compile, hpredicates, horder]⟩
    · exact absurd horderable hnot

/-- The window that is asked for, and its limits, have no part in an error. -/
theorem Search.compile_error_window {e : Error} (limits' : Limits) (limit offset : Option Int64)
    (h : s.compile limits = .error e) : { s with limit, offset }.compile limits' = .error e := by
  rw [Search.compile] at h ⊢
  dsimp only
  cases hfilters : Filter.compileAll s.filters with
  | error e' => rw [hfilters] at h; exact h
  | ok predicates =>
      cases horder : Order.compile s.orderBy s.direction with
      | error e' => rw [hfilters, horder] at h; exact h
      | ok order => rw [hfilters, horder] at h; cases h

/-- A search compiles exactly if all its filters are acceptable and it is ordered by nothing, a
column or a path.  Each filter then has its predicate, which says the same.  Otherwise the first
filter that is not acceptable gives the error, and where there is none the ordering does; the window
never does. -/
theorem compile_all_or_nothing (limits : Limits) (s : Search) :
    ((∃ plan, s.compile limits = .ok plan) ↔
      (∀ f ∈ s.filters, f.Acceptable) ∧ Orderable s.orderBy) ∧
    (∀ plan, s.compile limits = .ok plan → List.Forall₂ Filter.Means s.filters plan.predicates) ∧
    (∀ before f after, s.filters = before ++ f :: after → (∀ g ∈ before, g.Acceptable) →
      ¬ f.Acceptable → ∃ e, s.compile limits = .error e ∧ f.Outcome (.error e)) ∧
    ((∀ f ∈ s.filters, f.Acceptable) → ¬ Orderable s.orderBy → ∃ text fault,
      s.orderBy = some text ∧
        s.compile limits = .error (.invalidProperty (Text.trim text) fault)) ∧
    (∀ limits' limit offset e, s.compile limits = .error e →
      { s with limit, offset }.compile limits' = .error e) := by
  refine ⟨Search.exists_compile_iff, fun plan hplan => ?_, ?_, fun hfilters hnot => ?_,
    fun limits' limit offset e => Search.compile_error_window limits' limit offset⟩
  · obtain ⟨hfilters, -⟩ := Search.predicates_of_compile hplan
    exact (Filter.compileAll_eq_ok.mp hfilters).imp fun _ _ h => (Filter.means_of_compile h).2
  · intro before f after hsplit hbefore hf
    obtain ⟨e, he⟩ := Filter.exists_error_of_not_acceptable hf
    have houtcome := f.outcome
    rw [he] at houtcome
    refine ⟨e, Search.compile_of_filters_error ?_, houtcome⟩
    rw [hsplit]
    exact Filter.compileAll_append_error hbefore he
  · obtain ⟨predicates, hpredicates⟩ := Filter.exists_compileAll_iff.mpr hfilters
    obtain ⟨horderable, -⟩ | ⟨text, fault, htext, -, herror⟩ :=
      Order.compile_cases s.orderBy s.direction
    · exact absurd horderable hnot
    · exact ⟨text, fault, htext, Search.compile_of_order_error hpredicates herror⟩

/-- Large services of an owner, by title. -/
def largeSearch : Search :=
  ⟨"service", [⟨"size", .lessEqual, .string " 25e-1 "⟩, ⟨"owner.name", .present, .bool true⟩],
    some " title ", none, some 500, some (-1)⟩

/-- The second filter has a path with a gap and a value that does not fit, the third one another
value that does not fit. -/
def gapSearch : Search :=
  ⟨"service", [⟨"size", .greater, .number (.integer 5)⟩, ⟨"owner..name", .present, .null⟩,
    ⟨"size", .among, .null⟩], some "a;b", none, none, none⟩

theorem compile_all_or_nothing_gap :
    (∃ plan, largeSearch.compile .standard = .ok plan ∧
      List.Forall₂ Filter.Means largeSearch.filters plan.predicates) ∧
    (∃ fault, gapSearch.compile .standard = .error (.invalidProperty "owner..name" fault)) ∧
    ∃ fault, { gapSearch with filters := [] }.compile .standard =
      .error (.invalidProperty "a;b" fault) := by
  have hsize : IsPath "size" := exists_readPath_iff.mp ⟨_, rfl⟩
  have hgap : ¬ IsPath "owner..name" := fun h =>
    absurd (Path.mem_grammar_iff.mp h.grammar [] (by decide)) (by decide)
  have hunordered : ¬ Orderable (some "a;b") := by
    rintro h
    obtain h | h | h := h "a;b" rfl
    · exact absurd h (by decide)
    · exact absurd h (by decide)
    · exact absurd (Path.mem_grammar_iff.mp h.grammar ['a', ';', 'b'] (by decide)) (by decide)
  refine ⟨?_, ?_, ?_⟩
  · obtain ⟨hsome, hmeans, -⟩ := compile_all_or_nothing .standard largeSearch
    have hnumber : ∃ n, StandsFor (.string " 25e-1 ") n :=
      Option.isSome_iff_exists.mp (by decide +kernel : (operand? (.string " 25e-1 ")).isSome = true)
        |>.imp fun _ => operand?_eq_some.mp
    have hname : IsPath "owner.name" := exists_readPath_iff.mp ⟨_, rfl⟩
    have htitle : Orderable (some " title ") := by
      rintro _ ⟨⟩
      exact .inr (.inl (by decide))
    obtain ⟨plan, hplan⟩ := hsome.mpr ⟨List.forall_mem_cons.mpr ⟨⟨hsize, hnumber⟩,
      List.forall_mem_singleton.mpr ⟨hname, true, rfl⟩⟩, htitle⟩
    exact ⟨plan, hplan, hmeans plan hplan⟩
  · obtain ⟨-, -, herror, -⟩ := compile_all_or_nothing .standard gapSearch
    obtain ⟨e, he, houtcome⟩ := herror [⟨"size", .greater, .number (.integer 5)⟩]
      ⟨"owner..name", .present, .null⟩ [⟨"size", .among, .null⟩] rfl
      (List.forall_mem_singleton.mpr ⟨hsize, .integer 5, .number _⟩) (fun h => hgap h.path)
    cases houtcome with
    | noPath => exact ⟨_, he⟩
    | misfit hpath => exact absurd hpath hgap
  · obtain ⟨-, -, -, herror, -⟩ := compile_all_or_nothing .standard { gapSearch with filters := [] }
    obtain ⟨text, fault, htext, he⟩ := herror nofun hunordered
    cases htext
    exact ⟨fault, he⟩

end EntityStore.Query
