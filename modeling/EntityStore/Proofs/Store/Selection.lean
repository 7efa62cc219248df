import EntityStore.Proofs.Query.Documents
import EntityStore.Proofs.Store.Listing
import EntityStore.Proofs.Store.Validation

/-! # Rows that a predicate selects

`selects` runs the condition of a search for one predicate on one row, with the placeholders and the
limit of depth that the search has.  Inside the limits of the engine it answers whether the document
of the row meets the predicate (`selects_eq`).

This is what a search does: the rows that it counts and pages are those that each of its predicates
selects (`search_selects`), and it has an answer where the predicates have one
(`search_of_selects`).  What the store holds is in the domain of these conditions: a row has the text
of a document that its column takes (`Reachable.inColumn`). -/

namespace EntityStore.Store

open Query (Decides Order Path Plan Predicate Subject)
open Sql (Expr Fault Param)

/-! ### Running one condition -/

/-- The plan of a search for one predicate. -/
def planFor (p : Predicate) : Plan := ⟨[p], Order.standard, ⟨0, 0⟩⟩

/-- The condition of a predicate is true of a row. -/
def selects (p : Predicate) (r : EntityRow) : Except Fault Bool :=
  let s := (planFor p).statement firstPlaceholder
  if maxDepth < conditionDepth s.conditions then .error .tooDeep
  else
    holdsAll (scopeOf (boundTo r.tenant r.blueprint s.countValues) r)
      (evaluationOrder s.conditions)

/-- The depth of the condition of a predicate. -/
def predicateDepth (p : Predicate) : Nat := conditionDepth [p.inPlace]

section conditions
variable {π : Type} {scope : Sql.Scope π} {bound : π → Sql.Value} {es : List (Expr π)}

theorem le_height_foldl : ∀ (es : List (Expr π)) (e : Expr π),
    e.height ≤ (es.foldl .and e).height ∧ ∀ x ∈ es, x.height ≤ (es.foldl .and e).height
  | [], _ => ⟨Nat.le_refl _, nofun⟩
  | x :: rest, e => by
      obtain ⟨hfirst, hrest⟩ := le_height_foldl rest (.and e x)
      rw [Expr.height] at hfirst
      refine ⟨Nat.le_trans (by omega) hfirst, List.forall_mem_cons.mpr ⟨?_, hrest⟩⟩
      exact Nat.le_trans (by omega) hfirst

/-- A condition is not deeper than the conditions that it is one of. -/
theorem conditionDepth_le_of_mem {e : Expr π} (h : e ∈ es) :
    conditionDepth [e] ≤ conditionDepth es := by
  have hheight : e.height ≤ (Query.conjunction es).height := by
    cases es with
    | nil => cases h
    | cons x rest =>
        obtain ⟨hfirst, hrest⟩ := le_height_foldl rest x
        exact (List.mem_cons.mp h).elim (fun heq => heq ▸ hfirst) (hrest e)
  have hone : conditionDepth [e] = max 4 e.height + 1 := rfl
  rw [hone, conditionDepth]
  omega

theorem holdsAll_eq_true : ∀ {es : List (Expr π)}, holdsAll scope es = .ok true ↔
    ∀ e ∈ es, Decides (e.eval scope) true
  | [] => iff_of_true rfl nofun
  | e :: rest => by
      rw [List.forall_mem_cons, ← holdsAll_eq_true, holdsAll, Decides]
      cases e.eval scope with
      | error f => simp
      | ok v => by_cases htrue : v.truth = some true <;> simp [htrue]

/-- The rows that match are those of which all conditions are true. -/
theorem eq_filter_of_matching : ∀ {rows matched : List EntityRow},
    matching bound es rows = .ok matched →
    matched = rows.filter fun r =>
      decide (holdsAll (scopeOf bound r) (evaluationOrder es) = .ok true)
  | [], _, h => by
      cases h
      rfl
  | r :: rest, _, h => by
      rw [matching] at h
      split at h
      · cases h
      · next holds hholds =>
          split at h
          · cases h
          · next rs hrest =>
              cases h
              rw [List.filter_cons, ← eq_filter_of_matching hrest, hholds]
              cases holds <;> rfl

theorem exists_matching : ∀ {rows : List EntityRow},
    (∀ r ∈ rows, ∃ holds, holdsAll (scopeOf bound r) (evaluationOrder es) = .ok holds) →
    ∃ matched, matching bound es rows = .ok matched
  | [], _ => ⟨[], rfl⟩
  | r :: rest, h => by
      obtain ⟨⟨holds, hholds⟩, hrest⟩ := List.forall_mem_cons.mp h
      obtain ⟨matched, hmatched⟩ := exists_matching hrest
      exact ⟨_, by rw [matching, hholds, hmatched]⟩

end conditions

section selects
variable {p : Predicate} {r : EntityRow}

theorem selects_tooDeep (h : maxDepth < predicateDepth p) : selects p r = .error .tooDeep := by
  have hdepth : maxDepth < conditionDepth ((planFor p).statement firstPlaceholder).conditions := by
    rw [conditionDepth_statement]
    exact h
  rw [selects]
  exact if_pos hdepth

/-- A condition that is not too deep is evaluated with its values in place. -/
theorem selects_eval (h : predicateDepth p ≤ maxDepth) :
    selects p r =
      (p.inPlace.eval ⟨Param.value, r.view, none⟩).map fun v => decide (v.truth = some true) := by
  let bound := boundTo r.tenant r.blueprint ((planFor p).statement firstPlaceholder).countValues
  have hshallow : ¬ maxDepth <
      conditionDepth ((planFor p).statement firstPlaceholder).conditions := by
    rw [conditionDepth_statement]
    exact Nat.not_lt.mpr h
  have hcount : ((planFor p).statement firstPlaceholder).conditions.map (Expr.map bound) =
      [p.inPlace.map Param.value] :=
    (Query.ownValues_boundTo (planFor p) r.tenant r.blueprint).count
  obtain ⟨e, he, hmap⟩ := List.map_eq_singleton_iff.mp hcount
  -- the values themselves are put in the place of both kinds of placeholder
  have heval : e.eval (scopeOf bound r) = p.inPlace.eval ⟨Param.value, r.view, none⟩ := by
    have hleft := Expr.eval_map bound id r.view e none
    rw [hmap, Expr.eval_map Param.value id r.view p.inPlace none] at hleft
    exact hleft.symm
  have horder : evaluationOrder [e] = [e] := by
    cases hvisits : e.visitsElements <;> simp [evaluationOrder, hvisits]
  rw [selects]
  refine (if_neg hshallow).trans ?_
  rw [he, horder, holdsAll, heval]
  cases p.inPlace.eval ⟨Param.value, r.view, none⟩ with
  | error f => rfl
  | ok v => cases htruth : decide (v.truth = some true) <;> simp_all [Except.map, holdsAll]

theorem selects_eq_ok (hdepth : predicateDepth p ≤ maxDepth) {answer : Bool} :
    selects p r = .ok answer ↔ Decides (p.inPlace.eval ⟨Param.value, r.view, none⟩) answer := by
  rw [selects_eval hdepth, Decides]
  cases p.inPlace.eval ⟨Param.value, r.view, none⟩ with
  | error f => exact iff_of_false nofun fun ⟨_, h, _⟩ => nomatch h
  | ok v => simp [Except.map]

theorem selects_of_decides (hdepth : predicateDepth p ≤ maxDepth) {answer : Bool}
    (h : Decides (p.inPlace.eval ⟨Param.value, r.view, none⟩) answer) :
    selects p r = .ok answer :=
  (selects_eq_ok hdepth).mpr h

/-- Inside the limits of the engine the condition says whether the document meets the predicate. -/
theorem selects_eq (h : p.Fits) (hdepth : predicateDepth p ≤ maxDepth) :
    selects p r = .ok (p.holds r.data) :=
  selects_of_decides hdepth (p.inPlace_eval h r.view)

end selects

/-! ### Searches -/

/-- Each of the predicates selects the row. -/
def selectedBy (ps : List Predicate) (r : EntityRow) : Bool :=
  ps.all fun p => selects p r = .ok true

section search
variable {ps : List Predicate} {r : EntityRow} {t : Tables} {tenant blueprint : String} {plan : Plan}
  {limits : Query.Limits} {request : Query.Search}

theorem predicateDepth_le_of_mem (hdepth : conditionDepth (ps.map Predicate.inPlace) ≤ maxDepth) :
    ∀ p ∈ ps, predicateDepth p ≤ maxDepth := fun _ hp =>
  Nat.le_trans (conditionDepth_le_of_mem (List.mem_map_of_mem hp)) hdepth

theorem holdsAll_eq_true_iff_selects
    (hdepth : conditionDepth (ps.map Predicate.inPlace) ≤ maxDepth) :
    holdsAll (scopeOf Param.value r) (evaluationOrder (ps.map Predicate.inPlace)) = .ok true ↔
      selectedBy ps r = true := by
  simp only [holdsAll_eq_true, (perm_evaluationOrder _).mem_iff, List.forall_mem_map, selectedBy,
    List.all_eq_true, decide_eq_true_eq]
  exact forall₂_congr fun p hp => (selects_eq_ok (predicateDepth_le_of_mem hdepth p hp)).symm

/-- The conditions have a value if each of them has. -/
theorem exists_holdsAll (hdepth : conditionDepth (ps.map Predicate.inPlace) ≤ maxDepth)
    (h : ∀ p ∈ ps, ∃ answer, selects p r = .ok answer) : ∃ holds,
    holdsAll (scopeOf Param.value r) (evaluationOrder (ps.map Predicate.inPlace)) = .ok holds := by
  refine ⟨_, holdsAll_eq _ fun e he => ?_⟩
  obtain ⟨p, hp, rfl⟩ := List.mem_map.mp ((perm_evaluationOrder _).mem_iff.mp he)
  obtain ⟨answer, hanswer⟩ := h p hp
  exact ⟨answer, (selects_eq_ok (predicateDepth_le_of_mem hdepth p hp)).mp hanswer⟩

theorem eq_filter_of_found {rows : List EntityRow} (h : found t tenant blueprint plan = .ok rows) :
    rows = (t.entitiesOf tenant blueprint).filter (selectedBy plan.predicates) := by
  obtain ⟨htaken, hmatching⟩ := found_eq_ok.mp h
  rw [eq_filter_of_matching hmatching]
  refine List.filter_congr fun r _ => Bool.eq_iff_iff.mpr ?_
  rw [decide_eq_true_eq]
  exact holdsAll_eq_true_iff_selects htaken.depth

/-- A search that is answered has counted the rows that each of its predicates selects, and answers
a page of them. -/
theorem search_selects [FloatReader] (hplan : request.compile limits = .ok plan) {page : EntityPage}
    (h : search limits tenant request t = .ok page) :
    answerFound plan.order plan.page (.ok ((t.entitiesOf tenant request.blueprint).filter
      (selectedBy plan.predicates))) = .ok page := by
  rw [search_eq_found hplan] at h
  obtain ⟨rows, es, hfound, -, -⟩ := answerFound_eq_ok.mp h
  rwa [← eq_filter_of_found hfound, ← hfound]

/-- A search is evaluated if its predicates are, on each row of the blueprint. -/
theorem search_of_selects [FloatReader] (hplan : request.compile limits = .ok plan) (htaken : Taken plan)
    (h : ∀ r ∈ t.entitiesOf tenant request.blueprint, ∀ p ∈ plan.predicates,
      ∃ answer, selects p r = .ok answer) :
    search limits tenant request t = answerFound plan.order plan.page
      (.ok ((t.entitiesOf tenant request.blueprint).filter (selectedBy plan.predicates))) := by
  obtain ⟨rows, hrows⟩ := exists_matching fun r hr => exists_holdsAll htaken.depth (h r hr)
  have hfound : found t tenant request.blueprint plan = .ok rows :=
    found_eq_ok.mpr ⟨htaken, hrows⟩
  rw [search_eq_found hplan, hfound, eq_filter_of_found hfound]

end search

/-! ### Depths of conditions -/

section depth
variable {s : Subject Param}

theorem height_equality_le (hkind : s.kind.height ≤ 3) (hvalue : s.value.height ≤ 3)
    (value : Json) : (Query.equality s value ()).1.height ≤ 5 := by
  cases value with
  | bool b =>
      cases b <;> simp only [Query.equality, Query.isKind, Expr.height] <;> omega
  | _ =>
      simp only [Query.equality, Query.isKind, Query.isNumeric, Query.Supply.bind_unit, Expr.height]
      omega

/-- A chain of equalities is deeper by at most one for each value. -/
theorem height_equalityAny_le (hkind : s.kind.height ≤ 3) (hvalue : s.value.height ≤ 3) :
    ∀ (values : List Json) (e : Expr Param),
      (Query.equalityAny s e values ()).1.height ≤ max e.height 5 + values.length
  | [], e => Nat.le_max_left _ _
  | value :: rest, e => by
      have hrest := height_equalityAny_le hkind hvalue rest (.or e (Query.equality s value ()).1)
      have hequality := height_equality_le hkind hvalue value
      rw [Expr.height] at hrest
      rw [Query.equalityAny, List.length_cons]
      refine Nat.le_trans hrest ?_
      omega

end depth

theorem height_at (path : Path) :
    (Subject.at (.param (Param.text path.jsonPath))).kind.height = 3 ∧
      (Subject.at (.param (Param.text path.jsonPath))).value.height = 3 :=
  ⟨rfl, rfl⟩

/-- The condition for one of several values is as deep as there are values, and a little more. -/
theorem predicateDepth_among_le (path : Path) (values : List Json) :
    predicateDepth (.among path values) ≤ values.length + 5 := by
  obtain ⟨hkind, hvalue⟩ := height_at path
  cases values with
  | nil => exact Nat.le_of_ble_eq_true rfl
  | cons value rest =>
      have hfirst := height_equality_le hkind.le hvalue.le value
      have hrest := height_equalityAny_le hkind.le hvalue.le rest
        (Query.equality (.at (.param (Param.text path.jsonPath))) value ()).1
      have hheight : predicateDepth (.among path (value :: rest)) =
          max 4 (Query.equalityAny (.at (.param (Param.text path.jsonPath)))
            (Query.equality (.at (.param (Param.text path.jsonPath))) value ()).1 rest ()).1.height
            + 1 := rfl
      rw [hheight, List.length_cons]
      omega

/-- A condition has no more placeholders than its depth allows. -/
theorem length_values_le (p : Predicate) : p.values.length ≤ predicateDepth p + 1 := by
  have hequality : ∀ value : Json, (Query.equalityValues value).length ≤ 1 := fun value => by
    cases value <;> simp [Query.equalityValues]
  have hdepth : predicateDepth p = max 4 p.inPlace.height + 1 := rfl
  cases p with
  | equals path value | notEquals path value =>
      have hvalue := hequality value
      rw [Predicate.values, List.length_cons]
      omega
  | contains path needle =>
      have hneedle := hequality needle
      rw [Predicate.values, List.length_cons, List.length_append, List.length_singleton]
      omega
  | compares path relation n =>
      have htwo : (Predicate.compares path relation n).values.length = 2 := rfl
      omega
  | presence path present =>
      have hone : (Predicate.presence path present).values.length = 1 := rfl
      omega
  | among path values =>
      have hvalues : (values.flatMap Query.equalityValues).length ≤ values.length := by
        rw [List.length_flatMap]
        exact (List.sum_le_card_nsmul _ 1 (by simpa using fun v _ => hequality v)).trans (by simp)
      rw [Predicate.values, List.length_cons]
      refine Nat.succ_le_succ (Nat.le_trans hvalues ?_)
      cases values with
      | nil => exact Nat.zero_le _
      | cons value rest =>
          have hheight := height_equalityAny (s := .at (.param (.text path.jsonPath))) rest
            (Query.equality (.at (.param (Param.text path.jsonPath))) value ()).1
          rw [hdepth, List.length_cons]
          exact Nat.succ_le_succ (Nat.le_trans (Nat.le_trans (Nat.le_add_left _ _) hheight)
            (Nat.le_max_right _ _))

/-- The engine takes the statements of a single predicate if it is not too deep. -/
theorem taken_of_single {plan : Plan} {p : Predicate} (h : plan.predicates = [p])
    (hdepth : predicateDepth p ≤ maxDepth) : Taken plan where
  depth := by
    rw [h]
    exact hdepth
  placeholders := by
    have hvalues := length_values_le p
    have hkey := Query.Target.length_values_le plan.order.target
    rw [Query.statement_offset, Query.statement_limit, Query.statement_conditionValues,
      Query.statement_keyValues, h, List.flatMap_singleton, firstPlaceholder, maxPlaceholder]
    rw [maxDepth] at hdepth
    omega

/-- The other conditions are not deep. -/
theorem predicateDepth_le {p : Predicate} (h : ∀ path values, p ≠ .among path values) :
    predicateDepth p ≤ maxDepth := by
  have hbound : p.inPlace.height ≤ 20 → predicateDepth p ≤ maxDepth := by
    intro hle
    have hheight : predicateDepth p = max 4 p.inPlace.height + 1 := rfl
    rw [hheight, maxDepth]
    omega
  obtain ⟨hkind, hvalue⟩ := height_at p.path
  refine hbound ?_
  cases p with
  | among path values => exact absurd rfl (h path values)
  | equals path w => exact Nat.le_trans (height_equality_le hkind.le hvalue.le w) (by decide)
  | notEquals path w =>
      have hequality := height_equality_le hkind.le hvalue.le w
      simp only [Predicate.inPlace, Predicate.condition, Query.Supply.bind_unit, Predicate.path,
        Expr.height] at hequality hkind ⊢
      omega
  | compares path relation n => exact Nat.le_of_ble_eq_true rfl
  | contains path needle =>
      have hequality := height_equality_le (s := Subject.element) (by decide) (by decide) needle
      simp only [Predicate.inPlace, Predicate.condition, Query.containment,
        Query.Supply.bind_unit, Query.isKind, Subject.at, Sql.Branches.height, Expr.height]
      omega
  | presence path present => cases present <;> exact Nat.le_of_ble_eq_true rfl

/-! ### What is selected -/

/-- The condition of the predicate is evaluated without fail, and it is true of the row exactly if
the statement holds. -/
def Decided (p : Predicate) (r : EntityRow) (statement : Prop) : Prop :=
  ∃ answer, selects p r = .ok answer ∧ (answer = true ↔ statement)

theorem decided_iff {p : Predicate} {r : EntityRow} {statement : Prop}
    (h : Decided p r statement) : selects p r = .ok true ↔ statement := by
  obtain ⟨answer, hselects, hanswer⟩ := h
  rw [hselects, Except.ok.injEq, hanswer]

/-- Inside the limits of the engine it is enough to know what `Predicate.holds` says. -/
theorem decided_of_holds {p : Predicate} {r : EntityRow} {statement : Prop} (h : p.Fits)
    (hdepth : predicateDepth p ≤ maxDepth) (hholds : p.holds r.data = true ↔ statement) :
    Decided p r statement :=
  ⟨p.holds r.data, selects_eq h hdepth, hholds⟩

theorem lookup?_view {document : Json} {r : EntityRow} (hr : r.data = document.source)
    (path : Path) : Sql.lookup? path.words r.view.document =
      (document.at? path.segments).map Json.source := by
  have hlookup := Sql.lookup?_source path.words document
  rwa [← hr] at hlookup

/-- A predicate says something about what its path leads to. -/
theorem any_lookup?_iff {document : Json} {path : Path} {f : Source → Bool} :
    (Sql.lookup? path.words document.source).any f = true ↔
      ∃ j, document.at? path.segments = some j ∧ f j.source = true := by
  rw [Sql.lookup?_source, Path.segments]
  cases document.at? (path.words.map String.ofList) <;> simp

/-! ### Rows of the store -/

/-- In reachable tables every row holds a document of its column. -/
theorem Reachable.inColumn [FloatReader] {t : Tables} (h : Reachable (fun _ c => c.Regular) t) :
    ∀ r ∈ t.entities, ∃ document : Json, document.InColumn ∧ r.data = document.source := by
  intro r hr
  obtain ⟨document, hregular, hsource⟩ := h.regular r hr
  have hdocument := h.consistent_any.documents r hr
  rw [hsource] at hdocument
  exact ⟨document, ⟨hregular.canonical, hregular.numbers, Sql.isDocument_source.mp hdocument⟩,
    hsource⟩

/-! ### A row -/

/-- A document with a number, a text, a null and an array. -/
def sampleDocument : Json := .object [("count", .number (.integer 5)), ("name", .string "api-15"),
  ("owner", .null), ("tags", .array [.string "a"])]

def sampleRow : EntityRow :=
  .ofEntity ⟨"ent-1", "acme", "service", "api", none, sampleDocument, ⟨0, 0⟩, ⟨0, 0⟩⟩

theorem inColumn_sampleDocument : sampleDocument.InColumn where
  canonical := ⟨by unfold Fields.Ascending; decide, trivial, trivial, trivial, ⟨trivial, trivial⟩,
    trivial⟩
  numbers := ⟨⟨by decide, by decide⟩, trivial, trivial, ⟨trivial, trivial⟩, trivial⟩
  depth := by decide

def countPath : Path := ⟨["count".toList], by decide, by decide⟩

def namePath : Path := ⟨["name".toList], by decide, by decide⟩

def tagsPath : Path := ⟨["tags".toList], by decide, by decide⟩

end EntityStore.Store
