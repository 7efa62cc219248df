import EntityStore.Proofs.Query.Meaning
import EntityStore.Proofs.Store.Operation
import Mathlib.Data.List.Forall2
import Mathlib.Data.List.Lex
import Mathlib.Data.Prod.Lex
import Mathlib.Data.String.Basic
import Mathlib.Order.Compare
import Mathlib.Order.WithBot

/-! # Searches as listings

The entities of a blueprint that meet the predicates of a plan, in its order, are its `listing`.
Two entities are never in the same place of an order, for their ids are distinct, so a list of those
entities in that order is the listing (`Listing.unique`).

A search answers a page of the listing and how long the listing is, for any limit and offset
(`search_eq_answer`), if the plan is inside the limits of the engine (`Fits`).  The main
statement is `search_pages`. -/

namespace EntityStore.Store

open Query (Decides Direction Order Page Plan Predicate Statement Target)
open Sql (Expr Fault Param Scope Value)

/-! ### Conditions -/

section conditions
variable {π : Type} {scope : Scope π}

/-- The condition is true, as far as it can be evaluated. -/
def meets (scope : Scope π) (e : Expr π) : Bool :=
  match e.eval scope with
  | .ok v => v.truth = some true
  | .error _ => false

theorem meets_eq {e : Expr π} {answer : Bool} (h : Decides (e.eval scope) answer) :
    meets scope e = answer := by
  obtain ⟨v, hv, htruth⟩ := h
  rw [meets, hv]
  exact htruth

theorem holdsAll_eq : ∀ es : List (Expr π),
    (∀ e ∈ es, ∃ answer, Decides (e.eval scope) answer) →
    holdsAll scope es = .ok (es.all (meets scope))
  | [], _ => rfl
  | e :: rest, h => by
      have hrest := holdsAll_eq rest fun x hx => h x (List.mem_cons_of_mem _ hx)
      obtain ⟨answer, v, hv, -⟩ := h e List.mem_cons_self
      rw [List.all_cons, holdsAll, meets, hv, hrest]
      dsimp only
      by_cases htrue : v.truth = some true
      · rw [if_pos htrue, decide_eq_true htrue, Bool.true_and]
      · rw [if_neg htrue, decide_eq_false htrue, Bool.false_and]

theorem perm_evaluationOrder (es : List (Expr π)) : (evaluationOrder es).Perm es := by
  have h := List.filter_append_perm (fun e : Expr π => !e.visitsElements) es
  simpa [evaluationOrder] using h

end conditions

/-- The row meets all predicates. -/
def meetsAll (ps : List Predicate) (r : EntityRow) : Bool := ps.all fun p => p.holds r.data

section matching

/-- Conditions are looked at in an order that does not depend on their placeholders. -/
theorem evaluationOrder_map {π ρ : Type} (σ : π → ρ) (es : List (Expr π)) :
    evaluationOrder (es.map (Expr.map σ)) = (evaluationOrder es).map (Expr.map σ) := by
  simp only [evaluationOrder, List.filter_map, List.map_append, Function.comp_def,
    Expr.visitsElements_map]

theorem holdsAll_map {π ρ : Type} (σ : π → ρ) (bound : ρ → Value) (r : EntityRow) :
    ∀ es : List (Expr π), holdsAll (scopeOf bound r) (es.map (Expr.map σ)) =
      holdsAll (scopeOf (bound ∘ σ) r) es
  | [] => rfl
  | e :: rest => by
      have heval : (e.map σ).eval (scopeOf bound r) = e.eval (scopeOf (bound ∘ σ) r) :=
        Expr.eval_map σ bound r.view e none
      rw [List.map_cons, holdsAll, holdsAll, heval, holdsAll_map σ bound r rest]

theorem matching_map {π ρ : Type} (σ : π → ρ) (bound : ρ → Value) (es : List (Expr π)) :
    ∀ rows : List EntityRow,
      matching bound (es.map (Expr.map σ)) rows = matching (bound ∘ σ) es rows
  | [] => rfl
  | r :: rest => by
      rw [matching, matching, evaluationOrder_map, holdsAll_map, matching_map σ bound es rest]

variable {ps : List Predicate}

/-- The conditions of predicates say whether a row meets the predicates. -/
theorem holdsAll_inPlace (hfits : ∀ p ∈ ps, p.Fits) (r : EntityRow) :
    holdsAll (scopeOf Param.value r) (evaluationOrder (ps.map Predicate.inPlace)) =
      .ok (meetsAll ps r) := by
  have hps : ∀ p ∈ ps, Decides (p.inPlace.eval (scopeOf Param.value r)) (p.holds r.data) :=
    fun p hp => p.inPlace_eval (hfits p hp) r.view
  have hdecides : ∀ e ∈ evaluationOrder (ps.map Predicate.inPlace),
      ∃ answer, Decides (e.eval (scopeOf Param.value r)) answer := by
    intro e he
    obtain ⟨p, hp, rfl⟩ := List.mem_map.mp ((perm_evaluationOrder _).mem_iff.mp he)
    exact ⟨_, hps p hp⟩
  rw [holdsAll_eq _ hdecides, (perm_evaluationOrder _).all_eq, meetsAll, List.all_map]
  refine congrArg Except.ok (Bool.eq_iff_iff.mpr ?_)
  simp only [List.all_eq_true, Function.comp_apply]
  exact forall₂_congr fun p hp => by rw [meets_eq (hps p hp)]

/-- The rows that are looked for are the rows that meet the predicates. -/
theorem matching_inPlace (hfits : ∀ p ∈ ps, p.Fits) : ∀ rows : List EntityRow,
    matching Param.value (ps.map Predicate.inPlace) rows = .ok (rows.filter (meetsAll ps))
  | [] => rfl
  | r :: rest => by
      rw [matching, holdsAll_inPlace hfits r, matching_inPlace hfits rest, List.filter_cons]

theorem matching_sublist {π : Type} {bound : π → Value} {es : List (Expr π)} :
    ∀ {rows found : List EntityRow}, matching bound es rows = .ok found → found.Sublist rows
  | [], found, h => by
      cases h
      exact List.Sublist.slnil
  | r :: rest, found, h => by
      rw [matching] at h
      split at h
      · cases h
      · next holds _ =>
          split at h
          · cases h
          · next rs hrest =>
              cases h
              have ih := matching_sublist hrest
              cases holds with
              | true => exact ih.cons_cons r
              | false => exact ih.cons r

end matching

/-! ### Order -/

/-- The place of a row: its key, then its id.  What is missing comes first. -/
def rank (target : Target) (r : EntityRow) : Lex (WithBot (List Char) × WithBot String) :=
  toLex (target.keyOf r.view, r.id)

/-- The row comes before the other one. -/
def Before (order : Order) (r s : EntityRow) : Prop :=
  match order.direction with
  | .ascending => rank order.target r < rank order.target s
  | .descending => rank order.target s < rank order.target r

theorem compares_keys : ∀ a b : WithBot (List Char),
    (compareKeys (Query.textValue a) (Query.textValue b)).Compares a b
  | none, none => rfl
  | none, some b => WithBot.bot_lt_coe b
  | some a, none => WithBot.bot_lt_coe a
  | some a, some b => by
      change (if a = b then Ordering.eq else if a < b then .lt else .gt).Compares
        (a : WithBot (List Char)) b
      rcases lt_trichotomy a b with hlt | rfl | hlt
      · rw [if_neg hlt.ne, if_pos hlt]
        exact WithBot.coe_lt_coe.mpr hlt
      · rw [if_pos rfl]
        exact rfl
      · rw [if_neg hlt.ne', if_neg hlt.not_gt]
        exact WithBot.coe_lt_coe.mpr hlt

theorem compares_ids : ∀ a b : WithBot String,
    (@Ord.compare (Option String) _ a b).Compares a b
  | none, none => rfl
  | none, some b => WithBot.bot_lt_coe b
  | some a, none => WithBot.bot_lt_coe a
  | some a, some b => by
      have h : (Ord.compare a b).Compares a b := (compare_iff a b).mp rfl
      change (Ord.compare a b).Compares (a : WithBot String) b
      generalize Ord.compare a b = o at h ⊢
      cases o with
      | lt => exact WithBot.coe_lt_coe.mpr h
      | eq => exact congrArg WithBot.some h
      | gt => exact WithBot.coe_lt_coe.mpr h

/-- Rows are compared by rank. -/
theorem compares_rank (target : Target) (r s : EntityRow) :
    (Keyed.compare ⟨Query.textValue (target.keyOf r.view), r⟩
      ⟨Query.textValue (target.keyOf s.view), s⟩).Compares (rank target r) (rank target s) := by
  have hkey := compares_keys (target.keyOf r.view) (target.keyOf s.view)
  have hid := compares_ids r.id s.id
  rw [Keyed.compare]
  dsimp only
  generalize compareKeys _ _ = o at hkey ⊢
  generalize Ord.compare r.id s.id = q at hid ⊢
  cases o with
  | lt => exact Prod.Lex.toLex_lt_toLex.mpr (.inl hkey)
  | gt => exact Prod.Lex.toLex_lt_toLex.mpr (.inl hkey)
  | eq =>
      have hkey : target.keyOf r.view = target.keyOf s.view := hkey
      rw [Ordering.eq_then]
      cases q with
      | lt => exact Prod.Lex.toLex_lt_toLex.mpr (.inr ⟨hkey, hid⟩)
      | gt => exact Prod.Lex.toLex_lt_toLex.mpr (.inr ⟨hkey.symm, hid⟩)
      | eq =>
          have hid : r.id = s.id := hid
          exact congrArg₂ (fun k i => toLex (k, i)) hkey hid

/-- The order that rows are sorted by. -/
def orderLe (order : Order) (r s : EntityRow) : Bool :=
  match order.direction with
  | .ascending => decide (rank order.target r ≤ rank order.target s)
  | .descending => decide (rank order.target s ≤ rank order.target r)

theorem keyed_le (order : Order) (r s : EntityRow) :
    Keyed.le order.direction ⟨Query.textValue (order.target.keyOf r.view), r⟩
      ⟨Query.textValue (order.target.keyOf s.view), s⟩ = orderLe order r s := by
  obtain ⟨target, direction⟩ := order
  have h := compares_rank target r s
  cases direction with
  | ascending => exact Bool.eq_iff_iff.mpr (by simpa [Keyed.le, orderLe] using h.ne_gt)
  | descending => exact Bool.eq_iff_iff.mpr (by simpa [Keyed.le, orderLe] using h.ne_lt)

theorem orderLe_trans : ∀ (order : Order) (a b c : EntityRow),
    orderLe order a b → orderLe order b c → orderLe order a c
  | ⟨_, .ascending⟩, _, _, _, hab, hbc =>
      decide_eq_true (le_trans (of_decide_eq_true hab) (of_decide_eq_true hbc))
  | ⟨_, .descending⟩, _, _, _, hab, hbc =>
      decide_eq_true (le_trans (of_decide_eq_true hbc) (of_decide_eq_true hab))

theorem orderLe_total (order : Order) (a b : EntityRow) :
    orderLe order a b || orderLe order b a := by
  obtain ⟨target, direction⟩ := order
  cases direction with
  | ascending => simpa [orderLe] using le_total (rank target a) (rank target b)
  | descending => simpa [orderLe] using le_total (rank target b) (rank target a)

/-- Of two rows with different ids one is before the other. -/
theorem before_of_orderLe {order : Order} {r s : EntityRow} (h : orderLe order r s)
    (hid : r.id ≠ s.id) : Before order r s := by
  obtain ⟨target, direction⟩ := order
  have hne : rank target r ≠ rank target s := by
    intro heq
    exact hid (congrArg (fun p => (ofLex p).2) heq)
  cases direction with
  | ascending => exact lt_of_le_of_ne (of_decide_eq_true h) hne
  | descending => exact lt_of_le_of_ne (of_decide_eq_true h) hne.symm

theorem Before.asymm : ∀ {order : Order} {r s : EntityRow}, Before order r s → ¬ Before order s r
  | ⟨_, .ascending⟩, _, _, h => lt_asymm (a := rank _ _) h
  | ⟨_, .descending⟩, _, _, h => lt_asymm (a := rank _ _) h

/-- Sorted rows come before one another. -/
theorem pairwise_before (order : Order) {rows : List EntityRow} (h : Distinct rows) :
    (rows.mergeSort (orderLe order)).Pairwise (Before order) := by
  have hdistinct : Distinct (rows.mergeSort (orderLe order)) :=
    h.perm (List.mergeSort_perm _ _).symm fun hne => hne.symm
  have hle := List.pairwise_mergeSort (orderLe_trans order) (orderLe_total order) rows
  exact hle.imp₂ (fun _ _ hle hne => before_of_orderLe hle hne) hdistinct

/-! ### Listings -/

/-- The list has the entities of a blueprint that meet the predicates, in order. -/
structure Listing (t : Tables) (tenant blueprint : String) (ps : List Predicate) (order : Order)
    (rows : List EntityRow) : Prop where
  perm : rows.Perm ((t.entitiesOf tenant blueprint).filter (meetsAll ps))
  sorted : rows.Pairwise (Before order)

section listing
variable {t : Tables} {tenant blueprint : String} {ps : List Predicate} {order : Order}

/-- There is one listing. -/
theorem Listing.unique {rows rows' : List EntityRow} (h : Listing t tenant blueprint ps order rows)
    (h' : Listing t tenant blueprint ps order rows') : rows = rows' :=
  (h.perm.trans h'.perm.symm).eq_of_pairwise (fun _ _ _ _ hab hba => absurd hba hab.asymm)
    h.sorted h'.sorted

/-- The entities of a blueprint that meet the predicates, in order. -/
def listing (t : Tables) (tenant blueprint : String) (ps : List Predicate) (order : Order) :
    List EntityRow :=
  ((t.entitiesOf tenant blueprint).filter (meetsAll ps)).mergeSort (orderLe order)

theorem mem_of_mem_listing {r : EntityRow} (h : r ∈ listing t tenant blueprint ps order) :
    r ∈ t.entities :=
  have hmet := (List.mergeSort_perm _ _).mem_iff.mp h
  (List.mem_filter.mp (List.mem_filter.mp hmet).1).1

theorem listing_isListing (h : Distinct t.entities) :
    Listing t tenant blueprint ps order (listing t tenant blueprint ps order) where
  perm := List.mergeSort_perm _ _
  sorted := pairwise_before order ((h.filter _).filter _)

end listing

/-! ### Statements -/

/-- The engine takes the statements of a plan. -/
structure Taken (plan : Plan) : Prop where
  depth : conditionDepth (plan.predicates.map Predicate.inPlace) ≤ maxDepth
  /-- No placeholder has a greater number than that of the offset. -/
  placeholders : (plan.statement firstPlaceholder).offset ≤ maxPlaceholder

/-- The plan is inside the limits of the engine. -/
structure Fits (plan : Plan) : Prop extends Taken plan where
  values : ∀ p ∈ plan.predicates, p.Fits

theorem map_conjunction {π ρ : Type} (σ : π → ρ) (es : List (Expr π)) :
    (Query.conjunction es).map σ = Query.conjunction (es.map (Expr.map σ)) := by
  have hfoldl : ∀ (es : List (Expr π)) (e : Expr π),
      (es.foldl .and e).map σ = (es.map (Expr.map σ)).foldl .and (e.map σ) := by
    intro es
    induction es with
    | nil => exact fun _ => rfl
    | cons x rest ih =>
        intro e
        rw [List.foldl_cons, ih, List.map_cons, List.foldl_cons, Expr.map]
  cases es with
  | nil => rfl
  | cons e rest => exact hfoldl rest e

theorem conditionDepth_map {π ρ : Type} (σ : π → ρ) (es : List (Expr π)) :
    conditionDepth (es.map (Expr.map σ)) = conditionDepth es := by
  rw [conditionDepth, ← map_conjunction, Expr.height_map, conditionDepth]

section statement
variable {plan : Plan} {t : Tables} {tenant blueprint : String}

/-- The conditions of a statement are as deep as those of its plan. -/
theorem conditionDepth_statement :
    conditionDepth (plan.statement firstPlaceholder).conditions =
      conditionDepth (plan.predicates.map Predicate.inPlace) := by
  have hown := Query.ownValues_boundTo plan "" ""
  rw [← conditionDepth_map _ (plan.statement firstPlaceholder).conditions, hown.count,
    ← conditionDepth_map Param.value (plan.predicates.map Predicate.inPlace), List.map_map]
  rfl

theorem refusal?_eq_none_iff {text : List Sql.Token} :
    refusal? (plan.statement firstPlaceholder) text = none ↔
      conditionDepth (plan.predicates.map Predicate.inPlace) ≤ maxDepth ∧
        ∀ n ∈ Sql.paramsOf text, n ≤ maxPlaceholder := by
  rw [refusal?, conditionDepth_statement]
  split
  · next hdeep => exact iff_of_false nofun fun ⟨hdepth, _⟩ => absurd hdeep (Nat.not_lt.mpr hdepth)
  · next hdepth =>
      split
      · next hany =>
          obtain ⟨n, hn, hlt⟩ := List.any_eq_true.mp hany
          exact iff_of_false nofun fun ⟨_, hle⟩ =>
            absurd (of_decide_eq_true hlt) (Nat.not_lt.mpr (hle n hn))
      · next hany =>
          refine iff_of_true rfl ⟨Nat.le_of_not_lt hdepth, fun n hn => Nat.le_of_not_lt fun hlt => ?_⟩
          exact hany (List.any_eq_true.mpr ⟨n, hn, decide_eq_true hlt⟩)

/-- The engine takes a statement without conditions. -/
theorem taken_of_unfiltered (h : plan.predicates = []) : Taken plan where
  depth := by
    rw [h]
    decide
  placeholders := by
    rw [Query.statement_offset, Query.statement_limit, Query.statement_conditionValues,
      Query.statement_keyValues, h]
    have hkey := Query.Target.length_values_le plan.order.target
    simp only [List.flatMap_nil, List.length_nil, firstPlaceholder, maxPlaceholder]
    omega

/-- Whether a page can be fetched depends on the last placeholder, once the rows could be counted. -/
theorem refusal?_fetch (hdepth : conditionDepth (plan.predicates.map Predicate.inPlace) ≤ maxDepth) :
    let s := plan.statement firstPlaceholder
    refusal? s (s.conditionTokens .standard ++ s.orderTokens .standard ++ s.pageTokens) =
      if maxPlaceholder < s.offset then some .numberTooLarge else none := by
  intro s
  split
  · next hlast =>
      have hany : (Sql.paramsOf (s.conditionTokens .standard ++ s.orderTokens .standard ++
          s.pageTokens)).any (maxPlaceholder < ·) = true :=
        List.any_eq_true.mpr ⟨s.offset, Query.offset_mem_params plan _ _, decide_eq_true hlast⟩
      rw [refusal?, conditionDepth_statement, if_neg (Nat.not_lt.mpr hdepth), if_pos hany]
  · next hlast =>
      exact refusal?_eq_none_iff.mpr ⟨hdepth, fun n hn =>
        Nat.le_trans (Query.le_offset_of_mem_params hn) (Nat.le_of_not_lt hlast)⟩

/-- The rows of a blueprint that the conditions of a plan select, or why there is no answer.  The
rows are counted before the statement that fetches them is looked at. -/
def found (t : Tables) (tenant blueprint : String) (plan : Plan) :
    Except Fault (List EntityRow) :=
  let s := plan.statement firstPlaceholder
  match refusal? s (s.conditionTokens .standard) with
  | some f => .error f
  | none =>
    match matching Param.value (plan.predicates.map Predicate.inPlace)
        (t.entitiesOf tenant blueprint) with
    | .error f => .error f
    | .ok rows => if maxPlaceholder < s.offset then .error .numberTooLarge else .ok rows

theorem found_of_taken (h : Taken plan) :
    found t tenant blueprint plan = matching Param.value (plan.predicates.map Predicate.inPlace)
      (t.entitiesOf tenant blueprint) := by
  have hcount : refusal? (plan.statement firstPlaceholder)
      ((plan.statement firstPlaceholder).conditionTokens .standard) = none :=
    refusal?_eq_none_iff.mpr ⟨h.depth, fun n hn =>
      Nat.le_trans (Query.le_offset_of_mem_conditionParams hn) h.placeholders⟩
  rw [found]
  simp only [hcount, if_neg (Nat.not_lt.mpr h.placeholders)]
  split
  · next f hfault => exact hfault.symm
  · next rows hrows => exact hrows.symm

theorem found_eq (h : Fits plan) : found t tenant blueprint plan =
    .ok ((t.entitiesOf tenant blueprint).filter (meetsAll plan.predicates)) := by
  rw [found_of_taken h.toTaken, matching_inPlace h.values]

theorem found_eq_ok {rows : List EntityRow} : found t tenant blueprint plan = .ok rows ↔
    Taken plan ∧ matching Param.value (plan.predicates.map Predicate.inPlace)
      (t.entitiesOf tenant blueprint) = .ok rows := by
  constructor
  · intro h
    rw [found] at h
    split at h
    · cases h
    · next hcount =>
        split at h
        · cases h
        · next hmatching =>
            split at h
            · cases h
            · next hlast =>
                cases h
                exact ⟨⟨(refusal?_eq_none_iff.mp hcount).1, Nat.le_of_not_lt hlast⟩, hmatching⟩
  · rintro ⟨htaken, h⟩
    rw [found_of_taken htaken, h]

/-- What is found are rows of the blueprint. -/
theorem found_sublist {rows : List EntityRow} (h : found t tenant blueprint plan = .ok rows) :
    rows.Sublist (t.entitiesOf tenant blueprint) :=
  matching_sublist (found_eq_ok.mp h).2

/-- Rows are looked for with the values of a plan, whichever placeholders they are bound to. -/
theorem matching_statement {bound : Nat → Value} {s : Statement} (rows : List EntityRow)
    (h : s.conditions.map (Expr.map bound) = plan.predicates.map fun p => p.inPlace.map Param.value) :
    matching bound s.conditions rows =
      matching Param.value (plan.predicates.map Predicate.inPlace) rows := by
  have hleft := matching_map bound id s.conditions rows
  have hright := matching_map Param.value id (plan.predicates.map Predicate.inPlace) rows
  rw [List.map_map] at hright
  exact hleft.symm.trans ((congrArg (matching id · rows) h).trans hright)

theorem countRows_eq : countRows t tenant blueprint (plan.statement firstPlaceholder) =
    match refusal? (plan.statement firstPlaceholder)
      ((plan.statement firstPlaceholder).conditionTokens .standard) with
    | some f => .error f
    | none => (matching Param.value (plan.predicates.map Predicate.inPlace)
        (t.entitiesOf tenant blueprint)).map List.length := by
  have hown := Query.ownValues_boundTo plan tenant blueprint
  rw [countRows]
  cases refusal? (plan.statement firstPlaceholder)
      ((plan.statement firstPlaceholder).conditionTokens .standard) with
  | some f => rfl
  | none =>
      dsimp only
      rw [matching_statement _ hown.count]

/-- The rows with their keys. -/
theorem keyed_eq {bound : Nat → Value} {key : Expr Nat} {target : Target}
    (h : key.map bound = target.inPlace.map Param.value) : ∀ rows : List EntityRow,
      keyed bound key rows = .ok (rows.map fun r => ⟨Query.textValue (target.keyOf r.view), r⟩)
  | [] => rfl
  | r :: rest => by
      have hkey : key.eval (scopeOf bound r) = .ok (Query.textValue (target.keyOf r.view)) := by
        have hleft := Expr.eval_map bound id r.view key none
        rw [h, Expr.eval_map Param.value id r.view target.inPlace none] at hleft
        exact hleft.symm.trans (target.inPlace_eval r.view)
      rw [keyed, hkey, keyed_eq h rest]
      rfl

theorem sorted_keyed (order : Order) (rows : List EntityRow) :
    sorted order.direction
        (rows.map fun r => ⟨Query.textValue (order.target.keyOf r.view), r⟩) =
      rows.mergeSort (orderLe order) := by
  rw [sorted, ← List.map_mergeSort fun r _ s _ => (keyed_le order r s).symm, List.map_map]
  exact List.map_id _

theorem fetchRows_eq (hdepth : conditionDepth (plan.predicates.map Predicate.inPlace) ≤ maxDepth)
    (hoffset : plan.page.offset < signedBound) :
    fetchRows t tenant blueprint (plan.statement firstPlaceholder) =
      if maxPlaceholder < (plan.statement firstPlaceholder).offset then .error .numberTooLarge
      else (matching Param.value (plan.predicates.map Predicate.inPlace)
          (t.entitiesOf tenant blueprint)).map fun rows =>
        ((rows.mergeSort (orderLe plan.order)).drop plan.page.offset).take plan.page.limit := by
  have hown := Query.ownValues_boundTo plan tenant blueprint
  have hmin : min plan.page.offset (signedBound - 1) = plan.page.offset := by omega
  rw [fetchRows, refusal?_fetch hdepth]
  by_cases hlast : maxPlaceholder < (plan.statement firstPlaceholder).offset
  · rw [if_pos hlast, if_pos hlast]
  · rw [if_neg hlast, if_neg hlast]
    dsimp only
    rw [matching_statement _ hown.fetch]
    cases matching Param.value (plan.predicates.map Predicate.inPlace)
        (t.entitiesOf tenant blueprint) with
    | error f => rfl
    | ok rows =>
        dsimp only
        rw [keyed_eq hown.key]
        dsimp only
        rw [windowOf, hown.limit, hown.offset]
        simp only [Param.value, Param.ofNatural, Int.toNat_natCast, hmin]
        rw [Except.map, ← sorted_keyed]
        rfl

end statement

/-! ### Windows -/

section search
variable {limits : Query.Limits} {request : Query.Search} {plan : Plan}

/-- Limit and offset decide about the page of a plan only. -/
theorem compile_window (h : request.compile limits = .ok plan) (limit offset : Option Int64) :
    Query.Search.compile limits { request with limit, offset } = .ok { plan with
      page := limits.window (limit.map Int64.toInt) (offset.map Int64.toInt) } := by
  rw [Query.Search.compile] at h ⊢
  dsimp only
  split at h
  · cases h
  · split at h
    · cases h
    · cases h
      rfl

theorem page_eq (h : request.compile limits = .ok plan) :
    plan.page = limits.window (request.limit.map Int64.toInt) (request.offset.map Int64.toInt) := by
  have hself := compile_window h request.limit request.offset
  rw [h] at hself
  injection hself with hself
  exact congrArg Plan.page hself

theorem offset_lt (limit offset : Option Int64) :
    (limits.window (limit.map Int64.toInt) (offset.map Int64.toInt)).offset < signedBound := by
  cases offset with
  | none => exact Nat.two_pow_pos 63
  | some o =>
      have hlt := o.toInt_lt
      simp only [Query.Limits.window, Option.map_some, Option.getD_some, signedBound]
      omega

theorem window_ofNat {size offset : Nat} (hsize : 1 ≤ size) (hmax : size ≤ limits.max)
    (hs : size < signedBound) (ho : offset < signedBound) :
    limits.window ((some (Int64.ofNat size)).map Int64.toInt)
      ((some (Int64.ofNat offset)).map Int64.toInt) = ⟨size, offset⟩ := by
  simp only [Query.Limits.window, Option.map_some, Option.getD_some, Int64.toInt_ofNat_of_lt hs,
    Int64.toInt_ofNat_of_lt ho, Int.toNat_natCast, if_pos (And.intro hsize hmax)]

theorem take_flatMap {α : Type} (xs : List α) (size : Nat) : ∀ count : Nat,
    ((List.range count).flatMap fun k => (xs.drop (k * size)).take size) = xs.take (count * size)
  | 0 => by simp
  | count + 1 => by
      rw [List.range_succ, List.flatMap_append, take_flatMap xs size count, Nat.succ_mul,
        List.take_add, List.flatMap_singleton]

/-- The pages of a size have all entities, one after the other. -/
theorem flatMap_pages (es : List Entity) (total size count : Nat) :
    ((List.range count).map fun k : Nat => (⟨(es.drop (k * size)).take size, total, size,
      k * size⟩ : EntityPage)).flatMap EntityPage.items = es.take (count * size) := by
  rw [List.flatMap_map]
  exact take_flatMap es size count

/-! ### Pages -/

variable [FloatReader]

theorem readEntities_eq_mapM : ∀ rows : List EntityRow,
    readEntities rows = rows.mapM EntityRow.read
  | [] => rfl
  | r :: rest => by
      rw [readEntities, readEntities_eq_mapM rest, List.mapM_cons]

theorem forall₂_readEntities {rows : List EntityRow} {es : List Entity} :
    readEntities rows = .ok es ↔ List.Forall₂ (fun r e => r.read = .ok e) rows es := by
  rw [readEntities_eq_mapM, forall₂_mapM]

theorem length_of_readEntities {rows : List EntityRow} {es : List Entity}
    (h : readEntities rows = .ok es) : es.length = rows.length :=
  (forall₂_readEntities.mp h).length_eq.symm

/-- Rows that can be read one by one can be read together. -/
theorem exists_readEntities : ∀ {rows : List EntityRow}, (∀ r ∈ rows, ∃ e, r.read = .ok e) →
    ∃ es, readEntities rows = .ok es
  | [], _ => ⟨[], rfl⟩
  | r :: rest, h => by
      obtain ⟨e, he⟩ := h r List.mem_cons_self
      obtain ⟨es, hes⟩ := exists_readEntities fun s hs => h s (List.mem_cons_of_mem _ hs)
      exact ⟨e :: es, by rw [readEntities, he, hes]; rfl⟩

theorem readEntities_window {rows : List EntityRow} {es : List Entity}
    (h : readEntities rows = .ok es) (offset limit : Nat) :
    readEntities ((rows.drop offset).take limit) = .ok ((es.drop offset).take limit) := by
  rw [forall₂_readEntities] at h ⊢
  exact List.forall₂_take limit (List.forall₂_drop offset h)

/-- The answer to a search whose page has these rows. -/
def answer (rows : List EntityRow) (total : Nat) (page : Page) : Except StoreError EntityPage :=
  match readEntities rows with
  | .error e => .error (.internal e)
  | .ok items => .ok ⟨items, total, page.limit, page.offset⟩

theorem answer_eq_ok {rows : List EntityRow} {total : Nat} {window : Page} {page : EntityPage} :
    answer rows total window = .ok page ↔
      ∃ es, readEntities rows = .ok es ∧ page = ⟨es, total, window.limit, window.offset⟩ := by
  rw [answer]
  cases readEntities rows with
  | error e => exact iff_of_false nofun fun ⟨_, h, _⟩ => nomatch h
  | ok es => simp [eq_comm]

/-- The answer to a search that finds these rows. -/
def answerFound (order : Order) (page : Page) :
    Except Fault (List EntityRow) → Except StoreError EntityPage
  | .error f => .error (databaseFault f)
  | .ok rows =>
    answer (((rows.mergeSort (orderLe order)).drop page.offset).take page.limit) rows.length page

theorem answerFound_eq_ok {order : Order} {window : Page} {page : EntityPage}
    {fetched : Except Fault (List EntityRow)} : answerFound order window fetched = .ok page ↔
      ∃ rows es, fetched = .ok rows ∧
        readEntities (((rows.mergeSort (orderLe order)).drop window.offset).take window.limit) =
          .ok es ∧
        page = ⟨es, rows.length, window.limit, window.offset⟩ := by
  cases fetched with
  | error f => exact iff_of_false nofun fun ⟨_, _, h, _⟩ => nomatch h
  | ok rows => simp [answerFound, answer_eq_ok]

/-- A search answers a page of the rows that are found, in order, and how many they are. -/
theorem search_eq_found {tenant : String} {t : Tables} (hplan : request.compile limits = .ok plan) :
    search limits tenant request t =
      answerFound plan.order plan.page (found t tenant request.blueprint plan) := by
  have hoffset : plan.page.offset < signedBound := by
    rw [page_eq hplan]
    exact offset_lt _ _
  rw [search, hplan]
  dsimp only
  rw [countRows_eq, found]
  cases hcount : refusal? (plan.statement firstPlaceholder)
      ((plan.statement firstPlaceholder).conditionTokens .standard) with
  | some f => rfl
  | none =>
      rw [fetchRows_eq (refusal?_eq_none_iff.mp hcount).1 hoffset]
      cases matching Param.value (plan.predicates.map Predicate.inPlace)
          (t.entitiesOf tenant request.blueprint) with
      | error f => rfl
      | ok rows =>
          dsimp only [Except.map]
          by_cases hlast : maxPlaceholder < (plan.statement firstPlaceholder).offset
          · rw [if_pos hlast, if_pos hlast, answerFound]
          · rw [if_neg hlast, if_neg hlast, answerFound]
            rfl

/-- A search answers a page of the listing, and how long the listing is. -/
theorem search_eq_answer {tenant : String} {t : Tables} (hplan : request.compile limits = .ok plan)
    (hfits : Fits plan) :
    let rows := listing t tenant request.blueprint plan.predicates plan.order
    search limits tenant request t =
      answer ((rows.drop plan.page.offset).take plan.page.limit) rows.length plan.page := by
  intro rows
  have hlength : rows.length = _ := List.length_mergeSort _
  rw [search_eq_found hplan, found_eq hfits, answerFound, hlength]
  rfl

/-- Where all rows can be read, a search inside the limits of the engine is answered. -/
theorem search_eq_ok_of_readable {t : Tables} (hread : ∀ r ∈ t.entities, ∃ e, r.read = .ok e)
    (tenant : String) (hplan : request.compile limits = .ok plan) (hfits : Fits plan) :
    ∃ page, search limits tenant request t = .ok page := by
  rw [search_eq_answer hplan hfits, answer]
  obtain ⟨es, hes⟩ : ∃ es, readEntities (((listing t tenant request.blueprint plan.predicates
      plan.order).drop plan.page.offset).take plan.page.limit) = .ok es :=
    exists_readEntities fun r hr =>
      hread r (mem_of_mem_listing (List.mem_of_mem_drop (List.mem_of_mem_take hr)))
  rw [hes]
  exact ⟨_, rfl⟩

/-- Conditions that are too deep are refused, whatever the tables hold. -/
theorem search_eq_tooDeep {tenant : String} {t : Tables}
    (hplan : request.compile limits = .ok plan)
    (hdeep : maxDepth < conditionDepth (plan.predicates.map Predicate.inPlace)) :
    search limits tenant request t = .error (databaseFault .tooDeep) := by
  have hrefused : refusal? (plan.statement firstPlaceholder)
      ((plan.statement firstPlaceholder).conditionTokens .standard) = some .tooDeep := by
    rw [refusal?, conditionDepth_statement, if_pos hdeep]
  rw [search_eq_found hplan, found]
  simp only [hrefused, answerFound]

/-- What is answered to the search for one of the pages of a size. -/
theorem search_page {tenant : String} {t : Tables} {size count k : Nat}
    (hplan : request.compile limits = .ok plan) (hsize : 1 ≤ size) (hmax : size ≤ limits.max)
    (hk : k < count) (hbound : count * size < signedBound) :
    search limits tenant { request with
        limit := some (Int64.ofNat size), offset := some (Int64.ofNat (k * size)) } t =
      answerFound plan.order ⟨size, k * size⟩ (found t tenant request.blueprint plan) := by
  have hs : size < signedBound :=
    Nat.lt_of_le_of_lt (Nat.le_mul_of_pos_left size (by omega)) hbound
  have ho : k * size < signedBound :=
    Nat.lt_of_le_of_lt (Nat.mul_le_mul_right size hk.le) hbound
  rw [search_eq_found (compile_window hplan _ _), window_ofNat hsize hmax hs ho]
  rfl

/-- The pages of rows that are found and can be read. -/
theorem search_paged_of_found {tenant : String} {t : Tables} {size count : Nat}
    (hplan : request.compile limits = .ok plan) (hsize : 1 ≤ size) (hmax : size ≤ limits.max)
    (hbound : count * size < signedBound) {rows : List EntityRow} {es : List Entity}
    (hfound : found t tenant request.blueprint plan = .ok rows)
    (hes : readEntities (rows.mergeSort (orderLe plan.order)) = .ok es) :
    (List.range count).mapM (fun k => search limits tenant { request with
        limit := some (Int64.ofNat size), offset := some (Int64.ofNat (k * size)) } t) =
      .ok ((List.range count).map fun k =>
        ⟨(es.drop (k * size)).take size, rows.length, size, k * size⟩) := by
  refine mapM_eq_ok (List.range count) fun k hk => ?_
  rw [search_page hplan hsize hmax (List.mem_range.mp hk) hbound, hfound]
  exact answer_eq_ok.mpr ⟨_, readEntities_window hes _ _, rfl⟩

/-- The pages of a size, where all entities that are found can be read. -/
theorem search_paged {tenant : String} {t : Tables} {es : List Entity} {size count : Nat}
    (hplan : request.compile limits = .ok plan) (hfits : Fits plan)
    (hes : readEntities (listing t tenant request.blueprint plan.predicates plan.order) = .ok es)
    (hsize : 1 ≤ size) (hmax : size ≤ limits.max) (hbound : size * count < signedBound) :
    (List.range count).mapM (fun k => search limits tenant { request with
        limit := some (Int64.ofNat size), offset := some (Int64.ofNat (k * size)) } t) =
      .ok ((List.range count).map fun k =>
        ⟨(es.drop (k * size)).take size, es.length, size, k * size⟩) := by
  have hlength : es.length = _ :=
    (length_of_readEntities hes).trans (List.length_mergeSort _)
  rw [Nat.mul_comm] at hbound
  rw [search_paged_of_found hplan hsize hmax hbound (found_eq hfits) hes, hlength]

/-- Search is filter, sort, slice.  In all tables that can be reached, and for a request that
compiles to a plan inside the limits of the engine, there is one list of the entities that meet the
predicates, in order; for every limit and offset a search answers how long that list is and the
entities on the page.  Where callers give what can be stored, all of them can be read, and the pages
of a size make up the whole list one after the other. -/
theorem search_pages {allowed : Call → Change → Prop} {t : Tables} (ht : Reachable allowed t)
    (tenant : String) (hplan : request.compile limits = .ok plan) (hfits : Fits plan) :
    ∃ rows, (∀ rows', Listing t tenant request.blueprint plan.predicates plan.order rows' ↔
        rows' = rows) ∧
      (∀ limit offset : Option Int64,
        let page := limits.window (limit.map Int64.toInt) (offset.map Int64.toInt)
        search limits tenant { request with limit, offset } t =
          answer ((rows.drop page.offset).take page.limit) rows.length page) ∧
      ((∀ call c, allowed call c → c.Storable call) →
        ∃ es, readEntities rows = .ok es ∧
          (∀ limit offset : Option Int64,
            let page := limits.window (limit.map Int64.toInt) (offset.map Int64.toInt)
            search limits tenant { request with limit, offset } t =
              .ok ⟨(es.drop page.offset).take page.limit, es.length, page.limit, page.offset⟩) ∧
          ∀ size count : Nat, 1 ≤ size → size ≤ limits.max → size * count < signedBound →
            ∃ pages, (List.range count).mapM (fun k => search limits tenant { request with
                limit := some (Int64.ofNat size), offset := some (Int64.ofNat (k * size)) } t) =
                  .ok pages ∧
              pages.flatMap EntityPage.items = es.take (count * size)) := by
  let rows := listing t tenant request.blueprint plan.predicates plan.order
  have hlisting : Listing t tenant request.blueprint plan.predicates plan.order rows :=
    listing_isListing ht.distinct
  have hanswer : ∀ limit offset : Option Int64,
      let page := limits.window (limit.map Int64.toInt) (offset.map Int64.toInt)
      search limits tenant { request with limit, offset } t =
        answer ((rows.drop page.offset).take page.limit) rows.length page :=
    fun limit offset => search_eq_answer (compile_window hplan limit offset)
      ⟨⟨hfits.depth, hfits.placeholders⟩, hfits.values⟩
  refine ⟨rows, fun rows' => ⟨fun h => h.unique hlisting, fun h => h ▸ hlisting⟩, hanswer,
    fun hallowed => ?_⟩
  have hreadable : ∀ r ∈ t.entities, r.Readable := (ht.mono hallowed).readable
  obtain ⟨es, hes⟩ : ∃ es, readEntities rows = .ok es := by
    refine exists_readEntities fun r hr => ?_
    have hmem := (List.mem_filter.mp (hlisting.perm.mem_iff.mp hr)).1
    obtain ⟨e, he, -⟩ := (hreadable r (List.mem_filter.mp hmem).1).read
    exact ⟨e, he⟩
  have hlength : rows.length = es.length := (forall₂_readEntities.mp hes).length_eq
  have hpage : ∀ limit offset : Option Int64,
      let page := limits.window (limit.map Int64.toInt) (offset.map Int64.toInt)
      search limits tenant { request with limit, offset } t =
        .ok ⟨(es.drop page.offset).take page.limit, es.length, page.limit, page.offset⟩ := by
    intro limit offset page
    rw [hanswer, answer, readEntities_window hes, hlength]
  refine ⟨es, hes, hpage, fun size count hsize hmax hbound =>
    ⟨_, search_paged hplan hfits hes hsize hmax hbound, ?_⟩⟩
  rw [List.flatMap_map]
  exact take_flatMap es size count

end search

/-! ### A store with four entities -/

def ownerPath : Query.Path := ⟨["owner".toList], by decide, by decide⟩

def tierPath : Query.Path := ⟨["tier".toList], by decide, by decide⟩

/-- A service with an owner and a tier. -/
def ownedService (id owner tier : String) : Entity :=
  ⟨id, "acme", "service", id, none, .object [("owner", .string owner), ("tier", .string tier)],
    ⟨1, 0⟩, ⟨1, 0⟩⟩

/-- Four services; three of them have one owner, and two of these one tier. -/
def ownedServices : List Entity :=
  [ownedService "ent-1" "ops" "iron", ownedService "ent-2" "web" "iron",
    ownedService "ent-3" "ops" "gold", ownedService "ent-4" "ops" "iron"]

def ownedRun : List Step :=
  ⟨⟨"acme", ⟨0, 0⟩⟩, .change (.createBlueprint ⟨"service", "Service", none, .object []⟩)⟩ ::
    ownedServices.map fun e => ⟨⟨e.tenant, e.created⟩,
      .change (.createEntity e.id ⟨e.blueprint, e.identifier, e.title, e.data⟩)⟩

/-- Asks for the services of an owner, the last tier first. -/
def byOwner : Query.Search :=
  ⟨"service", [⟨"owner", .equal, .string "ops"⟩], some "tier", some .descending, none, none⟩

/-- Of four services three are found, in the order of their tiers and then of their ids, two on the
first page and one on the second. -/
theorem search_pages_sample :
    let t := after .empty ownedRun
    (t.entitiesOf "acme" "service").length = 4 ∧
      search .standard "acme" { byOwner with limit := some 2, offset := some 0 } t =
        .ok ⟨[ownedService "ent-4" "ops" "iron", ownedService "ent-1" "ops" "iron"], 3, 2, 0⟩ ∧
      search .standard "acme" { byOwner with limit := some 2, offset := some 2 } t =
        .ok ⟨[ownedService "ent-3" "ops" "gold"], 3, 2, 2⟩ := by
  intro t
  have ht : Reachable (fun call c => c.Storable call) t :=
    Reachable.empty.after (by decide +kernel)
  let plan : Plan :=
    ⟨[.equals ownerPath (.string "ops")], ⟨.path tierPath, .descending⟩, ⟨50, 0⟩⟩
  have hfits : Fits plan := by
    refine ⟨⟨by decide, by decide⟩, fun p hp => ?_⟩
    rw [List.mem_singleton.mp hp]
    exact Nat.zero_le _
  obtain ⟨rows, hrows, -, hpages⟩ := search_pages ht "acme" (show byOwner.compile .standard =
    .ok plan from rfl) hfits
  obtain ⟨es, hes, hpage, -⟩ := hpages fun _ _ h => h
  let found : List Entity :=
    [ownedService "ent-4" "ops" "iron", ownedService "ent-1" "ops" "iron",
      ownedService "ent-3" "ops" "gold"]
  have hlisting : Listing t "acme" "service" plan.predicates plan.order
      (found.map EntityRow.ofEntity) := by
    constructor
    · have hmet : (t.entitiesOf "acme" "service").filter (meetsAll plan.predicates) =
          (ownedServices.filter (·.id ≠ "ent-2")).map EntityRow.ofEntity := rfl
      have hperm : found.Perm (ownedServices.filter (·.id ≠ "ent-2")) := by decide +kernel
      exact hmet ▸ hperm.map EntityRow.ofEntity
    · change List.Pairwise (fun r s => rank (.path tierPath) s < rank (.path tierPath) r) _
      decide +kernel
  obtain rfl : found.map EntityRow.ofEntity = rows := (hrows _).mp hlisting
  have hread : readEntities (found.map EntityRow.ofEntity) = .ok found := by decide +kernel
  obtain rfl : found = es := Except.ok.inj (hread.symm.trans hes)
  exact ⟨by decide +kernel, hpage (some 2) (some 0), hpage (some 2) (some 2)⟩

/-! ### A store with one entity -/

/-- A blueprint and an entity without owner. -/
def sampleTables : Tables :=
  let call : Call := ⟨"acme", ⟨0, 0⟩⟩
  (Change.createEntity "ent-1" ⟨"service", "api", none, .object [("owner", .null)]⟩).apply call
    ((Change.createBlueprint ⟨"service", "Service", none, .object []⟩).apply call .empty)

/-- Asks for the entities whose owner is one of the values. -/
def ownedBy (values : List Json) : Query.Search :=
  ⟨"service", [⟨"owner", .among, .array values⟩], none, none, none, none⟩

theorem compile_ownedBy (values : List Json) : (ownedBy values).compile .standard =
    .ok ⟨[.among ownerPath values], Order.standard, ⟨50, 0⟩⟩ := by
  have hpath : Query.readPath "owner" = .ok ownerPath := rfl
  have horder : Order.compile none none = .ok Order.standard := rfl
  simp only [ownedBy, Query.Search.compile, Query.Filter.compileAll, Query.Filter.compile, hpath,
    Query.Filter.predicateAt, horder]
  rfl

theorem reachable_sampleTables : Reachable (fun call c => c.Storable call) sampleTables := by
  have hnow : (⟨0, 0⟩ : Time.Instant).Storable := ⟨by decide, by decide, by decide, by decide⟩
  have hdata : (Json.object [("owner", .null)]).Storable := by
    refine Json.storable_object_iff.mpr ⟨List.pairwise_singleton _ _, fun f hf => ?_⟩
    rw [List.mem_singleton.mp hf]
    exact ⟨trivial, trivial, by decide⟩
  have hempty : Reachable (fun call c => c.Storable call) .empty := .empty
  exact (hempty.change ⟨"acme", ⟨0, 0⟩⟩ (.createBlueprint _) trivial).change _ (.createEntity _ _)
    ⟨hnow, hdata⟩

/-- A chain of equalities is deeper by one for each value. -/
theorem height_equalityAny {s : Query.Subject Param} : ∀ (values : List Json) (e : Expr Param),
    e.height + values.length ≤ (Query.equalityAny s e values ()).1.height
  | [], e => Nat.le_refl _
  | value :: rest, e => by
      have hrest := height_equalityAny (s := s) rest (.or e (Query.equality s value ()).1)
      have hor : e.height + 1 ≤ (Expr.or e (Query.equality s value ()).1).height := by
        rw [Expr.height]
        omega
      rw [List.length_cons]
      exact Nat.le_trans (by omega) hrest

theorem conditionDepth_among (path : Query.Path) (values : List Json) :
    values.length + 2 ≤ conditionDepth [(Predicate.among path (.null :: values)).inPlace] := by
  have hheight := height_equalityAny (s := .at (.param (.text path.jsonPath))) values
    (Query.isKind (.at (.param (.text path.jsonPath))) "null")
  have hnull : 1 ≤ (Query.isKind (.at (.param (Param.text path.jsonPath))) "null").height := by
    rw [Query.isKind, Expr.height]
    omega
  have hdepth : (Query.equalityAny (.at (.param (Param.text path.jsonPath)))
      (Query.isKind (.at (.param (Param.text path.jsonPath))) "null") values ()).1.height + 1 ≤
        conditionDepth [(Predicate.among path (.null :: values)).inPlace] :=
    Nat.succ_le_succ (Nat.le_max_right _ _)
  omega

/-- A thousand values are too many for one `among`, although the search compiles and there is an
entity that has one of them. -/
theorem search_among_thousand :
    let request := ownedBy (List.replicate 1000 .null)
    Reachable (fun call c => c.Storable call) sampleTables ∧
      request.compile .standard =
        .ok ⟨[.among ownerPath (List.replicate 1000 .null)], Order.standard, ⟨50, 0⟩⟩ ∧
      (sampleTables.entities.filter
        (meetsAll [.among ownerPath (List.replicate 1000 .null)])).length = 1 ∧
      search .standard "acme" request sampleTables = .error (databaseFault .tooDeep) := by
  refine ⟨reachable_sampleTables, compile_ownedBy _, by decide +kernel,
    search_eq_tooDeep (compile_ownedBy _) ?_⟩
  have hdepth := conditionDepth_among ownerPath (List.replicate 999 .null)
  rw [List.length_replicate, ← List.replicate_succ] at hdepth
  exact hdepth

end EntityStore.Store
