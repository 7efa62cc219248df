import EntityStore.Proofs.Config.Ranges
import EntityStore.Proofs.Store.Listing
import EntityStore.Store.Session

/-! # The window of a search

The limits of a service come from an accepted configuration, so the window of a search has a limit
that they allow, and the narrower integers that limit and offset pass through on their way to the
statement can hold them (`narrowed_eq_window`).  So the page that is answered has the limit and the
offset that the engine is given, and no more entities (`search_bounded`). -/

namespace EntityStore

namespace Query

/-! ### Windows -/

/-- The limits that an accepted configuration has. -/
structure Limits.Sound (limits : Limits) : Prop where
  positive : 1 ≤ limits.default
  default_le : limits.default ≤ limits.max
  max_lt : limits.max < halfBound

/-- The limit of a page: the one that is asked for if it is in the range, and the default if it is
not or none is asked for. -/
inductive GrantsLimit (limits : Limits) : Option Int64 → Nat → Prop
  | asked {l : Int64} {n : Nat} : 1 ≤ l.toInt → l.toInt ≤ limits.max → (n : Int) = l.toInt →
      GrantsLimit limits (some l) n
  | default {limit : Option Int64} : (∀ l ∈ limit, ¬ (1 ≤ l.toInt ∧ l.toInt ≤ limits.max)) →
      GrantsLimit limits limit limits.default

/-- The offset of a page: the one that is asked for unless it is negative, and zero if it is or none
is asked for. -/
inductive GrantsOffset : Option Int64 → Nat → Prop
  | asked {o : Int64} {n : Nat} : 0 ≤ o.toInt → (n : Int) = o.toInt → GrantsOffset (some o) n
  | zero {offset : Option Int64} : (∀ o ∈ offset, o.toInt < 0) → GrantsOffset offset 0

variable {limits : Limits}

theorem GrantsLimit.bounds (h : limits.Sound) {limit : Option Int64} {n : Nat}
    (hn : GrantsLimit limits limit n) : 1 ≤ n ∧ n ≤ limits.max := by
  cases hn with
  | asked hlow hhigh heq => omega
  | default _ => exact ⟨h.positive, h.default_le⟩

theorem GrantsOffset.lt {offset : Option Int64} {n : Nat} (hn : GrantsOffset offset n) :
    n < signedBound := by
  cases hn with
  | @asked o _ hlow heq =>
      have hlt := o.toInt_lt
      rw [signedBound]
      omega
  | zero _ => exact Nat.two_pow_pos 63

theorem grantsLimit_window (limits : Limits) (limit : Option Int64) (offset : Option Int) :
    GrantsLimit limits limit (limits.window (limit.map Int64.toInt) offset).limit := by
  cases limit with
  | none => exact .default nofun
  | some l =>
      change GrantsLimit limits (some l)
        (if 1 ≤ l.toInt.toNat ∧ l.toInt.toNat ≤ limits.max then l.toInt.toNat else limits.default)
      split
      · exact .asked (by omega) (by omega) (by omega)
      · refine .default fun m hm => ?_
        cases hm
        omega

theorem grantsOffset_window (limits : Limits) (limit : Option Int) (offset : Option Int64) :
    GrantsOffset offset (limits.window limit (offset.map Int64.toInt)).offset := by
  cases offset with
  | none => exact .zero nofun
  | some o =>
      change GrantsOffset (some o) o.toInt.toNat
      by_cases ho : 0 ≤ o.toInt
      · exact .asked ho (Int.toNat_of_nonneg ho)
      · rw [Int.toNat_of_nonpos (by omega)]
        refine .zero fun m hm => ?_
        cases hm
        omega

/-! ### Narrower integers -/

/-- An integer as one without sign below a bound, if it is one. -/
def unsigned? (bound : Nat) (i : Int) : Option Nat :=
  if 0 ≤ i ∧ i < bound then some i.toNat else none

/-- The window by way of a limit of 32 and an offset of 64 bits without sign. -/
def Limits.narrowed (limits : Limits) (limit offset : Option Int) : Page :=
  let asked := (limit.bind (unsigned? halfBound)).filter fun n => 1 ≤ n ∧ n ≤ limits.max
  ⟨asked.getD limits.default, (offset.bind (unsigned? unsignedBound)).getD 0⟩

/-- A limit that does not fit into its narrower integer is above the largest one, and every offset
fits that is not negative. -/
theorem narrowed_eq_window (hmax : limits.max < halfBound) (limit offset : Option Int64) :
    limits.narrowed (limit.map Int64.toInt) (offset.map Int64.toInt) =
      limits.window (limit.map Int64.toInt) (offset.map Int64.toInt) := by
  rw [Limits.narrowed, Limits.window, Page.mk.injEq]
  constructor
  · cases limit with
    | none => rfl
    | some l =>
        rw [Option.map_some, Option.bind_some, Option.getD_some, unsigned?]
        split
        · simp only [Option.filter_some, decide_eq_true_eq]
          split <;> rfl
        · rw [if_neg (by omega)]
          rfl
  · cases offset with
    | none => rfl
    | some o =>
        have hlt := o.toInt_lt
        rw [Option.map_some, Option.bind_some, Option.getD_some, unsigned?]
        split
        · rfl
        · rw [unsignedBound] at *
          exact (Int.toNat_of_nonpos (by omega)).symm

/-- A page is what is granted when its own limit and offset are asked for. -/
theorem window_page (h : limits.Sound) {limit offset : Option Int64} {page : Page}
    (hlimit : GrantsLimit limits limit page.limit) (hoffset : GrantsOffset offset page.offset) :
    limits.window ((some (Int64.ofNat page.limit)).map Int64.toInt)
      ((some (Int64.ofNat page.offset)).map Int64.toInt) = page := by
  obtain ⟨hone, hmax⟩ := hlimit.bounds h
  have hhalf : halfBound < signedBound := by decide
  have hlt := h.max_lt
  exact Store.window_ofNat hone hmax (by omega) hoffset.lt

end Query

namespace Store

open Config (Configuration Layer)
open Query (Page GrantsLimit GrantsOffset)

/-! ### Services -/

section service
variable {layer : Layer} {c : Configuration} {durable : Bool} {s : Service}

theorem Service.limits_start (h : start c durable = .ok s) : s.limits = c.limits := by
  rw [start] at h
  split at h
  · cases h
  · cases h
    rfl

/-- The limits of an accepted configuration. -/
theorem sound_limits (h : Configuration.ofLayer layer = .ok c) : c.limits.Sound := by
  obtain ⟨hread, hpositive, hle⟩ := Configuration.ofLayer_eq_ok_iff.mp h
  exact ⟨hpositive, hle, (Configuration.inRange_of_read hread).limits.max⟩

/-- An answer has the window of the plan, and no more entities than that. -/
theorem answer_window [FloatReader] {limits : Query.Limits} {tenant : String}
    {request : Query.Search} {t : Tables} {plan : Query.Plan} {page : EntityPage}
    (hplan : request.compile limits = .ok plan)
    (h : search limits tenant request t = .ok page) :
    page.limit = plan.page.limit ∧ page.offset = plan.page.offset ∧
      page.items.length ≤ plan.page.limit := by
  rw [search_eq_found hplan] at h
  obtain ⟨rows, es, -, hes, rfl⟩ := answerFound_eq_ok.mp h
  refine ⟨rfl, rfl, ?_⟩
  dsimp only
  rw [length_of_readEntities hes]
  exact List.length_take_le _ _

/-- What the engine is given for the window of a plan. -/
theorem bound_window (plan : Query.Plan) (tenant blueprint : String)
    (hoffset : plan.page.offset < signedBound) :
    let st := plan.statement firstPlaceholder
    st.pageValues = [.integer plan.page.limit, .integer plan.page.offset] ∧
      boundTo tenant blueprint st.fetchValues st.limit = .integer plan.page.limit ∧
      boundTo tenant blueprint st.fetchValues st.offset = .integer plan.page.offset := by
  have hown := Query.ownValues_boundTo plan tenant blueprint
  have hmin : min plan.page.offset (signedBound - 1) = plan.page.offset := by omega
  refine ⟨?_, hown.limit, ?_⟩
  · rw [Query.statement_pageValues, Sql.Param.ofNatural, hmin]
  · rw [hown.offset, Sql.Param.ofNatural, hmin]
    rfl

/-- Page bounds hold from the configuration to the engine.  For every accepted configuration and
every request there is one window: its limit is from one to the largest limit, and is the one that is
asked for wherever that is in the range and the default everywhere else; its offset is the one that
is asked for unless that is negative, and zero otherwise.  The way of limit and offset through
integers of 32 and of 64 bits without sign gives the same window.  A plan of the request has this
window, the engine is given exactly these two numbers for its placeholders, and the request for just
this window has the same plan.  Whatever the tables hold, an answer shows this window and has no more
entities than its limit; and in all tables that can be reached there is an answer, if the plan is
inside the limits of the engine. -/
theorem search_bounded [FloatReader] (hc : Configuration.ofLayer layer = .ok c)
    (hs : Service.start c durable = .ok s) (tenant : String) (request : Query.Search) :
    ∃ page : Page,
      (1 ≤ page.limit ∧ page.limit ≤ c.limits.max ∧
        GrantsLimit c.limits request.limit page.limit ∧
        GrantsOffset request.offset page.offset) ∧
      (page.limit < halfBound ∧ page.offset < signedBound ∧
        c.limits.narrowed (request.limit.map Int64.toInt) (request.offset.map Int64.toInt) = page) ∧
      (∀ plan, request.compile s.limits = .ok plan →
        let st := plan.statement firstPlaceholder
        plan.page = page ∧
        st.pageValues = [.integer page.limit, .integer page.offset] ∧
        boundTo tenant request.blueprint st.fetchValues st.limit = .integer page.limit ∧
        boundTo tenant request.blueprint st.fetchValues st.offset = .integer page.offset ∧
        Query.Search.compile s.limits { request with
          limit := some (Int64.ofNat page.limit), offset := some (Int64.ofNat page.offset) } =
            .ok plan) ∧
      (∀ (t : Tables) (answer : EntityPage), (s.withTables t).search tenant request = .ok answer →
        answer.limit = page.limit ∧ answer.offset = page.offset ∧
          answer.items.length ≤ page.limit) ∧
      ∀ (t : Tables) (plan : Query.Plan), Reachable (fun call c => c.Storable call) t →
        request.compile s.limits = .ok plan → Fits plan →
          ∃ answer, (s.withTables t).search tenant request = .ok answer := by
  have hsound := sound_limits hc
  have hlimits := Service.limits_start hs
  let page := c.limits.window (request.limit.map Int64.toInt) (request.offset.map Int64.toInt)
  have hlimit : GrantsLimit c.limits request.limit page.limit := Query.grantsLimit_window _ _ _
  have hoffset : GrantsOffset request.offset page.offset := Query.grantsOffset_window _ _ _
  obtain ⟨hone, hmax⟩ := hlimit.bounds hsound
  have hpage : ∀ plan, request.compile s.limits = .ok plan → plan.page = page := fun plan hplan => by
    rw [page_eq hplan, hlimits]
  refine ⟨page, ⟨hone, hmax, hlimit, hoffset⟩,
    ⟨Nat.lt_of_le_of_lt hmax hsound.max_lt, hoffset.lt,
      Query.narrowed_eq_window hsound.max_lt _ _⟩, ?_, ?_, ?_⟩
  · intro plan hplan st
    obtain ⟨hvalues, hboundLimit, hboundOffset⟩ :=
      bound_window plan tenant request.blueprint (hpage plan hplan ▸ hoffset.lt)
    rw [hpage plan hplan] at hvalues hboundLimit hboundOffset
    refine ⟨hpage plan hplan, hvalues, hboundLimit, hboundOffset, ?_⟩
    rw [compile_window hplan, hlimits, Query.window_page hsound hlimit hoffset, ← hpage plan hplan]
  · intro t answer hanswer
    cases hplan : request.compile s.limits with
    | error e =>
        rw [Service.search, search, Service.withTables, hplan] at hanswer
        cases hanswer
    | ok plan =>
        rw [← hpage plan hplan]
        exact answer_window hplan hanswer
  · intro t plan ht hplan hfits
    exact search_eq_ok_of_readable (fun r hr => ht.exists_read hr) tenant hplan hfits

/-- The widest limit that can be set. -/
def wideLayer : Layer :=
  [("query", .table [("default_limit", .integer 20), ("max_limit", .integer 4294967295)])]

/-- Asks for one entity more than the widest limit, as far behind as can be asked. -/
def farSearch : Query.Search :=
  ⟨"service", [], none, none, some 4294967296, some 9223372036854775807⟩

theorem search_bounded_wide : ∃ c s answer, Configuration.ofLayer wideLayer = .ok c ∧
    Service.start c true = .ok s ∧
    (s.withTables sampleTables).search "acme" farSearch = .ok answer ∧
    answer.limit = 20 ∧ answer.offset = 9223372036854775807 ∧ answer.items.length ≤ 20 := by
  have hc : Configuration.ofLayer wideLayer = .ok ⟨.standard, ⟨20, 4294967295⟩⟩ := by decide
  have hs : Service.start ⟨.standard, ⟨20, 4294967295⟩⟩ true =
      .ok ⟨⟨.empty, true⟩, ⟨20, 4294967295⟩⟩ := rfl
  obtain ⟨page, -, ⟨-, -, hnarrowed⟩, -, hanswer, hexists⟩ :=
    search_bounded hc hs "acme" farSearch
  obtain rfl : page = ⟨20, 9223372036854775807⟩ := hnarrowed.symm.trans (by decide)
  obtain ⟨answer, hfound⟩ := hexists sampleTables ⟨[], .standard, ⟨20, 9223372036854775807⟩⟩
    reachable_sampleTables rfl ⟨⟨by decide, by decide⟩, nofun⟩
  obtain ⟨hlimit, hoffset, hitems⟩ := hanswer sampleTables answer hfound
  exact ⟨_, _, answer, hc, hs, hfound, hlimit, hoffset, hitems⟩

end service

end Store
end EntityStore
