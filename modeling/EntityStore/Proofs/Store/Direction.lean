import EntityStore.Proofs.Store.Lookup

/-! # Listings in both directions

A client lists what a search finds by asking for one page after the other (`Paged`).  What it has put
together in the end are all rows that are found, in order, whatever the size of the pages
(`paged_iff`).  Ids decide between rows that the key does not tell apart, in the same direction as the
key, so the rows are never in the same place and the order of one direction is the reverse of the
other one (`mergeSort_descending`).  So are the listings (`paged_mirrored`). -/

namespace EntityStore

/-- The request for results in a direction. -/
def Query.Search.inDirection (request : Query.Search) (direction : Query.Direction) :
    Query.Search :=
  { request with direction := some direction }

namespace Store

open Query (Direction Order Plan Target)

variable {limits : Query.Limits} {tenant : String} {request : Query.Search} {plan : Plan}
  {size : Nat} {t : Tables}

/-! ### Plans in both directions -/

theorem compile_order_direction (orderBy : Option String) (given : Option Direction)
    (direction : Direction) : Order.compile orderBy (some direction) =
      (Order.compile orderBy given).map fun order => ⟨order.target, direction⟩ := by
  unfold Order.compile
  dsimp only
  split
  · rfl
  · split
    · rfl
    · split <;> rfl

/-- A direction changes nothing in a plan but the direction of its order. -/
theorem compile_inDirection (limits : Query.Limits) (request : Query.Search) (direction : Direction) :
    (request.inDirection direction).compile limits =
      (request.compile limits).map fun plan =>
        { plan with order := ⟨plan.order.target, direction⟩ } := by
  rw [Query.Search.compile, Query.Search.compile, Query.Search.inDirection]
  dsimp only
  cases Query.Filter.compileAll request.filters with
  | error e => rfl
  | ok predicates =>
      dsimp only
      rw [compile_order_direction request.orderBy request.direction direction]
      cases Order.compile request.orderBy request.direction <;> rfl

/-- The order of one direction is the reverse of that of the other one. -/
theorem mergeSort_descending {rows : List EntityRow} (h : Distinct rows) (target : Target) :
    rows.mergeSort (orderLe ⟨target, .descending⟩) =
      (rows.mergeSort (orderLe ⟨target, .ascending⟩)).reverse := by
  have hperm : (rows.mergeSort (orderLe ⟨target, .descending⟩)).Perm
      (rows.mergeSort (orderLe ⟨target, .ascending⟩)).reverse :=
    ((List.mergeSort_perm _ _).trans (List.mergeSort_perm _ _).symm).trans
      (List.reverse_perm _).symm
  have hreverse : (rows.mergeSort (orderLe ⟨target, .ascending⟩)).reverse.Pairwise
      (Before ⟨target, .descending⟩) :=
    List.pairwise_reverse.mpr (pairwise_before ⟨target, .ascending⟩ h)
  exact hperm.eq_of_pairwise (fun _ _ _ _ hab hba => absurd hba hab.asymm)
    (pairwise_before ⟨target, .descending⟩ h) hreverse

theorem distinct_found {blueprint : String} {rows : List EntityRow} (h : Distinct t.entities)
    (hfound : found t tenant blueprint plan = .ok rows) : Distinct rows :=
  h.sublist ((found_sublist hfound).trans List.filter_sublist)

theorem exists_of_forall₂ {α β : Type} {R : α → β → Prop} {xs : List α} {ys : List β}
    (h : List.Forall₂ R xs ys) : ∀ x ∈ xs, ∃ y ∈ ys, R x y := by
  induction h with
  | nil => exact nofun
  | cons hxy _ ih =>
      refine List.forall_mem_cons.mpr ⟨⟨_, List.mem_cons_self, hxy⟩, fun x hx => ?_⟩
      obtain ⟨y, hy, hxy⟩ := ih x hx
      exact ⟨y, List.mem_cons_of_mem _ hy, hxy⟩

section reader
variable [FloatReader]

/-! ### Listing page by page -/

/-- The listing that a client puts together of pages of a size: one page after the other, until they
have room for as many entities as every page says there are. -/
def Paged (limits : Query.Limits) (tenant : String) (request : Query.Search) (size : Nat)
    (t : Tables) (total : Nat) (es : List Entity) : Prop :=
  ∃ count pages, 0 < count ∧ total ≤ count * size ∧ count * size < signedBound ∧
    searchPages limits tenant request size count t = .ok pages ∧
    (∀ page ∈ pages, page.total = total) ∧ es = pages.flatMap EntityPage.items

theorem readEntities_reverse {rows : List EntityRow} {es : List Entity} :
    readEntities rows.reverse = .ok es ↔ readEntities rows = .ok es.reverse := by
  rw [forall₂_readEntities, forall₂_readEntities, ← List.forall₂_reverse_iff, List.reverse_reverse]

/-- Rows are read together if they are read page by page. -/
theorem exists_readEntities_of_pages {rows : List EntityRow} {count : Nat}
    (henough : rows.length ≤ count * size)
    (h : ∀ k < count, ∃ es, readEntities ((rows.drop (k * size)).take size) = .ok es) :
    ∃ es, readEntities rows = .ok es := by
  refine exists_readEntities fun r hr => ?_
  rw [← List.take_of_length_le henough, ← take_flatMap, List.mem_flatMap] at hr
  obtain ⟨k, hk, hr⟩ := hr
  obtain ⟨es, hes⟩ := h k (List.mem_range.mp hk)
  obtain ⟨e, -, he⟩ := exists_of_forall₂ (forall₂_readEntities.mp hes) r hr
  exact ⟨e, he⟩

/-- Each page is answered from the rows that are found. -/
theorem answers_of_searchPages (hplan : request.compile limits = .ok plan) (hsize : 1 ≤ size)
    (hmax : size ≤ limits.max) {count : Nat} (hbound : count * size < signedBound)
    {pages : List EntityPage} (h : searchPages limits tenant request size count t = .ok pages) :
    ∀ k < count, ∃ page ∈ pages, answerFound plan.order ⟨size, k * size⟩
      (found t tenant request.blueprint plan) = .ok page := by
  intro k hk
  obtain ⟨page, hmem, hpage⟩ :=
    exists_of_forall₂ (forall₂_mapM.mp h) k (List.mem_range.mpr hk)
  rw [search_page hplan hsize hmax hk hbound] at hpage
  exact ⟨page, hmem, hpage⟩

/-- If enough pages are answered, all rows are found and read, and they are as many as the pages say. -/
theorem exists_rows_of_answers {order : Order} {count total : Nat}
    {fetched : Except Sql.Fault (List EntityRow)} (hcount : 0 < count)
    (henough : total ≤ count * size)
    (h : ∀ k < count, ∃ page, page.total = total ∧
      answerFound order ⟨size, k * size⟩ fetched = .ok page) :
    ∃ rows es, fetched = .ok rows ∧ rows.length = total ∧
      readEntities (rows.mergeSort (orderLe order)) = .ok es := by
  obtain ⟨first, hfirst, hanswer⟩ := h 0 hcount
  obtain ⟨rows, _, rfl, -, rfl⟩ := answerFound_eq_ok.mp hanswer
  obtain rfl : rows.length = total := hfirst
  have hlength : (rows.mergeSort (orderLe order)).length = rows.length :=
    List.length_mergeSort rows
  obtain ⟨es, hes⟩ := exists_readEntities_of_pages (hlength ▸ henough) fun k hk => by
    obtain ⟨_, -, hpage⟩ := h k hk
    obtain ⟨_, es, hfetched, hes, -⟩ := answerFound_eq_ok.mp hpage
    cases hfetched
    exact ⟨es, hes⟩
  exact ⟨rows, es, rfl, rfl, hes⟩

/-- The listing has all rows that are found, in order. -/
theorem paged_iff (hplan : request.compile limits = .ok plan) (hsize : 1 ≤ size)
    (hmax : size ≤ limits.max) {total : Nat} {es : List Entity} :
    Paged limits tenant request size t total es ↔
      ∃ rows, found t tenant request.blueprint plan = .ok rows ∧ rows.length = total ∧
        readEntities (rows.mergeSort (orderLe plan.order)) = .ok es ∧
        ∃ count, 0 < count ∧ total ≤ count * size ∧ count * size < signedBound := by
  constructor
  · rintro ⟨count, pages, hcount, henough, hbound, hpages, htotal, rfl⟩
    obtain ⟨rows, es, hfound, rfl, hes⟩ := exists_rows_of_answers hcount henough fun k hk => by
      obtain ⟨page, hmem, hpage⟩ := answers_of_searchPages hplan hsize hmax hbound hpages k hk
      exact ⟨page, htotal page hmem, hpage⟩
    have hlength : es.length = rows.length :=
      (length_of_readEntities hes).trans (List.length_mergeSort rows)
    refine ⟨rows, hfound, rfl, ?_, count, hcount, henough, hbound⟩
    rw [searchPages, search_paged_of_found hplan hsize hmax hbound hfound hes] at hpages
    cases hpages
    rw [flatMap_pages, List.take_of_length_le (hlength ▸ henough), hes]
  · rintro ⟨rows, hfound, rfl, hes, count, hcount, henough, hbound⟩
    have hlength : es.length = rows.length :=
      (length_of_readEntities hes).trans (List.length_mergeSort rows)
    exact ⟨count, _, hcount, henough, hbound,
      search_paged_of_found hplan hsize hmax hbound hfound hes,
      List.forall_mem_map.mpr fun _ _ => rfl,
      ((flatMap_pages es _ size count).trans (List.take_of_length_le (hlength ▸ henough))).symm⟩

/-- A request that does not compile has no listing. -/
theorem not_paged_of_compile_error {e : Query.Error} (h : request.compile limits = .error e)
    {total : Nat} {es : List Entity} : ¬ Paged limits tenant request size t total es := by
  rintro ⟨count, pages, hcount, -, -, hpages, -, -⟩
  obtain ⟨page, -, hpage⟩ :=
    exists_of_forall₂ (forall₂_mapM.mp hpages) 0 (List.mem_range.mpr hcount)
  have hcompile : Query.Search.compile limits { request with
      limit := some (Int64.ofNat size), offset := some (Int64.ofNat (0 * size)) } = .error e := by
    rw [Query.Search.compile] at h ⊢
    dsimp only
    split at h
    · exact h
    · split at h
      · exact h
      · cases h
  rw [search, hcompile] at hpage
  cases hpage

/-! ### The two directions -/

/-- A client that lists in one direction gets the reverse of what it gets in the other one. -/
theorem paged_descending_iff (ht : Distinct t.entities) (hsize : 1 ≤ size)
    (hmax : size ≤ limits.max) {total : Nat} {es : List Entity} :
    Paged limits tenant (request.inDirection .descending) size t total es ↔
      Paged limits tenant (request.inDirection .ascending) size t total es.reverse := by
  have hdescending := compile_inDirection limits request .descending
  have hascending := compile_inDirection limits request .ascending
  cases hplan : request.compile limits with
  | error e =>
      rw [hplan] at hdescending hascending
      exact iff_of_false (not_paged_of_compile_error hdescending)
        (not_paged_of_compile_error hascending)
  | ok plan =>
      rw [hplan] at hdescending hascending
      rw [paged_iff hdescending hsize hmax, paged_iff hascending hsize hmax]
      refine exists_congr fun rows => and_congr_right fun hfound => and_congr_right fun _ =>
        and_congr_left fun _ => ?_
      dsimp only
      rw [mergeSort_descending (distinct_found ht hfound), readEntities_reverse]

/-- There is one listing in a direction. -/
theorem Paged.unique (hsize : 1 ≤ size) (hmax : size ≤ limits.max) {total total' : Nat}
    {es es' : List Entity} (h : Paged limits tenant request size t total es)
    (h' : Paged limits tenant request size t total' es') : total = total' ∧ es = es' := by
  cases hplan : request.compile limits with
  | error e => exact absurd h (not_paged_of_compile_error hplan)
  | ok plan =>
      rw [paged_iff hplan hsize hmax] at h h'
      obtain ⟨rows, hfound, rfl, hes, -⟩ := h
      obtain ⟨rows', hfound', rfl, hes', -⟩ := h'
      rw [hfound] at hfound'
      cases hfound'
      rw [hes] at hes'
      cases hes'
      exact ⟨rfl, rfl⟩

/-- Where the entities can be read, a client that asks for a plan inside the limits of the engine gets
the listing of the plan. -/
theorem paged_of_listing (ht : Distinct t.entities) (hplan : request.compile limits = .ok plan)
    (hfits : Fits plan) (hsize : 1 ≤ size) (hmax : size ≤ limits.max)
    (hbound : t.entities.length + size < signedBound) {rows : List EntityRow} {es : List Entity}
    (hrows : Listing t tenant request.blueprint plan.predicates plan.order rows)
    (hes : readEntities rows = .ok es) : Paged limits tenant request size t es.length es := by
  have hlisting := hrows.unique (listing_isListing ht)
  have hlength : es.length =
      ((t.entitiesOf tenant request.blueprint).filter (meetsAll plan.predicates)).length :=
    (length_of_readEntities hes).trans hrows.perm.length_eq
  have hle : es.length ≤ t.entities.length := by
    rw [hlength]
    exact (List.filter_sublist.trans List.filter_sublist).length_le
  refine (paged_iff hplan hsize hmax).mpr ⟨_, found_eq hfits, hlength.symm, ?_,
    es.length / size + 1, Nat.succ_pos _, ?_, ?_⟩
  · rw [← hes, hlisting, listing]
  · rw [Nat.add_one_mul, Nat.mul_comm]
    have hdiv := Nat.div_add_mod es.length size
    have hmod := Nat.mod_lt es.length hsize
    omega
  · have hdiv := Nat.div_mul_le_self es.length size
    rw [Nat.add_one_mul]
    omega

/-- Where callers give what can be stored, a client that asks for a plan inside the limits of the
engine gets a listing. -/
theorem exists_paged (ht : Reachable (fun call c => c.Storable call) t) (tenant : String)
    (hplan : request.compile limits = .ok plan) (hfits : Fits plan) (hsize : 1 ≤ size)
    (hmax : size ≤ limits.max) (hbound : t.entities.length + size < signedBound) :
    ∃ rows es, Listing t tenant request.blueprint plan.predicates plan.order rows ∧
      readEntities rows = .ok es ∧ Paged limits tenant request size t es.length es := by
  have hrows : Listing t tenant request.blueprint plan.predicates plan.order _ :=
    listing_isListing ht.distinct
  obtain ⟨es, hes⟩ := exists_readEntities fun r hr => ht.exists_read (mem_of_mem_listing hr)
  exact ⟨_, es, hrows, hes, paged_of_listing ht.distinct hplan hfits hsize hmax hbound hrows hes⟩

/-- Ascending and descending are mirror images.  In all tables that can be reached, and for every
request, a client that pages through the results in descending order gets the reverse of what it gets
in ascending order, with the same total; in neither direction it can get anything else.  If callers
give what can be stored and the request compiles to a plan inside the limits of the engine, it does get
its results: those of the plan, all of them, in order. -/
theorem paged_mirrored {allowed : Call → Change → Prop} (ht : Reachable allowed t)
    (tenant : String) (request : Query.Search) (hsize : 1 ≤ size) (hmax : size ≤ limits.max) :
    (∀ total es, Paged limits tenant (request.inDirection .descending) size t total es ↔
      Paged limits tenant (request.inDirection .ascending) size t total es.reverse) ∧
    (∀ direction total total' es es',
      Paged limits tenant (request.inDirection direction) size t total es →
      Paged limits tenant (request.inDirection direction) size t total' es' →
      total = total' ∧ es = es') ∧
    ((∀ call c, allowed call c → c.Storable call) → t.entities.length + size < signedBound →
      ∀ plan, request.compile limits = .ok plan → Fits plan →
      ∃ rows es, Listing t tenant request.blueprint plan.predicates
          ⟨plan.order.target, .ascending⟩ rows ∧ readEntities rows = .ok es ∧
        Paged limits tenant (request.inDirection .ascending) size t es.length es ∧
        Paged limits tenant (request.inDirection .descending) size t es.length es.reverse) := by
  have hmirrored : ∀ total es,
      Paged limits tenant (request.inDirection .descending) size t total es ↔
        Paged limits tenant (request.inDirection .ascending) size t total es.reverse :=
    fun _ _ => paged_descending_iff ht.distinct hsize hmax
  refine ⟨hmirrored, fun _ _ _ _ _ h h' => h.unique hsize hmax h', ?_⟩
  intro hallowed hbound plan hplan hfits
  have hascending := compile_inDirection limits request .ascending
  rw [hplan] at hascending
  obtain ⟨rows, es, hrows, hes, hpaged⟩ := exists_paged (ht.mono hallowed) tenant hascending
    ⟨⟨hfits.depth, hfits.placeholders⟩, hfits.values⟩ hsize hmax hbound
  refine ⟨rows, es, hrows, hes, hpaged, (hmirrored _ _).mpr ?_⟩
  rwa [List.reverse_reverse]

end reader

/-- Services with equal tiers, without a tier, and with a tier of another kind. -/
def tieredRun : List Step :=
  ⟨⟨"acme", ⟨0, 0⟩⟩, .change (.createBlueprint ⟨"service", "Service", none, .object []⟩)⟩ ::
    [("ent-1", [("tier", .number (.integer 1))]), ("ent-2", []), ("ent-3", [("tier", .string "gold")]),
      ("ent-4", [("tier", .number (.integer 1))])].map fun (id, data) =>
        ⟨⟨"acme", ⟨1, 0⟩⟩, .change (.createEntity id ⟨"service", id, none, .object data⟩)⟩

/-- Asks for all services by tier. -/
def byTier : Query.Search := ⟨"service", [], some "tier", none, none, none⟩

/-- Two of four services to a page. -/
theorem paged_mirrored_tiered :
    ∃ es, es.length = 4 ∧
      Paged .standard "acme" (byTier.inDirection .ascending) 2 (after .empty tieredRun) 4 es ∧
      Paged .standard "acme" (byTier.inDirection .descending) 2 (after .empty tieredRun) 4
        es.reverse := by
  have hallowed : ∀ s ∈ tieredRun, s.Allowed fun call c => c.Storable call := by decide +kernel
  have ht := Reachable.empty.after hallowed
  obtain ⟨-, -, hlisted⟩ := @paged_mirrored .standard 2 _ _ _ ht "acme" byTier (by decide)
    (by decide)
  obtain ⟨rows, es, hrows, hes, hascending, hdescending⟩ := hlisted (fun _ _ h => h)
    (by decide +kernel) _ rfl ⟨⟨by decide, by decide⟩, nofun⟩
  have hcount : (((after .empty tieredRun).entitiesOf "acme" "service").filter
      (meetsAll [])).length = 4 := by decide +kernel
  have hlength : es.length = 4 :=
    (length_of_readEntities hes).trans (hrows.perm.length_eq.trans hcount)
  rw [hlength] at hascending hdescending
  exact ⟨es, hlength, hascending, hdescending⟩

end Store
end EntityStore
