import EntityStore.Proofs.Store.Direction
import EntityStore.Proofs.Time.Chronology

/-! # Listings in the order of time

A clock that shows years of four digits writes its times into the rows (`EntityRow.Timed`).  Their
texts are in the order of the times, so what a search orders by the time of creation or of the last
update is in the order of time (`Chronological`), on a page as in a whole listing. -/

namespace EntityStore.Store

open Query (Direction Order Plan Target)
open Time (Instant)

variable {limits : Query.Limits} {tenant : String} {request : Query.Search} {plan : Plan}
  {t : Tables}

/-! ### Orders of time -/

/-- The entities are in the order of a time. -/
def Chronological (direction : Direction) (time : Entity → Instant) (es : List Entity) : Prop :=
  es.Pairwise fun e f =>
    match direction with
    | .ascending => time e ≤ time f
    | .descending => time f ≤ time e

/-- What is true of rows one after the other is true of what is read of them. -/
theorem pairwise_of_forall₂ {α β : Type} {P : α → β → Prop} {R : α → α → Prop} {S : β → β → Prop}
    (himp : ∀ a b x y, P a x → P b y → R a b → S x y) : ∀ {as : List α} {xs : List β},
      List.Forall₂ P as xs → as.Pairwise R → xs.Pairwise S
  | [], [], .nil, _ => List.Pairwise.nil
  | a :: as, x :: xs, .cons hax hrest, h => by
      obtain ⟨hfirst, hlater⟩ := List.pairwise_cons.mp h
      refine List.pairwise_cons.mpr ⟨fun y hy => ?_, pairwise_of_forall₂ himp hrest hlater⟩
      obtain ⟨b, hb, hby⟩ := exists_of_forall₂ hrest.flip y hy
      exact himp _ _ _ _ hax hby (hfirst b hb)

/-! ### Times of rows -/

/-- The text of an instant that can be stored, exact to the microsecond. -/
def TimeText (text : String) : Prop :=
  ∃ i : Instant, i.Storable ∧ i.toMicros = i ∧ text = i.stored

/-- A row that was created and updated at times. -/
structure EntityRow.Timed (r : EntityRow) : Prop where
  created : TimeText r.created
  updated : TimeText r.updated

theorem timeText_time {call : Call} (h : call.now.Storable) : TimeText call.time.stored :=
  ⟨call.time, storable_time h, call.toMicros_time, rfl⟩

/-- Times are in the order of their texts. -/
theorem le_of_text_le {x y : String} {i j : Instant} (hx : TimeText x) (hy : TimeText y)
    (hi : readInstant x = .ok i) (hj : readInstant y = .ok j) (h : x ≤ y) : i ≤ j := by
  obtain ⟨i', hi', hexact, rfl⟩ := hx
  obtain ⟨j', hj', hexact', rfl⟩ := hy
  rw [readInstant_stored hi', hexact] at hi
  rw [readInstant_stored hj', hexact'] at hj
  cases hi
  cases hj
  rw [← not_lt] at h ⊢
  intro hlt
  rw [← hexact, ← hexact'] at hlt
  exact h (Instant.stored_lt_of_lt hj' hi' hlt)

section reader
variable [FloatReader]

/-- Where the clock shows times that can be stored, all rows have times. -/
theorem Reachable.timed (ht : Reachable (fun call _ => call.now.Storable) t) :
    ∀ r ∈ t.entities, r.Timed := by
  induction ht with
  | empty => exact nofun
  | change call c _ hnow ih =>
      exact Change.forall_entities ih (fun _ _ _ => ⟨timeText_time hnow, timeText_time hnow⟩)
        fun _ _ _ _ _ _ _ _ _ hr => ⟨hr.created, timeText_time hnow⟩

/-! ### Listings -/

/-- A column of times orders as the times do. -/
theorem chronological_of_before {direction : Direction} {column : Query.Column}
    {text : EntityRow → String} {time : Entity → Instant}
    (hcolumn : ∀ r : EntityRow, r.column column = some (text r))
    (hread : ∀ {r : EntityRow} {e : Entity}, r.read = .ok e → readInstant (text r) = .ok (time e))
    {rows : List EntityRow} {es : List Entity} (htimed : ∀ r ∈ rows, TimeText (text r))
    (hrows : rows.Pairwise (Before ⟨.column column, direction⟩))
    (hes : readEntities rows = .ok es) : Chronological direction time es := by
  have hle : ∀ {r s : EntityRow}, rank (.column column) r < rank (.column column) s →
      text r ≤ text s := by
    intro r s hlt
    have hkey : ∀ r : EntityRow, (Target.column column).keyOf r.view = some (text r).toList := fun r =>
      congrArg (Option.map String.toList) (hcolumn r)
    rw [rank, rank, hkey, hkey, Prod.Lex.toLex_lt_toLex] at hlt
    rcases hlt with hlt | ⟨heq, -⟩
    · exact le_of_lt (String.lt_iff_toList_lt.mpr (WithBot.coe_lt_coe.mp hlt))
    · exact le_of_eq (String.toList_inj.mp (Option.some.inj heq))
  have hboth := (List.forall₂_and_left _ _).mpr ⟨htimed, forall₂_readEntities.mp hes⟩
  refine pairwise_of_forall₂ (fun r s e f hr hs hbefore => ?_) hboth hrows
  cases direction with
  | ascending => exact le_of_text_le hr.1 hs.1 (hread hr.2) (hread hs.2) (hle hbefore)
  | descending => exact le_of_text_le hs.1 hr.1 (hread hs.2) (hread hr.2) (hle hbefore)

/-- Entities that are ordered by one of their times are in the order of this time. -/
def TimeOrdered (order : Order) (es : List Entity) : Prop :=
  (order.target = .column .createdAt → Chronological order.direction Entity.created es) ∧
  (order.target = .column .updatedAt → Chronological order.direction Entity.updated es)

theorem timeOrdered_of_before {order : Order} {rows : List EntityRow} {es : List Entity}
    (htimed : ∀ r ∈ rows, r.Timed) (hrows : rows.Pairwise (Before order))
    (hes : readEntities rows = .ok es) : TimeOrdered order es := by
  obtain ⟨target, direction⟩ := order
  constructor
  · rintro rfl
    refine chronological_of_before (fun _ => rfl) (fun hread => ?_)
      (fun r hr => (htimed r hr).created) hrows hes
    obtain ⟨_, _, _, _, -, -, hcreated, -, rfl⟩ := EntityRow.read_eq_ok.mp hread
    exact hcreated
  · rintro rfl
    refine chronological_of_before (fun _ => rfl) (fun hread => ?_)
      (fun r hr => (htimed r hr).updated) hrows hes
    obtain ⟨_, _, _, _, -, -, -, hupdated, rfl⟩ := EntityRow.read_eq_ok.mp hread
    exact hupdated

/-- A page is in the order of time. -/
theorem timeOrdered_search (ht : Reachable (fun call _ => call.now.Storable) t)
    (hplan : request.compile limits = .ok plan) {page : EntityPage}
    (hpage : search limits tenant request t = .ok page) : TimeOrdered plan.order page.items := by
  rw [search_eq_found hplan] at hpage
  obtain ⟨rows, es, hfound, hes, rfl⟩ := answerFound_eq_ok.mp hpage
  have hsublist : List.Sublist _ (rows.mergeSort (orderLe plan.order)) :=
    (List.take_sublist plan.page.limit _).trans (List.drop_sublist plan.page.offset _)
  have hsorted := pairwise_before plan.order (distinct_found ht.distinct hfound)
  refine timeOrdered_of_before (fun r hr => ?_) (hsorted.sublist hsublist) hes
  have hfoundRow : r ∈ rows := List.mem_mergeSort.mp (hsublist.subset hr)
  exact ht.timed r (List.mem_filter.mp ((found_sublist hfound).subset hfoundRow)).1

/-- A whole listing is in the order of time. -/
theorem timeOrdered_paged (ht : Reachable (fun call _ => call.now.Storable) t)
    (hplan : request.compile limits = .ok plan) {size total : Nat} (hsize : 1 ≤ size)
    (hmax : size ≤ limits.max) {es : List Entity}
    (hpaged : Paged limits tenant request size t total es) : TimeOrdered plan.order es := by
  obtain ⟨rows, hfound, -, hes, -⟩ := (paged_iff hplan hsize hmax).mp hpaged
  have hsorted := pairwise_before plan.order (distinct_found ht.distinct hfound)
  refine timeOrdered_of_before (fun r hr => ?_) hsorted hes
  have hfoundRow : r ∈ rows := List.mem_mergeSort.mp hr
  exact ht.timed r (List.mem_filter.mp ((found_sublist hfound).subset hfoundRow)).1

/-- Stored times are exact and in the order of their texts.  The text of an instant of a year with
four digits reads as the instant to the microsecond; the texts of all of them have one length, and
their bytes are in the order of the instants.  A whole second that the database has written reads as
it would with `Z` or with any offset.  So in all tables that are reached while the clock shows such
years, what a search orders by the time of creation or of the last update is in the order of time, on
each page and in the listing that a client puts together of pages. -/
theorem times_in_order :
    (∀ i : Instant, i.Storable → Time.readStored? i.toMicros.stored = some i.toMicros) ∧
    (∀ i j : Instant, i.Storable → j.Storable →
      (Text.bytes i.toMicros.stored).length = (Text.bytes j.toMicros.stored).length ∧
      (i.toMicros < j.toMicros ↔
        Text.bytes i.toMicros.stored < Text.bytes j.toMicros.stored)) ∧
    (∀ i : Instant, i.Storable → i.civil.nanos = 0 →
      Time.readStored? i.plain = some i ∧ Time.readStored? i.shown = some i ∧
      ∀ minutes : Int, minutes.natAbs < 1440 → (i.ahead minutes).Storable →
        Time.readStored? (i.withOffset minutes) = some i) ∧
    (∀ t, Reachable (fun call _ => call.now.Storable) t →
      ∀ limits tenant request plan, Query.Search.compile limits request = .ok plan →
        (∀ page, search limits tenant request t = .ok page → TimeOrdered plan.order page.items) ∧
        ∀ size total es, 1 ≤ size → size ≤ limits.max →
          Paged limits tenant request size t total es → TimeOrdered plan.order es) := by
  refine ⟨fun i hi => ?_, fun i j hi hj => ?_, fun i hi hwhole => ?_, ?_⟩
  · rw [Instant.stored_toMicros]
    exact Instant.readStored?_stored hi
  · rw [Instant.stored_toMicros, Instant.stored_toMicros, Instant.bytes_stored_lt hi hj,
      Instant.length_bytes_stored hi, Instant.length_bytes_stored hj]
    exact ⟨rfl, Iff.rfl⟩
  · exact ⟨Instant.readStored?_plain hi hwhole, Instant.readStored?_shown hi hwhole,
      fun minutes hminutes hahead => Instant.readStored?_withOffset hi hahead hminutes hwhole⟩
  · intro t ht limits tenant request plan hplan
    exact ⟨fun page hpage => timeOrdered_search ht hplan hpage,
      fun size total es hsize hmax hpaged => timeOrdered_paged ht hplan hsize hmax hpaged⟩

end reader

/-- The leap second at the end of 2016, half of it gone. -/
def leapSecond : Instant := ⟨1483228799, 1500000000⟩

/-- The first second of year 0, and the last one of year 9999. -/
def firstSecond : Instant := ⟨-62167219200, 0⟩

def lastSecond : Instant := ⟨253402300799, 999999000⟩

/-- Half past two in the afternoon, shown by the database and by a clock that is five and a half hours
ahead. -/
def afternoon : Instant := ⟨1770647400, 0⟩

/-- A leap second is stored, the first and the last text are in order, an afternoon is read in both
formats, and the services are listed with the latest one first. -/
theorem times_in_order_leap :
    Time.readStored? "2016-12-31T23:59:60.500000Z" = some leapSecond ∧
    Text.bytes firstSecond.toMicros.stored < Text.bytes lastSecond.toMicros.stored ∧
    afternoon.plain = "2026-02-09 14:30:00" ∧ Time.readStored? afternoon.plain = some afternoon ∧
    afternoon.withOffset 330 = "2026-02-09T20:00:00+05:30" ∧
    Time.readStored? (afternoon.withOffset 330) = some afternoon ∧
    ∃ es, es.length = 4 ∧ Paged .standard "acme" ⟨"service", [], none, none, none, none⟩ 2
      (after .empty tieredRun) 4 es ∧ Chronological .descending Entity.created es := by
  have hleap : leapSecond.Storable := by decide +kernel
  have hbounds : firstSecond.Storable ∧ lastSecond.Storable := by decide +kernel
  have hafternoon : afternoon.Storable ∧ (afternoon.ahead 330).Storable := by decide +kernel
  obtain ⟨hexact, hsorted, hwhole, hordered⟩ := times_in_order
  obtain ⟨hplain, -, hoffset⟩ := hwhole afternoon hafternoon.1 (by decide +kernel)
  refine ⟨?_, (hsorted _ _ hbounds.1 hbounds.2).2.mp (by decide +kernel), by decide +kernel, hplain,
    by decide +kernel, hoffset 330 (by decide) hafternoon.2, ?_⟩
  · have htext : leapSecond.toMicros.stored = "2016-12-31T23:59:60.500000Z" := by decide +kernel
    have hmicros : leapSecond.toMicros = leapSecond := by decide +kernel
    have hread := hexact leapSecond hleap
    rw [htext, hmicros] at hread
    exact hread
  have hstorable : Reachable (fun call c => c.Storable call) (after .empty tieredRun) :=
    Reachable.empty.after (by decide +kernel)
  have hclock : Reachable (fun call _ => call.now.Storable) (after .empty tieredRun) :=
    Reachable.empty.after (by decide +kernel)
  have hplan : Query.Search.compile .standard ⟨"service", [], none, none, none, none⟩ =
      .ok ⟨[], Order.standard, ⟨50, 0⟩⟩ := rfl
  obtain ⟨rows, es, hrows, hes, hpaged⟩ := exists_paged hstorable "acme" hplan
    ⟨⟨by decide, by decide⟩, nofun⟩ (show 1 ≤ 2 by decide) (by decide) (by decide +kernel)
  have hcount : (((after .empty tieredRun).entitiesOf "acme" "service").filter
      (meetsAll [])).length = 4 := by decide +kernel
  have hlength : es.length = 4 :=
    (length_of_readEntities hes).trans (hrows.perm.length_eq.trans hcount)
  rw [hlength] at hpaged
  obtain ⟨-, hlisted⟩ := hordered _ hclock .standard "acme" _ _ hplan
  exact ⟨es, hlength, hpaged, (hlisted 2 4 es (by decide) (by decide) hpaged).1 rfl⟩

end EntityStore.Store
