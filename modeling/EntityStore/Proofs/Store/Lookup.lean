import EntityStore.Proofs.Store.Listing
import EntityStore.Proofs.Store.Reply
import Mathlib.Data.List.Nodup
import Mathlib.Data.List.TFAE

/-! # Three ways to look an entity up

An entity is looked up by its id, by its blueprint and identifier, or by paging through the entities
of its blueprint.  Each way finds the rows that are read as the entity (`Tables.Shows`), and the first
one that is found is the only one, for keys are unique.

A row is found by what it holds but shows what is read of that, which ends at the first NUL.  So an
entity is found under the names it shows only if they are the names it holds: then the three ways
agree (`lookups_agree`). -/

namespace EntityStore.Store

/-- The ids of all entities have no NUL. -/
def PlainIds (t : Tables) : Prop := ∀ r ∈ t.entities, ∀ id, r.id = some id → Plain id

variable {t : Tables} {tenant : String} {r s : EntityRow} {e e' : Entity}
  {limits : Query.Limits} {request : Query.Search}

/-! ### Rows and requests -/

theorem EntityRow.isOf_iff {blueprint : String} :
    r.isOf tenant blueprint = true ↔ r.tenant = tenant ∧ r.blueprint = blueprint := by
  rw [isOf, Bool.and_eq_true, decide_eq_true_eq, decide_eq_true_eq]

theorem EntityRow.isNamed_iff {blueprint identifier : String} :
    r.isNamed tenant blueprint identifier = true ↔ r.name = (tenant, blueprint, identifier) := by
  rw [isNamed, Bool.and_eq_true, isOf_iff, decide_eq_true_eq, name, Prod.mk.injEq, Prod.mk.injEq,
    and_assoc]

theorem predicates_of_unfiltered {plan : Query.Plan} (hfilters : request.filters = [])
    (h : request.compile limits = .ok plan) : plan.predicates = [] := by
  rw [Query.Search.compile, hfilters, Query.Filter.compileAll] at h
  dsimp only at h
  split at h
  · cases h
  · cases h
    rfl

section reader
variable [FloatReader]

theorem Reachable.unique {allowed : Call → Change → Prop} {t : Tables} (h : Reachable allowed t) :
    Unique EntityRow.id t.entities ∧ Unique EntityRow.name t.entities :=
  ⟨h.consistent_any.ids, h.consistent_any.names⟩

/-- A row of the tenant is read as the entity. -/
structure Tables.Shows (t : Tables) (tenant : String) (r : EntityRow) (e : Entity) : Prop where
  mem : r ∈ t.entities
  tenant : r.tenant = tenant
  read : r.read = .ok e

/-! ### What a row shows -/

theorem id_of_read (hplain : ∀ id, r.id = some id → Plain id) (h : r.read = .ok e) :
    r.id = some e.id := by
  obtain ⟨id, _, _, _, hid, -, -, -, rfl⟩ := EntityRow.read_eq_ok.mp h
  cases hstored : r.id with
  | none =>
      rw [hstored] at hid
      cases hid
  | some stored =>
      rw [hstored, readId, readText_plain (hplain stored hstored)] at hid
      cases hid
      rfl

theorem blueprint_of_read (h : r.read = .ok e) : e.blueprint = readText r.blueprint := by
  obtain ⟨_, _, _, _, -, -, -, -, rfl⟩ := EntityRow.read_eq_ok.mp h
  rfl

theorem identifier_of_read (h : r.read = .ok e) : e.identifier = readText r.identifier := by
  obtain ⟨_, _, _, _, -, -, -, -, rfl⟩ := EntityRow.read_eq_ok.mp h
  rfl

/-- A row is of the blueprint it shows if the name of that has no NUL. -/
theorem blueprint_eq_iff (h : r.read = .ok e) : r.blueprint = e.blueprint ↔ Plain r.blueprint := by
  rw [blueprint_of_read h, eq_comm]
  exact readText_eq_iff

theorem identifier_eq_iff (h : r.read = .ok e) :
    r.identifier = e.identifier ↔ Plain r.identifier := by
  rw [identifier_of_read h, eq_comm]
  exact readText_eq_iff

/-! ### By id, and by blueprint and identifier -/

theorem getEntity_iff_shows (hids : Unique EntityRow.id t.entities) (hplain : PlainIds t) :
    getEntity tenant e.id t = .ok e ↔ ∃ r, t.Shows tenant r e := by
  have hfind : ∀ r, t.entity? tenant e.id = some r ↔
      r ∈ t.entities ∧ r.isAt tenant e.id = true := fun _ =>
    hids.find?_eq_some fun r s hr hs =>
      (EntityRow.isAt_iff.mp hr).2.trans (EntityRow.isAt_iff.mp hs).2.symm
  rw [getEntity_row]
  refine exists_congr fun r => ?_
  rw [hfind, EntityRow.isAt_iff]
  constructor
  · rintro ⟨⟨hr, htenant, -⟩, hread⟩
    exact ⟨hr, htenant, hread⟩
  · rintro ⟨hr, htenant, hread⟩
    exact ⟨⟨hr, htenant, id_of_read (hplain r hr) hread⟩, hread⟩

theorem getEntityNamed_iff_shows (hnames : Unique EntityRow.name t.entities) :
    getEntityNamed tenant e.blueprint e.identifier t = .ok e ↔
      ∃ r, t.Shows tenant r e ∧ Plain r.blueprint ∧ Plain r.identifier := by
  have hfind : ∀ r, t.entityNamed? tenant e.blueprint e.identifier = some r ↔
      r ∈ t.entities ∧ r.isNamed tenant e.blueprint e.identifier = true := fun _ =>
    hnames.find?_eq_some fun r s hr hs =>
      (EntityRow.isNamed_iff.mp hr).trans (EntityRow.isNamed_iff.mp hs).symm
  rw [getEntityNamed, readEntity_eq_ok]
  refine exists_congr fun r => ?_
  rw [hfind, EntityRow.isNamed_iff, EntityRow.name, Prod.mk.injEq, Prod.mk.injEq]
  constructor
  · rintro ⟨⟨hr, htenant, hblueprint, hidentifier⟩, hread⟩
    exact ⟨⟨hr, htenant, hread⟩, (blueprint_eq_iff hread).mp hblueprint,
      (identifier_eq_iff hread).mp hidentifier⟩
  · rintro ⟨⟨hr, htenant, hread⟩, hblueprint, hidentifier⟩
    exact ⟨⟨hr, htenant, (blueprint_eq_iff hread).mpr hblueprint,
      (identifier_eq_iff hread).mpr hidentifier⟩, hread⟩

/-- Two rows show two ids, and two names if these are the names they hold. -/
theorem Tables.Shows.ne_of_ne (hids : Unique EntityRow.id t.entities)
    (hnames : Unique EntityRow.name t.entities) (hplain : PlainIds t) (hr : t.Shows tenant r e)
    (hs : t.Shows tenant s e') (hne : r ≠ s) :
    e.id ≠ e'.id ∧
      (Plain r.blueprint ∧ Plain r.identifier → Plain s.blueprint ∧ Plain s.identifier →
        (e.blueprint, e.identifier) ≠ (e'.blueprint, e'.identifier)) := by
  constructor
  · intro hid
    refine hne (hids.eq_of_key hr.mem hs.mem ?_)
    rw [id_of_read (hplain r hr.mem) hr.read, id_of_read (hplain s hs.mem) hs.read, hid]
  · rintro ⟨hblueprint, hidentifier⟩ ⟨hblueprint', hidentifier'⟩ hname
    obtain ⟨hsame, hsame'⟩ := Prod.mk.inj hname
    refine hne (hnames.eq_of_key hr.mem hs.mem ?_)
    rw [EntityRow.name, EntityRow.name, hr.tenant, hs.tenant,
      (blueprint_eq_iff hr.read).mpr hblueprint, (identifier_eq_iff hr.read).mpr hidentifier,
      (blueprint_eq_iff hs.read).mpr hblueprint', (identifier_eq_iff hs.read).mpr hidentifier',
      hsame, hsame']

/-! ### Page by page -/

/-- The pages of a search that have a size, one after the other. -/
def searchPages (limits : Query.Limits) (tenant : String) (request : Query.Search)
    (size count : Nat) (t : Tables) : Except StoreError (List EntityPage) :=
  (List.range count).mapM fun k => search limits tenant { request with
    limit := some (Int64.ofNat size), offset := some (Int64.ofNat (k * size)) } t

/-- A request for all entities of a blueprint in any order, and a number of pages of a size that hold
them. -/
structure Exhausts (limits : Query.Limits) (tenant : String) (request : Query.Search)
    (size count : Nat) (t : Tables) : Prop where
  unfiltered : request.filters = []
  compiles : ∃ plan, request.compile limits = .ok plan
  positive : 1 ≤ size
  permitted : size ≤ limits.max
  enough : (t.entitiesOf tenant request.blueprint).length ≤ count * size
  bounded : count * size < signedBound

/-- The entities that are read from rows of a blueprint are those that a row shows which holds the
name it shows. -/
theorem mem_iff_shows {rows : List EntityRow} {es : List Entity}
    (hrows : rows.Perm (t.entitiesOf tenant request.blueprint)) (hes : readEntities rows = .ok es)
    (hblueprint : e.blueprint = request.blueprint) :
    e ∈ es ↔ ∃ r, t.Shows tenant r e ∧ Plain r.blueprint := by
  have hread : e ∈ es ↔ ∃ r ∈ rows, r.read = .ok e := by
    have hboth := forall₂_readEntities.mp hes
    constructor
    · intro he
      obtain ⟨k, hk, rfl⟩ := List.mem_iff_getElem.mp he
      have hk' : k < rows.length := hboth.length_eq ▸ hk
      exact ⟨rows[k], List.getElem_mem hk', hboth.get hk' hk⟩
    · rintro ⟨r, hr, hread⟩
      obtain ⟨k, hk, rfl⟩ := List.mem_iff_getElem.mp hr
      have hk' : k < es.length := hboth.length_eq ▸ hk
      rw [show e = es[k] from Except.ok.inj (hread.symm.trans (hboth.get hk hk'))]
      exact List.getElem_mem hk'
  rw [hread]
  refine exists_congr fun r => ?_
  rw [hrows.mem_iff, Tables.entitiesOf, List.mem_filter, EntityRow.isOf_iff, ← hblueprint]
  constructor
  · rintro ⟨⟨hr, htenant, hname⟩, hread⟩
    exact ⟨⟨hr, htenant, hread⟩, (blueprint_eq_iff hread).mp hname⟩
  · rintro ⟨⟨hr, htenant, hread⟩, hplain⟩
    exact ⟨⟨hr, htenant, (blueprint_eq_iff hread).mpr hplain⟩, hread⟩

/-- Rows with different ids show different entities. -/
theorem nodup_readEntities {rows : List EntityRow} {es : List Entity}
    (hdistinct : Unique EntityRow.id rows) (hplain : ∀ r ∈ rows, ∀ id, r.id = some id → Plain id)
    (hes : readEntities rows = .ok es) : es.Nodup := by
  have hids : es.map (fun e => some e.id) = rows.map EntityRow.id := by
    have hboth := forall₂_readEntities.mp hes
    clear hdistinct hes
    induction hboth with
    | nil => rfl
    | cons hread _ ih =>
        obtain ⟨hr, hrest⟩ := List.forall_mem_cons.mp hplain
        rw [List.map_cons, List.map_cons, ih hrest, id_of_read hr hread]
  refine List.Nodup.of_map (fun e => some e.id) ?_
  rw [hids]
  exact List.pairwise_map.mpr hdistinct

/-- The pages of an unfiltered search have every entity of a blueprint once. -/
theorem searchPages_eq_ok {size count : Nat} (hdistinct : Distinct t.entities)
    (hplain : PlainIds t) (h : Exhausts limits tenant request size count t)
    (hreadable : ∀ r ∈ t.entitiesOf tenant request.blueprint, ∃ e, r.read = .ok e) :
    ∃ pages, searchPages limits tenant request size count t = .ok pages ∧
      (∀ page ∈ pages, page.total = (t.entitiesOf tenant request.blueprint).length) ∧
      (pages.flatMap EntityPage.items).Nodup ∧
      ∀ e, e.blueprint = request.blueprint →
        (e ∈ pages.flatMap EntityPage.items ↔ ∃ r, t.Shows tenant r e ∧ Plain r.blueprint) := by
  obtain ⟨plan, hplan⟩ := h.compiles
  have hnone := predicates_of_unfiltered h.unfiltered hplan
  have hfits : Fits plan := ⟨taken_of_unfiltered hnone, hnone ▸ nofun⟩
  let rows := listing t tenant request.blueprint plan.predicates plan.order
  have hlisting : Listing t tenant request.blueprint plan.predicates plan.order rows :=
    listing_isListing hdistinct
  have hperm : rows.Perm (t.entitiesOf tenant request.blueprint) := by
    have hall : (t.entitiesOf tenant request.blueprint).filter (meetsAll plan.predicates) =
        t.entitiesOf tenant request.blueprint := by
      rw [hnone]
      exact List.filter_eq_self.mpr fun _ _ => rfl
    exact hall ▸ hlisting.perm
  obtain ⟨es, hes⟩ : ∃ es, readEntities rows = .ok es :=
    exists_readEntities fun r hr => hreadable r (hperm.mem_iff.mp hr)
  have hlength : es.length = (t.entitiesOf tenant request.blueprint).length :=
    (length_of_readEntities hes).trans hperm.length_eq
  have hitems : ((List.range count).map fun k : Nat => (⟨(es.drop (k * size)).take size, es.length,
      size, k * size⟩ : EntityPage)).flatMap EntityPage.items = es :=
    (flatMap_pages es _ size count).trans (List.take_of_length_le (hlength ▸ h.enough))
  refine ⟨_, search_paged hplan hfits hes h.positive h.permitted (Nat.mul_comm size count ▸ h.bounded),
    ?_, ?_, ?_⟩
  · exact List.forall_mem_map.mpr fun k _ => hlength
  · rw [hitems]
    have hids : Unique EntityRow.id rows :=
      (hdistinct.filter _).perm hperm.symm fun hne => hne.symm
    exact nodup_readEntities hids
      (fun r hr => hplain r (List.mem_filter.mp (hperm.mem_iff.mp hr)).1) hes
  · rw [hitems]
    exact fun e => mem_iff_shows hperm hes

/-! ### The three ways -/

/-- The three ways to look an entity up agree.  In all tables that can be reached, the entity under an
id is the one that a row shows; it is also found under its blueprint and identifier if the row holds
them as it shows them, without NUL, and on the pages of its blueprint, once, if that name is held as
it is shown.  Two rows show two ids, and two names if these are held as they are shown.

So where callers give texts without NUL, what is found in one way is found in all of them. -/
theorem lookups_agree {allowed : Call → Change → Prop} (ht : Reachable allowed t)
    (hids : ∀ call c, allowed call c → ∀ id ∈ c.newId?, Plain id) (tenant : String) :
    (∀ e, getEntity tenant e.id t = .ok e ↔ ∃ r, t.Shows tenant r e) ∧
    (∀ e, getEntityNamed tenant e.blueprint e.identifier t = .ok e ↔
      ∃ r, t.Shows tenant r e ∧ Plain r.blueprint ∧ Plain r.identifier) ∧
    (∀ limits request size count, Exhausts limits tenant request size count t →
      (∀ r ∈ t.entitiesOf tenant request.blueprint, ∃ e, r.read = .ok e) →
      ∃ pages, searchPages limits tenant request size count t = .ok pages ∧
        (∀ page ∈ pages, page.total = (t.entitiesOf tenant request.blueprint).length) ∧
        (pages.flatMap EntityPage.items).Nodup ∧
        ∀ e, e.blueprint = request.blueprint →
          (e ∈ pages.flatMap EntityPage.items ↔ ∃ r, t.Shows tenant r e ∧ Plain r.blueprint)) ∧
    (∀ r s e e', t.Shows tenant r e → t.Shows tenant s e' → r ≠ s →
      e.id ≠ e'.id ∧
        (Plain r.blueprint ∧ Plain r.identifier → Plain s.blueprint ∧ Plain s.identifier →
          (e.blueprint, e.identifier) ≠ (e'.blueprint, e'.identifier))) ∧
    ((∀ call c, allowed call c → Sound call c) →
      (∀ r ∈ t.entities, Plain r.blueprint ∧ Plain r.identifier ∧ ∃ e, r.read = .ok e) ∧
      ∀ limits request size count, Exhausts limits tenant request size count t →
        ∃ pages, searchPages limits tenant request size count t = .ok pages ∧
          (pages.flatMap EntityPage.items).Nodup ∧
          ∀ e, e.blueprint = request.blueprint →
            [getEntity tenant e.id t = .ok e,
              getEntityNamed tenant e.blueprint e.identifier t = .ok e,
              e ∈ pages.flatMap EntityPage.items].TFAE) := by
  obtain ⟨hunique, hnames⟩ := ht.unique
  have hplain : PlainIds t := ht.plainIds hids
  have hget : ∀ e, getEntity tenant e.id t = .ok e ↔ ∃ r, t.Shows tenant r e :=
    fun _ => getEntity_iff_shows hunique hplain
  have hnamed : ∀ e, getEntityNamed tenant e.blueprint e.identifier t = .ok e ↔
      ∃ r, t.Shows tenant r e ∧ Plain r.blueprint ∧ Plain r.identifier :=
    fun _ => getEntityNamed_iff_shows hnames
  refine ⟨hget, hnamed, fun _ _ _ _ => searchPages_eq_ok ht.distinct hplain,
    fun _ _ _ _ hr hs => hr.ne_of_ne hunique hnames hplain hs, fun hsound => ?_⟩
  have ht : Reachable Sound t := ht.mono hsound
  have hheld : ∀ r ∈ t.entities, Plain r.blueprint ∧ Plain r.identifier ∧ ∃ e, r.read = .ok e := by
    intro r hr
    obtain ⟨hblueprint, hidentifier⟩ := ht.plain_name r hr
    obtain ⟨e, hread, -⟩ := (ht.storable.readable r hr).read
    exact ⟨hblueprint, hidentifier, e, hread⟩
  refine ⟨hheld, fun limits request size count hall => ?_⟩
  obtain ⟨pages, hpages, -, hnodup, hlisted⟩ := searchPages_eq_ok ht.distinct hplain hall fun r hr =>
    (hheld r (List.mem_filter.mp hr).1).2.2
  refine ⟨pages, hpages, hnodup, fun e hblueprint => ?_⟩
  rw [hget, hnamed, hlisted e hblueprint]
  tfae_have 1 → 2 := fun ⟨r, hr⟩ => ⟨r, hr, (hheld r hr.mem).1, (hheld r hr.mem).2.1⟩
  tfae_have 2 → 3 := fun ⟨r, hr, hname, _⟩ => ⟨r, hr, hname⟩
  tfae_have 3 → 1 := fun ⟨r, hr, _⟩ => ⟨r, hr⟩
  tfae_finish

end reader

/-- A request for the entities of a blueprint. -/
def allOf (blueprint : String) : Query.Search := ⟨blueprint, [], none, none, none, none⟩

/-- Each of four services is found in all three ways. -/
theorem lookups_agree_services :
    let t := after .empty ownedRun
    Exhausts .standard "acme" (allOf "service") 3 2 t ∧
      ∃ pages, searchPages .standard "acme" (allOf "service") 3 2 t = .ok pages ∧
        (pages.flatMap EntityPage.items).Nodup ∧
        ∀ e ∈ ownedServices, getEntity "acme" e.id t = .ok e ∧
          getEntityNamed "acme" e.blueprint e.identifier t = .ok e ∧
          e ∈ pages.flatMap EntityPage.items := by
  intro t
  have ht : Reachable Sound t := Reachable.empty.after (by decide +kernel)
  have hids : ∀ call c, Sound call c → ∀ id ∈ c.newId?, Plain id := by
    rintro call c hc id hid
    cases c with
    | createEntity id' draft =>
        cases hid
        exact hc.2.2.1
    | createBlueprint _ | updateBlueprint _ _ | deleteBlueprint _ | updateEntity _ _
    | deleteEntity _ => cases hid
  have hall : Exhausts .standard "acme" (allOf "service") 3 2 t :=
    ⟨rfl, ⟨_, rfl⟩, by decide, by decide, by decide +kernel, by decide⟩
  obtain ⟨-, -, -, -, hsame⟩ := lookups_agree ht hids "acme"
  obtain ⟨pages, hpages, hnodup, hagree⟩ := (hsame fun _ _ hc => hc).2 _ _ _ _ hall
  refine ⟨hall, pages, hpages, hnodup, fun e he => ?_⟩
  have hblueprint : ∀ e ∈ ownedServices, e.blueprint = "service" := by decide
  have hget : ∀ e ∈ ownedServices, getEntity "acme" e.id t = .ok e := by decide +kernel
  have hways := hagree e (hblueprint e he)
  exact ⟨hget e he, (hways.out 0 1).mp (hget e he), (hways.out 0 2).mp (hget e he)⟩

/-- An entity whose identifier has a NUL shows what stands before it, and is not found under that. -/
theorem lookups_differ :
    let t := after .empty [
      ⟨⟨"acme", ⟨0, 0⟩⟩, .change (.createBlueprint ⟨"service", "Service", none, .object []⟩)⟩,
      ⟨⟨"acme", ⟨1, 0⟩⟩, .change (.createEntity "ent-1" ⟨"service", "x\x00a", none, .object []⟩)⟩]
    let e : Entity := ⟨"ent-1", "acme", "service", "x", none, .object [], ⟨1, 0⟩, ⟨1, 0⟩⟩
    getEntity "acme" e.id t = .ok e ∧
      getEntityNamed "acme" e.blueprint e.identifier t = .error (.entityNotFound "service/x") := by
  decide +kernel

end EntityStore.Store
