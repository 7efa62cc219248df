import EntityStore.Proofs.Time.Shown
import EntityStore.Proofs.Wire.Fields
import EntityStore.Wire.Records

/-! # Kinds of records

A `Kind` is a type of record with its reader and its writer.  For each reader there is a lemma that
says when it gives a record: when each of the declared fields can be read
(`readFilter?_eq_some` and so on). -/

namespace EntityStore.Wire

open Query (Filter Search)
open Time (Instant)

inductive Kind
  | filter
  | search
  | entityDraft
  | entityPatch
  | blueprintDraft
  | entity
  | blueprint
  | entityPage
  | fieldError
  | tenant
deriving DecidableEq

namespace Kind

@[reducible] def Record : Kind → Type
  | filter => Filter
  | search => Search
  | entityDraft => EntityDraft
  | entityPatch => EntityPatch
  | blueprintDraft => BlueprintDraft
  | entity => Entity
  | blueprint => Blueprint
  | entityPage => EntityPage
  | fieldError => FieldError
  | tenant => Tenant

def read? : (k : Kind) → Json → Option k.Record
  | filter => readFilter?
  | search => readSearch?
  | entityDraft => readEntityDraft?
  | entityPatch => readEntityPatch?
  | blueprintDraft => readBlueprintDraft?
  | entity => readEntity?
  | blueprint => readBlueprint?
  | entityPage => readEntityPage?
  | fieldError => readFieldError?
  | tenant => readTenant?

def write : (k : Kind) → k.Record → Json
  | filter => ofFilter
  | search => ofSearch
  | entityDraft => ofEntityDraft
  | entityPatch => ofEntityPatch
  | blueprintDraft => ofBlueprintDraft
  | entity => ofEntity
  | blueprint => ofBlueprint
  | entityPage => ofEntityPage
  | fieldError => ofFieldError
  | tenant => ofTenant

/-- The declared fields, in their order. -/
def slots : Kind → List Slot
  | filter => [⟨"property", false⟩, ⟨"operator", false⟩, ⟨"value", true⟩]
  | search => [⟨"blueprint_id", false⟩, ⟨"filters", true⟩, ⟨"order_by", true⟩, ⟨"order_dir", true⟩,
      ⟨"limit", true⟩, ⟨"offset", true⟩]
  | entityDraft => [⟨"blueprint_id", false⟩, ⟨"identifier", false⟩, ⟨"title", true⟩, ⟨"data", true⟩]
  | entityPatch => [⟨"title", true⟩, ⟨"data", true⟩]
  | blueprintDraft => [⟨"id", false⟩, ⟨"title", false⟩, ⟨"description", true⟩, ⟨"schema", true⟩]
  | entity => [⟨"id", false⟩, ⟨"tenant_id", false⟩, ⟨"blueprint_id", false⟩, ⟨"identifier", false⟩,
      ⟨"title", false⟩, ⟨"data", false⟩, ⟨"created_at", false⟩, ⟨"updated_at", false⟩]
  | blueprint => [⟨"tenant_id", false⟩, ⟨"id", false⟩, ⟨"title", false⟩, ⟨"description", false⟩,
      ⟨"schema", false⟩, ⟨"created_at", false⟩, ⟨"updated_at", false⟩]
  | entityPage => [⟨"items", false⟩, ⟨"total", false⟩, ⟨"limit", false⟩, ⟨"offset", false⟩]
  | fieldError => [⟨"field_path", false⟩, ⟨"message", false⟩]
  | tenant => [⟨"tenant_id", false⟩]

end Kind

variable {j : Json}

/-! ### Words and instants -/

theorem readOperator?_ofOperator (o : Query.Operator) : readOperator? (ofOperator o) = some o := by
  rw [ofOperator, readOperator?, readWord?, operatorOfWord?_eq_ofName?, operatorWord_eq_name,
    Query.Operator.ofName?_name]

theorem readDirection?_ofDirection (d : Query.Direction) :
    readDirection? (ofDirection d) = some d := by
  cases d <;> decide

theorem readInt64?_eq_some {i : Int64} : readInt64? j = some i ↔ j = ofInt64 i := by
  simp only [readInt64?, Option.map_eq_some_iff, readInteger?_eq_some, signedBound]
  constructor
  · rintro ⟨k, ⟨rfl, hlow, hhigh⟩, rfl⟩
    rw [ofInt64, Int64.toInt_ofInt_of_le (by omega) (by omega)]
  · rintro rfl
    have hlow := i.le_toInt
    have hhigh := i.toInt_lt
    exact ⟨i.toInt, ⟨rfl, by omega, by omega⟩, Int64.ofInt_toInt i⟩

theorem readInstant?_eq_some {i : Instant} :
    readInstant? j = some i ↔ ∃ text, j = .string text ∧ Time.readField? text = some i := by
  constructor
  · intro h
    cases j with
    | string text => exact ⟨text, rfl, h⟩
    | null | bool _ | number _ | array _ | object _ => cases h
  · rintro ⟨text, rfl, h⟩
    exact h

/-! ### Readers -/

theorem readFilter?_eq_some {f : Filter} : readFilter? j = some f ↔
    ∃ property operator value, slots? Kind.filter.slots j = some [property, operator, value] ∧
      required readString? property = some f.property ∧
      required readOperator? operator = some f.operator ∧
      orElse .null readAny? value = some f.value := by
  simp only [readFilter?, Option.bind_eq_bind, Option.bind_eq_some_iff, Option.pure_def]
  constructor
  · rintro ⟨given, hgiven, h⟩
    split at h
    · simp only [Option.bind_eq_some_iff, Option.some.injEq] at h
      obtain ⟨_, hproperty, _, hoperator, _, hvalue, rfl⟩ := h
      exact ⟨_, _, _, hgiven, hproperty, hoperator, hvalue⟩
    · cases h
  · rintro ⟨_, _, _, hgiven, hproperty, hoperator, hvalue⟩
    refine ⟨_, hgiven, ?_⟩
    simp only [hproperty, hoperator, hvalue, Option.bind_some]

theorem readSearch?_eq_some {s : Search} : readSearch? j = some s ↔
    ∃ blueprint filters orderBy direction limit offset,
      slots? Kind.search.slots j = some [blueprint, filters, orderBy, direction, limit, offset] ∧
      required readString? blueprint = some s.blueprint ∧
      orElse [] (readList? readFilter?) filters = some s.filters ∧
      optional readString? orderBy = some s.orderBy ∧
      optional readDirection? direction = some s.direction ∧
      optional readInt64? limit = some s.limit ∧ optional readInt64? offset = some s.offset := by
  simp only [readSearch?, Option.bind_eq_bind, Option.bind_eq_some_iff, Option.pure_def]
  constructor
  · rintro ⟨given, hgiven, h⟩
    split at h
    · simp only [Option.bind_eq_some_iff, Option.some.injEq] at h
      obtain ⟨_, hblueprint, _, hfilters, _, horderBy, _, hdirection, _, hlimit, _, hoffset,
        rfl⟩ := h
      exact ⟨_, _, _, _, _, _, hgiven, hblueprint, hfilters, horderBy, hdirection, hlimit, hoffset⟩
    · cases h
  · rintro ⟨_, _, _, _, _, _, hgiven, hblueprint, hfilters, horderBy, hdirection, hlimit, hoffset⟩
    refine ⟨_, hgiven, ?_⟩
    simp only [hblueprint, hfilters, horderBy, hdirection, hlimit, hoffset, Option.bind_some]

theorem readEntityDraft?_eq_some {d : EntityDraft} : readEntityDraft? j = some d ↔
    ∃ blueprint identifier title data,
      slots? Kind.entityDraft.slots j = some [blueprint, identifier, title, data] ∧
      required readString? blueprint = some d.blueprint ∧
      required readString? identifier = some d.identifier ∧
      optional readString? title = some d.title ∧
      orElse (.object []) readAny? data = some d.data := by
  simp only [readEntityDraft?, Option.bind_eq_bind, Option.bind_eq_some_iff, Option.pure_def]
  constructor
  · rintro ⟨given, hgiven, h⟩
    split at h
    · simp only [Option.bind_eq_some_iff, Option.some.injEq] at h
      obtain ⟨_, hblueprint, _, hidentifier, _, htitle, _, hdata, rfl⟩ := h
      exact ⟨_, _, _, _, hgiven, hblueprint, hidentifier, htitle, hdata⟩
    · cases h
  · rintro ⟨_, _, _, _, hgiven, hblueprint, hidentifier, htitle, hdata⟩
    refine ⟨_, hgiven, ?_⟩
    simp only [hblueprint, hidentifier, htitle, hdata, Option.bind_some]

theorem readEntityPatch?_eq_some {p : EntityPatch} : readEntityPatch? j = some p ↔
    ∃ title data, slots? Kind.entityPatch.slots j = some [title, data] ∧
      optional readString? title = some p.title ∧ optional readAny? data = some p.data := by
  simp only [readEntityPatch?, Option.bind_eq_bind, Option.bind_eq_some_iff, Option.pure_def]
  constructor
  · rintro ⟨given, hgiven, h⟩
    split at h
    · simp only [Option.bind_eq_some_iff, Option.some.injEq] at h
      obtain ⟨_, htitle, _, hdata, rfl⟩ := h
      exact ⟨_, _, hgiven, htitle, hdata⟩
    · cases h
  · rintro ⟨_, _, hgiven, htitle, hdata⟩
    refine ⟨_, hgiven, ?_⟩
    simp only [htitle, hdata, Option.bind_some]

theorem readBlueprintDraft?_eq_some {d : BlueprintDraft} : readBlueprintDraft? j = some d ↔
    ∃ id title description schema,
      slots? Kind.blueprintDraft.slots j = some [id, title, description, schema] ∧
      required readString? id = some d.id ∧ required readString? title = some d.title ∧
      optional readString? description = some d.description ∧
      orElse (.object []) readAny? schema = some d.schema := by
  simp only [readBlueprintDraft?, Option.bind_eq_bind, Option.bind_eq_some_iff, Option.pure_def]
  constructor
  · rintro ⟨given, hgiven, h⟩
    split at h
    · simp only [Option.bind_eq_some_iff, Option.some.injEq] at h
      obtain ⟨_, hid, _, htitle, _, hdescription, _, hschema, rfl⟩ := h
      exact ⟨_, _, _, _, hgiven, hid, htitle, hdescription, hschema⟩
    · cases h
  · rintro ⟨_, _, _, _, hgiven, hid, htitle, hdescription, hschema⟩
    refine ⟨_, hgiven, ?_⟩
    simp only [hid, htitle, hdescription, hschema, Option.bind_some]

theorem readEntity?_eq_some {e : Entity} : readEntity? j = some e ↔
    ∃ id tenant blueprint identifier title data created updated,
      slots? Kind.entity.slots j =
        some [id, tenant, blueprint, identifier, title, data, created, updated] ∧
      required readString? id = some e.id ∧ required readString? tenant = some e.tenant ∧
      required readString? blueprint = some e.blueprint ∧
      required readString? identifier = some e.identifier ∧
      optional readString? title = some e.title ∧ required readAny? data = some e.data ∧
      required readInstant? created = some e.created ∧
      required readInstant? updated = some e.updated := by
  simp only [readEntity?, Option.bind_eq_bind, Option.bind_eq_some_iff, Option.pure_def]
  constructor
  · rintro ⟨given, hgiven, h⟩
    split at h
    · simp only [Option.bind_eq_some_iff, Option.some.injEq] at h
      obtain ⟨_, hid, _, htenant, _, hblueprint, _, hidentifier, _, htitle, _, hdata, _, hcreated,
        _, hupdated, rfl⟩ := h
      exact ⟨_, _, _, _, _, _, _, _, hgiven, hid, htenant, hblueprint, hidentifier, htitle, hdata,
        hcreated, hupdated⟩
    · cases h
  · rintro ⟨_, _, _, _, _, _, _, _, hgiven, hid, htenant, hblueprint, hidentifier, htitle, hdata,
      hcreated, hupdated⟩
    refine ⟨_, hgiven, ?_⟩
    simp only [hid, htenant, hblueprint, hidentifier, htitle, hdata, hcreated, hupdated,
      Option.bind_some]

theorem readBlueprint?_eq_some {b : Blueprint} : readBlueprint? j = some b ↔
    ∃ tenant id title description schema created updated,
      slots? Kind.blueprint.slots j =
        some [tenant, id, title, description, schema, created, updated] ∧
      required readString? tenant = some b.tenant ∧ required readString? id = some b.id ∧
      required readString? title = some b.title ∧
      optional readString? description = some b.description ∧
      required readAny? schema = some b.schema ∧ required readInstant? created = some b.created ∧
      required readInstant? updated = some b.updated := by
  simp only [readBlueprint?, Option.bind_eq_bind, Option.bind_eq_some_iff, Option.pure_def]
  constructor
  · rintro ⟨given, hgiven, h⟩
    split at h
    · simp only [Option.bind_eq_some_iff, Option.some.injEq] at h
      obtain ⟨_, htenant, _, hid, _, htitle, _, hdescription, _, hschema, _, hcreated, _, hupdated,
        rfl⟩ := h
      exact ⟨_, _, _, _, _, _, _, hgiven, htenant, hid, htitle, hdescription, hschema, hcreated,
        hupdated⟩
    · cases h
  · rintro ⟨_, _, _, _, _, _, _, hgiven, htenant, hid, htitle, hdescription, hschema, hcreated,
      hupdated⟩
    refine ⟨_, hgiven, ?_⟩
    simp only [htenant, hid, htitle, hdescription, hschema, hcreated, hupdated, Option.bind_some]

theorem readEntityPage?_eq_some {p : EntityPage} : readEntityPage? j = some p ↔
    ∃ items total limit offset,
      slots? Kind.entityPage.slots j = some [items, total, limit, offset] ∧
      required (readList? readEntity?) items = some p.items ∧
      required (readNatural? unsignedBound) total = some p.total ∧
      required (readNatural? halfBound) limit = some p.limit ∧
      required (readNatural? unsignedBound) offset = some p.offset := by
  simp only [readEntityPage?, Option.bind_eq_bind, Option.bind_eq_some_iff, Option.pure_def]
  constructor
  · rintro ⟨given, hgiven, h⟩
    split at h
    · simp only [Option.bind_eq_some_iff, Option.some.injEq] at h
      obtain ⟨_, hitems, _, htotal, _, hlimit, _, hoffset, rfl⟩ := h
      exact ⟨_, _, _, _, hgiven, hitems, htotal, hlimit, hoffset⟩
    · cases h
  · rintro ⟨_, _, _, _, hgiven, hitems, htotal, hlimit, hoffset⟩
    refine ⟨_, hgiven, ?_⟩
    simp only [hitems, htotal, hlimit, hoffset, Option.bind_some]

theorem readFieldError?_eq_some {e : FieldError} : readFieldError? j = some e ↔
    ∃ path message, slots? Kind.fieldError.slots j = some [path, message] ∧
      required readString? path = some e.path ∧ required readString? message = some e.message := by
  simp only [readFieldError?, Option.bind_eq_bind, Option.bind_eq_some_iff, Option.pure_def]
  constructor
  · rintro ⟨given, hgiven, h⟩
    split at h
    · simp only [Option.bind_eq_some_iff, Option.some.injEq] at h
      obtain ⟨_, hpath, _, hmessage, rfl⟩ := h
      exact ⟨_, _, hgiven, hpath, hmessage⟩
    · cases h
  · rintro ⟨_, _, hgiven, hpath, hmessage⟩
    refine ⟨_, hgiven, ?_⟩
    simp only [hpath, hmessage, Option.bind_some]

theorem readTenant?_eq_some {t : Tenant} : readTenant? j = some t ↔
    ∃ id, slots? Kind.tenant.slots j = some [id] ∧
      required readString? id = some t.id := by
  simp only [readTenant?, Option.bind_eq_bind, Option.bind_eq_some_iff, Option.pure_def]
  constructor
  · rintro ⟨given, hgiven, h⟩
    split at h
    · simp only [Option.bind_eq_some_iff, Option.some.injEq] at h
      obtain ⟨_, hid, rfl⟩ := h
      exact ⟨_, hgiven, hid⟩
    · cases h
  · rintro ⟨_, hgiven, hid⟩
    refine ⟨_, hgiven, ?_⟩
    simp only [hid, Option.bind_some]

end EntityStore.Wire
