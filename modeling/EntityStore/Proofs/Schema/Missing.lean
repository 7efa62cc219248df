import EntityStore.Proofs.Schema.Excused
import EntityStore.Proofs.Schema.Lenient

/-! # What lenience takes away

The lenient mode reports what the full mode reports, in the same order, except what is missing
(`validate_lenient_eq`): for all schemas whose keywords report what their subschemas report, or
decide by a subschema that lenience leaves alone. -/

namespace EntityStore.Schema

open Compiled (Follow followWithin)

variable {f g : Follow} {d : Dialect}

/-! ### References -/

/-- A document with direct keywords only refers to nothing. -/
theorem usesOnly_of_direct {P : String → Prop} : ∀ j : Json,
    (∀ keyword ∈ keywordsIn d j, isDirect keyword = true) → Each (UsesOnly P) (Compiled.ofJson? d j)
  | .object fields, h => by
      have href : ∀ f ∈ fields, ∀ r, demandOf d fields f.1 f.2 = .reference r → P r := by
        intro f hf r hr
        have hknows : d.knows f.1 = true := knows_of_demandOf (by rw [hr]; nofun)
        have hdirect := h f.1 (mem_keywordsIn hf hknows)
        rw [isDirect, (reference_of_demandOf hr).1, Bool.not_true, Bool.and_false] at hdirect
        cases hdirect
      rw [Compiled.ofJson?]
      refine each_objectSchema? (fun f hf hknows => pieceEach_pieceOf fun i hi => ?_) href
      have hlt : sizeOf i < sizeOf (Json.object fields) :=
        Nat.lt_of_le_of_lt (sizeOf_subschema_le hi) (sizeOf_field_lt hf)
      exact usesOnly_of_direct i fun keyword hkeyword =>
        h keyword (keywordsIn_subschema hf hknows hi hkeyword)
  | .bool true, _ => Each.some allUseOnly_nil
  | .bool false, _ => Each.some allUseOnly_nil
  | .null, _ | .number _, _ | .string _, _ | .array _, _ => nofun
termination_by j => sizeOf j
decreasing_by exact hlt

/-- It means the same, however references are followed. -/
theorem same_of_direct {j : Json} (h : ∀ keyword ∈ keywordsIn d j, isDirect keyword = true) :
    Each (Same f g) (Compiled.ofJson? d j) :=
  fun s hs => UsesOnly.same (P := fun _ => False) nofun s (usesOnly_of_direct j h s hs)

/-! ### Keywords of a schema object -/

section
variable {all : Fields}
  (hdirect : ∀ keyword ∈ keywordsIn d (.object all), isDirect keyword = true)
  (ih : ∀ a ∈ all, d.knows a.1 = true → ∀ i ∈ subschemas a.1 a.2,
    Carries (Excused f g) (Compiled.ofJson? d i) (Compiled.ofJson? d (Mode.lenient.schema i)))

include hdirect ih in
theorem excused_keyword {keyword : String} {j : Json} (hmem : (keyword, j) ∈ all)
    (hkeeps : Mode.lenient.keeps keyword = true) : Carries (ExcusedAll f g)
      ((demandOf d all keyword j).schemas? (piecesOf d all) (pieceOf d keyword j))
      ((demandOf d (Mode.lenient.fields all) keyword (Mode.lenient.value keyword j)).schemas?
        (piecesOf d (Mode.lenient.fields all))
        (pieceOf d keyword (Mode.lenient.value keyword j))) := by
  rw [demandOf_mode Mode.lenient d hkeeps]
  cases hknows : d.knows keyword with
  | false =>
      rw [demandOf_of_unknown hknows]
      exact Carries.some .nil
  | true =>
      have hsub := ih _ hmem hknows
      have hbelow : ∀ i ∈ subschemas keyword j, Each (Same f g) (Compiled.ofJson? d i) :=
        fun i hi => same_of_direct fun k hk => hdirect k (keywordsIn_subschema hmem hknows hi hk)
      -- three keywords are not gone through by their shape: one loses lists of names, two are kept
      by_cases hdependencies : keyword = "dependencies"
      · subst hdependencies
        exact excused_relaxation.dependents nofun hsub
      · by_cases hnot : keyword = "not"
        · subst hnot
          have hs := hbelow j (List.mem_singleton.mpr rfl)
          exact (Carries.of_each hs fun _ hs => Excused.not j hs).map fun _ _ => .single
        · by_cases hif : keyword = "if"
          · subst hif
            have hs := hbelow j (List.mem_singleton.mpr rfl)
            have hdemand : demandOf d all "if" j = .condition := if_pos hknows
            rw [hdemand]
            refine excused_relaxation.conditionOf (fun c hc _ _ _ _ hyes hno => ?_)
              (pieceCarries_find rfl fun j hj => ih _ hj hknows)
              (pieceCarries_find rfl fun j hj => ih _ hj hknows)
            exact .ifThenElse (hs c hc) hyes hno
          · exact excused_relaxation.plain
              (isPlain_demandOf (hdirect _ (mem_keywordsIn hmem hknows)) hkeeps hnot hif)
              (pieceCarries_pieceOf hnot hif hdependencies hsub)

include hdirect in
/-- In no mode anything is asked of what the other keywords leave over. -/
theorem leftoverSchemas?_of_direct (m : Mode) (ss : List Compiled) :
    leftoverSchemas? d (piecesOf d (m.fields all)) ss = some [] := by
  have hnone : ∀ name, d.knows name = true → isDirect name = false → m.keeps name = true →
      (piecesOf d (m.fields all)).find name = .none := by
    intro name hknows hname hkeeps
    rw [find_piecesOf, m.get?_fields hkeeps]
    cases hget : Fields.get? name all with
    | none => rfl
    | some j =>
        have hmem := mem_keywordsIn (mem_of_get? hget) hknows
        rw [hdirect name hmem] at hname
        cases hname
  rw [leftoverSchemas?]
  split
  · rfl
  · next hnewest =>
      rw [Bool.not_eq_true, Bool.not_eq_false'] at hnewest
      rw [hnone "unevaluatedProperties" hnewest rfl (m.keeps_of_ne (by decide)),
        hnone "unevaluatedItems" hnewest rfl (m.keeps_of_ne (by decide))]
      rfl

end

/-! ### Documents -/

/-- A document with direct keywords only compiles without its demands for presence whenever it
compiles with them, and to a schema that excuses what is missing. -/
theorem excused_ofJson? : ∀ j : Json, (∀ keyword ∈ keywordsIn d j, isDirect keyword = true) →
    Carries (Excused f g) (Compiled.ofJson? d j) (Compiled.ofJson? d (Mode.lenient.schema j))
  | .object fields, hdirect => by
      rw [Mode.schema_object, Compiled.ofJson?, Compiled.ofJson?]
      have ih : ∀ a ∈ fields, d.knows a.1 = true → ∀ i ∈ subschemas a.1 a.2,
          Carries (Excused f g) (Compiled.ofJson? d i) (Compiled.ofJson? d (Mode.lenient.schema i)) := by
        intro a ha hknows i hi
        have hlt : sizeOf i < sizeOf (Json.object fields) :=
          Nat.lt_of_le_of_lt (sizeOf_subschema_le hi) (sizeOf_field_lt ha)
        exact excused_ofJson? i fun keyword hkeyword =>
          hdirect keyword (keywordsIn_subschema ha hknows hi hkeyword)
      refine excused_relaxation.objectSchema? (fun _ _ => excused_keyword hdirect ih)
        (fun ss ts _ => ?_) fun j hj r _ => ?_
      · have hfull : leftoverSchemas? d (piecesOf d fields) ss = some [] :=
          leftoverSchemas?_of_direct hdirect .full ss
        rw [hfull, leftoverSchemas?_of_direct hdirect .lenient]
        exact Carries.some .nil
      · have href := hdirect "$ref" (mem_keywordsIn hj rfl)
        exact absurd href (by decide)
  | .bool true, _ => Carries.some (excused_relaxation.leaf rfl)
  | .bool false, _ => Carries.some (excused_relaxation.leaf rfl)
  | .null, _ | .number _, _ | .string _, _ | .array _, _ => Carries.none
termination_by j => sizeOf j
decreasing_by exact hlt

/-- An accepted schema with direct keywords only is accepted without its demands for presence, and
then excuses what is missing. -/
theorem Validator.compile?_lenient {v : Validator} {root : Json}
    (hcompile : Validator.compile? root = some v)
    (hdirect : ∀ keyword ∈ keywordsIn v.dialect root, isDirect keyword = true) :
    ∃ v', Validator.compile? (Mode.lenient.schema root) = some v' ∧
      ∀ document, v'.violations document =
        (v.violations document).filter fun w => !w.isPresence := by
  obtain ⟨hdialect, hwell, rfl, hschema, -⟩ := Validator.compile?_eq_some.mp hcompile
  -- what the schema refers to does not depend on how references are followed
  let nowhere : Follow := followWithin (fun _ => none) 0
  obtain ⟨s', hs', hreferences⟩ :=
    excused_ofJson? (f := nowhere) (g := nowhere) v.root hdirect _ hschema
  have hnone : ∀ r ∈ s'.references, False := by
    rw [hreferences.references]
    exact usesOnly_of_direct (P := fun _ => False) v.root hdirect _ hschema
  refine ⟨⟨v.dialect, Mode.lenient.schema v.root, s', []⟩,
    Validator.compile?_eq_some.mpr ⟨?_, ?_, rfl, hs', ?_⟩, fun document => ?_⟩
  · exact (dialect_stripRequired v.root).trans hdialect
  · exact wellFormed_stripRequired v.root hwell
  · exact reached?_of_seen fun r hr => (hnone r hr).elim
  · obtain ⟨t, ht, hexcused⟩ := excused_ofJson? v.root hdirect _ hschema
    rw [hs'] at ht
    cases ht
    exact hexcused.violations document []

/-! ### Judging documents -/

/-- The violations of a schema in a document; a schema that is not accepted has none. -/
def violationsOf (schema document : Json) : List Violation :=
  ((Validator.compile? schema).map fun v => v.violations document).getD []

/-- What is answered about a document with these violations. -/
def verdict (document : Json) (violations : List Violation) : Except Error Unit :=
  match violations.map (Violation.fieldError document) with
  | [] => .ok ()
  | errors => .error (.document errors)

/-- A schema that says nothing has no violations. -/
theorem Validator.violations_of_unconstrained {v : Validator} {schema : Json}
    (hcompile : Validator.compile? schema = some v) (h : isUnconstrained schema = true)
    (document : Json) : v.violations document = [] := by
  obtain ⟨-, -, -, hschema, -⟩ := Validator.compile?_eq_some.mp hcompile
  unfold isUnconstrained at h
  split at h
  · cases hschema
  · rw [Validator.violations, ← Option.some.inj hschema]
    rfl
  · have hempty : Compiled.ofJson? v.dialect (.object []) = some (.all []) := by
      cases v.dialect <;> rfl
    rw [hempty] at hschema
    rw [Validator.violations, ← Option.some.inj hschema]
    rfl
  · cases h

/-- A mode answers with the violations of the schema that counts. -/
theorem validate_eq_verdict {m : Mode} {schema document : Json} {v : Validator}
    (hcompile : Validator.compile? (m.schema schema) = some v) :
    validate m schema document = verdict document (v.violations document) := by
  rw [validate]
  split
  · next hu =>
      have hsame : m.schema schema = schema := by
        unfold isUnconstrained at hu
        split at hu
        all_goals first
          | (cases m <;> rfl)
          | cases hu
      rw [hsame] at hcompile
      rw [Validator.violations_of_unconstrained hcompile hu]
      rfl
  · rw [Validator.ofJson_eq_ok.mpr hcompile]
    rfl

theorem checkSchema_eq_ok {schema : Json} : checkSchema schema = .ok () ↔
    isUnconstrained schema = true ∨ ∃ v, Validator.compile? schema = some v := by
  rw [checkSchema]
  split
  · next hu => exact iff_of_true rfl (.inl hu)
  · next hu =>
      rw [or_iff_right hu]
      split
      · next fault hfault =>
          refine iff_of_false nofun fun ⟨v, hv⟩ => ?_
          rw [Validator.ofJson_eq_ok.mpr hv] at hfault
          cases hfault
      · next v hok => exact iff_of_true rfl ⟨v, Validator.ofJson_eq_ok.mp hok⟩

/-- What an accepted schema reports in the full mode and in the lenient one: the same errors in the
same order, but in the lenient mode none of something missing. -/
theorem validate_lenient_eq {schema : Json} (hschema : checkSchema schema = .ok ())
    (hdirect : ∀ d, Dialect.of? schema = some d →
      ∀ keyword ∈ keywordsIn d schema, isDirect keyword = true) (document : Json) :
    validate .full schema document = verdict document (violationsOf schema document) ∧
      validate .lenient schema document =
        verdict document ((violationsOf schema document).filter fun v => !v.isPresence) := by
  cases hcompile : Validator.compile? schema with
  | none =>
      have hnone : violationsOf schema document = [] := by rw [violationsOf, hcompile]; rfl
      have hu : isUnconstrained schema = true := by
        rcases checkSchema_eq_ok.mp hschema with hu | ⟨v, hv⟩
        · exact hu
        · rw [hcompile] at hv
          cases hv
      rw [hnone, validate, validate, if_pos hu, if_pos hu]
      exact ⟨rfl, rfl⟩
  | some v =>
      have hsome : violationsOf schema document = v.violations document := by
        rw [violationsOf, hcompile]
        rfl
      have hdialect := (Validator.compile?_eq_some.mp hcompile).1
      obtain ⟨v', hcompile', hexcused⟩ :=
        Validator.compile?_lenient hcompile (hdirect v.dialect hdialect)
      rw [hsome, ← hexcused]
      exact ⟨validate_eq_verdict hcompile, validate_eq_verdict hcompile'⟩

/-- A schema that asks for keys at its root, below a property, by a dependency, in a condition and
under a negation. -/
def gatewaySchema : Json := .object [
  ("dependencies", .object [("url", .array [.string "port"])]),
  ("if", .object [("required", .array [.string "url"])]),
  ("not", .object [("required", .array [.string "legacy"])]),
  ("properties", .object [
    ("owner", .object [("required", .array [.string "team"])]),
    ("url", .object [("type", .string "string")])]),
  ("required", .array [.string "name"]),
  ("then", .object [("required", .array [.string "tls"])])]

def gatewayDocument : Json := .object [
  ("legacy", .bool true), ("owner", .object []), ("url", .number (.integer 7))]

theorem validate_lenient_eq_gateway :
    checkSchema gatewaySchema = .ok () ∧
      (∀ d, Dialect.of? gatewaySchema = some d →
        ∀ keyword ∈ keywordsIn d gatewaySchema, isDirect keyword = true) ∧
      ((violationsOf gatewaySchema gatewayDocument).map fun v => v.fault.missing?) =
        [some "port", some "tls", none, some "team", none, some "name"] ∧
      validate .full gatewaySchema gatewayDocument =
        verdict gatewayDocument (violationsOf gatewaySchema gatewayDocument) ∧
      validate .lenient gatewaySchema gatewayDocument = .error (.document [
        ⟨"$", "\x7b\"required\":[\"legacy\"]\x7d is not allowed for " ++ gatewayDocument.print⟩,
        ⟨"url", "7 is not of type \"string\""⟩]) := by
  have hschema : checkSchema gatewaySchema = .ok () := by decide +kernel
  have hdialect : Dialect.of? gatewaySchema = some .draft2020 := by decide +kernel
  have hdirect : ∀ d, Dialect.of? gatewaySchema = some d →
      ∀ keyword ∈ keywordsIn d gatewaySchema, isDirect keyword = true := by
    intro d hd
    rw [hdialect] at hd
    cases hd
    decide +kernel
  obtain ⟨hfull, hlenient⟩ := validate_lenient_eq hschema hdirect gatewayDocument
  refine ⟨hschema, hdirect, by decide +kernel, hfull, hlenient.trans ?_⟩
  decide +kernel

end EntityStore.Schema
