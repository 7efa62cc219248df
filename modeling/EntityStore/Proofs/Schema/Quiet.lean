import EntityStore.Proofs.Schema.Missing

/-! # Nothing is missing in the lenient mode

The lenient mode never complains about something that is missing (`validate_lenient_quiet`), in
whatever way the keywords of a schema are nested.  A demand for presence that is left in the document
stands under `not` or `if`, which report nothing of it; and a reference to the whole document or to a
definition leads to a place that has lost its demands for presence. -/

namespace EntityStore.Schema

open Compiled

variable {g : Follow} {d : Dialect} {s t : Compiled} {ss ts : List Compiled}

/-! ### Schemas that report nothing missing -/

/-- References are followed to schemas that report nothing missing. -/
def Quiet (g : Follow) : Prop :=
  ∀ r j l, ∀ v ∈ g.violations r j l, v.isPresence = false

/-- What is left of `s` in a mode: a schema that reports nothing missing, and that refers to what `s`
refers to. -/
structure Muted (g : Follow) (s t : Compiled) : Prop where
  quiet : ∀ j l, ∀ v ∈ violations g t j l, v.isPresence = false
  references : t.references = s.references

/-- The same of schemas that stand next to each other. -/
structure MutedAll (g : Follow) (ss ts : List Compiled) : Prop where
  quiet : ∀ j l, ∀ v ∈ violationsAll g ts j l, v.isPresence = false
  references : referencesOf ts = referencesOf ss

namespace MutedAll

theorem nil : MutedAll g [] [] := ⟨fun _ _ => List.forall_mem_nil _, rfl⟩

theorem append {ss' ts' : List Compiled} (h : MutedAll g ss ts) (h' : MutedAll g ss' ts') :
    MutedAll g (ss ++ ss') (ts ++ ts') where
  quiet j l := by
    rw [violationsAll_append]
    exact List.forall_mem_append.mpr ⟨h.quiet j l, h'.quiet j l⟩
  references := by
    rw [referencesOf_append, referencesOf_append, h.references, h'.references]

theorem single (h : Muted g s t) : MutedAll g [s] [t] where
  quiet j l := by
    rw [violationsAll, violationsAll, List.append_nil]
    exact h.quiet j l
  references := by
    rw [referencesOf, referencesOf, h.references]
    rfl

theorem of_forall₂ (h : List.Forall₂ (Muted g) ss ts) : MutedAll g ss ts := by
  induction h with
  | nil => exact nil
  | cons h _ ih => exact (single h).append ih

/-- A schema without references can be left out. -/
theorem drop (h : s.references = []) : MutedAll g [s] [] where
  quiet _ _ := List.forall_mem_nil _
  references := by
    rw [referencesOf, referencesOf, h]
    rfl

end MutedAll

/-! ### Keywords -/

namespace Muted

protected theorem reference (hg : Quiet g) (r : String) : Muted g (.reference r) (.reference r) where
  quiet j l := by
    rw [violations]
    exact hg r j l
  references := rfl

protected theorem all (h : MutedAll g ss ts) : Muted g (.all ss) (.all ts) where
  quiet j l := by
    rw [violations]
    exact h.quiet j l
  references := h.references

protected theorem allOf (h : List.Forall₂ (Muted g) ss ts) : Muted g (.allOf ss) (.allOf ts) where
  quiet j l := by
    rw [violations]
    exact (MutedAll.of_forall₂ h).quiet j l
  references := (MutedAll.of_forall₂ h).references

protected theorem anyOf (h : List.Forall₂ (Muted g) ss ts) : Muted g (.anyOf ss) (.anyOf ts) where
  quiet j l := by
    rw [violations]
    split
    · exact List.forall_mem_singleton.mpr rfl
    · exact List.forall_mem_nil _
  references := (MutedAll.of_forall₂ h).references

protected theorem oneOf (h : List.Forall₂ (Muted g) ss ts) : Muted g (.oneOf ss) (.oneOf ts) where
  quiet j l := by
    rw [violations]
    split
    · exact List.forall_mem_singleton.mpr rfl
    · exact List.forall_mem_nil _
    · exact List.forall_mem_singleton.mpr rfl
  references := (MutedAll.of_forall₂ h).references

/-- What must not be met is kept as it was written. -/
protected theorem not (source : Json) (s : Compiled) : Muted g (.not source s) (.not source s) where
  quiet j l := by
    rw [violations]
    split
    · exact List.forall_mem_singleton.mpr rfl
    · exact List.forall_mem_nil _
  references := rfl

/-- So is a condition; only what is wrong in a branch is reported. -/
protected theorem ifThenElse (c : Compiled) {yes no yes' no' : Compiled} (hyes : Muted g yes yes')
    (hno : Muted g no no') : Muted g (.ifThenElse c yes no) (.ifThenElse c yes' no') where
  quiet j l := by
    rw [violations]
    split
    · exact hyes.quiet j l
    · exact hno.quiet j l
  references := by
    rw [Compiled.references, Compiled.references, hyes.references, hno.references]

protected theorem property (h : Muted g s t) (name : String) :
    Muted g (.property name s) (.property name t) where
  quiet j l := by
    rw [violations]
    cases Fields.get? name (propertiesOf j) with
    | none => exact List.forall_mem_nil _
    | some v => exact h.quiet v _
  references := h.references

protected theorem matching (h : Muted g s t) (regex : Regex) :
    Muted g (.matching regex s) (.matching regex t) where
  quiet j l := by
    rw [violations]
    refine List.forall_mem_flatMap.mpr fun (name, v) _ => ?_
    dsimp only
    split
    · exact h.quiet v _
    · exact List.forall_mem_nil _
  references := h.references

protected theorem additional (h : Muted g s t) (listed : List String) (patterns : List Regex) :
    Muted g (.additional listed patterns s) (.additional listed patterns t) where
  quiet j l := by
    rw [violations]
    refine List.forall_mem_flatMap.mpr fun (name, v) _ => ?_
    dsimp only
    split
    · exact h.quiet v _
    · exact List.forall_mem_nil _
  references := h.references

protected theorem propertyNames (h : Muted g s t) : Muted g (.names s) (.names t) where
  quiet j l := by
    rw [violations]
    refine List.forall_mem_flatMap.mpr fun (name, v) _ => ?_
    exact List.forall_mem_map.mpr fun w hw => h.quiet (.string name) [] w hw
  references := h.references

protected theorem dependent (h : Muted g s t) (name : String) :
    Muted g (.dependent name s) (.dependent name t) where
  quiet j l := by
    rw [violations]
    split
    · exact h.quiet j l
    · exact List.forall_mem_nil _
  references := h.references

protected theorem item (h : Muted g s t) (index : Nat) : Muted g (.item index s) (.item index t) where
  quiet j l := by
    rw [violations]
    cases (itemsOf j)[index]? with
    | none => exact List.forall_mem_nil _
    | some v => exact h.quiet v _
  references := h.references

protected theorem itemsFrom (h : Muted g s t) (index : Nat) :
    Muted g (.itemsFrom index s) (.itemsFrom index t) where
  quiet j l := by
    rw [violations]
    exact List.forall_mem_flatMap.mpr fun (i, v) _ => h.quiet v _
  references := h.references

protected theorem contains (h : Muted g s t) (low : Nat) (high : Option Nat) :
    Muted g (.contains low high s) (.contains low high t) where
  quiet j l := by
    rw [violations.eq_def]
    cases j with
    | array items =>
        dsimp only
        split
        · exact List.forall_mem_nil _
        · exact List.forall_mem_singleton.mpr rfl
    | _ => exact List.forall_mem_nil _
  references := h.references

protected theorem unevaluatedProperties (hss : MutedAll g ss ts) (h : Muted g s t) :
    Muted g (.unevaluatedProperties ss s) (.unevaluatedProperties ts t) where
  quiet j l := by
    rw [violations]
    dsimp only
    split
    · exact List.forall_mem_nil _
    · exact List.forall_mem_singleton.mpr rfl
  references := by
    rw [Compiled.references, Compiled.references, hss.references, h.references]

protected theorem unevaluatedItems (hss : MutedAll g ss ts) (h : Muted g s t) :
    Muted g (.unevaluatedItems ss s) (.unevaluatedItems ts t) where
  quiet j l := by
    rw [violations]
    split
    · exact List.forall_mem_nil _
    · exact List.forall_mem_singleton.mpr rfl
  references := by
    rw [Compiled.references, Compiled.references, hss.references, h.references]

end Muted

/-- All keywords hand on that nothing missing is reported. -/
theorem muted_relaxation : Relaxation (Muted g) (MutedAll g) where
  nil := .nil
  append := .append
  single := .single
  drop keys := .drop (references_presence keys)
  dropDependent _ keys := .drop (references_presence keys)
  leaf h := ⟨fun _ _ => isPresence_of_isLeaf h, rfl⟩
  all := .all
  allOf := .allOf
  property name h := h.property name
  matching regex h := h.matching regex
  additional listed patterns h := h.additional listed patterns
  names := .propertyNames
  dependent name h := h.dependent name
  item index h := h.item index
  itemsFrom index h := h.itemsFrom index

/-! ### Demands of keywords -/

/-- What a keyword asks for that demands no presence and is gone through without demands for
presence below it. -/
def Demand.isMuted : Demand → Bool
  | .check c => Compiled.isLeaf (.check c)
  | .present _ | .together _ | .not _ | .condition => false
  | _ => true

/-- So is every keyword that counts in the lenient mode, apart from two. -/
theorem isMuted_demandOf {fields : Fields} {keyword : String} {j : Json}
    (hkeeps : Mode.lenient.keeps keyword = true) (hnot : keyword ≠ "not") (hif : keyword ≠ "if") :
    (demandOf d fields keyword j).isMuted = true := by
  have hreference : (referenceDemand j).isMuted = true := by
    rw [referenceDemand]
    cases j.asString? <;> rfl
  unfold demandOf
  split
  · next c hc => exact isLeaf_of_checkOf? hc
  · rfl
  · split
    all_goals first
      | rfl
      | exact absurd hkeeps (by decide)
      | exact absurd rfl hnot
      | exact absurd rfl hif
      | exact hreference
      | (unfold furtherItemsDemand; split <;> first | rfl | (split <;> rfl))
      | (split <;> first | rfl | exact hreference | (split <;> rfl))

/-- A keyword whose subschemas report nothing missing. -/
theorem muted_schemas? (hg : Quiet g) {demand : Demand} {pieces pieces' : Pieces}
    {piece piece' : Piece} (hdemand : demand.isMuted = true)
    (hpiece : PieceCarries (Muted g) piece piece') :
    Carries (MutedAll g) (demand.schemas? pieces piece) (demand.schemas? pieces' piece') := by
  cases demand with
  | check c => exact muted_relaxation.plain hdemand hpiece
  | reference r => exact Carries.some (.single (.reference hg r))
  | anyOf =>
      cases hpiece with
      | list h => exact muted_relaxation.listKeyword h fun _ _ hss => .anyOf hss
      | _ => exact Carries.some .nil
  | oneOf =>
      cases hpiece with
      | list h => exact muted_relaxation.listKeyword h fun _ _ hss => .oneOf hss
      | _ => exact Carries.some .nil
  | contains low high =>
      cases hpiece with
      | single h => exact muted_relaxation.keyword h fun _ _ hs => hs.contains low high
      | _ => exact Carries.some .nil
  | present _ | together _ | not _ | condition => cases hdemand
  | _ => exact muted_relaxation.plain rfl hpiece

/-! ### Documents -/

section
variable {all : Fields} (hg : Quiet g) (ih : ∀ a ∈ all, ∀ i ∈ subschemas a.1 a.2,
  Carries (Muted g) (Compiled.ofJson? d i) (Compiled.ofJson? d (Mode.lenient.schema i)))

include hg ih in
theorem muted_keyword {keyword : String} {j : Json} (hmem : (keyword, j) ∈ all)
    (hkeeps : Mode.lenient.keeps keyword = true) : Carries (MutedAll g)
      ((demandOf d all keyword j).schemas? (piecesOf d all) (pieceOf d keyword j))
      ((demandOf d (Mode.lenient.fields all) keyword (Mode.lenient.value keyword j)).schemas?
        (piecesOf d (Mode.lenient.fields all))
        (pieceOf d keyword (Mode.lenient.value keyword j))) := by
  have hsub := ih _ hmem
  rw [demandOf_mode Mode.lenient d hkeeps]
  by_cases hdependencies : keyword = "dependencies"
  · subst hdependencies
    exact muted_relaxation.dependents nofun hsub
  · by_cases hnot : keyword = "not"
    · subst hnot
      have hany : Each (fun _ => True) (Compiled.ofJson? d j) := fun _ _ => trivial
      exact (Carries.of_each hany fun s _ => Muted.not j s).map fun _ _ => .single
    · by_cases hif : keyword = "if"
      · subst hif
        cases hknows : d.knows "if" with
        | false =>
            rw [demandOf_of_unknown hknows]
            exact Carries.some .nil
        | true =>
            have hdemand : demandOf d all "if" j = .condition := if_pos hknows
            rw [hdemand]
            exact muted_relaxation.conditionOf (fun c _ _ _ _ _ hyes hno => .ifThenElse c hyes hno)
              (pieceCarries_find rfl fun j hj => ih _ hj) (pieceCarries_find rfl fun j hj => ih _ hj)
      · exact muted_schemas? hg (isMuted_demandOf hkeeps hnot hif)
          (pieceCarries_pieceOf hnot hif hdependencies hsub)

end

/-- A document compiles without its demands for presence whenever it compiles with them, and to a
schema that reports nothing missing. -/
theorem muted_ofJson? (hg : Quiet g) : ∀ j : Json,
    Carries (Muted g) (Compiled.ofJson? d j) (Compiled.ofJson? d (Mode.lenient.schema j))
  | .object fields => by
      rw [Mode.schema_object, Compiled.ofJson?, Compiled.ofJson?]
      have ih : ∀ a ∈ fields, ∀ i ∈ subschemas a.1 a.2,
          Carries (Muted g) (Compiled.ofJson? d i) (Compiled.ofJson? d (Mode.lenient.schema i)) := by
        intro a ha i hi
        have hlt : sizeOf i < sizeOf (Json.object fields) :=
          Nat.lt_of_le_of_lt (sizeOf_subschema_le hi) (sizeOf_field_lt ha)
        exact muted_ofJson? hg i
      exact muted_relaxation.objectSchema? (fun _ _ => muted_keyword hg ih)
        (fun _ _ h => muted_relaxation.leftoverSchemas? (fun _ _ => .unevaluatedProperties h)
          (fun _ _ => .unevaluatedItems h) fun _ _ _ _ hj => ih _ hj)
        fun _ _ r _ => .reference hg r
  | .bool true => Carries.some (muted_relaxation.leaf rfl)
  | .bool false => Carries.some (muted_relaxation.leaf rfl)
  | .null | .number _ | .string _ | .array _ => Carries.none
termination_by j => sizeOf j
decreasing_by exact hlt

/-! ### References to definitions -/

/-- The keywords that give names to schemas of a document. -/
def definitionKeywords : List String := ["$defs", "definitions"]

/-- The reference is to the whole document, or to one of the definitions at its root by the name of
this definition. -/
def NamesDefinition (root : Json) (r : String) : Prop :=
  r = "#" ∨ ∃ keyword ∈ definitionKeywords, ∃ members name pointer,
    root.field? keyword = some (.object members) ∧ r.toList = '#' :: '/' :: pointer ∧
      Text.splitAt '/' (percentDecoded pointer) = [keyword.toList, name]

/-- All references of a schema that are followed are to the document or to its definitions. -/
def RefersToDefinitions (schema : Json) : Prop :=
  ∀ v, Validator.compile? schema = some v → ∀ r ∈ v.references, NamesDefinition schema r

/-- Under a name is what was there before, without its demands for presence. -/
theorem get?_members (name : String) (members : Fields) :
    Fields.get? name (members.map fun f => (f.1, Mode.lenient.schema f.2)) =
      (Fields.get? name members).map Mode.lenient.schema := by
  induction members with
  | nil => rfl
  | cons f rest ih =>
      rw [List.map_cons, Fields.get?, Fields.get?, ih]
      split <;> rfl

theorem resolve?_of_pointer {r : String} {pointer : List Char}
    (h : r.toList = '#' :: '/' :: pointer) (root : Json) :
    resolve? root r = descend? (Text.splitAt '/' (percentDecoded pointer)) root := by
  rw [resolve?, h]
  rfl

theorem descend?_object (raw : List Char) (rest : List (List Char)) (fields : Fields) :
    descend? (raw :: rest) (.object fields) =
      (Fields.get? (String.ofList (unescapePointer raw)) fields).bind (descend? rest) := by
  rw [descend?]

/-- A definition loses its demands for presence. -/
theorem resolve?_stripRequired {root j : Json} {r : String} (hr : NamesDefinition root r)
    (hj : resolve? root r = some j) :
    resolve? (stripRequired root) r = some (stripRequired j) := by
  obtain rfl | ⟨keyword, hkeyword, members, name, pointer, hmembers, hpointer, hpieces⟩ := hr
  · cases hj
    rfl
  · have hrule : StripRule.of keyword = .members ∧
        String.ofList (unescapePointer keyword.toList) = keyword := by
      rcases hkeyword with _ | ⟨_, _ | ⟨_, _ | _⟩⟩ <;> exact ⟨rfl, rfl⟩
    cases root with
    | object fields =>
        have hstripped : Fields.get? keyword (Mode.lenient.fields fields) =
            some (.object (members.map fun f => (f.1, Mode.lenient.schema f.2))) := by
          rw [Mode.lenient.get?_fields (Mode.lenient.keeps_of_ne (by rw [hrule.1]; decide)),
            show Fields.get? keyword fields = _ from hmembers, Option.map_some,
            Mode.lenient.value_members hrule.1]
        rw [resolve?_of_pointer hpointer, hpieces, descend?_object, hrule.2,
          show Fields.get? keyword fields = _ from hmembers, Option.bind_some, descend?_object] at hj
        obtain ⟨i, hi, hij⟩ := Option.bind_eq_some_iff.mp hj
        cases hij
        rw [resolve?_of_pointer hpointer, hpieces]
        show descend? _ (.object (Mode.lenient.fields fields)) = _
        rw [descend?_object, hrule.2, hstripped, Option.bind_some, descend?_object, get?_members, hi]
        rfl
    | _ => cases hmembers

/-! ### Judging documents -/

/-- However many references are followed, each leads to a schema that reports nothing missing: by
induction on their number, since such a schema may refer on. -/
theorem quiet_followWithin {target : String → Option Compiled}
    (h : ∀ g, Quiet g → ∀ r s, target r = some s →
      ∀ j l, ∀ v ∈ violations g s j l, v.isPresence = false) (n : Nat) :
    Quiet (followWithin target n) := by
  induction n with
  | zero => exact fun _ _ _ => List.forall_mem_nil _
  | succ n ih =>
      intro r j l
      rw [followWithin]
      dsimp only
      cases hs : target r with
      | none => exact List.forall_mem_nil _
      | some s => exact h _ ih r s hs j l

/-- An accepted schema that refers to definitions only is accepted without its demands for presence,
and then reports nothing missing in any document. -/
theorem Validator.quiet_stripRequired {v : Validator} {root : Json}
    (hcompile : Validator.compile? root = some v)
    (hreferences : ∀ r ∈ v.references, NamesDefinition root r) :
    ∃ v', Validator.compile? (stripRequired root) = some v' ∧
      ∀ document, ∀ w ∈ v'.violations document, w.isPresence = false := by
  obtain ⟨-, -, rfl, hschema, hreached⟩ := Validator.compile?_eq_some.mp hcompile
  obtain ⟨-, -, hclosed⟩ := reached?_closed hreached
  -- what a target refers to does not depend on how references are followed
  have htarget : ∀ g, Quiet g → ∀ r s, r ∈ v.references →
      Schema.target? v.dialect v.root r = some s →
        ∃ t, Schema.target? v.dialect (stripRequired v.root) r = some t ∧ Muted g s t := by
    intro g hg r s hr hs
    obtain ⟨j, hj, hs⟩ := Option.bind_eq_some_iff.mp hs
    obtain ⟨t, ht, hmuted⟩ := muted_ofJson? hg j s hs
    refine ⟨t, ?_, hmuted⟩
    rw [Schema.target?, resolve?_stripRequired (hreferences r hr) hj]
    exact ht
  have hnowhere : Quiet (followWithin (fun _ => none) 0) := fun _ _ _ => List.forall_mem_nil _
  obtain ⟨s', hs', hmuted⟩ := muted_ofJson? hnowhere v.root _ hschema
  have hcompile' := Validator.compile?_stripRequired hcompile hs' hmuted.references
    fun r s hr hs => by
      obtain ⟨t, ht, hmuted⟩ := htarget _ hnowhere r s hr hs
      exact ⟨t, ht, hmuted.references⟩
  let v' : Validator := ⟨v.dialect, stripRequired v.root, s', v.references⟩
  have hquiet : ∀ n, Quiet (followWithin v'.target? n) := by
    refine quiet_followWithin fun g hg r t ht => ?_
    obtain ⟨hr, -⟩ := Validator.target?_eq_some ht
    obtain ⟨s, hs, -⟩ := hclosed r hr List.not_mem_nil
    obtain ⟨t', ht', hmuted⟩ := htarget g hg r s hr hs
    rw [Validator.target?, confined, if_pos hr, ht'] at ht
    cases ht
    exact hmuted.quiet
  refine ⟨v', hcompile', fun document => ?_⟩
  rw [Validator.violations_eq hcompile']
  obtain ⟨t, ht, hmuted⟩ := muted_ofJson? (hquiet (v'.referenceFuel document)) v.root _ hschema
  rw [show Compiled.ofJson? v.dialect (Mode.lenient.schema v.root) = some s' from hs'] at ht
  cases ht
  exact hmuted.quiet document []

/-- Only an absent schema is accepted without being read as one. -/
theorem eq_null_of_compile?_eq_none {schema : Json} (hschema : checkSchema schema = .ok ())
    (hcompile : Validator.compile? schema = none) : schema = .null := by
  obtain hu | ⟨v, hv⟩ := checkSchema_eq_ok.mp hschema
  · unfold isUnconstrained at hu
    split at hu
    · rfl
    · exact absurd (congrArg Option.isSome hcompile) (by decide +kernel)
    · exact absurd (congrArg Option.isSome hcompile) (by decide +kernel)
    · cases hu
  · rw [hcompile] at hv
    cases hv

/-- Without its demands for presence only an absent schema is absent. -/
theorem Mode.eq_null_of_schema {m : Mode} {schema : Json} (h : m.schema schema = .null) :
    schema = .null := by
  cases m with
  | full => exact h
  | lenient =>
      cases schema with
      | null => rfl
      | object fields => rw [Mode.schema_object] at h; cases h
      | array items => rw [Mode.schema_array] at h; cases h
      | bool _ | number _ | string _ => exact h

/-- Where the schema that counts in a mode is accepted, the mode answers with its violations. -/
theorem validate_eq_of_checkSchema {m : Mode} {schema : Json}
    (h : checkSchema (m.schema schema) = .ok ()) (document : Json) :
    validate m schema document = verdict document (violationsOf (m.schema schema) document) := by
  rw [violationsOf]
  cases hcompile : Validator.compile? (m.schema schema) with
  | none =>
      rw [Mode.eq_null_of_schema (eq_null_of_compile?_eq_none h hcompile)]
      rfl
  | some v => exact validate_eq_verdict hcompile

/-- An accepted schema that refers to definitions only is accepted without its demands for presence,
and then reports nothing missing. -/
theorem checkSchema_stripRequired {schema : Json} (hschema : checkSchema schema = .ok ())
    (hreferences : RefersToDefinitions schema) :
    checkSchema (stripRequired schema) = .ok () ∧
      ∀ document, ∀ v ∈ violationsOf (stripRequired schema) document, v.isPresence = false := by
  cases hcompile : Validator.compile? schema with
  | none =>
      rw [eq_null_of_compile?_eq_none hschema hcompile]
      exact ⟨rfl, fun _ => List.forall_mem_nil _⟩
  | some v =>
      obtain ⟨v', hcompile', hquiet⟩ :=
        Validator.quiet_stripRequired hcompile (hreferences v hcompile)
      refine ⟨checkSchema_eq_ok.mpr (.inr ⟨v', hcompile'⟩), fun document => ?_⟩
      rw [violationsOf, hcompile']
      exact hquiet document

/-- The lenient mode never complains about absence: an accepted schema that refers to definitions
only is accepted without its demands for presence, and what the lenient mode reports of a document is
what that schema finds wrong in it, among which there is nothing missing. -/
theorem validate_lenient_quiet {schema : Json} (hschema : checkSchema schema = .ok ())
    (hreferences : RefersToDefinitions schema) :
    checkSchema (stripRequired schema) = .ok () ∧ ∀ document,
      validate .lenient schema document =
        verdict document (violationsOf (stripRequired schema) document) ∧
      ∀ v ∈ violationsOf (stripRequired schema) document, v.fault.missing? = none := by
  obtain ⟨hstripped, hquiet⟩ := checkSchema_stripRequired hschema hreferences
  refine ⟨hstripped, fun document =>
    ⟨validate_eq_of_checkSchema (m := .lenient) hstripped document, fun v hv => ?_⟩⟩
  exact Option.not_isSome_iff_eq_none.mp (Bool.eq_false_iff.mp (hquiet document v hv))

/-- A tree of parts, each described by the same schema: keys are asked for below references, in
alternatives, in the branches of a condition and of the items of an array. -/
def partSchema : Json := .object [
  ("$defs", .object [("size", .object [
    ("properties", .object [("unit", .object [("type", .string "string")])]),
    ("required", .array [.string "unit"])])]),
  ("anyOf", .array [
    .object [("required", .array [.string "name"])],
    .object [("required", .array [.string "code"])]]),
  ("dependentRequired", .object [("size", .array [.string "name"])]),
  ("if", .object [("required", .array [.string "parts"])]),
  ("properties", .object [
    ("parts", .object [("items", .object [("$ref", .string "#")])]),
    ("size", .object [("$ref", .string "#/$defs/size")])]),
  ("required", .array [.string "name"]),
  ("then", .object [("required", .array [.string "count"])])]

def partDocument : Json := .object [
  ("parts", .array [.object [("size", .object [("unit", .number (.integer 7))])],
    .object [("size", .object [])]])]

theorem refersToDefinitions_partSchema : RefersToDefinitions partSchema := by
  have hfollowed : (Validator.compile? partSchema).map (·.references) =
      some ["#/$defs/size", "#"] := by decide +kernel
  intro v hv r hr
  rw [hv, Option.map_some] at hfollowed
  rw [Option.some.inj hfollowed] at hr
  rcases hr with _ | ⟨_, _ | ⟨_, _ | _⟩⟩
  · exact .inr ⟨"$defs", .head _, _, "size".toList, "$defs/size".toList, rfl, rfl, by decide⟩
  · exact .inl rfl

theorem validate_lenient_quiet_part :
    checkSchema partSchema = .ok () ∧ RefersToDefinitions partSchema ∧
      ((violationsOf partSchema partDocument).filterMap fun v => v.fault.missing?) =
        ["count", "name", "name", "name", "unit", "name", "name"] ∧
      checkSchema (stripRequired partSchema) = .ok () ∧
      validate .lenient partSchema partDocument = .error (.document [
        ⟨"parts[0].size.unit", "7 is not of type \"string\""⟩]) := by
  have hschema : checkSchema partSchema = .ok () := by decide +kernel
  obtain ⟨hstripped, hlenient⟩ := validate_lenient_quiet hschema refersToDefinitions_partSchema
  refine ⟨hschema, refersToDefinitions_partSchema, by decide +kernel, hstripped,
    (hlenient partDocument).1.trans ?_⟩
  decide +kernel

end EntityStore.Schema
