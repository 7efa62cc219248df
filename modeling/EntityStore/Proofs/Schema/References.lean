import EntityStore.Proofs.Schema.Positions
import EntityStore.Proofs.Schema.Same

/-! # The references of a compiled schema

A schema uses only references that are written in its document (`usesOnly_ofJson?`). -/

namespace EntityStore.Schema

variable {P : String → Prop}

/-! ### Keywords -/

/-- All schemas of the piece have the property. -/
def PieceEach (P : Compiled → Prop) : Piece → Prop
  | .none => True
  | .single o => Each P o
  | .list os => ∀ o ∈ os, Each P o
  | .map ms => ∀ m ∈ ms, Each P m.2

theorem usesOnly_presence (keys : List String) : UsesOnly P (presence keys) := by
  refine allUseOnly_iff.mpr fun s hs => ?_
  obtain ⟨n, _, rfl⟩ := List.mem_map.mp hs
  exact allUseOnly_nil

theorem pieceEach_pieceOf {d : Dialect} {keyword : String} {j : Json}
    (h : ∀ i ∈ subschemas keyword j, Each (UsesOnly P) (Compiled.ofJson? d i)) :
    PieceEach (UsesOnly P) (pieceOf d keyword j) := by
  unfold subschemas at h
  unfold pieceOf
  generalize shapeOf keyword = shape at h ⊢
  cases shape with
  | none => trivial
  | single => exact h j (List.mem_singleton.mpr rfl)
  | list =>
      cases j with
      | array items =>
          intro o ho
          obtain ⟨i, hi, rfl⟩ := List.mem_map.mp ho
          exact h i hi
      | _ => trivial
  | map =>
      cases j with
      | object members =>
          intro m hm
          obtain ⟨f, hf, rfl⟩ := List.mem_map.mp hm
          exact h f.2 (List.mem_map_of_mem hf)
      | _ => trivial
  | dependencies =>
      cases j with
      | object members =>
          intro m hm
          obtain ⟨⟨name, i⟩, hf, rfl⟩ := List.mem_map.mp hm
          have hmem := List.mem_map_of_mem (f := Prod.snd) hf
          cases i with
          | array items => exact Each.some (usesOnly_presence _)
          | _ => exact h _ (List.mem_filter.mpr ⟨hmem, rfl⟩)
      | _ => trivial
  | singleOrList =>
      cases j with
      | array items =>
          intro o ho
          obtain ⟨i, hi, rfl⟩ := List.mem_map.mp ho
          exact h i hi
      | _ => exact h _ (List.mem_singleton.mpr rfl)

theorem usesOnly_single {s : Compiled} (h : UsesOnly P s) : AllUseOnly P [s] :=
  allUseOnly_cons.mpr ⟨h, allUseOnly_nil⟩

theorem allUseOnly_append {ss ts : List Compiled} (hs : AllUseOnly P ss) (ht : AllUseOnly P ts) :
    AllUseOnly P (ss ++ ts) := by
  rw [allUseOnly_iff] at hs ht ⊢
  intro s hmem
  exact (List.mem_append.mp hmem).elim (hs s) (ht s)

theorem usesOnly_itemSchemas {ss : List Compiled} (h : ∀ s ∈ ss, UsesOnly P s) :
    ∀ start : Nat, AllUseOnly P (itemSchemas start ss) := by
  induction ss with
  | nil => exact fun _ => allUseOnly_nil
  | cons s ss ih =>
      obtain ⟨hs, hss⟩ := List.forall_mem_cons.mp h
      exact fun start => allUseOnly_cons.mpr ⟨hs, ih hss (start + 1)⟩

theorem usesOnly_requiredTogether (members : Fields) :
    AllUseOnly P (requiredTogether members) := by
  induction members with
  | nil => exact allUseOnly_nil
  | cons m rest ih => exact allUseOnly_cons.mpr ⟨usesOnly_presence _, ih⟩

theorem each_namedSchemas {make : String → Compiled → Compiled}
    (hmake : ∀ name s, UsesOnly P s → UsesOnly P (make name s))
    {ms : List (String × Option Compiled)} (h : ∀ m ∈ ms, Each (UsesOnly P) m.2) :
    Each (AllUseOnly P) (namedSchemas make ms) := by
  induction ms with
  | nil => exact Each.some allUseOnly_nil
  | cons m ms ih =>
      obtain ⟨hm, hms⟩ := List.forall_mem_cons.mp h
      rw [namedSchemas]
      exact hm.bind fun s hs => (ih hms).bind fun ss hss =>
        Each.some (allUseOnly_cons.mpr ⟨hmake m.1 s hs, hss⟩)

theorem each_matchingSchemas {ms : List (String × Option Compiled)}
    (h : ∀ m ∈ ms, Each (UsesOnly P) m.2) : Each (AllUseOnly P) (matchingSchemas ms) := by
  induction ms with
  | nil => exact Each.some allUseOnly_nil
  | cons m ms ih =>
      obtain ⟨hm, hms⟩ := List.forall_mem_cons.mp h
      have hany : Each (fun _ => True) (Regex.read? m.1) := fun _ _ => trivial
      rw [matchingSchemas]
      exact hany.bind fun _ _ => hm.bind fun s hs => (ih hms).bind fun ss hss =>
        Each.some (allUseOnly_cons.mpr ⟨hs, hss⟩)

theorem each_conditionOf {pieces : Pieces} {condition : Option Compiled}
    (hcondition : Each (UsesOnly P) condition)
    (hthen : PieceEach (UsesOnly P) (pieces.find "then"))
    (helse : PieceEach (UsesOnly P) (pieces.find "else")) :
    Each (AllUseOnly P) (conditionOf pieces condition) := by
  unfold conditionOf
  split
  · next yes no hyes hno =>
      rw [hyes] at hthen
      rw [hno] at helse
      exact hcondition.bind fun c hc => Each.bind hthen fun y hy => Each.bind helse fun n hn =>
        Each.some (usesOnly_single (usesOnly_ifThenElse.mpr ⟨hc, hy, hn⟩))
  · next yes hyes _ =>
      rw [hyes] at hthen
      exact hcondition.bind fun c hc => Each.bind hthen fun y hy =>
        Each.some (usesOnly_single (usesOnly_ifThenElse.mpr ⟨hc, hy, allUseOnly_nil⟩))
  · next no hno _ =>
      rw [hno] at helse
      exact hcondition.bind fun c hc => Each.bind helse fun n hn =>
        Each.some (usesOnly_single (usesOnly_ifThenElse.mpr ⟨hc, allUseOnly_nil, hn⟩))
  · exact Each.some allUseOnly_nil

theorem each_schemas? {demand : Demand} {pieces : Pieces} {piece : Piece}
    (hpiece : demand ≠ .nothing → PieceEach (UsesOnly P) piece)
    (hthen : demand = .condition → PieceEach (UsesOnly P) (pieces.find "then"))
    (helse : demand = .condition → PieceEach (UsesOnly P) (pieces.find "else"))
    (href : ∀ r, demand = .reference r → P r) :
    Each (AllUseOnly P) (demand.schemas? pieces piece) := by
  have hsingle : ∀ {F : Compiled → Compiled} {o : Option Compiled}, Each (UsesOnly P) o →
      (∀ s, UsesOnly P s → UsesOnly P (F s)) → Each (AllUseOnly P) (o.map fun s => [F s]) :=
    fun ho hF => ho.map fun s hs => usesOnly_single (hF s hs)
  have hlist : ∀ {F : List Compiled → Compiled} {os : List (Option Compiled)},
      (∀ o ∈ os, Each (UsesOnly P) o) → (∀ ss, AllUseOnly P ss → UsesOnly P (F ss)) →
        Each (AllUseOnly P) ((allSome os).map fun ss => [F ss]) :=
    fun hos hF => (each_allSome hos).map fun ss hss =>
      usesOnly_single (hF ss (allUseOnly_iff.mpr hss))
  unfold Demand.schemas?
  split
  · nofun
  · exact Each.some (usesOnly_single allUseOnly_nil)
  · exact Each.some (usesOnly_single (usesOnly_reference (href _ rfl)))
  · exact Each.some (usesOnly_single (usesOnly_presence _))
  · exact Each.some (usesOnly_requiredTogether _)
  · exact hlist (hpiece nofun) fun _ h => h
  · exact hlist (hpiece nofun) fun _ h => h
  · exact hlist (hpiece nofun) fun _ h => h
  · exact hsingle (hpiece nofun) fun _ h => h
  · exact each_conditionOf (hpiece nofun) (hthen rfl) (helse rfl)
  · refine each_namedSchemas (fun _ _ h => ?_) (hpiece nofun)
    exact h
  · exact each_matchingSchemas (hpiece nofun)
  · exact hsingle (hpiece nofun) fun _ h => h
  · exact Each.some (usesOnly_single allUseOnly_nil)
  · exact Each.some (usesOnly_single allUseOnly_nil)
  · exact hsingle (hpiece nofun) fun _ h => h
  · exact Each.some (usesOnly_single allUseOnly_nil)
  · refine each_namedSchemas (fun _ _ h => ?_) (hpiece nofun)
    exact h
  · exact (each_allSome (hpiece nofun)).map fun _ hss => usesOnly_itemSchemas hss 0
  · exact hsingle (hpiece nofun) fun _ h => h
  · exact Each.some (usesOnly_single allUseOnly_nil)
  · exact hsingle (hpiece nofun) fun _ h => h
  · exact Each.some allUseOnly_nil

theorem each_leftoverOf? (make : Compiled → Compiled) {piece : Piece}
    (hpiece : PieceEach (UsesOnly P) piece) (hmake : ∀ s, UsesOnly P s → UsesOnly P (make s)) :
    Each (AllUseOnly P) (leftoverOf? make piece) := by
  cases piece with
  | single o => exact Each.map hpiece fun s hs => usesOnly_single (hmake s hs)
  | _ => exact Each.some allUseOnly_nil

theorem each_leftoverSchemas? {d : Dialect} {pieces : Pieces} {parts : List Compiled}
    (hpieces : ∀ name, d.knows name = true → PieceEach (UsesOnly P) (pieces.find name))
    (hparts : AllUseOnly P parts) :
    Each (AllUseOnly P) (leftoverSchemas? d pieces parts) := by
  unfold leftoverSchemas?
  split
  · exact Each.some allUseOnly_nil
  · next hnewest =>
    rw [Bool.not_eq_true, Bool.not_eq_false'] at hnewest
    have hproperties := each_leftoverOf? (.unevaluatedProperties parts)
      (hpieces "unevaluatedProperties" hnewest) fun _ hs =>
        usesOnly_unevaluatedProperties.mpr ⟨hparts, hs⟩
    have hitems := each_leftoverOf? (.unevaluatedItems parts)
      (hpieces "unevaluatedItems" hnewest) fun _ hs =>
        usesOnly_unevaluatedItems.mpr ⟨hparts, hs⟩
    exact hproperties.bind fun _ hss => hitems.bind fun _ hts =>
      Each.some (allUseOnly_append hss hts)

/-! ### Where references are written -/

theorem writtenReferences_item {j : Json} : ∀ {items : List Json}, j ∈ items →
    writtenReferences j ⊆ writtenReferences (.array items)
  | i :: rest, h => by
      intro r hr
      rw [writtenReferences, writtenInItems, List.mem_append]
      rcases List.mem_cons.mp h with rfl | h
      · exact .inl hr
      · have ih := writtenReferences_item h hr
        rw [writtenReferences] at ih
        exact .inr ih

theorem writtenReferences_field {f : String × Json} : ∀ {fields : Fields}, f ∈ fields →
    writtenReferences f.2 ⊆ writtenReferences (.object fields)
  | (keyword, j) :: rest, h => by
      intro r hr
      rw [writtenReferences, writtenInFields, List.mem_append, List.mem_append]
      rcases List.mem_cons.mp h with rfl | h
      · exact .inr (.inl hr)
      · have ih := writtenReferences_field h hr
        rw [writtenReferences] at ih
        exact .inr (.inr ih)

/-- A reference is written as the value of a keyword for references. -/
theorem mem_writtenReferences {keyword r : String} {j : Json}
    (hkeyword : isReferenceKeyword keyword = true) (hj : j.asString? = some r) :
    ∀ {fields : Fields}, (keyword, j) ∈ fields → r ∈ writtenReferences (.object fields)
  | (k, v) :: rest, h => by
      rw [writtenReferences, writtenInFields, List.mem_append, List.mem_append]
      rcases List.mem_cons.mp h with heq | h
      · cases heq
        rw [if_pos hkeyword, hj]
        exact .inl (List.mem_singleton.mpr rfl)
      · have ih := mem_writtenReferences hkeyword hj h
        rw [writtenReferences] at ih
        exact .inr (.inr ih)

theorem writtenReferences_subschema {keyword : String} {i j : Json}
    (h : i ∈ subschemas keyword j) : writtenReferences i ⊆ writtenReferences j := by
  unfold subschemas at h
  split at h
  · rw [List.mem_singleton.mp h]
    exact List.Subset.refl _
  · exact writtenReferences_item h
  · obtain ⟨f, hf, rfl⟩ := List.mem_map.mp h
    exact writtenReferences_field hf
  · obtain ⟨f, hf, rfl⟩ := List.mem_map.mp (List.mem_filter.mp h).1
    exact writtenReferences_field hf
  · exact writtenReferences_item h
  · rw [List.mem_singleton.mp h]
    exact List.Subset.refl _
  · cases h

theorem reference_of_demandOf {d : Dialect} {fields : Fields} {keyword r : String} {j : Json}
    (h : demandOf d fields keyword j = .reference r) :
    isReferenceKeyword keyword = true ∧ j.asString? = some r := by
  have href : ∀ {j : Json}, referenceDemand j = .reference r → j.asString? = some r := by
    intro j hj
    rw [referenceDemand] at hj
    cases hs : j.asString? with
    | none => rw [hs] at hj; cases hj
    | some s => rw [hs] at hj; cases hj; rfl
  unfold demandOf at h
  split at h
  · cases h
  · cases h
  · split at h
    · exact ⟨rfl, href h⟩
    · split at h
      · exact ⟨rfl, href h⟩
      · cases h
    -- no other keyword asks for a reference, whatever its value is
    all_goals first
      | cases h
      | cases isPlain_of_furtherItems h
      | (split at h <;> first | cases h | (split at h <;> cases h))

theorem isAfter4_of_condition {d : Dialect} {fields : Fields} {keyword : String} {j : Json}
    (h : demandOf d fields keyword j = .condition) : d.isAfter4 = true := by
  have href : referenceDemand j ≠ .condition := by
    rw [referenceDemand]
    cases j.asString? <;> nofun
  unfold demandOf at h
  split at h
  · cases h
  · cases h
  · split at h
    all_goals first
      | cases h
      | exact absurd h href
      | cases isPlain_of_furtherItems h
      | (split at h <;> first | assumption | cases h | exact absurd h href | (split at h <;> cases h))

/-! ### Documents -/

variable {d : Dialect}

theorem each_allKeywords? {all : Fields} {pieces : Pieces}
    (hpieces : ∀ name, d.knows name = true → PieceEach (UsesOnly P) (pieces.find name)) :
    ∀ {fields : Fields},
    (∀ f ∈ fields, d.knows f.1 = true → PieceEach (UsesOnly P) (pieceOf d f.1 f.2)) →
    (∀ f ∈ fields, ∀ r, demandOf d all f.1 f.2 = .reference r → P r) →
    Each (AllUseOnly P) (allKeywords? d all pieces fields (piecesOf d fields))
  | [], _, _ => Each.some allUseOnly_nil
  | (keyword, j) :: rest, hpiece, href => by
      obtain ⟨hp, hps⟩ := List.forall_mem_cons.mp hpiece
      obtain ⟨hr, hrs⟩ := List.forall_mem_cons.mp href
      rw [piecesOf_cons, allKeywords?]
      have hkeyword := each_schemas? (fun hdemand => hp (knows_of_demandOf hdemand))
        (fun hc => hpieces "then" (isAfter4_of_condition hc))
        (fun hc => hpieces "else" (isAfter4_of_condition hc)) hr
      exact hkeyword.bind fun _ hss => (each_allKeywords? hpieces hps hrs).bind fun _ hts =>
        Each.some (allUseOnly_append hss hts)

/-- The references of a schema object are those that its keywords ask for, and those below the
keywords that its dialect knows. -/
theorem each_objectSchema? {fields : Fields}
    (hpiece : ∀ f ∈ fields, d.knows f.1 = true → PieceEach (UsesOnly P) (pieceOf d f.1 f.2))
    (href : ∀ f ∈ fields, ∀ r, demandOf d fields f.1 f.2 = .reference r → P r) :
    Each (UsesOnly P) (objectSchema? d fields (piecesOf d fields)) := by
  have hpieces : ∀ name, d.knows name = true →
      PieceEach (UsesOnly P) ((piecesOf d fields).find name) := by
    intro name hknows
    rw [find_piecesOf]
    cases hget : Fields.get? name fields with
    | none => trivial
    | some j => exact hpiece _ (mem_of_get? hget) hknows
  have hall : Each (UsesOnly P) (do
      let parts ← allKeywords? d fields (piecesOf d fields) fields (piecesOf d fields)
      return Compiled.all (parts ++ (← leftoverSchemas? d (piecesOf d fields) parts))) :=
    (each_allKeywords? hpieces hpiece href).bind fun _ hparts =>
      (each_leftoverSchemas? hpieces hparts).bind fun _ hrest =>
        Each.some (allUseOnly_append hparts hrest)
  unfold objectSchema?
  split
  · next j hget =>
      split
      · refine Each.map (P := P) (fun r hr => ?_) fun _ h => usesOnly_reference h
        have hdemand : demandOf d fields "$ref" j = .reference r := by
          show referenceDemand j = _
          rw [referenceDemand, hr]
          rfl
        exact href _ (mem_of_get? hget) r hdemand
      · exact hall
  · exact hall

/-- A compiled schema uses only references that are written in its document. -/
theorem usesOnly_ofJson? : ∀ j : Json, (∀ r ∈ writtenReferences j, P r) →
    Each (UsesOnly P) (Compiled.ofJson? d j)
  | .object fields, h => by
      have href : ∀ f ∈ fields, ∀ r, demandOf d fields f.1 f.2 = .reference r → P r := by
        intro f hf r hr
        obtain ⟨hkeyword, hj⟩ := reference_of_demandOf hr
        exact h r (mem_writtenReferences hkeyword hj hf)
      rw [Compiled.ofJson?]
      refine each_objectSchema? (fun f hf _ => pieceEach_pieceOf fun i hi => ?_) href
      have hlt : sizeOf i < sizeOf (Json.object fields) :=
        Nat.lt_of_le_of_lt (sizeOf_subschema_le hi) (sizeOf_field_lt hf)
      exact usesOnly_ofJson? i fun r hr =>
        h r (writtenReferences_field hf (writtenReferences_subschema hi hr))
  | .bool true, _ => Each.some allUseOnly_nil
  | .bool false, _ => Each.some allUseOnly_nil
  | .null, _ | .number _, _ | .string _, _ | .array _, _ => nofun
termination_by j => sizeOf j
decreasing_by exact hlt

end EntityStore.Schema
