import EntityStore.Proofs.Schema.Loosening

/-! # Schema documents that ask for less

A schema document compiles in either mode, and to a schema that asks for no more (`carries_ofJson?`):
by induction on the document, keyword by keyword. -/

namespace EntityStore.Schema

open Compiled (Follow)

variable {P : String → Prop} {f g : Follow} {m : Mode} {d : Dialect}

/-- The value of a sensitive keyword is the same in the mode, and its references are followed
alike. -/
def Spared (P : String → Prop) (m : Mode) (a : String × Json) : Prop :=
  m.value a.1 a.2 = a.2 ∧ ∀ r ∈ writtenReferences a.2, P r

/-! ### Keywords of a schema object -/

section
variable {all : Fields} (hways : Eases P f g)
  (hspared : ∀ a ∈ sensitives d (.object all), Spared P m a)
  (ih : ∀ a ∈ all, (demandOf d all a.1 a.2).isSensitive = false → ∀ i ∈ subschemas a.1 a.2,
    Carries (Looser f g) (Compiled.ofJson? d i) (Compiled.ofJson? d (m.schema i)))

include hways hspared ih in
theorem carries_keyword {keyword : String} {j : Json} (hmem : (keyword, j) ∈ all)
    (hkeeps : m.keeps keyword = true) : Carries (LooserAll f g)
      ((demandOf d all keyword j).schemas? (piecesOf d all) (pieceOf d keyword j))
      ((demandOf d (m.fields all) keyword (m.value keyword j)).schemas? (piecesOf d (m.fields all))
        (pieceOf d keyword (m.value keyword j))) := by
  rw [demandOf_mode m d hkeeps]
  cases hsensitive : (demandOf d all keyword j).isSensitive with
  | true =>
      obtain ⟨hvalue, hrefs⟩ := hspared _ (mem_sensitives_fields hsensitive hmem)
      dsimp only at hvalue hrefs
      rw [hvalue]
      refine carries_sensitive hways.agree hsensitive (pieceEach_pieceOf fun i hi => ?_)
        (pieceCarries_find rfl fun j hj => ih _ hj rfl)
        (pieceCarries_find rfl fun j hj => ih _ hj rfl)
      exact usesOnly_ofJson? i fun r hr => hrefs r (writtenReferences_subschema hi hr)
  | false =>
      have hsub := ih _ hmem hsensitive
      by_cases hdependencies : keyword = "dependencies"
      · subst hdependencies
        exact looser_relaxation.dependents (fun _ keys => looser_self (usesOnly_presence keys)) hsub
      · by_cases hnot : keyword = "not"
        · subst hnot
          cases hsensitive
        · by_cases hif : keyword = "if"
          · subst hif
            cases d with
            | draft4 => exact Carries.some .nil
            | _ => cases hsensitive
          · exact carries_schemas? hways.looser hsensitive
              (pieceCarries_pieceOf hnot hif hdependencies hsub)

end

/-! ### Documents -/

/-- A document compiles in a mode whenever it compiles as it was written, and to a schema that asks
for no more, if the sensitive keywords are spared. -/
theorem carries_ofJson? (hways : Eases P f g) : ∀ j : Json,
    (∀ a ∈ sensitives d j, Spared P m a) →
      Carries (Looser f g) (Compiled.ofJson? d j) (Compiled.ofJson? d (m.schema j))
  | .object fields, hspared => by
      rw [m.schema_object, Compiled.ofJson?, Compiled.ofJson?]
      have ih : ∀ a ∈ fields, (demandOf d fields a.1 a.2).isSensitive = false →
          ∀ i ∈ subschemas a.1 a.2,
            Carries (Looser f g) (Compiled.ofJson? d i) (Compiled.ofJson? d (m.schema i)) := by
        intro a ha hsensitive i hi
        have hlt : sizeOf i < sizeOf (Json.object fields) :=
          Nat.lt_of_le_of_lt (sizeOf_subschema_le hi) (sizeOf_field_lt ha)
        refine carries_ofJson? hways i fun b hb => ?_
        rw [sensitives] at hspared
        exact hspared b (sensitives_subschema hsensitive hi ha hb)
      exact looser_relaxation.objectSchema? (fun _ _ => carries_keyword hways hspared ih)
        (fun _ _ h => looser_relaxation.leftoverSchemas? (fun _ _ hs => hs.unevaluatedProperties h)
          (fun _ _ hs => hs.unevaluatedItems h) fun name j _ hnothing hj =>
            ih _ hj (by rw [hnothing]; rfl)) fun _ _ r _ => hways.looser r
  | .bool true, _ => by cases m <;> exact Carries.some (looser_self allUseOnly_nil)
  | .bool false, _ => by cases m <;> exact Carries.some (looser_self allUseOnly_nil)
  | .null, _ | .number _, _ | .string _, _ | .array _, _ => Carries.none
termination_by j => sizeOf j
decreasing_by exact hlt

end EntityStore.Schema
