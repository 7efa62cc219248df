import EntityStore.Proofs.Schema.Demand
import EntityStore.Proofs.Schema.Pieces

/-! # Keywords that are sensitive to what is asked for below them

Most keywords accept more when a schema below them asks for less.  Under `oneOf`, `not`, `if` and
`contains` with an upper bound it can be the other way round.  `sensitives` lists these keywords of a
schema document with their values. -/

namespace EntityStore.Schema

/-- The keyword can accept less when a schema below it asks for less. -/
def Demand.isSensitive : Demand → Bool
  | .oneOf | .not _ | .condition | .contains _ (some _) => true
  | _ => false

mutual
/-- The sensitive keywords of a schema document with their values.  Nothing is listed from below a
sensitive keyword. -/
def sensitives (d : Dialect) : Json → List (String × Json)
  | .object fields => sensitivesOfFields d fields fields
  | _ => []

def sensitivesOfFields (d : Dialect) (all : Fields) :
    List (String × Json) → List (String × Json)
  | [] => []
  | (keyword, j) :: rest =>
    (if (demandOf d all keyword j).isSensitive then [(keyword, j)]
      else
        match shapeOf keyword, j with
        | .single, j => sensitives d j
        | .list, .array items => sensitivesOfItems d items
        | .map, .object members | .dependencies, .object members => sensitivesOfMembers d members
        | .singleOrList, .array items => sensitivesOfItems d items
        | .singleOrList, j => sensitives d j
        | _, _ => []) ++ sensitivesOfFields d all rest

def sensitivesOfItems (d : Dialect) : List Json → List (String × Json)
  | [] => []
  | j :: rest => sensitives d j ++ sensitivesOfItems d rest

def sensitivesOfMembers (d : Dialect) : List (String × Json) → List (String × Json)
  | [] => []
  | (_, j) :: rest => sensitives d j ++ sensitivesOfMembers d rest
end

variable {d : Dialect}

/-! ### Inside a document -/

theorem sensitivesOfItems_eq_flatMap (items : List Json) :
    sensitivesOfItems d items = items.flatMap (sensitives d) := by
  induction items with
  | nil => rfl
  | cons j rest ih => rw [sensitivesOfItems, ih, List.flatMap_cons]

theorem sensitivesOfMembers_eq_flatMap (members : Fields) :
    sensitivesOfMembers d members = members.flatMap fun m => sensitives d m.2 := by
  induction members with
  | nil => rfl
  | cons m rest ih => rw [sensitivesOfMembers, ih, List.flatMap_cons]

theorem sensitivesOfFields_eq_flatMap (all fields : Fields) : sensitivesOfFields d all fields =
    fields.flatMap fun f => if (demandOf d all f.1 f.2).isSensitive then [f]
      else (subschemas f.1 f.2).flatMap (sensitives d) := by
  induction fields with
  | nil => rfl
  | cons f rest ih =>
      obtain ⟨keyword, j⟩ := f
      rewrite [List.flatMap_cons, ← ih, flatMap_subschemas fun _ => rfl, sensitivesOfFields.eq_def,
        funext sensitivesOfItems_eq_flatMap, funext sensitivesOfMembers_eq_flatMap]
      rfl

theorem mem_sensitives_fields {all fields : Fields} {f : String × Json}
    (h : (demandOf d all f.1 f.2).isSensitive = true) (hf : f ∈ fields) :
    f ∈ sensitivesOfFields d all fields := by
  rw [sensitivesOfFields_eq_flatMap]
  refine List.mem_flatMap_of_mem hf ?_
  rw [if_pos h]
  exact List.mem_singleton.mpr rfl

theorem sensitives_subschema {all fields : Fields} {f : String × Json} {i : Json}
    (h : (demandOf d all f.1 f.2).isSensitive = false) (hi : i ∈ subschemas f.1 f.2)
    (hf : f ∈ fields) : sensitives d i ⊆ sensitivesOfFields d all fields := by
  intro a ha
  rw [sensitivesOfFields_eq_flatMap]
  refine List.mem_flatMap_of_mem hf ?_
  rw [if_neg (by rw [h]; decide)]
  exact List.mem_flatMap_of_mem hi ha

end EntityStore.Schema
