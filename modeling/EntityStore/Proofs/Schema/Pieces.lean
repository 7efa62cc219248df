import Mathlib.Data.List.Forall2
import EntityStore.Proofs.Schema.Form

/-! # The schemas inside a schema document

`subschemas` lists the schemas in the value of a keyword, and `pieceOf` compiles them.  Both look at
the shape of the keyword only.

`Each` and `Carries` say what is known of a value that may be missing: alone, or next to another one
that is there whenever the first one is. -/

namespace EntityStore.Schema

/-! ### Values that may be missing -/

/-- The value has the property, if there is one. -/
def Each {α : Type} (P : α → Prop) (o : Option α) : Prop := ∀ a, o = some a → P a

/-- If there is a first value there is a second one, and they are related. -/
def Carries {α β : Type} (R : α → β → Prop) (o : Option α) (o' : Option β) : Prop :=
  Each (fun a => ∃ b, o' = some b ∧ R a b) o

section
variable {α β γ δ : Type}

theorem Each.some {P : α → Prop} {a : α} (h : P a) : Each P (some a) := by
  intro b hb
  cases hb
  exact h

theorem Each.bind {P : α → Prop} {Q : β → Prop} {o : Option α} {f : α → Option β}
    (h : Each P o) (hf : ∀ a, P a → Each Q (f a)) : Each Q (o >>= f) := by
  cases o with
  | none => nofun
  | some a => exact hf a (h a rfl)

theorem Each.map {P : α → Prop} {Q : β → Prop} {o : Option α} {f : α → β}
    (h : Each P o) (hf : ∀ a, P a → Q (f a)) : Each Q (o.map f) := by
  cases o with
  | none => nofun
  | some a => exact Each.some (hf a (h a rfl))

theorem Carries.none {R : α → β → Prop} {o : Option β} : Carries R none o := nofun

theorem Carries.some {R : α → β → Prop} {a : α} {b : β} (h : R a b) :
    Carries R (some a) (some b) := Each.some ⟨b, rfl, h⟩

theorem Carries.bind {R : α → β → Prop} {S : γ → δ → Prop} {o : Option α} {o' : Option β}
    {f : α → Option γ} {f' : β → Option δ} (h : Carries R o o')
    (hf : ∀ a b, R a b → Carries S (f a) (f' b)) : Carries S (o >>= f) (o' >>= f') := by
  cases o with
  | none => exact Carries.none
  | some a =>
      obtain ⟨b, rfl, hab⟩ := h a rfl
      exact hf a b hab

theorem Carries.map {R : α → β → Prop} {S : γ → δ → Prop} {o : Option α} {o' : Option β}
    {f : α → γ} {f' : β → δ} (h : Carries R o o') (hf : ∀ a b, R a b → S (f a) (f' b)) :
    Carries S (o.map f) (o'.map f') := by
  cases o with
  | none => exact Carries.none
  | some a =>
      obtain ⟨b, rfl, hab⟩ := h a rfl
      exact Carries.some (hf a b hab)

theorem Carries.of_each {P : α → Prop} {R : α → α → Prop} {o : Option α} (h : Each P o)
    (hR : ∀ a, P a → R a a) : Carries R o o := fun a ha => ⟨a, ha, hR a (h a ha)⟩

theorem each_allSome {P : α → Prop} : ∀ {os : List (Option α)}, (∀ o ∈ os, Each P o) →
    Each (fun as => ∀ a ∈ as, P a) (allSome os)
  | [], _ => Each.some fun _ h => (List.not_mem_nil h).elim
  | Option.none :: _, _ => nofun
  | Option.some a :: _, h =>
    (each_allSome fun o ho => h o (List.mem_cons_of_mem _ ho)).map fun _ has =>
      List.forall_mem_cons.mpr ⟨h _ List.mem_cons_self a rfl, has⟩

theorem carries_allSome {R : α → β → Prop} {os : List (Option α)} {os' : List (Option β)}
    (h : List.Forall₂ (Carries R) os os') :
    Carries (List.Forall₂ R) (allSome os) (allSome os') := by
  induction h with
  | nil => exact Carries.some .nil
  | @cons o o' _ _ ho _ ih =>
      cases o with
      | none => exact Carries.none
      | some a =>
          obtain ⟨b, rfl, hab⟩ := ho a rfl
          exact ih.map fun _ _ => .cons hab

end

theorem mem_of_get? {name : String} {j : Json} : ∀ {fields : Fields},
    Fields.get? name fields = some j → (name, j) ∈ fields
  | (k, v) :: rest, h => by
      rw [Fields.get?] at h
      split at h
      · next hk =>
          cases h
          rw [hk]
          exact List.mem_cons_self
      · exact List.mem_cons_of_mem _ (mem_of_get? h)

/-! ### Subschemas -/

/-- The schemas in the value of a keyword. -/
def subschemas (keyword : String) (j : Json) : List Json :=
  match shapeOf keyword, j with
  | .single, j => [j]
  | .list, .array items => items
  | .map, .object members => members.map Prod.snd
  | .dependencies, .object members => (members.map Prod.snd).filter fun j => !j.isArray
  | .singleOrList, .array items => items
  | .singleOrList, j => [j]
  | _, _ => []

theorem sizeOf_subschema_le {keyword : String} {i j : Json} (h : i ∈ subschemas keyword j) :
    sizeOf i ≤ sizeOf j := by
  unfold subschemas at h
  split at h
  · exact Nat.le_of_eq (congrArg sizeOf (List.mem_singleton.mp h))
  · exact Nat.le_of_lt (sizeOf_item_lt h)
  · obtain ⟨f, hf, rfl⟩ := List.mem_map.mp h
    exact Nat.le_of_lt (sizeOf_field_lt hf)
  · obtain ⟨f, hf, rfl⟩ := List.mem_map.mp (List.mem_filter.mp h).1
    exact Nat.le_of_lt (sizeOf_field_lt hf)
  · exact Nat.le_of_lt (sizeOf_item_lt h)
  · exact Nat.le_of_eq (congrArg sizeOf (List.mem_singleton.mp h))
  · cases h

/-- What is collected from the subschemas of a keyword, if nothing is collected from arrays. -/
theorem flatMap_subschemas {α : Type} {collect : Json → List α}
    (harray : ∀ items, collect (.array items) = []) (keyword : String) (j : Json) :
    (subschemas keyword j).flatMap collect =
      match shapeOf keyword, j with
      | .single, j => collect j
      | .list, .array items => items.flatMap collect
      | .map, .object members | .dependencies, .object members =>
        members.flatMap fun m => collect m.2
      | .singleOrList, .array items => items.flatMap collect
      | .singleOrList, j => collect j
      | _, _ => [] := by
  have hmembers : ∀ members : Fields, ((members.map Prod.snd).filter fun j => !j.isArray).flatMap
      collect = members.flatMap fun m => collect m.2 := by
    intro members
    induction members with
    | nil => rfl
    | cons m rest ih =>
        obtain ⟨name, i⟩ := m
        rw [List.map_cons, List.filter_cons, List.flatMap_cons, ← ih]
        cases i with
        | array items => rw [harray]; rfl
        | _ => rfl
  unfold subschemas
  generalize shapeOf keyword = shape
  cases shape with
  | none => rfl
  | single => exact List.append_nil _
  | list => cases j <;> rfl
  | map =>
      cases j with
      | object members => exact List.flatMap_map _ _ members
      | _ => rfl
  | dependencies =>
      cases j with
      | object members => exact hmembers members
      | _ => rfl
  | singleOrList =>
      cases j with
      | array items => rfl
      | _ => exact List.append_nil _

/-- A dependency: a schema, or the presence of the names that are listed. -/
def dependencyOf? (d : Dialect) : Json → Option Compiled
  | .array items => some (presence (namesOf (.array items)))
  | j => Compiled.ofJson? d j

/-- The compiled subschemas of a keyword. -/
def pieceOf (d : Dialect) (keyword : String) (j : Json) : Piece :=
  match shapeOf keyword, j with
  | .single, j => .single (Compiled.ofJson? d j)
  | .list, .array items => .list (items.map (Compiled.ofJson? d))
  | .map, .object members => .map (members.map fun m => (m.1, Compiled.ofJson? d m.2))
  | .dependencies, .object members => .map (members.map fun m => (m.1, dependencyOf? d m.2))
  | .singleOrList, .array items => .list (items.map (Compiled.ofJson? d))
  | .singleOrList, j => .single (Compiled.ofJson? d j)
  | _, _ => .none

variable (d : Dialect)

theorem schemasOf_eq_map (items : List Json) :
    schemasOf d items = items.map (Compiled.ofJson? d) := by
  induction items with
  | nil => rfl
  | cons j rest ih => rw [schemasOf, ih, List.map_cons]

theorem membersOf_eq_map (members : Fields) :
    membersOf d members = members.map fun m => (m.1, Compiled.ofJson? d m.2) := by
  induction members with
  | nil => rfl
  | cons m rest ih => rw [membersOf, ih, List.map_cons]

theorem dependenciesOf_eq_map (members : Fields) :
    dependenciesOf d members = members.map fun m => (m.1, dependencyOf? d m.2) := by
  induction members with
  | nil => rfl
  | cons m rest ih =>
      obtain ⟨name, j⟩ := m
      cases j <;> exact congrArg (List.cons _) ih

theorem piecesOf_eq_map (fields : Fields) :
    piecesOf d fields = fields.map fun f => (f.1, pieceOf d f.1 f.2) := by
  induction fields with
  | nil => rfl
  | cons f rest ih =>
      obtain ⟨keyword, j⟩ := f
      rewrite [piecesOf.eq_def, List.map_cons, ← ih, funext (schemasOf_eq_map d),
        funext (membersOf_eq_map d), funext (dependenciesOf_eq_map d)]
      rfl

theorem piecesOf_cons (keyword : String) (j : Json) (rest : Fields) :
    piecesOf d ((keyword, j) :: rest) = (keyword, pieceOf d keyword j) :: piecesOf d rest := by
  rw [piecesOf_eq_map, piecesOf_eq_map, List.map_cons]

/-- The piece of a keyword is that of its first field. -/
theorem find_piecesOf (name : String) (fields : Fields) : (piecesOf d fields).find name =
    ((Fields.get? name fields).map (pieceOf d name)).getD .none := by
  rw [piecesOf_eq_map]
  induction fields with
  | nil => rfl
  | cons f rest ih =>
      obtain ⟨keyword, j⟩ := f
      rw [List.map_cons, Pieces.find, Fields.get?]
      by_cases hk : keyword = name
      · rw [if_pos hk, if_pos hk, hk]
        rfl
      · rw [if_neg hk, if_neg hk, ih]

end EntityStore.Schema
