import EntityStore.Proofs.Schema.Monotone
import EntityStore.Proofs.Schema.References
import EntityStore.Proofs.Schema.Relaxation
import EntityStore.Proofs.Schema.Sensitive

/-! # Keywords that ask for less in a mode

Asking for less is a relaxation (`looser_relaxation`), and some more keywords hand it on than do so
for every relaxation.  The sensitive keywords do not: they must have the same value in both modes and
use only references that are followed alike. -/

namespace EntityStore.Schema

open Compiled (Follow)

/-! ### Following references to schemas that ask for less -/

/-- The second way of following references asks for less, and the two ways agree on the references
of that kind. -/
structure Eases (P : String → Prop) (f g : Follow) : Prop where
  agree : Agree P f g
  looser : ∀ r, Looser f g (.reference r) (.reference r)

variable {P : String → Prop} {f g : Follow} {m : Mode} {d : Dialect}

/-! ### Lists of schemas that keywords come to -/

theorem looserAll_presence_dependent (name : String) (keys : List String) :
    LooserAll f g [.dependent name (presence keys)] [] where
  met _ := rfl
  names j := by
    have h := (LooserAll.of_presence keys (f := f) (g := g)).names j
    show (if _ then Compiled.evaluatedNames f (presence keys) j else []) ++ [] ⊆ []
    split
    · exact h
    · exact List.Subset.refl _
  items _ := covers_nil _
  references := (LooserAll.of_presence keys (f := f) (g := g)).references

theorem looser_relaxation : Relaxation (Looser f g) (LooserAll f g) where
  nil := .nil
  append := .append
  single := .single
  drop := .of_presence
  dropDependent := looserAll_presence_dependent
  leaf h := looser_self (usesOnly_of_isLeaf h)
  all := .all
  allOf := .allOf
  property name h := h.property name
  matching regex h := h.matching regex
  additional listed patterns h := h.additional listed patterns
  names := .propertyNames
  dependent name h := h.dependent name
  item index h := h.item index
  itemsFrom index h := h.itemsFrom index

/-! ### Keywords -/

/-- The same schemas, if they use only references that are followed alike. -/
theorem carries_self {o : Option (List Compiled)} (hagree : Agree P f g)
    (h : Each (AllUseOnly P) o) : Carries (LooserAll f g) o o :=
  Carries.of_each h fun ss hss => (AllUseOnly.same hagree ss hss).looser

/-- A sensitive keyword whose value is the same in both modes. -/
theorem carries_sensitive {demand : Demand} {pieces pieces' : Pieces} {piece : Piece}
    (hagree : Agree P f g) (hsensitive : demand.isSensitive = true)
    (hpiece : PieceEach (UsesOnly P) piece)
    (hthen : PieceCarries (Looser f g) (pieces.find "then") (pieces'.find "then"))
    (helse : PieceCarries (Looser f g) (pieces.find "else") (pieces'.find "else")) :
    Carries (LooserAll f g) (demand.schemas? pieces piece) (demand.schemas? pieces' piece) := by
  cases demand with
  | oneOf =>
      cases piece with
      | list os =>
          exact carries_self hagree ((each_allSome hpiece).map fun _ hss =>
            usesOnly_single (allUseOnly_iff.mpr hss))
      | _ => exact Carries.some .nil
  | not source =>
      cases piece with
      | single o => exact carries_self hagree (Each.map hpiece fun _ hs => usesOnly_single hs)
      | _ => exact Carries.some .nil
  | condition =>
      cases piece with
      | single o =>
          refine looser_relaxation.conditionOf (fun c hc _ _ _ _ hyes hno => ?_) hthen helse
          exact .ifThenElse (UsesOnly.same hagree c (hpiece c hc)) hyes hno
      | _ => exact Carries.some .nil
  | contains low high =>
      cases piece with
      | single o => exact carries_self hagree (Each.map hpiece fun _ hs => usesOnly_single hs)
      | _ => exact Carries.some .nil
  | _ => cases hsensitive

/-- Any other keyword whose subschemas ask for less. -/
theorem carries_schemas? {demand : Demand} {pieces pieces' : Pieces} {piece piece' : Piece}
    (hreference : ∀ r, Looser f g (.reference r) (.reference r))
    (hsensitive : demand.isSensitive = false) (h : PieceCarries (Looser f g) piece piece') :
    Carries (LooserAll f g) (demand.schemas? pieces piece) (demand.schemas? pieces' piece') := by
  cases demand with
  | check c => exact Carries.some (LooserAll.single (looser_self allUseOnly_nil))
  | reference r => exact Carries.some (LooserAll.single (hreference r))
  | present keys => exact Carries.some (LooserAll.single (looser_self (usesOnly_presence keys)))
  | together members =>
      exact Carries.some (AllUseOnly.same (P := fun _ => False) nofun _
        (usesOnly_requiredTogether members)).looser
  | anyOf =>
      cases h with
      | list h => exact looser_relaxation.listKeyword h fun _ _ hss => .anyOf hss
      | _ => exact Carries.some .nil
  | oneOf | not _ | condition => cases hsensitive
  | contains low high =>
      cases high with
      | some high => cases hsensitive
      | none =>
          cases h with
          | single h => exact looser_relaxation.keyword h fun _ _ hs => hs.contains low
          | _ => exact Carries.some .nil
  | _ => exact looser_relaxation.plain rfl h

end EntityStore.Schema
