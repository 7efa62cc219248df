import EntityStore.Text.Split

/-! # Cutting a text at a separator

The pieces of a text are those of `List.splitOn` (`splitAt_eq_splitOn`).  A text in which each piece
follows a separator is cut into just these pieces (`splitAt_flatMap`). -/

namespace EntityStore.Text

/-- Cutting a text at a separator. -/
theorem splitAt_eq_splitOn (sep : Char) (cs : List Char) : splitAt sep cs = cs.splitOn sep := by
  induction cs with
  | nil => rfl
  | cons c rest ih =>
      rw [splitAt, List.splitOn_cons_eq_if_modifyHead, ih]
      by_cases h : c = sep
      · rw [if_pos h, if_pos (beq_iff_eq.mpr h)]
      · rw [if_neg h, if_neg (mt beq_iff_eq.mp h)]
        cases hpieces : rest.splitOn sep with
        | nil => exact absurd hpieces (List.splitOn_ne_nil sep rest)
        | cons piece pieces => rfl

/-- Pieces that each follow a separator; in front of the first one stands nothing. -/
theorem splitAt_flatMap {sep : Char} {pieces : List (List Char)} (h : ∀ p ∈ pieces, sep ∉ p) :
    splitAt sep (pieces.flatMap (sep :: ·)) = [] :: pieces := by
  have hnil : sep ∉ ([] : List Char) := List.not_mem_nil
  suffices ∀ front : List Char, sep ∉ front →
      (front ++ pieces.flatMap (sep :: ·)).splitOn sep = front :: pieces by
    rw [splitAt_eq_splitOn]
    exact this [] hnil
  induction pieces with
  | nil =>
      intro front hfront
      rw [List.flatMap_nil, List.append_nil, List.splitOn_eq_singleton hfront]
  | cons p rest ih =>
      intro front hfront
      obtain ⟨hp, hrest⟩ := List.forall_mem_cons.mp h
      rw [List.flatMap_cons, List.cons_append,
        List.splitOn_append_cons_self_of_not_mem hfront, ih hrest p hp]

end EntityStore.Text
