import EntityStore.Proofs.Schema.References

/-! # Following references through a document

`reached?` finds the same references with any fuel that is enough for all of them
(`reached?_of_length`), and a document has enough of it for the references that are written in it
(`reached?_of_written`).  The search depends on the targets only through the references that they
make (`reached?_of_targets`). -/

namespace EntityStore.Schema

variable {target target' : String → Option Compiled}

/-! ### The search -/

/-- What one step of the search comes to. -/
theorem reached?_cases {n : Nat} {seen waiting l : List String}
    (h : reached? target n seen waiting = some l) :
    ((∀ r ∈ waiting, r ∈ seen) ∧ l = seen) ∨
      ∃ k r rest s, n = k + 1 ∧ waiting.filter (fun r => !seen.contains r) = r :: rest ∧
        target r = some s ∧ reached? target k (r :: seen) (s.references ++ rest) = some l := by
  cases n with
  | zero =>
      rw [reached?] at h
      split at h
      · next hall =>
          cases h
          refine .inl ⟨fun r hr => ?_, rfl⟩
          exact List.contains_iff_mem.mp (List.all_eq_true.mp hall r hr)
      · cases h
  | succ k =>
      rw [reached?] at h
      split at h
      · next hnone =>
          cases h
          refine .inl ⟨fun r hr => ?_, rfl⟩
          have hseen := List.filter_eq_nil_iff.mp hnone r hr
          rwa [Bool.not_eq_true', Bool.not_eq_false, List.contains_iff_mem] at hseen
      · next r rest hfilter =>
          split at h
          · cases h
          · next s hs => exact .inr ⟨k, r, rest, s, rfl, hfilter, hs, h⟩

/-- Nothing is waiting that has not been seen. -/
theorem reached?_of_seen {n : Nat} {seen waiting : List String} (h : ∀ r ∈ waiting, r ∈ seen) :
    reached? target n seen waiting = some seen := by
  cases n with
  | zero =>
      rw [reached?, if_pos (List.all_eq_true.mpr fun r hr => List.contains_iff_mem.mpr (h r hr))]
  | succ k =>
      have hnone : waiting.filter (fun r => !seen.contains r) = [] := by
        refine List.filter_eq_nil_iff.mpr fun r hr => ?_
        rw [Bool.not_eq_true', Bool.not_eq_false, List.contains_iff_mem]
        exact h r hr
      rw [reached?, hnone]

theorem reached?_of_step {k : Nat} {seen waiting rest : List String} {r : String} {s : Compiled}
    (hfilter : waiting.filter (fun r => !seen.contains r) = r :: rest) (hs : target r = some s) :
    reached? target (k + 1) seen waiting =
      reached? target k (r :: seen) (s.references ++ rest) := by
  rw [reached?, hfilter]
  dsimp only
  rw [hs]

/-- The references that are still to be seen are new, and they were waiting. -/
theorem mem_of_filter_eq_cons {seen waiting rest : List String} {r : String}
    (h : waiting.filter (fun r => !seen.contains r) = r :: rest) :
    r ∉ seen ∧ r ∈ waiting ∧ ∀ r' ∈ rest, r' ∈ waiting := by
  have hr : r ∈ waiting.filter fun r => !seen.contains r := h ▸ List.mem_cons_self
  rw [List.mem_filter, Bool.not_eq_true', ← Bool.not_eq_true, List.contains_iff_mem] at hr
  refine ⟨hr.2, hr.1, fun r' hr' => ?_⟩
  have hmem : r' ∈ waiting.filter fun r => !seen.contains r := h ▸ List.mem_cons_of_mem _ hr'
  exact (List.mem_filter.mp hmem).1

theorem length_le_of_reached? : ∀ {n : Nat} {seen waiting l : List String},
    reached? target n seen waiting = some l → seen.length ≤ l.length := by
  intro n
  induction n with
  | zero =>
      intro seen waiting l h
      rcases reached?_cases h with ⟨-, rfl⟩ | ⟨k, r, rest, s, hk, -, -, -⟩
      · exact Nat.le_refl _
      · cases hk
  | succ n ih =>
      intro seen waiting l h
      rcases reached?_cases h with ⟨-, rfl⟩ | ⟨k, r, rest, s, hk, -, -, hnext⟩
      · exact Nat.le_refl _
      · cases hk
        have hlen := ih hnext
        rw [List.length_cons] at hlen
        omega

/-- Fuel for the references that are not seen yet is enough, and no other fuel changes the result. -/
theorem reached?_of_length : ∀ {n : Nat} {seen waiting l : List String},
    reached? target n seen waiting = some l → ∀ m, l.length ≤ m + seen.length →
      reached? target m seen waiting = some l := by
  intro n
  induction n with
  | zero =>
      intro seen waiting l h m _
      rcases reached?_cases h with ⟨hseen, rfl⟩ | ⟨k, r, rest, s, hk, -, -, -⟩
      · exact reached?_of_seen hseen
      · cases hk
  | succ n ih =>
      intro seen waiting l h m hm
      rcases reached?_cases h with ⟨hseen, rfl⟩ | ⟨k, r, rest, s, hk, hfilter, hs, hnext⟩
      · exact reached?_of_seen hseen
      · cases hk
        have hlen := length_le_of_reached? hnext
        rw [List.length_cons] at hlen
        obtain ⟨m, rfl⟩ : ∃ m', m = m' + 1 := ⟨m - 1, by omega⟩
        rw [reached?_of_step hfilter hs]
        refine ih hnext m ?_
        rw [List.length_cons]
        omega

/-- What is found contains what was seen and what was waiting, and no reference in it leaves it. -/
theorem reached?_closed : ∀ {n : Nat} {seen waiting l : List String},
    reached? target n seen waiting = some l → seen ⊆ l ∧ waiting ⊆ l ∧
      ∀ r ∈ l, r ∉ seen → ∃ s, target r = some s ∧ ∀ r' ∈ s.references, r' ∈ l := by
  intro n
  induction n with
  | zero =>
      intro seen waiting l h
      rcases reached?_cases h with ⟨hseen, rfl⟩ | ⟨k, r, rest, s, hk, -, -, -⟩
      · exact ⟨List.Subset.refl _, hseen, fun r hr hnew => absurd hr hnew⟩
      · cases hk
  | succ n ih =>
      intro seen waiting l h
      rcases reached?_cases h with ⟨hseen, rfl⟩ | ⟨k, r, rest, s, hk, hfilter, hs, hnext⟩
      · exact ⟨List.Subset.refl _, hseen, fun r hr hnew => absurd hr hnew⟩
      · cases hk
        obtain ⟨hkept, hwaiting, hclosed⟩ := ih hnext
        obtain ⟨hr, hseen⟩ := List.cons_subset.mp hkept
        obtain ⟨hreferences, hrest⟩ := List.append_subset.mp hwaiting
        refine ⟨hseen, fun r' hr' => ?_, fun r' hr' hnew => ?_⟩
        · by_cases hold : r' ∈ seen
          · exact hseen hold
          · have hmem : r' ∈ waiting.filter fun r => !seen.contains r := by
              rw [List.mem_filter, Bool.not_eq_true', ← Bool.not_eq_true, List.contains_iff_mem]
              exact ⟨hr', hold⟩
            rw [hfilter] at hmem
            rcases List.mem_cons.mp hmem with rfl | hmem
            · exact hr
            · exact hrest hmem
        · by_cases heq : r' = r
          · rw [heq]
            exact ⟨s, hs, hreferences⟩
          · exact hclosed r' hr' fun hmem => (List.mem_cons.mp hmem).elim heq hnew

/-- All that is found is different, and it is of a kind that no reference leaves. -/
theorem reached?_invariant {C : String → Prop}
    (hclosed : ∀ r s, C r → target r = some s → ∀ r' ∈ s.references, C r') :
    ∀ {n : Nat} {seen waiting l : List String}, reached? target n seen waiting = some l →
      (∀ r ∈ waiting, C r) → (∀ r ∈ seen, C r) → seen.Nodup → (∀ r ∈ l, C r) ∧ l.Nodup := by
  intro n
  induction n with
  | zero =>
      intro seen waiting l h _ hseen hnodup
      rcases reached?_cases h with ⟨-, rfl⟩ | ⟨k, r, rest, s, hk, -, -, -⟩
      · exact ⟨hseen, hnodup⟩
      · cases hk
  | succ n ih =>
      intro seen waiting l h hwaiting hseen hnodup
      rcases reached?_cases h with ⟨-, rfl⟩ | ⟨k, r, rest, s, hk, hfilter, hs, hnext⟩
      · exact ⟨hseen, hnodup⟩
      · cases hk
        obtain ⟨hnew, hr, hrest⟩ := mem_of_filter_eq_cons hfilter
        refine ih hnext (fun r' hr' => ?_) (List.forall_mem_cons.mpr ⟨hwaiting r hr, hseen⟩)
          (List.nodup_cons.mpr ⟨hnew, hnodup⟩)
        rcases List.mem_append.mp hr' with hmem | hmem
        · exact hclosed r s (hwaiting r hr) hs r' hmem
        · exact hwaiting r' (hrest r' hmem)

/-- Targets with the same references lead the search the same way. -/
theorem reached?_of_targets {C : String → Prop}
    (hclosed : ∀ r s, C r → target r = some s → ∀ r' ∈ s.references, C r')
    (htargets : ∀ r s, C r → target r = some s →
      ∃ s', target' r = some s' ∧ s'.references = s.references) :
    ∀ {n : Nat} {seen waiting l : List String}, reached? target n seen waiting = some l →
      (∀ r ∈ waiting, C r) → reached? target' n seen waiting = some l := by
  intro n
  induction n with
  | zero =>
      intro seen waiting l h _
      rcases reached?_cases h with ⟨hseen, rfl⟩ | ⟨k, r, rest, s, hk, -, -, -⟩
      · exact reached?_of_seen hseen
      · cases hk
  | succ n ih =>
      intro seen waiting l h hwaiting
      rcases reached?_cases h with ⟨hseen, rfl⟩ | ⟨k, r, rest, s, hk, hfilter, hs, hnext⟩
      · exact reached?_of_seen hseen
      · cases hk
        obtain ⟨-, hr, hrest⟩ := mem_of_filter_eq_cons hfilter
        obtain ⟨s', hs', hreferences⟩ := htargets r s (hwaiting r hr) hs
        rw [reached?_of_step hfilter hs', hreferences]
        refine ih hnext fun r' hr' => ?_
        rcases List.mem_append.mp hr' with hmem | hmem
        · exact hclosed r s (hwaiting r hr) hs r' hmem
        · exact hwaiting r' (hrest r' hmem)

/-! ### Documents -/

theorem writtenReferences_descend? : ∀ {pointer : List (List Char)} {i j : Json},
    descend? pointer i = some j → writtenReferences j ⊆ writtenReferences i
  | [], i, j, h => by
      rw [descend?] at h
      cases h
      exact List.Subset.refl _
  | raw :: rest, .object fields, j, h => by
      rw [descend?, Option.bind_eq_some_iff] at h
      obtain ⟨v, hv, hj⟩ := h
      exact List.Subset.trans (writtenReferences_descend? hj)
        (writtenReferences_field (mem_of_get? hv))
  | raw :: rest, .array items, j, h => by
      rw [descend?, Option.bind_eq_some_iff] at h
      obtain ⟨v, hv, hj⟩ := h
      obtain ⟨index, _, hindex⟩ := Option.bind_eq_some_iff.mp hv
      exact List.Subset.trans (writtenReferences_descend? hj)
        (writtenReferences_item (List.mem_of_getElem? hindex))
  | _ :: _, .null, _, h | _ :: _, .bool _, _, h | _ :: _, .number _, _, h
  | _ :: _, .string _, _, h => by cases h

theorem writtenReferences_resolve? {root j : Json} {r : String} (h : resolve? root r = some j) :
    writtenReferences j ⊆ writtenReferences root := by
  unfold resolve? at h
  split at h
  · cases h
    exact List.Subset.refl _
  · cases h
    exact List.Subset.refl _
  · exact writtenReferences_descend? h
  · cases h

/-- The target of a reference makes only references that are written in the document. -/
theorem references_target? {d : Dialect} {root : Json} {r : String} {s : Compiled}
    (h : target? d root r = some s) : ∀ r' ∈ s.references, r' ∈ writtenReferences root := by
  obtain ⟨j, hj, hs⟩ := Option.bind_eq_some_iff.mp h
  exact usesOnly_ofJson? (P := (· ∈ writtenReferences root)) j
    (fun r' hr' => writtenReferences_resolve? hj hr') s hs

/-- A document has fuel for all references that are written in it. -/
theorem reached?_of_written {d : Dialect} {root : Json} {n : Nat} {waiting l : List String}
    (h : reached? (target? d root) n [] waiting = some l)
    (hwaiting : ∀ r ∈ waiting, r ∈ writtenReferences root) :
    reached? (target? d root) (writtenReferences root).length [] waiting = some l := by
  obtain ⟨hwritten, hnodup⟩ := reached?_invariant (C := (· ∈ writtenReferences root))
    (fun _ _ _ hs => references_target? hs) h hwaiting nofun List.nodup_nil
  exact reached?_of_length h _ (hnodup.length_le_of_subset hwritten)

end EntityStore.Schema
