import EntityStore.Proofs.Json.Text

/-! # The limit of depth

A reader that allows more arrays and objects inside one another reads every text that a stricter one
reads, and as the same tree (`Source.parse?_mono`), and what a reader reads is no deeper than it
allows (`Source.depth_le_of_parse?`).  So the text of a value is read as its tree, or not at all if
the value is deeper than the limit (`Json.parse?_print_eq_none`). -/

namespace EntityStore

namespace Source

/-- Whatever the one reader reads, the other one reads too. -/
def Extends {α : Type} (read read' : List Char → Option (α × List Char)) : Prop :=
  ∀ cs found, read cs = some found → read' cs = some found

theorem Extends.readSequence? {α : Type} {item item' : List Char → Option (α × List Char)}
    (h : Extends item item') (close : Char) : ∀ n : Nat,
      Extends (Source.readSequence? item close n) (Source.readSequence? item' close n)
  | 0, _, _, hread => nomatch hread
  | n + 1, cs, found, hread => by
      have ih := Extends.readSequence? h close n
      rw [Source.readSequence?] at hread ⊢
      obtain ⟨⟨a, rest⟩, hitem, hread⟩ := Option.bind_eq_some_iff.mp hread
      refine Option.bind_eq_some_iff.mpr ⟨(a, rest), h _ _ hitem, ?_⟩
      dsimp only at hread ⊢
      cases hspace : skipSpace rest with
      | nil => rw [hspace] at hread; cases hread
      | cons c rest =>
          rw [hspace] at hread
          dsimp only at hread ⊢
          split
          · next hclose => rwa [if_pos hclose] at hread
          · next hclose =>
              rw [if_neg hclose] at hread
              split
              · next hcomma =>
                  rw [if_pos hcomma] at hread
                  obtain ⟨⟨as, end_⟩, hrest, hread⟩ := Option.bind_eq_some_iff.mp hread
                  exact Option.bind_eq_some_iff.mpr ⟨(as, end_), ih _ _ hrest, hread⟩
              · next hcomma => rwa [if_neg hcomma] at hread

theorem Extends.readField? {value value' : List Char → Option (Source × List Char)}
    (h : Extends value value') : Extends (Source.readField? value) (Source.readField? value') := by
  intro cs found hread
  unfold Source.readField? at hread ⊢
  split at hread
  · next rest hquote =>
      obtain ⟨⟨name, rest⟩, hname, hread⟩ := Option.bind_eq_some_iff.mp hread
      refine Option.bind_eq_some_iff.mpr ⟨(name, rest), hname, ?_⟩
      dsimp only at hread ⊢
      split at hread
      · next rest hcolon =>
          obtain ⟨⟨v, rest⟩, hv, hread⟩ := Option.bind_eq_some_iff.mp hread
          exact Option.bind_eq_some_iff.mpr ⟨(v, rest), h _ _ hv, hread⟩
      · cases hread
  · cases hread

/-- No scalar starts with a bracket. -/
theorem readScalar?_bracket (rest : List Char) :
    readScalar? ('[' :: rest) = none ∧ readScalar? ('\x7b' :: rest) = none := ⟨rfl, rfl⟩

/-- One more level is allowed. -/
theorem readValue?_succ (fuel : Nat) : ∀ limit : Nat,
    Extends (readValue? fuel limit) (readValue? fuel (limit + 1))
  | 0, cs, found, hread => by
      rw [readValue?] at hread
      rw [readValue?.eq_def]
      dsimp only
      split
      · next rest heq =>
          rw [heq, (readScalar?_bracket rest).1] at hread
          cases hread
      · next rest heq =>
          rw [heq, (readScalar?_bracket rest).2] at hread
          cases hread
      · exact hread
  | limit + 1, cs, found, hread => by
      have ih := readValue?_succ fuel limit
      rw [readValue?.eq_def] at hread ⊢
      dsimp only at hread ⊢
      split at hread
      · next rest heq =>
          split at hread
          · next rest' hclose => exact hread
          · next rest' hopen =>
              obtain ⟨items, hitems, hfound⟩ := Option.map_eq_some_iff.mp hread
              rw [ih.readSequence? _ _ _ _ hitems]
              exact congrArg some hfound
      · next rest heq =>
          split at hread
          · next rest' hclose => exact hread
          · next rest' hopen =>
              obtain ⟨fields, hfields, hfound⟩ := Option.map_eq_some_iff.mp hread
              rw [ih.readField?.readSequence? _ _ _ _ hfields]
              exact congrArg some hfound
      · exact hread

theorem readValue?_mono (fuel : Nat) {limit limit' : Nat} (h : limit ≤ limit') :
    Extends (readValue? fuel limit) (readValue? fuel limit') := by
  induction h with
  | refl => exact fun _ _ hread => hread
  | step _ ih => exact fun cs found hread => readValue?_succ fuel _ cs found (ih cs found hread)

/-- A more generous reader reads the same tree. -/
theorem parse?_mono {limit limit' : Nat} (h : limit ≤ limit') {cs : List Char} {s : Source}
    (hread : parse? limit cs = some s) : parse? limit' cs = some s := by
  unfold parse? at hread ⊢
  cases hvalue : readValue? cs.length limit cs with
  | none => rw [hvalue] at hread; cases hread
  | some found => rwa [readValue?_mono cs.length h cs found hvalue, ← hvalue]

/-! ### What is read is not too deep -/

theorem readScalar?_depth {cs rest : List Char} {s : Source}
    (h : readScalar? cs = some (s, rest)) : s.depth = 0 := by
  unfold readScalar? at h
  split at h
  · cases h; rfl
  · cases h; rfl
  · cases h; rfl
  · obtain ⟨_, _, hfound⟩ := Option.map_eq_some_iff.mp h
    cases hfound
    rfl
  · obtain ⟨_, _, hfound⟩ := Option.map_eq_some_iff.mp h
    cases hfound
    rfl

/-- What holds of every item that can be read holds of all items of a sequence. -/
theorem forall_of_readSequence? {α : Type} {item : List Char → Option (α × List Char)}
    {P : α → Prop} (h : ∀ cs a rest, item cs = some (a, rest) → P a) (close : Char) :
    ∀ (n : Nat) (cs : List Char) (as : List α) (rest : List Char),
      readSequence? item close n cs = some (as, rest) → ∀ a ∈ as, P a
  | 0, _, _, _, hread => nomatch hread
  | n + 1, cs, as, end_, hread => by
      rw [readSequence?] at hread
      obtain ⟨⟨a, rest⟩, hitem, hread⟩ := Option.bind_eq_some_iff.mp hread
      have ha := h cs a rest hitem
      dsimp only at hread
      split at hread
      · cases hread
      · split at hread
        · cases hread
          exact fun b hb => List.mem_singleton.mp hb ▸ ha
        · split at hread
          · obtain ⟨⟨bs, rest'⟩, hrest, hread⟩ := Option.bind_eq_some_iff.mp hread
            have ih := forall_of_readSequence? h close n _ bs rest' hrest
            cases hread
            exact List.forall_mem_cons.mpr ⟨ha, ih⟩
          · cases hread

theorem of_readField? {value : List Char → Option (Source × List Char)} {P : Source → Prop}
    (h : ∀ cs s rest, value cs = some (s, rest) → P s) {cs rest : List Char}
    {f : List Char × Source} (hread : readField? value cs = some (f, rest)) : P f.2 := by
  unfold readField? at hread
  split at hread
  · obtain ⟨⟨name, rest'⟩, hname, hread⟩ := Option.bind_eq_some_iff.mp hread
    dsimp only at hread
    split at hread
    · obtain ⟨⟨v, end_⟩, hv, hread⟩ := Option.bind_eq_some_iff.mp hread
      cases hread
      exact h _ _ _ hv
    · cases hread
  · cases hread

theorem depthItems_le {limit : Nat} : ∀ {items : List Source}, (∀ s ∈ items, s.depth ≤ limit) →
    depthItems items ≤ limit
  | [], _ => Nat.zero_le _
  | _ :: _, h => by
      obtain ⟨hs, hrest⟩ := List.forall_mem_cons.mp h
      exact Nat.max_le.mpr ⟨hs, depthItems_le hrest⟩

theorem depthFields_le {limit : Nat} : ∀ {fields : List (List Char × Source)},
    (∀ f ∈ fields, f.2.depth ≤ limit) → depthFields fields ≤ limit
  | [], _ => Nat.zero_le _
  | _ :: _, h => by
      obtain ⟨hs, hrest⟩ := List.forall_mem_cons.mp h
      exact Nat.max_le.mpr ⟨hs, depthFields_le hrest⟩

theorem depth_le_of_readValue? (fuel : Nat) : ∀ (limit : Nat) (cs : List Char) (s : Source)
    (rest : List Char), readValue? fuel limit cs = some (s, rest) → s.depth ≤ limit
  | 0, cs, s, rest, h => by
      rw [readValue?] at h
      exact (readScalar?_depth h).le
  | limit + 1, cs, s, rest, h => by
      have ih := depth_le_of_readValue? fuel limit
      rw [readValue?.eq_def] at h
      dsimp only at h
      split at h
      · split at h
        · cases h
          exact Nat.succ_le_succ (Nat.zero_le _)
        · obtain ⟨⟨items, rest'⟩, hitems, hfound⟩ := Option.map_eq_some_iff.mp h
          cases hfound
          exact Nat.succ_le_succ (depthItems_le (forall_of_readSequence? ih _ _ _ _ _ hitems))
      · split at h
        · cases h
          exact Nat.succ_le_succ (Nat.zero_le _)
        · obtain ⟨⟨fields, rest'⟩, hfields, hfound⟩ := Option.map_eq_some_iff.mp h
          cases hfound
          exact Nat.succ_le_succ (depthFields_le (forall_of_readSequence?
            (fun _ _ _ hread => of_readField? ih hread) _ _ _ _ _ hfields))
      · rw [readScalar?_depth h]
        exact Nat.zero_le _

theorem depth_le_of_parse? {limit : Nat} {cs : List Char} {s : Source}
    (h : parse? limit cs = some s) : s.depth ≤ limit := by
  unfold parse? at h
  split at h
  · next source rest hvalue =>
      split at h
      · cases h
        exact depth_le_of_readValue? _ _ _ _ _ hvalue
      · cases h
  · cases h

end Source

namespace Json

/-- The text of a value is read as the tree of the value, if it is read at all. -/
theorem eq_source_of_parse? {j : Json} {limit : Nat} {s : Source}
    (h : Source.parse? limit j.print.toList = some s) : s = j.source := by
  have hread := Source.parse?_mono (Nat.le_max_left limit j.depth) h
  rw [parse?_print (Nat.le_max_right limit j.depth)] at hread
  exact (Option.some.inj hread).symm

/-- The text of a value that is too deep is not read. -/
theorem parse?_print_eq_none {j : Json} {limit : Nat} (h : limit < j.depth) :
    Source.parse? limit j.print.toList = none := by
  cases hread : Source.parse? limit j.print.toList with
  | none => rfl
  | some s =>
      have hdepth := Source.depth_le_of_parse? hread
      rw [eq_source_of_parse? hread, depth_source] at hdepth
      exact absurd hdepth (Nat.not_le.mpr h)

end Json
end EntityStore
