import EntityStore.Sql.Like

/-! # Patterns that ask for a needle

The pattern of a needle consists of one step for each character of the needle between two that stand
for anything (`steps?_containing`), for the escapes take the meaning from the characters that have
one.  So a text has the pattern exactly if it contains the needle as characters are compared
(`holds_containing`): letters in either case, and U+FFFE and U+FFFF as U+FFFD.  Of texts without
these two that is an occurrence in either case (`fold_eq_lower`). -/

namespace EntityStore

namespace Text

/-- Making lower-case moves the letters from `A` to `Z` and nothing else. -/
theorem lowerChar_cases (c : Char) :
    lowerChar c = c ∨ ∃ n, 65 ≤ n ∧ n ≤ 90 ∧ c.toNat = n ∧ (lowerChar c).toNat = n + 32 := by
  unfold lowerChar
  split
  · next hupper =>
      have hlow : 65 ≤ c.toNat := hupper.1
      have hhigh : c.toNat ≤ 90 := hupper.2
      refine .inr ⟨c.toNat, hlow, hhigh, rfl, ?_⟩
      have hvalid : (c.toNat + 32).isValidChar := .inl (by omega)
      rw [Char.ofNat, dif_pos hvalid]
      rfl
  · exact .inl rfl

/-- A character below the lower-case letters that is no upper-case one stands for itself only. -/
theorem lowerChar_eq_iff {c d : Char} (h : d.toNat < 65 ∨ 90 < d.toNat ∧ d.toNat < 97) :
    lowerChar c = d ↔ c = d := by
  rcases lowerChar_cases c with heq | ⟨n, hlow, hhigh, hn, hlower⟩
  · rw [heq]
  · refine iff_of_false (fun hd => ?_) (fun hd => ?_)
    · rw [hd] at hlower
      omega
    · rw [hd] at hn
      omega

theorem lowerChar_lowerChar (c : Char) : lowerChar (lowerChar c) = lowerChar c := by
  rcases lowerChar_cases c with heq | ⟨n, hlow, hhigh, hn, hlower⟩
  · rw [heq, heq]
  · rcases lowerChar_cases (lowerChar c) with heq | ⟨m, hmlow, hmhigh, hm, -⟩
    · exact heq
    · omega

/-- Making lower-case makes no NUL. -/
theorem noNul_lower {cs : List Char} (h : ∀ c ∈ cs, c.toNat ≠ 0) :
    ∀ c ∈ lower cs, c.toNat ≠ 0 := by
  intro c hc
  obtain ⟨d, hd, rfl⟩ := List.mem_map.mp hc
  rcases lowerChar_cases d with heq | ⟨n, -, -, -, hlower⟩
  · rw [heq]
    exact h d hd
  · omega

end Text

namespace Sql.Like

/-! ### What characters are compared as -/

theorem readChar_eq_self {c : Char} (h : c ≠ '\ufffe' ∧ c ≠ '\uffff') : readChar c = c :=
  if_neg (not_or.mpr h)

/-- Nothing becomes a noncharacter by making it lower-case. -/
theorem readChar_lowerChar (c : Char) :
    readChar (Text.lowerChar c) = Text.lowerChar (readChar c) := by
  rcases Text.lowerChar_cases c with heq | ⟨n, hlow, hhigh, hn, hlower⟩
  · rw [heq]
    unfold readChar
    split
    · rfl
    · exact heq.symm
  · have hplain : ∀ {d : Char}, d.toNat < 200 → d ≠ '\ufffe' ∧ d ≠ '\uffff' := by
      rintro d hd
      constructor <;> (rintro rfl; revert hd; decide)
    rw [readChar_eq_self (hplain (by omega)), readChar_eq_self (hplain (by omega))]

@[simp] theorem foldChar_lowerChar (c : Char) : foldChar (Text.lowerChar c) = foldChar c := by
  rw [foldChar, readChar_lowerChar, Text.lowerChar_lowerChar, foldChar]

@[simp] theorem fold_lower (cs : List Char) : fold (Text.lower cs) = fold cs := by
  rw [fold, Text.lower, List.map_map]
  exact List.map_congr_left fun c _ => foldChar_lowerChar c

/-- Without the two noncharacters texts are compared in lower case. -/
theorem fold_eq_lower {cs : List Char} (h : ∀ c ∈ cs, c ≠ '\ufffe' ∧ c ≠ '\uffff') :
    fold cs = Text.lower cs :=
  List.map_congr_left fun c hc => congrArg Text.lowerChar (readChar_eq_self (h c hc))

/-! ### The steps of a pattern -/

/-- Before an escaped character there is a step for it. -/
theorem steps?_escapeChar (c : Char) (rest : List Char) :
    steps? (escapeChar c ++ rest) = (steps? rest).map (.char c :: ·) := by
  unfold escapeChar
  split
  · rfl
  · next hplain =>
      obtain ⟨hpercent, hline, hslash⟩ : c ≠ '%' ∧ c ≠ '_' ∧ c ≠ '\\' := by
        simpa only [not_or] using hplain
      rw [List.singleton_append, steps?]
      · rw [if_neg hpercent, if_neg hline]
      · exact fun d tail heq => absurd heq hslash
      · exact fun heq => absurd heq hslash

theorem steps?_flatMap (needle rest : List Char) :
    steps? (needle.flatMap escapeChar ++ rest) =
      (steps? rest).map (needle.map .char ++ ·) := by
  induction needle with
  | nil => simp
  | cons c needle ih =>
      rw [List.flatMap_cons, List.append_assoc, steps?_escapeChar, ih, Option.map_map]
      rfl

/-- A pattern has one step for each character of its needle, whatever the characters are. -/
theorem steps?_containing (needle : List Char) :
    steps? (containing needle) = some (.any :: (needle.map .char ++ [.any])) := by
  have hrest : steps? (needle.flatMap escapeChar ++ ['%']) = some (needle.map .char ++ [.any]) := by
    rw [steps?_flatMap]
    rfl
  rw [containing, List.cons_append, steps?, hrest]
  · rfl
  · exact fun c tail heq => absurd heq (by decide)
  · exact fun heq => absurd heq (by decide)

/-! ### Running the steps -/

theorem mem_suffixes {s : List Char} : ∀ {cs : List Char}, s ∈ suffixes cs ↔ s <:+ cs
  | [] => by rw [suffixes, List.mem_singleton, List.suffix_nil]
  | c :: cs => by rw [suffixes, List.mem_cons, mem_suffixes, List.suffix_cons_iff]

theorem run_any_iff {steps : List Step} {cs : List Char} :
    run (.any :: steps) cs = true ↔ ∃ s, s <:+ cs ∧ run steps s = true := by
  rw [run, List.any_eq_true]
  simp only [mem_suffixes]

/-- Characters and then anything match what starts with the characters. -/
theorem run_chars_any (needle : List Char) : ∀ cs : List Char,
    run (needle.map .char ++ [.any]) cs = true ↔ fold needle <+: fold cs := by
  induction needle with
  | nil =>
      intro cs
      refine iff_of_true ?_ (List.nil_prefix)
      exact run_any_iff.mpr ⟨[], List.nil_suffix, rfl⟩
  | cons a needle ih =>
      intro cs
      cases cs with
      | nil => exact iff_of_false Bool.false_ne_true (by simp [fold])
      | cons c cs =>
          rw [List.map_cons, List.cons_append, run, Bool.and_eq_true_iff, decide_eq_true_iff, ih]
          exact List.cons_prefix_cons.symm

/-- The steps of a needle match what contains the needle. -/
theorem run_any_chars_any (needle cs : List Char) :
    run (.any :: (needle.map .char ++ [.any])) cs = true ↔ fold needle <:+: fold cs := by
  rw [run_any_iff, List.infix_iff_prefix_suffix]
  constructor
  · rintro ⟨s, hs, hrun⟩
    exact ⟨fold s, (run_chars_any needle s).mp hrun, hs.map _⟩
  · rintro ⟨t, hprefix, hsuffix⟩
    obtain ⟨s, hs, rfl⟩ := List.suffix_map_iff.mp hsuffix
    exact ⟨s, hs, (run_chars_any needle s).mpr hprefix⟩

/-! ### Patterns of needles -/

/-- The characters with a meaning have no case. -/
theorem escapeChar_lowerChar (c : Char) :
    Text.lower (escapeChar c) = escapeChar (Text.lowerChar c) := by
  have hspecial : (Text.lowerChar c = '%' ∨ Text.lowerChar c = '_' ∨ Text.lowerChar c = '\\') ↔
      (c = '%' ∨ c = '_' ∨ c = '\\') := by
    rw [Text.lowerChar_eq_iff (by decide), Text.lowerChar_eq_iff (by decide),
      Text.lowerChar_eq_iff (by decide)]
  unfold escapeChar
  simp only [hspecial]
  split <;> rfl

theorem lower_containing (needle : List Char) :
    Text.lower (containing needle) = containing (Text.lower needle) := by
  have hneedle : Text.lower (needle.flatMap escapeChar) =
      (Text.lower needle).flatMap escapeChar := by
    rw [Text.lower, Text.lower, List.map_flatMap, List.flatMap_map]
    exact congrArg (needle.flatMap ·) (funext escapeChar_lowerChar)
  rw [Text.lower] at hneedle
  rw [containing, containing, Text.lower, List.map_append, List.map_cons, hneedle]
  rfl

theorem noNul_containing {needle : List Char} (h : ∀ c ∈ needle, c.toNat ≠ 0) :
    ∀ c ∈ containing needle, c.toNat ≠ 0 := by
  intro c hc
  rw [containing, List.cons_append, List.mem_cons, List.mem_append, List.mem_flatMap,
    List.mem_singleton] at hc
  rcases hc with rfl | ⟨d, hd, hc⟩ | rfl
  · decide
  · rw [escapeChar] at hc
    split at hc
    · rcases List.mem_cons.mp hc with rfl | hc
      · decide
      · exact List.mem_singleton.mp hc ▸ h d hd
    · exact List.mem_singleton.mp hc ▸ h d hd
  · decide

/-- A text has the pattern of a needle exactly if it contains the needle, as it is compared. -/
theorem holds_containing {needle cs : List Char} (hneedle : ∀ c ∈ needle, c.toNat ≠ 0)
    (hcs : ∀ c ∈ cs, c.toNat ≠ 0) :
    holds (Text.lower (containing needle)) (Text.lower cs) = true ↔
      fold needle <:+: fold cs := by
  have hpattern : Text.untilNul (Text.lower (containing needle)) =
      containing (Text.lower needle) := by
    rw [Text.untilNul_eq_self (Text.noNul_lower (noNul_containing hneedle)), lower_containing]
  rw [holds, hpattern, Text.untilNul_eq_self (Text.noNul_lower hcs), steps?_containing]
  dsimp only
  rw [run_any_chars_any, fold_lower, fold_lower]

end Sql.Like
end EntityStore
