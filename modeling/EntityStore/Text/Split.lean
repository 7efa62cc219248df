/-! # Parts of a text

`splitAt sep` cuts a text at every separator; there is always one piece more than there are
separators, and `joinWith sep` puts the pieces together again (`joinWith_splitAt`).  `untilNul` is
the part that is left of a text where texts end at a NUL, and `lower` its form for comparisons that
ignore the case of ASCII letters. -/

namespace EntityStore.Text

/-- The pieces between the separators; the empty text is one empty piece. -/
def splitAt (sep : Char) : List Char → List (List Char)
  | [] => [[]]
  | c :: rest =>
    if c = sep then [] :: splitAt sep rest
    else match splitAt sep rest with
      | [] => [[c]]
      | piece :: pieces => (c :: piece) :: pieces

/-- The pieces with a separator between each two. -/
def joinWith (sep : Char) : List (List Char) → List Char
  | [] => []
  | [piece] => piece
  | piece :: pieces => piece ++ sep :: joinWith sep pieces

theorem splitAt_ne_nil (sep : Char) (cs : List Char) : splitAt sep cs ≠ [] := by
  cases cs with
  | nil => simp [splitAt]
  | cons c rest =>
    unfold splitAt
    split
    · simp
    · split <;> simp

theorem joinWith_splitAt (sep : Char) (cs : List Char) : joinWith sep (splitAt sep cs) = cs := by
  induction cs with
  | nil => rfl
  | cons c rest ih =>
    unfold splitAt
    split
    · next h =>
      subst h
      cases hs : splitAt c rest with
      | nil => exact absurd hs (splitAt_ne_nil _ _)
      | cons piece pieces => rw [hs] at ih; simp [joinWith, ih]
    · cases hs : splitAt sep rest with
      | nil => exact absurd hs (splitAt_ne_nil _ _)
      | cons piece pieces =>
        rw [hs] at ih
        cases pieces with
        | nil => simpa [joinWith] using ih
        | cons next pieces => simpa [joinWith] using ih

/-- The characters up to the first NUL, where a zero-terminated text ends. -/
def untilNul (cs : List Char) : List Char := cs.takeWhile (fun c => c.toNat ≠ 0)

theorem untilNul_eq_self {cs : List Char} (h : ∀ c ∈ cs, c.toNat ≠ 0) : untilNul cs = cs := by
  induction cs with
  | nil => rfl
  | cons c rest ih =>
    have hc := h c (by simp)
    simpa [untilNul, hc] using ih fun d hd => h d (by simp [hd])

/-- Upper-case ASCII letters made lower-case; every other character stays. -/
def lowerChar (c : Char) : Char :=
  if 'A' ≤ c ∧ c ≤ 'Z' then Char.ofNat (c.toNat + 32) else c

def lower (cs : List Char) : List Char := cs.map lowerChar

end EntityStore.Text
