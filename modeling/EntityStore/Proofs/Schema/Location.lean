import EntityStore.Proofs.Text.Digits
import EntityStore.Proofs.Text.Split
import EntityStore.Schema.Location

/-! # Locations and their pointers

`Location.value?` is what stands at a location of a document.

A pointer is cut into one piece for each step (`splitAt_pointer`).  A key is found again in its piece,
although the two marks are undone one after the other (`unescapePointer_escapePointer`), and the piece
of an index is the index (`indexOf?_natural`). -/

namespace EntityStore.Schema

/-! ### Values at locations -/

/-- What stands one step below a value. -/
def Step.child? : Step → Json → Option Json
  | key name, .object fields => Fields.get? name fields
  | index i, .array items => items[i]?
  | _, _ => none

/-- What stands at a location of a document. -/
def Location.value? : Location → Json → Option Json
  | [], document => some document
  | step :: l, document => (value? l document).bind step.child?

variable {document : Json}

/-- A step goes down by a key of an object or by an index of an array. -/
theorem Step.child?_cases {step : Step} {i j : Json} (h : step.child? i = some j) :
    (∃ name fields, step = .key name ∧ i = .object fields ∧ Fields.get? name fields = some j) ∨
      ∃ k items, step = .index k ∧ i = .array items ∧ items[k]? = some j := by
  unfold Step.child? at h
  split at h
  · next name fields => exact .inl ⟨name, fields, rfl, rfl, h⟩
  · next k items => exact .inr ⟨k, items, rfl, rfl, h⟩
  · cases h

/-- Above a place there is a place. -/
theorem Location.exists_value?_tail {step : Step} {l : Location} {j : Json}
    (h : Location.value? (step :: l) document = some j) :
    ∃ i, l.value? document = some i ∧ step.child? i = some j :=
  Option.bind_eq_some_iff.mp h

/-! ### Escaping -/

theorem replaceMark_cons {mark by_ c : Char} (h : c ≠ '~') (rest : List Char) :
    replaceMark mark by_ (c :: rest) = c :: replaceMark mark by_ rest := by
  cases rest with
  | nil => rfl
  | cons d rest =>
      rw [replaceMark, if_neg]
      exact fun hmark => h hmark.1

theorem replaceMark_mark (mark by_ : Char) (rest : List Char) :
    replaceMark mark by_ ('~' :: mark :: rest) = by_ :: replaceMark mark by_ rest := by
  rw [replaceMark, if_pos ⟨rfl, rfl⟩]

/-- Another mark is left alone, with its tilde. -/
theorem replaceMark_other {mark by_ other : Char} (h : other ≠ mark) (htilde : other ≠ '~')
    (rest : List Char) : replaceMark mark by_ ('~' :: other :: rest) =
      '~' :: other :: replaceMark mark by_ rest := by
  rw [replaceMark, if_neg fun hmark => h hmark.2, replaceMark_cons htilde]

theorem replaceMark_of_not_mem {mark by_ : Char} {cs : List Char} (h : '~' ∉ cs) :
    replaceMark mark by_ cs = cs := by
  induction cs with
  | nil => rfl
  | cons c rest ih =>
      obtain ⟨hc, hrest⟩ := List.ne_and_not_mem_of_not_mem_cons h
      rw [replaceMark_cons hc.symm, ih hrest]

/-- A text in which the tildes are escaped and the slashes are not. -/
def escapeTilde : List Char → List Char
  | [] => []
  | c :: rest => if c = '~' then '~' :: '0' :: escapeTilde rest else c :: escapeTilde rest

/-- The first replacement gives the slashes back.  It does not mistake an escaped tilde in front of a
`1` for a slash, since the tilde still has its `0`. -/
theorem replaceMark_escapePointer (cs : List Char) :
    replaceMark '1' '/' (escapePointer cs) = escapeTilde cs := by
  induction cs with
  | nil => rfl
  | cons c rest ih =>
      unfold escapePointer escapeTilde
      by_cases htilde : c = '~'
      · rw [if_pos htilde, if_pos htilde, replaceMark_other (by decide) (by decide), ih]
      · rw [if_neg htilde, if_neg htilde]
        by_cases hslash : c = '/'
        · rw [if_pos hslash, replaceMark_mark, ih, hslash]
        · rw [if_neg hslash, replaceMark_cons htilde, ih]

theorem replaceMark_escapeTilde (cs : List Char) : replaceMark '0' '~' (escapeTilde cs) = cs := by
  induction cs with
  | nil => rfl
  | cons c rest ih =>
      unfold escapeTilde
      by_cases htilde : c = '~'
      · rw [if_pos htilde, replaceMark_mark, ih, htilde]
      · rw [if_neg htilde, replaceMark_cons htilde, ih]

/-- Escaping is undone. -/
theorem unescapePointer_escapePointer (cs : List Char) :
    unescapePointer (escapePointer cs) = cs := by
  rw [unescapePointer, replaceMark_escapePointer, replaceMark_escapeTilde]

theorem slash_not_mem_escapePointer (cs : List Char) : '/' ∉ escapePointer cs := by
  induction cs with
  | nil => exact List.not_mem_nil
  | cons c rest ih =>
      unfold escapePointer
      by_cases htilde : c = '~'
      · simp [htilde, ih]
      · by_cases hslash : c = '/'
        · simp [hslash, ih]
        · have hne : '/' ≠ c := fun h => hslash h.symm
          simp [htilde, hslash, hne, ih]

/-! ### Indices -/

theorem not_mem_natural {n : Nat} {c : Char} (h : Text.isDigit c = false) : c ∉ Text.natural n := by
  intro hmem
  rw [Text.isDigit_of_mem_natural hmem] at h
  cases h

theorem unescapePointer_natural (n : Nat) : unescapePointer (Text.natural n) = Text.natural n := by
  have htilde : '~' ∉ Text.natural n := not_mem_natural rfl
  rw [unescapePointer, replaceMark_of_not_mem htilde, replaceMark_of_not_mem htilde]

theorem indexOf?_natural (n : Nat) : indexOf? (Text.natural n) = some n := by
  have hplus : '+' ∉ Text.natural n := not_mem_natural rfl
  have hdigits : (Text.natural n).all Text.isDigit = true :=
    List.all_eq_true.mpr fun c hc => Text.isDigit_of_mem_natural hc
  have hvalue := Text.digitsValue_natural n
  have hne := Text.natural_ne_nil n
  generalize Text.natural n = ds at hplus hdigits hvalue hne
  unfold indexOf?
  split
  · next rest => exact absurd List.mem_cons_self hplus
  · simp [hdigits, hvalue, hne]

/-! ### Pieces of pointers -/

/-- A step as it is written after a slash. -/
def Step.piece : Step → List Char
  | key name => escapePointer name.toList
  | index i => Text.natural i

/-- The pieces of a pointer, that of the first step first. -/
def Location.pieces (l : Location) : List (List Char) := l.reverse.map Step.piece

theorem Location.pieces_cons (step : Step) (l : Location) :
    Location.pieces (step :: l) = l.pieces ++ [step.piece] := by
  unfold Location.pieces
  rw [List.reverse_cons, List.map_append, List.map_singleton]

theorem Location.pointer_eq (l : Location) : l.pointer = l.pieces.flatMap ('/' :: ·) := by
  have hstep : Step.pointer = fun step => '/' :: step.piece := by
    funext step
    cases step <;> rfl
  rw [Location.pointer, Location.pieces, List.flatMap_map, hstep]

theorem Step.slash_not_mem_piece (step : Step) : '/' ∉ step.piece := by
  cases step with
  | key name => exact slash_not_mem_escapePointer name.toList
  | index i => exact not_mem_natural rfl

/-- A pointer is cut into the pieces of its steps. -/
theorem Location.splitAt_pointer (l : Location) :
    Text.splitAt '/' l.pointer = [] :: l.pieces := by
  rw [l.pointer_eq]
  refine Text.splitAt_flatMap fun p hp => ?_
  obtain ⟨step, -, rfl⟩ := List.mem_map.mp hp
  exact step.slash_not_mem_piece

end EntityStore.Schema
