import EntityStore.Json.Printer
import EntityStore.Json.Reader
import EntityStore.Proofs.Binary64.Decimal

/-! # What is read of a value that was written

The syntax tree of a value is read as `Json.reread` (`Json.ofSource?_source`), for values that are
canonical, whose integers fit 64 bits and that are not nested deeper than a text may be: these are
the `Storable` ones.  A string is unescaped to itself (`Source.string?_escape`) and an integer reads
as itself; a double is what the reader makes of its shortest digits (`Number.value?_numeral`).  With
`FloatReader.exact` every value is read as it was written (`Json.reread_exact`). -/

namespace EntityStore

/-! ### Strings -/

namespace Source

/-- A four-digit escape that is no half of a surrogate pair stands for its character. -/
theorem unescape?_unicode {a b c d : Char} {n : Nat} (read rest : List Char)
    (hn : codeUnit? a b c d = some n) (hh : isHighSurrogate n = false)
    (hl : isLowSurrogate n = false) :
    unescape? read ('\\' :: 'u' :: a :: b :: c :: d :: rest) =
      unescape? (Char.ofNat n :: read) rest := by
  rw [unescape?.eq_def]
  split
  · next h => cases h
  · next h =>
      cases h
      simp [hn, hh, hl]
  · next h =>
      cases h
      simp [hn, hh, hl]
  · next hno h =>
      cases h
      exact absurd rfl (hno a b c d rest rfl)
  · next hno h =>
      cases h
      exact absurd rfl (hno _ _ rfl)

theorem unescape?_simple {c e : Char} (read rest : List Char) (h : simpleEscape? c = some e)
    (hu : c ≠ 'u') : unescape? read ('\\' :: c :: rest) = unescape? (e :: read) rest := by
  rw [unescape?.eq_def]
  split
  · next heq => cases heq
  · next heq =>
      cases heq
      exact absurd rfl hu
  · next heq =>
      cases heq
      exact absurd rfl hu
  · next heq =>
      cases heq
      rw [h]
  · next hno heq =>
      cases heq
      exact absurd rfl (hno _ _ rfl)

theorem unescape?_plain {c : Char} (read rest : List Char) (h : c ≠ '\\') :
    unescape? read (c :: rest) = unescape? (c :: read) rest := by
  rw [unescape?.eq_def]
  split
  · next heq => cases heq
  · next heq =>
      cases heq
      exact absurd rfl h
  · next heq =>
      cases heq
      exact absurd rfl h
  · next heq =>
      cases heq
      exact absurd rfl h
  · next heq =>
      cases heq
      rfl

theorem hexPadded_control : ∀ n < 0x20,
    ∃ a b c d, Text.hexPadded 4 n = [a, b, c, d] ∧ codeUnit? a b c d = some n ∧
      (isHex a && isHex b && isHex c && isHex d) = true := by
  intro n hn
  refine ⟨Text.hexDigit (n / 16 / 16 / 16), Text.hexDigit (n / 16 / 16), Text.hexDigit (n / 16),
    Text.hexDigit n, rfl, ?_⟩
  revert n
  decide

/-- A character is escaped by a letter or by its number, or it stands for itself. -/
theorem escapeChar_cases (c : Char) :
    (∃ e, escapeChar c = ['\\', e] ∧ simpleEscape? e = some c ∧ e ≠ 'u') ∨
      (escapeChar c = '\\' :: 'u' :: Text.hexPadded 4 c.toNat ∧ c.toNat < 0x20) ∨
      (escapeChar c = [c] ∧ c ≠ '"' ∧ c ≠ '\\' ∧ ¬ c.toNat < 0x20) := by
  unfold escapeChar
  split
  · next h => exact .inl ⟨'"', rfl, by rw [h]; rfl, by decide⟩
  next hquote =>
  split
  · next h => exact .inl ⟨'\\', rfl, by rw [h]; rfl, by decide⟩
  next hslash =>
  -- the five control characters with a letter of their own
  iterate 5
    split
    · next h => exact .inl ⟨_, rfl, by rw [h]; rfl, by decide⟩
  split
  · next h => exact .inr (.inl ⟨rfl, h⟩)
  · next h => exact .inr (.inr ⟨rfl, hquote, hslash, h⟩)

/-- The escape of a character is read as the character. -/
theorem unescape?_escapeChar (c : Char) (read rest : List Char) :
    unescape? read (escapeChar c ++ rest) = unescape? (c :: read) rest := by
  obtain ⟨e, he, hsimple, hu⟩ | ⟨he, hcontrol⟩ | ⟨he, -, hslash, -⟩ := escapeChar_cases c
  · rw [he]
    exact unescape?_simple read rest hsimple hu
  · obtain ⟨x, y, z, w, hx, hn, -⟩ := hexPadded_control c.toNat hcontrol
    have hh : isHighSurrogate c.toNat = false := by
      simp only [isHighSurrogate, Bool.and_eq_false_iff, decide_eq_false_iff_not]
      omega
    have hl : isLowSurrogate c.toNat = false := by
      simp only [isLowSurrogate, Bool.and_eq_false_iff, decide_eq_false_iff_not]
      omega
    rw [he, hx]
    exact (unescape?_unicode read rest hn hh hl).trans (by rw [Char.ofNat_toNat])
  · rw [he]
    exact unescape?_plain read rest hslash

theorem unescape?_flatMap (cs read : List Char) :
    unescape? read (cs.flatMap escapeChar) = some (read.reverse ++ cs) := by
  induction cs generalizing read with
  | nil => rw [List.flatMap_nil, unescape?, List.append_nil]
  | cons c cs ih =>
      rw [List.flatMap_cons, unescape?_escapeChar, ih, List.reverse_cons, List.append_assoc,
        List.singleton_append]

/-- A string reads as itself. -/
theorem string?_escape (s : String) : string? (escape s) = some s := by
  rw [string?, escape, unescape?_flatMap, Option.map_some, List.reverse_nil, List.nil_append,
    String.ofList_toList]

end Source

/-! ### Numbers -/

/-- An integer of 64 bits with or without a sign, or a double. -/
def Number.Fits : Number → Prop
  | .integer i => -(signedBound : Int) ≤ i ∧ i < unsignedBound
  | .float _ => True

theorem Number.signedBound_le {i : Int} (h : (Number.integer i).Fits) (hi : isSigned64 i = false) :
    signedBound ≤ i := by
  obtain ⟨hlow, -⟩ := h
  rw [isSigned64, Bool.and_eq_false_iff, decide_eq_false_iff_not, decide_eq_false_iff_not] at hi
  omega

theorem Number.digits_integer (i : Int) : (Number.numeral (.integer i)).digits = i.natAbs := by
  simp [Number.numeral, Numeral.digits, Text.digitsValue_natural]

/-- An integer from its sign and its digits. -/
theorem Number.signed_natAbs (i : Int) :
    (if decide (i < 0) = true then -(i.natAbs : Int) else i.natAbs) = i := by
  split
  · next hneg =>
      have := of_decide_eq_true hneg
      omega
  · next hneg =>
      have : ¬ i < 0 := fun hlt => hneg (decide_eq_true hlt)
      omega

section reader
variable [FloatReader]

/-- The double that is read of the shortest digits of a double. -/
def Binary64.reread (x : Binary64) : Binary64 := FloatReader.read x.jsonNumeral x

/-- The number that is read of a number that was written. -/
def Number.reread : Number → Number
  | .integer i => .integer i
  | .float x => .float x.reread

theorem Number.value?_numeral {n : Number} (h : n.Fits) : n.numeral.value? = some n.reread := by
  cases n with
  | float x =>
      have hnot := Decimal.jsonNumeral_not_isInteger x.negative x.shortest
      have hround := Binary64.jsonNumeral_round x
      rw [Decimal.roundNumeral, Binary64.jsonNumeral] at hround
      rw [Number.numeral, Numeral.value?, Binary64.jsonNumeral]
      simp only [hnot, Bool.false_and, Bool.false_eq_true, if_false, hround, Option.map_some]
      rfl
  | integer i =>
      obtain ⟨hlow, hhigh⟩ := h
      have hinteger : (Number.numeral (.integer i)).isInteger = true := rfl
      have hnegative : (Number.numeral (.integer i)).negative = decide (i < 0) := rfl
      rw [Numeral.value?, Number.digits_integer, hinteger, hnegative]
      by_cases hi : i < 0
      · have hpos : 0 < i.natAbs ∧ i.natAbs ≤ signedBound := by omega
        have habs : -(i.natAbs : Int) = i := by omega
        simp only [hi, hpos.1, hpos.2, decide_true, Bool.not_true, Bool.and_false, Bool.false_and,
          Bool.and_self, Bool.false_eq_true, if_false, if_true, habs]
        rfl
      · have hlt : i.natAbs < unsignedBound := by omega
        have habs : (i.natAbs : Int) = i := by omega
        simp only [hi, hlt, decide_true, decide_false, Bool.not_false, Bool.and_self, if_true, habs]
        rfl

end reader

theorem Number.reread_exact (n : Number) : n.reread = n := by cases n <;> rfl

/-! ### Values -/

namespace Json

mutual
/-- All numbers in the value fit. -/
def NumbersFit : Json → Prop
  | .number n => n.Fits
  | .array items => NumbersFitItems items
  | .object fields => NumbersFitFields fields
  | _ => True

def NumbersFitItems : List Json → Prop
  | [] => True
  | j :: rest => NumbersFit j ∧ NumbersFitItems rest

def NumbersFitFields : List (String × Json) → Prop
  | [] => True
  | (_, v) :: rest => NumbersFit v ∧ NumbersFitFields rest
end

/-- A value that can be written and read: sorted fields, numbers of 64 bits, and not too deep. -/
structure Storable (j : Json) : Prop where
  canonical : j.Canonical
  numbers : j.NumbersFit
  depth : j.depth ≤ depthLimit

section reader
variable [FloatReader]

mutual
/-- The value that is read of a value that was written: doubles are read anew. -/
def reread : Json → Json
  | .number n => .number n.reread
  | .array items => .array (rereadItems items)
  | .object fields => .object (rereadFields fields)
  | j => j

def rereadItems : List Json → List Json
  | [] => []
  | j :: rest => reread j :: rereadItems rest

def rereadFields : List (String × Json) → List (String × Json)
  | [] => []
  | (name, j) :: rest => (name, reread j) :: rereadFields rest
end

mutual
theorem value?_source : ∀ j : Json, j.NumbersFit → j.source.value? = some j.reread
  | .null, _ | .bool _, _ => rfl
  | .number n, h => by rw [source, Source.value?, Number.value?_numeral h, Option.map_some, reread]
  | .string s, _ => by
      rw [source, Source.value?, Source.string?_escape, Option.map_some]
      rfl
  | .array items, h => by
      rw [source, Source.value?, valueItems?_sourceItems items h, Option.map_some, reread]
  | .object fields, h => by
      rw [source, Source.value?, valueFields?_sourceFields fields h, Option.map_some, reread]

theorem valueItems?_sourceItems : ∀ items : List Json, NumbersFitItems items →
    Source.valueItems? (sourceItems items) = some (rereadItems items)
  | [], _ => rfl
  | j :: rest, h => by
      simp only [sourceItems, Source.valueItems?, value?_source j h.1,
        valueItems?_sourceItems rest h.2]
      rfl

theorem valueFields?_sourceFields : ∀ fields : List (String × Json), NumbersFitFields fields →
    Source.valueFields? (sourceFields fields) = some (rereadFields fields)
  | [], _ => rfl
  | (name, j) :: rest, h => by
      simp only [sourceFields, Source.valueFields?, Source.string?_escape, value?_source j h.1,
        valueFields?_sourceFields rest h.2]
      rfl
end

end reader

mutual
theorem depth_source : ∀ j : Json, j.source.depth = j.depth
  | .null | .bool _ | .number _ | .string _ => by simp only [source, Source.depth, depth]
  | .array items => by rw [source, Source.depth, depth, depthItems_sourceItems]
  | .object fields => by rw [source, Source.depth, depth, depthFields_sourceFields]

theorem depthItems_sourceItems : ∀ items : List Json,
    Source.depthItems (sourceItems items) = depthItems items
  | [] => rfl
  | j :: rest => by
      rw [sourceItems, Source.depthItems, depthItems, depth_source j, depthItems_sourceItems rest]

theorem depthFields_sourceFields : ∀ fields : List (String × Json),
    Source.depthFields (sourceFields fields) = depthFields fields
  | [] => rfl
  | (name, j) :: rest => by
      rw [sourceFields, Source.depthFields, depthFields, depth_source j,
        depthFields_sourceFields rest]
end

theorem insertNew_eq_cons {name : String} {value : Json} {fields : Fields}
    (h : ∀ f ∈ fields, name < f.1) :
    Fields.insertNew name value fields = (name, value) :: fields := by
  cases fields with
  | nil => rfl
  | cons f rest => rw [Fields.insertNew, if_pos (h f List.mem_cons_self)]

theorem sort_eq_self {fields : Fields} (h : fields.Ascending) : fields.sort = fields := by
  induction fields with
  | nil => rfl
  | cons f rest ih =>
      obtain ⟨hf, hrest⟩ := List.pairwise_cons.mp h
      have hs : Fields.sort (f :: rest) = Fields.insertNew f.1 f.2 (Fields.sort rest) := rfl
      rw [hs, ih hrest, insertNew_eq_cons hf]

mutual
theorem canonical_eq_self : ∀ j : Json, j.Canonical → j.canonical = j
  | .null, _ | .bool _, _ | .number _, _ | .string _, _ => by simp only [canonical]
  | .array items, h => by rw [canonical, canonicalItems_eq_self items h]
  | .object fields, h => by
      rw [canonical, canonicalFields_eq_self fields h.2, sort_eq_self h.1]

theorem canonicalItems_eq_self : ∀ items : List Json, CanonicalItems items →
    canonicalItems items = items
  | [], _ => rfl
  | j :: rest, h => by
      rw [canonicalItems, canonical_eq_self j h.1, canonicalItems_eq_self rest h.2]

theorem canonicalFields_eq_self : ∀ fields : List (String × Json), CanonicalFields fields →
    canonicalFields fields = fields
  | [], _ => rfl
  | (name, j) :: rest, h => by
      rw [canonicalFields, canonical_eq_self j h.1, canonicalFields_eq_self rest h.2]
end

/-- A value that the library works on: sorted fields, and numbers of 64 bits. -/
structure Regular (j : Json) : Prop where
  canonical : j.Canonical
  numbers : j.NumbersFit

theorem Storable.regular {j : Json} (h : j.Storable) : j.Regular := ⟨h.canonical, h.numbers⟩

theorem storable_iff {j : Json} : j.Storable ↔ j.Regular ∧ j.depth ≤ depthLimit :=
  ⟨fun h => ⟨h.regular, h.depth⟩, fun ⟨h, hdepth⟩ => ⟨h.canonical, h.numbers, hdepth⟩⟩

section reader
variable [FloatReader]

theorem rereadFields_eq_map (fields : Fields) :
    rereadFields fields = fields.map fun f => (f.1, f.2.reread) := by
  induction fields with
  | nil => rfl
  | cons f rest ih => rw [rereadFields, ih, List.map_cons]

theorem ascending_rereadFields {fields : Fields} (h : fields.Ascending) :
    Fields.Ascending (rereadFields fields) := by
  rw [rereadFields_eq_map]
  exact List.pairwise_map.mpr h

mutual
/-- Reading anew keeps the names of fields and their order. -/
theorem canonical_reread : ∀ j : Json, j.Canonical → j.reread.Canonical
  | .null, _ | .bool _, _ | .number _, _ | .string _, _ => trivial
  | .array items, h => canonicalItems_rereadItems items h
  | .object fields, h =>
      ⟨ascending_rereadFields h.1, canonicalFields_rereadFields fields h.2⟩

theorem canonicalItems_rereadItems : ∀ items : List Json, CanonicalItems items →
    CanonicalItems (rereadItems items)
  | [], _ => trivial
  | j :: rest, h => ⟨canonical_reread j h.1, canonicalItems_rereadItems rest h.2⟩

theorem canonicalFields_rereadFields : ∀ fields : List (String × Json), CanonicalFields fields →
    CanonicalFields (rereadFields fields)
  | [], _ => trivial
  | (_, j) :: rest, h => ⟨canonical_reread j h.1, canonicalFields_rereadFields rest h.2⟩
end

/-- A value is read from its syntax tree unless it is too deep. -/
theorem ofSource?_regular {j : Json} (h : j.Regular) :
    ofSource? j.source = if j.depth ≤ depthLimit then some j.reread else none := by
  rw [ofSource?, depth_source, value?_source j h.numbers, Option.map_some,
    canonical_eq_self _ (canonical_reread j h.canonical)]

/-- What is read from the syntax tree of a storable value. -/
theorem ofSource?_source {j : Json} (h : j.Storable) : ofSource? j.source = some j.reread := by
  rw [ofSource?_regular h.regular, if_pos h.depth]

/-- The value is read as it was written. -/
def ReadsBack (j : Json) : Prop := j.reread = j

instance (j : Json) : Decidable j.ReadsBack := inferInstanceAs (Decidable (j.reread = j))

theorem ReadsBack.eq {j : Json} (h : j.ReadsBack) : j.reread = j := h

end reader

mutual
/-- Where doubles are read exactly, every value is read as it was written. -/
theorem reread_exact : ∀ j : Json, j.reread = j
  | .null | .bool _ | .string _ => rfl
  | .number n => by rw [reread, Number.reread_exact]
  | .array items => by rw [reread, rereadItems_exact]
  | .object fields => by rw [reread, rereadFields_exact]

theorem rereadItems_exact : ∀ items : List Json, rereadItems items = items
  | [] => rfl
  | j :: rest => by rw [rereadItems, reread_exact j, rereadItems_exact rest]

theorem rereadFields_exact : ∀ fields : List (String × Json), rereadFields fields = fields
  | [] => rfl
  | (_, j) :: rest => by rw [rereadFields, reread_exact j, rereadFields_exact rest]
end

theorem readsBack_exact (j : Json) : j.ReadsBack := reread_exact j

/-- A quick reader does not give back the double that is printed `51.248178375505404`. -/
example : ¬ @ReadsBack .quick (.number (.float ⟨false, 0x40499FC44F1B2F60, by decide⟩)) := by
  decide +kernel

/-! ### Deciding -/

instance (n : Number) : Decidable n.Fits :=
  match n with
  | .integer i => inferInstanceAs (Decidable (-(signedBound : Int) ≤ i ∧ i < unsignedBound))
  | .float _ => .isTrue trivial

instance (fields : Fields) : Decidable fields.Ascending :=
  inferInstanceAs (Decidable (List.Pairwise _ _))

mutual
/-- Whether a value is canonical and all its numbers fit. -/
def decideFits : (j : Json) → Decidable (j.Canonical ∧ j.NumbersFit)
  | .number n => decidable_of_iff n.Fits (by simp [Canonical, NumbersFit])
  | .array items => decideFitsItems items
  | .object fields =>
    have := decideFitsFields fields
    decidable_of_iff (Fields.Ascending fields ∧ CanonicalFields fields ∧ NumbersFitFields fields)
      (by simp [Canonical, NumbersFit, and_assoc])
  | .null | .bool _ | .string _ => .isTrue ⟨trivial, trivial⟩

def decideFitsItems : (items : List Json) → Decidable (CanonicalItems items ∧ NumbersFitItems items)
  | [] => .isTrue ⟨trivial, trivial⟩
  | j :: rest =>
    have := decideFits j
    have := decideFitsItems rest
    decidable_of_iff ((j.Canonical ∧ j.NumbersFit) ∧ CanonicalItems rest ∧ NumbersFitItems rest)
      (by simp only [CanonicalItems, NumbersFitItems, and_and_and_comm])

def decideFitsFields :
    (fields : List (String × Json)) → Decidable (CanonicalFields fields ∧ NumbersFitFields fields)
  | [] => .isTrue ⟨trivial, trivial⟩
  | (_, j) :: rest =>
    have := decideFits j
    have := decideFitsFields rest
    decidable_of_iff ((j.Canonical ∧ j.NumbersFit) ∧ CanonicalFields rest ∧ NumbersFitFields rest)
      (by simp only [CanonicalFields, NumbersFitFields, and_and_and_comm])
end

instance (j : Json) : Decidable j.Regular :=
  have := decideFits j
  decidable_of_iff (j.Canonical ∧ j.NumbersFit) ⟨fun h => ⟨h.1, h.2⟩, fun h => ⟨h.1, h.2⟩⟩

instance (j : Json) : Decidable j.Storable := decidable_of_iff _ storable_iff.symm

end Json
end EntityStore
