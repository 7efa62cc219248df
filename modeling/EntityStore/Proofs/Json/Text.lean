import EntityStore.Proofs.Json.ReadBack
import EntityStore.Proofs.Text.Numeral

/-! # Texts of syntax trees

The text of a syntax tree is read as the tree (`Source.parse?_text`) when its numbers follow the
grammar and its strings are bodies (`Source.Lexical`), and it is not nested deeper than the reader
allows.  The trees of values are of this kind (`Json.source_lexical`). -/

namespace EntityStore

namespace Source

/-! ### Pieces -/

/-- No character is a NUL. -/
def NoNul (cs : List Char) : Prop := ∀ c ∈ cs, c.toNat ≠ 0

/-- Characters that are read as the body of a string. -/
structure IsBody (body : List Char) : Prop where
  reads : ∀ read rest, readBody? read (body ++ '"' :: rest) = some (read.reverse ++ body, rest)
  noNul : NoNul body

mutual
/-- Numbers and strings are spelled by the rules. -/
def Lexical : Source → Prop
  | .number n => n.WellSpelled
  | .string body => IsBody body
  | .array items => LexicalItems items
  | .object fields => LexicalFields fields
  | _ => True

def LexicalItems : List Source → Prop
  | [] => True
  | s :: rest => Lexical s ∧ LexicalItems rest

def LexicalFields : List (List Char × Source) → Prop
  | [] => True
  | (name, s) :: rest => IsBody name ∧ Lexical s ∧ LexicalFields rest
end

/-- What may follow a value: nothing, a comma or a closing bracket. -/
def Follows : List Char → Prop
  | [] => True
  | c :: _ => c = ',' ∨ c = ']' ∨ c = '\x7d'

theorem Follows.ends {rest : List Char} (h : Follows rest) : Numeral.Ends rest := by
  cases rest with
  | nil => exact ⟨Text.bounded_nil, by simp, by simp⟩
  | cons c rest =>
      rcases h with rfl | rfl | rfl
      · exact ⟨Text.bounded_cons (by decide) _, by simp, by simp⟩
      · exact ⟨Text.bounded_cons (by decide) _, by simp, by simp⟩
      · exact ⟨Text.bounded_cons (by decide) _, by simp, by simp⟩

/-! ### White space -/

theorem skipSpace_cons {c : Char} (h : isSpace c = false) (cs : List Char) :
    skipSpace (c :: cs) = c :: cs := by
  simp [skipSpace, h]

/-- The first character of a value. -/
def Starts (c : Char) : Prop :=
  c = 'n' ∨ c = 't' ∨ c = 'f' ∨ c = '"' ∨ c = '[' ∨ c = '\x7b' ∨ c = '-' ∨ Text.isDigit c = true

theorem Starts.not_space {c : Char} (h : Starts c) : isSpace c = false := by
  rcases h with rfl | rfl | rfl | rfl | rfl | rfl | rfl | h
  iterate 7 decide
  · rw [isSpace]
    simp only [Bool.or_eq_false_iff, decide_eq_false_iff_not]
    refine ⟨⟨⟨?_, ?_⟩, ?_⟩, ?_⟩ <;> (rintro rfl; exact absurd h (by decide))

theorem Starts.not_close {c : Char} (h : Starts c) : c ≠ ']' := by
  rcases h with rfl | rfl | rfl | rfl | rfl | rfl | rfl | h
  iterate 7 decide
  · rintro rfl
    exact absurd h (by decide)

/-- A numeral starts with a digit or a minus sign. -/
theorem exists_cons_numeral {n : Numeral} (h : n.WellSpelled) :
    ∃ c cs, n.text = c :: cs ∧ (c = '-' ∨ Text.isDigit c = true) := by
  have htext := Numeral.text_eq n []
  rw [List.append_nil] at htext
  rw [htext]
  cases n.negative with
  | true => exact ⟨'-', _, rfl, .inl rfl⟩
  | false =>
      rcases h.whole with hw | ⟨⟨hne, hdigits⟩, -⟩
      · rw [hw]
        exact ⟨'0', _, rfl, .inr rfl⟩
      · obtain ⟨c, cs, hc⟩ := List.exists_cons_of_ne_nil hne
        rw [hc]
        exact ⟨c, _, rfl, .inr (hdigits c (by rw [hc]; exact List.mem_cons_self))⟩

theorem exists_cons_text {s : Source} (h : s.Lexical) : ∃ c cs, s.text = c :: cs ∧ Starts c := by
  cases s with
  | null => exact ⟨'n', _, rfl, by simp [Starts]⟩
  | bool b => cases b <;> exact ⟨_, _, rfl, by simp [Starts]⟩
  | number n =>
      obtain ⟨c, cs, hc, hstart⟩ := exists_cons_numeral h
      refine ⟨c, cs, hc, ?_⟩
      rcases hstart with rfl | hd
      · simp [Starts]
      · simp [Starts, hd]
  | string body => exact ⟨'"', _, rfl, by simp [Starts]⟩
  | array items => exact ⟨'[', _, rfl, by simp [Starts]⟩
  | object fields => exact ⟨'\x7b', _, rfl, by simp [Starts]⟩

theorem length_le_textItems : ∀ items : List Source, LexicalItems items →
    items.length ≤ (textItems items).length
  | [], _ => Nat.zero_le _
  | [s], h => by
      obtain ⟨c, cs, hc, -⟩ := exists_cons_text h.1
      simp [textItems, hc]
  | s :: t :: rest, h => by
      have hrest := length_le_textItems (t :: rest) h.2
      simp only [textItems, List.length_cons, List.length_append] at hrest ⊢
      omega

theorem length_le_textFields : ∀ fields : List (List Char × Source),
    fields.length ≤ (textFields fields).length
  | [] => Nat.zero_le _
  | [(name, s)] => by simp [textFields]
  | (name, s) :: f :: rest => by
      have hrest := length_le_textFields (f :: rest)
      simp only [textFields, List.length_cons, List.length_append] at hrest ⊢
      omega

/-! ### Reading values -/

theorem readScalar?_numeral {n : Numeral} {rest : List Char} (h : n.WellSpelled)
    (hrest : Numeral.Ends rest) : readScalar? (n.text ++ rest) = some (.number n, rest) := by
  obtain ⟨c, cs, hc, hstart⟩ := exists_cons_numeral h
  have hread := Numeral.read?_text h hrest
  rw [hc] at hread ⊢
  have hne : c ≠ 'n' ∧ c ≠ 't' ∧ c ≠ 'f' ∧ c ≠ '"' := by
    rcases hstart with rfl | hd
    · decide
    · refine ⟨?_, ?_, ?_, ?_⟩ <;> (rintro rfl; exact absurd hd (by decide))
  rw [List.cons_append] at hread ⊢
  rw [readScalar?, hread, Option.map_some]
  · rintro t heq
    exact hne.1 (List.cons.inj heq).1
  · rintro t heq
    exact hne.2.1 (List.cons.inj heq).1
  · rintro t heq
    exact hne.2.2.1 (List.cons.inj heq).1
  · rintro t heq
    exact hne.2.2.2 (List.cons.inj heq).1

/-- A text that opens no array and no object is read as a scalar, whatever the limit. -/
theorem readValue?_scalar {c : Char} (fuel limit : Nat) (cs : List Char)
    (hspace : isSpace c = false) (harray : c ≠ '[') (hobject : c ≠ '{') :
    readValue? fuel limit (c :: cs) = readScalar? (c :: cs) := by
  cases limit with
  | zero => rw [readValue?, skipSpace_cons hspace]
  | succ limit =>
      rw [readValue?, skipSpace_cons hspace]
      split
      · next heq => exact absurd (List.cons.inj heq).1 harray
      · next heq => exact absurd (List.cons.inj heq).1 hobject
      · rfl

theorem textItems_cons_cons (s t : Source) (items : List Source) :
    textItems (s :: t :: items) = s.text ++ ',' :: textItems (t :: items) := rfl

theorem textFields_cons_cons (name : List Char) (s : Source) (f : List Char × Source)
    (fields : List (List Char × Source)) : textFields ((name, s) :: f :: fields) =
      '"' :: name ++ '"' :: ':' :: s.text ++ ',' :: textFields (f :: fields) := rfl

theorem exists_cons_textItems {s : Source} {items : List Source} (h : s.Lexical) :
    ∃ c cs, textItems (s :: items) = c :: cs ∧ Starts c := by
  obtain ⟨c, cs, hc, hstart⟩ := exists_cons_text h
  cases items with
  | nil => exact ⟨c, cs, by rw [textItems, hc], hstart⟩
  | cons t items => exact ⟨c, _, by rw [textItems_cons_cons, hc, List.cons_append], hstart⟩

theorem exists_cons_textFields (f : List Char × Source) (fields : List (List Char × Source)) :
    ∃ cs, textFields (f :: fields) = '"' :: cs := by
  cases fields <;> exact ⟨_, rfl⟩

theorem readValue?_nil (fuel limit : Nat) (rest : List Char) :
    readValue? fuel (limit + 1) ('[' :: ']' :: rest) = some (.array [], rest) ∧
      readValue? fuel (limit + 1) ('\x7b' :: '\x7d' :: rest) = some (.object [], rest) :=
  ⟨rfl, rfl⟩

/-- An array with something in it is read as a sequence of values. -/
theorem readValue?_array (fuel limit : Nat) {c : Char} (cs : List Char)
    (hspace : isSpace c = false) (hclose : c ≠ ']') :
    readValue? fuel (limit + 1) ('[' :: c :: cs) =
      (readSequence? (readValue? fuel limit) ']' fuel (c :: cs)).map
        fun (items, rest) => (.array items, rest) := by
  have hbracket : isSpace '[' = false := by decide
  simp only [readValue?, skipSpace_cons hbracket, skipSpace_cons hspace]
  split
  · next heq => exact absurd (List.cons.inj heq).1 hclose
  · rfl

/-- An object with something in it is read as a sequence of fields. -/
theorem readValue?_object (fuel limit : Nat) (cs : List Char) :
    readValue? fuel (limit + 1) ('\x7b' :: '"' :: cs) =
      (readSequence? (readField? (readValue? fuel limit)) '\x7d' fuel ('"' :: cs)).map
        fun (fields, rest) => (.object fields, rest) := rfl

/-- After an item comes the end of the sequence. -/
theorem readSequence?_last {α : Type} {item : List Char → Option (α × List Char)} {close : Char}
    {a : α} {cs rest : List Char} (n : Nat) (h : item cs = some (a, close :: rest))
    (hspace : isSpace close = false) :
    readSequence? item close (n + 1) cs = some ([a], rest) := by
  simp only [readSequence?, h, Option.bind_eq_bind, Option.bind_some, skipSpace_cons hspace,
    if_true]
  rfl

/-- Or a comma and further items. -/
theorem readSequence?_comma {α : Type} {item : List Char → Option (α × List Char)} {close : Char}
    {a : α} {as : List α} {cs rest end_ : List Char} {n : Nat} (h : item cs = some (a, ',' :: rest))
    (hclose : ',' ≠ close) (hrest : readSequence? item close n rest = some (as, end_)) :
    readSequence? item close (n + 1) cs = some (a :: as, end_) := by
  have hspace : skipSpace (',' :: rest) = ',' :: rest := rfl
  simp only [readSequence?, h, Option.bind_eq_bind, Option.bind_some, hspace, if_neg hclose,
    if_true, hrest]
  rfl

theorem readField?_text {value : List Char → Option (Source × List Char)} {name : List Char}
    {s : Source} {cs rest : List Char} (hname : IsBody name)
    (h : value cs = some (s, rest)) :
    readField? value ('"' :: (name ++ '"' :: ':' :: cs)) = some ((name, s), rest) := by
  have hbody := hname.reads [] (':' :: cs)
  rw [List.reverse_nil, List.nil_append] at hbody
  have hquote : skipSpace ('"' :: (name ++ '"' :: ':' :: cs)) =
      '"' :: (name ++ '"' :: ':' :: cs) := rfl
  have hcolon : skipSpace (':' :: cs) = ':' :: cs := rfl
  simp only [readField?, hquote, hbody, Option.bind_eq_bind, Option.bind_some, hcolon, h]
  rfl

mutual
/-- A tree is read from its text. -/
theorem readValue?_text : ∀ (s : Source) (fuel limit : Nat) (rest : List Char), s.Lexical →
    s.text.length ≤ fuel → s.depth ≤ limit → Follows rest →
    readValue? fuel limit (s.text ++ rest) = some (s, rest)
  | .null, fuel, limit, rest, _, _, _, _ =>
      readValue?_scalar fuel limit _ (by decide) (by decide) (by decide)
  | .bool true, fuel, limit, rest, _, _, _, _ =>
      readValue?_scalar fuel limit _ (by decide) (by decide) (by decide)
  | .bool false, fuel, limit, rest, _, _, _, _ =>
      readValue?_scalar fuel limit _ (by decide) (by decide) (by decide)
  | .string body, fuel, limit, rest, h, _, _, _ => by
      have hbody := IsBody.reads h [] rest
      simp only [text, List.cons_append, List.append_assoc, List.nil_append]
      rw [readValue?_scalar fuel limit _ (by decide) (by decide) (by decide), readScalar?, hbody]
      rfl
  | .number n, fuel, limit, rest, h, _, _, hrest => by
      have hread := readScalar?_numeral h hrest.ends
      obtain ⟨c, cs, hc, hstart⟩ := exists_cons_numeral h
      have hne : c ≠ '[' ∧ c ≠ '\x7b' := by
        rcases hstart with rfl | hd
        · decide
        · constructor <;> (rintro rfl; exact absurd hd (by decide))
      have hspace : isSpace c = false := Starts.not_space (by
        rcases hstart with rfl | hd
        · simp [Starts]
        · simp [Starts, hd])
      rw [hc, List.cons_append] at hread
      rw [text, hc, List.cons_append, readValue?_scalar fuel limit _ hspace hne.1 hne.2, hread]
  | .array items, fuel, limit, rest, h, hfuel, hlimit, _ => by
      rw [depth] at hlimit
      obtain ⟨limit, rfl⟩ : ∃ l, limit = l + 1 := ⟨limit - 1, by omega⟩
      simp only [text, List.length_cons, List.length_append] at hfuel
      simp only [text, List.cons_append, List.append_assoc, List.nil_append]
      cases items with
      | nil => exact (readValue?_nil fuel limit rest).1
      | cons s items =>
          have hlen := length_le_textItems (s :: items) h
          have hitems := readSequence?_items (s :: items) fuel fuel limit rest (by simp) h
            (by omega) (by omega) (by omega)
          obtain ⟨c, cs, hc, hstart⟩ := @exists_cons_textItems _ items h.1
          rw [hc, List.cons_append] at hitems ⊢
          rw [readValue?_array fuel limit _ hstart.not_space hstart.not_close, hitems]
          rfl
  | .object fields, fuel, limit, rest, h, hfuel, hlimit, _ => by
      rw [depth] at hlimit
      obtain ⟨limit, rfl⟩ : ∃ l, limit = l + 1 := ⟨limit - 1, by omega⟩
      simp only [text, List.length_cons, List.length_append] at hfuel
      simp only [text, List.cons_append, List.append_assoc, List.nil_append]
      cases fields with
      | nil => exact (readValue?_nil fuel limit rest).2
      | cons f fields =>
          have hlen := length_le_textFields (f :: fields)
          have hfields := readSequence?_fields (f :: fields) fuel fuel limit rest (by simp) h
            (by omega) (by omega) (by omega)
          obtain ⟨cs, hc⟩ := exists_cons_textFields f fields
          rw [hc, List.cons_append] at hfields ⊢
          rw [readValue?_object, hfields]
          rfl

theorem readSequence?_items : ∀ (items : List Source) (n fuel limit : Nat) (rest : List Char),
    items ≠ [] → LexicalItems items → (textItems items).length ≤ fuel → items.length ≤ n →
    depthItems items ≤ limit →
    readSequence? (readValue? fuel limit) ']' n (textItems items ++ ']' :: rest) =
      some (items, rest)
  | [], _, _, _, _, hne, _, _, _, _ => absurd rfl hne
  | [s], n + 1, fuel, limit, rest, _, h, hfuel, _, hlimit => by
      have hs := readValue?_text s fuel limit (']' :: rest) h.1 hfuel
        (by simpa [depthItems] using hlimit) (.inr (.inl rfl))
      exact readSequence?_last n hs (by decide)
  | s :: t :: items, n + 1, fuel, limit, rest, _, h, hfuel, hn, hlimit => by
      rw [depthItems] at hlimit
      rw [textItems_cons_cons, List.length_append, List.length_cons] at hfuel
      have hs := readValue?_text s fuel limit (',' :: (textItems (t :: items) ++ ']' :: rest)) h.1
        (by omega) (by omega) (.inl rfl)
      have hrest := readSequence?_items (t :: items) n fuel limit rest (by simp) h.2 (by omega)
        (by simpa using hn) (by omega)
      rw [textItems_cons_cons, List.append_assoc, List.cons_append]
      exact readSequence?_comma hs (by decide) hrest

theorem readSequence?_fields : ∀ (fields : List (List Char × Source)) (n fuel limit : Nat)
    (rest : List Char), fields ≠ [] → LexicalFields fields → (textFields fields).length ≤ fuel →
    fields.length ≤ n → depthFields fields ≤ limit →
    readSequence? (readField? (readValue? fuel limit)) '\x7d' n
      (textFields fields ++ '\x7d' :: rest) = some (fields, rest)
  | [], _, _, _, _, hne, _, _, _, _ => absurd rfl hne
  | [(name, s)], n + 1, fuel, limit, rest, _, h, hfuel, _, hlimit => by
      simp only [textFields, List.cons_append, List.append_assoc, List.length_cons,
        List.length_append] at hfuel ⊢
      have hs := readValue?_text s fuel limit ('\x7d' :: rest) h.2.1 (by omega)
        (by simpa [depthFields] using hlimit) (.inr (.inr rfl))
      exact readSequence?_last n (readField?_text h.1 hs) (by decide)
  | (name, s) :: f :: fields, n + 1, fuel, limit, rest, _, h, hfuel, hn, hlimit => by
      rw [depthFields] at hlimit
      simp only [textFields_cons_cons, List.cons_append, List.append_assoc, List.length_cons,
        List.length_append] at hfuel ⊢
      have hs := readValue?_text s fuel limit
        (',' :: (textFields (f :: fields) ++ '\x7d' :: rest)) h.2.1 (by omega) (by omega) (.inl rfl)
      have hrest := readSequence?_fields (f :: fields) n fuel limit rest (by simp) h.2.2 (by omega)
        (by simpa using hn) (by omega)
      exact readSequence?_comma (readField?_text h.1 hs) (by decide) hrest
end

/-- A tree that is not nested too deep is read from its text. -/
theorem parse?_text {s : Source} {limit : Nat} (h : s.Lexical) (hlimit : s.depth ≤ limit) :
    parse? limit s.text = some s := by
  have hread := readValue?_text s s.text.length limit [] h (Nat.le_refl _) hlimit trivial
  rw [List.append_nil] at hread
  rw [parse?, hread]
  rfl

/-! ### Texts without NUL -/

theorem noNul_append {cs ds : List Char} : NoNul (cs ++ ds) ↔ NoNul cs ∧ NoNul ds := by
  simp only [NoNul, List.mem_append]
  constructor
  · intro h
    exact ⟨fun c hc => h c (.inl hc), fun c hc => h c (.inr hc)⟩
  · rintro ⟨hcs, hds⟩ c (hc | hc)
    · exact hcs c hc
    · exact hds c hc

theorem noNul_cons {c : Char} {cs : List Char} : NoNul (c :: cs) ↔ c.toNat ≠ 0 ∧ NoNul cs := by
  simp [NoNul]

theorem noNul_nil : NoNul [] := by simp [NoNul]

theorem noNul_run {ds : List Char} (h : ∀ c ∈ ds, Text.isDigit c = true) : NoNul ds := by
  intro c hc hzero
  have hd := Text.isDigit_iff.mp (h c hc)
  omega

theorem noNul_numeral {n : Numeral} (h : n.WellSpelled) : NoNul n.text := by
  intro c hc
  rcases Numeral.mem_text h hc with hdigit | rfl | rfl | rfl | rfl | rfl
  · exact noNul_run (List.forall_mem_singleton.mpr hdigit) c List.mem_cons_self
  all_goals decide

mutual
theorem noNul_text : ∀ s : Source, s.Lexical → NoNul s.text
  | .null, _ => by simp [text, NoNul]
  | .bool true, _ => by simp [text, NoNul]
  | .bool false, _ => by simp [text, NoNul]
  | .number n, h => noNul_numeral h
  | .string body, h =>
      noNul_cons.mpr ⟨by decide, noNul_append.mpr ⟨h.noNul, by simp [NoNul]⟩⟩
  | .array items, h =>
      noNul_cons.mpr ⟨by decide, noNul_append.mpr ⟨noNul_textItems items h, by simp [NoNul]⟩⟩
  | .object fields, h =>
      noNul_cons.mpr ⟨by decide, noNul_append.mpr ⟨noNul_textFields fields h, by simp [NoNul]⟩⟩

theorem noNul_textItems : ∀ items : List Source, LexicalItems items → NoNul (textItems items)
  | [], _ => noNul_nil
  | [s], h => noNul_text s h.1
  | s :: t :: rest, h => noNul_append.mpr
      ⟨noNul_text s h.1, noNul_cons.mpr ⟨by decide, noNul_textItems (t :: rest) h.2⟩⟩

theorem noNul_textFields : ∀ fields : List (List Char × Source), LexicalFields fields →
    NoNul (textFields fields)
  | [], _ => noNul_nil
  | [(name, s)], h => by
      have hs := noNul_text s h.2.1
      have hname := h.1.noNul
      simp only [textFields, noNul_append, noNul_cons]
      exact ⟨⟨by decide, hname⟩, by decide, by decide, hs⟩
  | (name, s) :: f :: rest, h => by
      have hs := noNul_text s h.2.1
      have hname := h.1.noNul
      have hrest := noNul_textFields (f :: rest) h.2.2
      simp only [textFields_cons_cons, noNul_append, noNul_cons]
      exact ⟨⟨⟨by decide, hname⟩, by decide, by decide, hs⟩, by decide, hrest⟩
end

/-! ### Escaped strings -/

theorem readBody?_simple {c e : Char} (read rest : List Char) (h : simpleEscape? e = some c) :
    readBody? read ('\\' :: e :: rest) = readBody? (e :: '\\' :: read) rest := by
  have hletter : e = '"' ∨ e = '\\' ∨ e = '/' ∨ e = 'b' ∨ e = 'f' ∨ e = 'n' ∨ e = 'r' ∨ e = 't' := by
    unfold simpleEscape? at h
    split at h <;> simp_all
  rcases hletter with rfl | rfl | rfl | rfl | rfl | rfl | rfl | rfl <;> rfl

theorem readBody?_plain {c : Char} (read rest : List Char) (hquote : c ≠ '"') (hslash : c ≠ '\\')
    (hc : ¬ c.toNat < 0x20) : readBody? read (c :: rest) = readBody? (c :: read) rest := by
  rw [readBody?.eq_def]
  split
  · next heq => cases heq
  · next heq =>
      cases heq
      exact absurd rfl hquote
  · next heq =>
      cases heq
      exact absurd rfl hslash
  · next heq =>
      cases heq
      exact absurd rfl hslash
  · next heq =>
      cases heq
      simp [hslash, hc]

theorem readBody?_escapeChar (c : Char) (read rest : List Char) :
    readBody? read (escapeChar c ++ rest) = readBody? ((escapeChar c).reverse ++ read) rest := by
  obtain ⟨e, he, hsimple, -⟩ | ⟨he, hcontrol⟩ | ⟨he, hquote, hslash, hc⟩ := escapeChar_cases c
  · rw [he]
    exact readBody?_simple read rest hsimple
  · obtain ⟨x, y, z, w, hx, -, hhex⟩ := hexPadded_control c.toNat hcontrol
    rw [he, hx]
    exact if_pos hhex
  · rw [he]
    exact readBody?_plain read rest hquote hslash hc

theorem isHex_toNat {c : Char} (h : isHex c = true) : c.toNat ≠ 0 := by
  intro hzero
  have hc : c = Char.ofNat 0 := by rw [← hzero, Char.ofNat_toNat]
  rw [hc] at h
  exact absurd h (by decide)

theorem noNul_escapeChar (c : Char) : NoNul (escapeChar c) := by
  obtain ⟨e, he, hsimple, -⟩ | ⟨he, hcontrol⟩ | ⟨he, -, -, hc⟩ := escapeChar_cases c
  · have hletter : e.toNat ≠ 0 := by
      intro hzero
      unfold simpleEscape? at hsimple
      split at hsimple <;> simp_all
    rw [he]
    simpa [noNul_cons, noNul_nil] using hletter
  · obtain ⟨x, y, z, w, hx, -, hhex⟩ := hexPadded_control c.toNat hcontrol
    simp only [Bool.and_eq_true] at hhex
    obtain ⟨⟨⟨hx', hy'⟩, hz'⟩, hw'⟩ := hhex
    rw [he, hx]
    simp only [noNul_cons]
    exact ⟨by decide, by decide, isHex_toNat hx', isHex_toNat hy', isHex_toNat hz',
      isHex_toNat hw', noNul_nil⟩
  · rw [he]
    refine noNul_cons.mpr ⟨by omega, noNul_nil⟩

theorem isBody_escape (s : String) : IsBody (escape s) := by
  constructor
  · have key : ∀ (cs read rest : List Char), readBody? read (cs.flatMap escapeChar ++ '"' :: rest) =
        some (read.reverse ++ cs.flatMap escapeChar, rest) := by
      intro cs
      induction cs with
      | nil =>
          intro read rest
          rw [List.flatMap_nil, List.nil_append, List.append_nil]
          rfl
      | cons c cs ih =>
          intro read rest
          rw [List.flatMap_cons, List.append_assoc, readBody?_escapeChar, ih, List.reverse_append,
            List.reverse_reverse, List.append_assoc]
    exact key s.toList
  · intro c hc
    obtain ⟨d, -, hd⟩ := List.mem_flatMap.mp hc
    exact noNul_escapeChar d c hd

end Source

theorem Number.numeral_wellSpelled (n : Number) : n.numeral.WellSpelled := by
  cases n with
  | float x => exact x.jsonNumeral_wellSpelled
  | integer i =>
      refine ⟨?_, (fun ds h => by cases h), (fun mark sign ds h => by cases h)⟩
      rcases Nat.eq_zero_or_pos i.natAbs with h | h
      · refine .inl ?_
        rw [Number.numeral, h]
        rfl
      · exact .inr ⟨Text.isRun_natural _, Text.natural_head_ne_zero h⟩

namespace Json

mutual
theorem source_lexical : ∀ j : Json, j.source.Lexical
  | .null | .bool _ => trivial
  | .number n => n.numeral_wellSpelled
  | .string s => Source.isBody_escape s
  | .array items => sourceItems_lexical items
  | .object fields => sourceFields_lexical fields

theorem sourceItems_lexical : ∀ items : List Json, Source.LexicalItems (sourceItems items)
  | [] => trivial
  | j :: rest => ⟨source_lexical j, sourceItems_lexical rest⟩

theorem sourceFields_lexical : ∀ fields : List (String × Json),
    Source.LexicalFields (sourceFields fields)
  | [] => trivial
  | (name, j) :: rest => ⟨Source.isBody_escape name, source_lexical j, sourceFields_lexical rest⟩
end

/-- The compact text of a value is read as its syntax tree. -/
theorem parse?_print {j : Json} {limit : Nat} (h : j.depth ≤ limit) :
    Source.parse? limit j.print.toList = some j.source := by
  rw [print, String.toList_ofList]
  exact Source.parse?_text (source_lexical j) (by rw [depth_source]; exact h)

theorem noNul_print (j : Json) : Source.NoNul j.print.toList := by
  rw [print, String.toList_ofList]
  exact Source.noNul_text _ (source_lexical j)

end Json
end EntityStore
