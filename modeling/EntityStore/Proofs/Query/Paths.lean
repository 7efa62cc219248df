import EntityStore.Proofs.Query.Meaning
import EntityStore.Proofs.Text.Split
import Mathlib.Computability.Language

/-! # The grammar of property paths

A text is a property path if it is a word of `[A-Za-z0-9_]+(\.[A-Za-z0-9_]+)*`, has at most 256
bytes and at most 16 segments (`IsPath`).  These are the texts that are read as paths
(`exists_readPath_iff`): a text is cut at its dots, and it follows the grammar exactly if each piece
is a word (`mem_grammar_iff`).

A path is shown as the text it was read from, its words are the segments of that text, and the
database reads the notation that it is given of the path as these words.  So no two texts are
confused, neither by the paths nor by their notations (`readPath_faithful`). -/

namespace EntityStore

namespace Query

open scoped Computability

/-! ### The grammar -/

namespace Path

/-- `[A-Za-z0-9_]` -/
def letter : Language Char :=
  {cs | ∃ c, cs = [c] ∧
    ('A' ≤ c ∧ c ≤ 'Z' ∨ 'a' ≤ c ∧ c ≤ 'z' ∨ '0' ≤ c ∧ c ≤ '9' ∨ c = '_')}

/-- `[A-Za-z0-9_]+` -/
def word : Language Char := letter * letter∗

/-- `\.` -/
def dot : Language Char := {['.']}

/-- `[A-Za-z0-9_]+(\.[A-Za-z0-9_]+)*` -/
def grammar : Language Char := word * (dot * word)∗

theorem mem_letter_iff {c : Char} : [c] ∈ letter ↔ isWordChar c = true := by
  have hmem : [c] ∈ letter ↔
      'A' ≤ c ∧ c ≤ 'Z' ∨ 'a' ≤ c ∧ c ≤ 'z' ∨ '0' ≤ c ∧ c ≤ '9' ∨ c = '_' := by
    constructor
    · rintro ⟨d, hd, h⟩
      rwa [List.singleton_inj.mp hd]
    · exact fun h => ⟨c, rfl, h⟩
  rw [hmem, isWordChar]
  simp only [Bool.or_eq_true, Bool.and_eq_true, decide_eq_true_eq, or_assoc]

theorem exists_char_of_mem_letter {cs : List Char} (h : cs ∈ letter) :
    ∃ c, cs = [c] ∧ isWordChar c = true := by
  obtain ⟨c, rfl, -⟩ := id h
  exact ⟨c, rfl, mem_letter_iff.mp h⟩

theorem mem_letters_iff {cs : List Char} : cs ∈ letter∗ ↔ cs.all isWordChar = true := by
  rw [Language.mem_kstar, List.all_eq_true]
  constructor
  · rintro ⟨pieces, rfl, h⟩ c hc
    obtain ⟨piece, hpiece, hc⟩ := List.mem_flatten.mp hc
    obtain ⟨d, rfl, hd⟩ := exists_char_of_mem_letter (h piece hpiece)
    rwa [List.mem_singleton.mp hc]
  · intro h
    refine ⟨cs.map ([·]), by rw [← List.flatMap_def, List.flatMap_singleton'], ?_⟩
    exact List.forall_mem_map.mpr fun c hc => mem_letter_iff.mpr (h c hc)

theorem mem_word_iff {cs : List Char} : cs ∈ word ↔ isWord cs = true := by
  rw [word, Language.mem_mul]
  constructor
  · rintro ⟨a, ha, b, hb, rfl⟩
    obtain ⟨c, rfl, hc⟩ := exists_char_of_mem_letter ha
    have hrest := mem_letters_iff.mp hb
    simp [isWord, hc, hrest]
  · intro h
    cases cs with
    | nil => exact absurd h (by decide)
    | cons c rest =>
        have hall : isWordChar c = true ∧ rest.all isWordChar = true := by
          simpa [isWord] using h
        exact ⟨[c], mem_letter_iff.mpr hall.1, rest, mem_letters_iff.mpr hall.2, rfl⟩

/-- No dot stands in a word. -/
theorem dot_not_mem {w : List Char} (h : isWord w = true) : '.' ∉ w := by
  intro hmem
  rw [isWord, Bool.and_eq_true, List.all_eq_true] at h
  exact absurd (h.2 '.' hmem) (by decide)

/-- The pieces of a word that is followed by words with a dot in front of each. -/
theorem splitOn_dotted {w : List Char} (hw : isWord w = true) : ∀ {ys : List (List Char)},
    (∀ y ∈ ys, y ∈ dot * word) → ∀ v ∈ (w ++ ys.flatten).splitOn '.', isWord v = true
  | [], _ => by
      rw [List.flatten_nil, List.append_nil, List.splitOn_eq_singleton (dot_not_mem hw)]
      exact List.forall_mem_singleton.mpr hw
  | y :: ys, h => by
      obtain ⟨d, hd, v, hv, rfl⟩ := Language.mem_mul.mp (h y List.mem_cons_self)
      obtain rfl : d = ['.'] := hd
      rw [List.flatten_cons, List.append_assoc, List.singleton_append,
        List.splitOn_append_cons_self_of_not_mem (dot_not_mem hw)]
      exact List.forall_mem_cons.mpr ⟨hw, splitOn_dotted (mem_word_iff.mp hv) fun z hz =>
        h z (List.mem_cons_of_mem _ hz)⟩

/-- Words with dots between them follow the grammar. -/
theorem intercalate_mem_grammar (w : List Char) (ws : List (List Char))
    (h : ∀ v ∈ w :: ws, isWord v = true) : ['.'].intercalate (w :: ws) ∈ grammar := by
  have hrest : ['.'].intercalate (w :: ws) = w ++ (ws.map ('.' :: ·)).flatten := by
    induction ws generalizing w with
    | nil => simp
    | cons v ws ih =>
        rw [List.intercalate_cons_cons, ih v fun u hu => h u (List.mem_cons_of_mem _ hu)]
        simp
  rw [hrest, grammar]
  obtain ⟨hw, hws⟩ := List.forall_mem_cons.mp h
  refine Language.append_mem_mul (mem_word_iff.mpr hw) (Language.join_mem_kstar ?_)
  refine List.forall_mem_map.mpr fun v hv => ?_
  exact Language.append_mem_mul (a := ['.']) rfl (mem_word_iff.mpr (hws v hv))

/-- A text follows the grammar if all its segments are words. -/
theorem mem_grammar_iff {cs : List Char} :
    cs ∈ grammar ↔ ∀ w ∈ cs.splitOn '.', isWord w = true := by
  constructor
  · intro h
    obtain ⟨w, hw, rest, ⟨ys, rfl, hys⟩, rfl⟩ := Language.mem_mul.mp h
    exact splitOn_dotted (mem_word_iff.mp hw) hys
  · intro h
    cases hpieces : cs.splitOn '.' with
    | nil => exact absurd hpieces (List.splitOn_ne_nil _ _)
    | cons w ws =>
        have hjoined : ['.'].intercalate (cs.splitOn '.') = cs := List.intercalate_splitOn '.'
        rw [hpieces] at h
        rw [← hjoined, hpieces]
        exact intercalate_mem_grammar w ws h

end Path

/-! ### What is read as a path -/

/-- The text is a property path: it follows the grammar and stays inside the bounds. -/
structure IsPath (text : String) : Prop where
  grammar : text.toList ∈ Path.grammar
  length : text.utf8ByteSize ≤ 256
  depth : (text.toList.splitOn '.').length ≤ 16

theorem IsPath.ne_empty {text : String} (h : IsPath text) : text.isEmpty = false := by
  rw [Bool.eq_false_iff]
  intro hempty
  have hgrammar := h.grammar
  rw [String.isEmpty_iff.mp hempty] at hgrammar
  exact absurd (Path.mem_grammar_iff.mp hgrammar [] (by decide)) (by decide)

/-- The search for a segment that is no word finds none in a path. -/
theorem IsPath.find?_segment {text : String} (h : IsPath text) :
    (Text.splitAt '.' text.toList).find? (fun w => !isWord w) = none := by
  rw [List.find?_eq_none, Text.splitAt_eq_splitOn]
  intro w hw
  simp [Path.mem_grammar_iff.mp h.grammar w hw]

theorem Path.parse_eq_ok {text : String} {p : Path} :
    Path.parse text = .ok p ↔ IsPath text ∧ p.words = text.toList.splitOn '.' := by
  fun_cases Path.parse text with
  | case1 hempty =>
      refine iff_of_false nofun fun h => ?_
      rw [h.1.ne_empty] at hempty
      cases hempty
  | case2 _ hlong => exact iff_of_false nofun fun h => Nat.not_lt.mpr h.1.length hlong
  | case3 _ _ words hfound | case4 _ _ words _ _ hfound =>
      refine iff_of_false nofun fun h => ?_
      rw [h.1.find?_segment] at hfound
      cases hfound
  | case5 _ _ words _ hdeep =>
      refine iff_of_false nofun fun h => Nat.not_lt.mpr h.1.depth ?_
      rw [← Text.splitAt_eq_splitOn]
      exact hdeep
  | case6 _ hlength words hfound hdepth =>
      rw [← Text.splitAt_eq_splitOn, Except.ok.injEq, eq_comm, Path.mk.injEq]
      refine (and_iff_right ⟨?_, Nat.not_lt.mp hlength, ?_⟩).symm
      · refine Path.mem_grammar_iff.mpr fun w hw => ?_
        rw [← Text.splitAt_eq_splitOn] at hw
        simpa using List.find?_eq_none.mp hfound w hw
      · rw [← Text.splitAt_eq_splitOn]
        exact Nat.not_lt.mp hdepth

/-- A text is read as a path exactly if it is one; the words are its segments. -/
theorem readPath_eq_ok {text : String} {p : Path} :
    readPath text = .ok p ↔ IsPath text ∧ p.words = text.toList.splitOn '.' := by
  rw [readPath, ← Path.parse_eq_ok]
  cases Path.parse text with
  | error fault => exact iff_of_false nofun nofun
  | ok q => simp only [Except.ok.injEq]

theorem exists_readPath_iff {text : String} : (∃ p, readPath text = .ok p) ↔ IsPath text := by
  constructor
  · rintro ⟨p, hp⟩
    exact (readPath_eq_ok.mp hp).1
  · intro h
    exact ⟨⟨text.toList.splitOn '.', List.splitOn_ne_nil _ _, Path.mem_grammar_iff.mp h.grammar⟩,
      readPath_eq_ok.mpr ⟨h, rfl⟩⟩

/-- A text that is refused is given back. -/
theorem readPath_eq_error {text : String} {e : Error} (h : readPath text = .error e) :
    ∃ fault, e = .invalidProperty text fault := by
  rw [readPath] at h
  cases hparse : Path.parse text with
  | error fault =>
      rw [hparse] at h
      exact ⟨fault, (Except.error.inj h).symm⟩
  | ok p => rw [hparse] at h; cases h

theorem exists_error_of_not_isPath {text : String} (h : ¬ IsPath text) :
    ∃ fault, readPath text = .error (.invalidProperty text fault) := by
  cases hread : readPath text with
  | ok p => exact absurd (exists_readPath_iff.mp ⟨p, hread⟩) h
  | error e =>
      obtain ⟨fault, rfl⟩ := readPath_eq_error hread
      exact ⟨fault, rfl⟩

theorem display_of_readPath {text : String} {p : Path} (h : readPath text = .ok p) :
    p.display = text := by
  rw [readPath] at h
  cases hparse : Path.parse text with
  | error fault => rw [hparse] at h; cases h
  | ok q =>
      rw [hparse] at h
      cases h
      exact Path.display_parse hparse

/-- Paths with one notation in the database have the same words. -/
theorem words_eq_of_jsonPath_eq {p q : Path} (h : p.jsonPath = q.jsonPath) : p.words = q.words := by
  have hread : some p.words = some q.words := by
    rw [← readPath?_jsonPath p, h, readPath?_jsonPath]
  exact Option.some.inj hread

/-- Exactly the texts of the grammar inside the bounds are read as paths.  A path is shown as its
text, its words are the segments of the text, and the database reads its notation as these words; so
two texts have one notation only if they are one text.  A text that is refused is given back. -/
theorem readPath_faithful (text : String) :
    ((∃ p, readPath text = .ok p) ↔ text.toList ∈ Path.grammar ∧ text.utf8ByteSize ≤ 256 ∧
      (text.toList.splitOn '.').length ≤ 16) ∧
    (∀ p, readPath text = .ok p → p.display = text ∧ p.words = text.toList.splitOn '.' ∧
      Sql.readPath? p.jsonPath.toList = some p.words) ∧
    (∀ other p q, readPath text = .ok p → readPath other = .ok q →
      (p.jsonPath = q.jsonPath ↔ text = other)) ∧
    (∀ e, readPath text = .error e → ∃ fault, e = .invalidProperty text fault) := by
  refine ⟨?_, fun p hp => ?_, fun other p q hp hq => ⟨fun h => ?_, ?_⟩, fun e => readPath_eq_error⟩
  · rw [exists_readPath_iff]
    exact ⟨fun h => ⟨h.grammar, h.length, h.depth⟩, fun ⟨hg, hl, hd⟩ => ⟨hg, hl, hd⟩⟩
  · exact ⟨display_of_readPath hp, (readPath_eq_ok.mp hp).2, readPath?_jsonPath p⟩
  · rw [← display_of_readPath hp, ← display_of_readPath hq, Path.display, Path.display,
      words_eq_of_jsonPath_eq h]
  · rintro rfl
    rw [Except.ok.inj (hp.symm.trans hq)]

/-- A path of two words, another one that is spelled like it, and a text with an empty segment. -/
theorem readPath_faithful_replicas :
    (∃ p, readPath "spec.replicas" = .ok p ∧ p.display = "spec.replicas" ∧
      Sql.readPath? p.jsonPath.toList = some ["spec".toList, "replicas".toList] ∧
      ∀ q, readPath "spec_replicas" = .ok q → p.jsonPath ≠ q.jsonPath) ∧
    ∃ fault, readPath "spec..replicas" = .error (.invalidProperty "spec..replicas" fault) := by
  obtain ⟨p, hp⟩ : ∃ p, readPath "spec.replicas" = .ok p := ⟨_, rfl⟩
  obtain ⟨-, hok, hinj, -⟩ := readPath_faithful "spec.replicas"
  obtain ⟨hdisplay, hwords, hlabels⟩ := hok p hp
  refine ⟨⟨p, hp, hdisplay, ?_, fun q hq heq => ?_⟩, ?_⟩
  · rw [hlabels, hwords]
    decide
  · exact absurd ((hinj "spec_replicas" p q hp hq).mp heq) (by decide)
  · cases hread : readPath "spec..replicas" with
    | ok p =>
        obtain ⟨hgrammar, -⟩ := (readPath_faithful "spec..replicas").1.mp ⟨p, hread⟩
        exact absurd (Path.mem_grammar_iff.mp hgrammar [] (by decide)) (by decide)
    | error e =>
        obtain ⟨fault, rfl⟩ := (readPath_faithful "spec..replicas").2.2.2 e hread
        exact ⟨fault, rfl⟩

end Query
end EntityStore
