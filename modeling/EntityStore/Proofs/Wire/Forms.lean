import EntityStore.Proofs.Schema.Meaning
import EntityStore.Proofs.Wire.Kind
import EntityStore.Wire.Catalog
import Mathlib.Data.List.Nodup

/-! # Forms of records

What the schemas of the catalog mean, from those of single fields to those of whole records: each has
a form that values have under it, such as `IsFilter` for `filterSchema` (`means_filter`).  A form says
less than a reader asks for: a number without fraction may be written with a point, and a time is any
text. -/

namespace EntityStore.Wire

open Schema (Means MeanAll IsRecord TypeName Check recordSchema)
open Schema.Compiled (Follow)

/-! ### Forms of fields -/

def IsText (j : Json) : Prop := ∃ text, j = .string text

def IsWord (words : List String) (j : Json) : Prop := ∃ word ∈ words, j = .string word

/-- A number without fraction, however it is written. -/
def IsWhole (j : Json) : Prop := ∃ n : Number, j = .number n ∧ n.isIntegral = true

/-- A number without fraction that is not negative. -/
def IsCount (j : Json) : Prop :=
  ∃ n : Number, j = .number n ∧ n.isIntegral = true ∧ n.compare (.integer 0) ≠ .lt

def IsNullOr (P : Json → Prop) (j : Json) : Prop := j = .null ∨ P j

def IsListOf (P : Json → Prop) (j : Json) : Prop := ∃ items, j = .array items ∧ ∀ v ∈ items, P v

def IsAnything (_ : Json) : Prop := True

/-! ### Schemas of fields -/

/-- Values of one of the types. -/
def typed (types : List TypeName) : Schema.Compiled := .all [.check (.type false types)]

def wordSchema (word : String) : Schema.Compiled :=
  .all [.check (.const (.string word)), .check (.type false [.string])]

def wordsSchema (words : List String) : Schema.Compiled :=
  .all [.check (.enum (words.map .string)), .check (.type false [.string])]

def countSchema : Schema.Compiled :=
  .all [.check (.bound .minimum (.integer 0)), .check (.type false [.integer])]

def listSchema (item : Schema.Compiled) : Schema.Compiled :=
  .all [.itemsFrom 0 item, .check (.type false [.array])]

/-- The schema at another place of the document. -/
def referring (pointer : String) : Schema.Compiled := .all [.reference pointer]

variable {f : Follow} {s : Schema.Compiled} {P : Json → Prop} {j : Json}

theorem contains_string : TypeName.string.contains false j = true ↔ IsText j := by
  constructor
  · intro h
    cases j with
    | string text => exact ⟨text, rfl⟩
    | null | bool _ | number _ | array _ | object _ => exact absurd h Bool.false_ne_true
  · rintro ⟨text, rfl⟩
    rfl

theorem contains_null : TypeName.null.contains false j = true ↔ j = .null := by
  constructor
  · intro h
    cases j with
    | null => rfl
    | string _ | bool _ | number _ | array _ | object _ => exact absurd h Bool.false_ne_true
  · rintro rfl
    rfl

theorem contains_integer_number (n : Number) :
    TypeName.integer.contains false (.number n) = n.isIntegral := by
  cases n <;> rfl

theorem contains_integer : TypeName.integer.contains false j = true ↔ IsWhole j := by
  constructor
  · intro h
    cases j with
    | number n => exact ⟨n, rfl, contains_integer_number n ▸ h⟩
    | null | string _ | bool _ | array _ | object _ => exact absurd h Bool.false_ne_true
  · rintro ⟨n, rfl, hn⟩
    exact (contains_integer_number n).trans hn

theorem means_text : Means f (typed [.string]) IsText :=
  (Means.type [.string]).single.congr fun j => by
    simp only [List.mem_singleton, exists_eq_left, contains_string]

theorem means_null : Means f (typed [.null]) fun j => j = .null :=
  (Means.type [.null]).single.congr fun j => by
    simp only [List.mem_singleton, exists_eq_left, contains_null]

theorem means_nullableText : Means f (typed [.null, .string]) (IsNullOr IsText) :=
  (Means.type [.null, .string]).single.congr fun j => by
    simp only [List.mem_cons, List.not_mem_nil, or_false, exists_eq_or_imp, exists_eq_left,
      contains_null, contains_string, IsNullOr]

theorem means_nullableWhole : Means f (typed [.integer, .null]) (IsNullOr IsWhole) :=
  (Means.type [.integer, .null]).single.congr fun j => by
    simp only [List.mem_cons, List.not_mem_nil, or_false, exists_eq_or_imp, exists_eq_left,
      contains_null, contains_integer, IsNullOr]
    exact or_comm

theorem means_anything : Means f (.all []) IsAnything :=
  (MeanAll.all .nil).congr fun _ => iff_of_true nofun trivial

theorem same_string {word : String} : j.same (.string word) = true ↔ j = .string word := by
  constructor
  · intro h
    cases j with
    | string text => rw [eq_of_beq h]
    | null | bool _ | number _ | array _ | object _ => exact absurd h Bool.false_ne_true
  · rintro rfl
    exact beq_self_eq_true word

theorem means_words (words : List String) : Means f (wordsSchema words) (IsWord words) := by
  refine ((Means.check _).both (Means.type [.string])).congr fun j => ?_
  simp only [Check.holds, List.any_map, List.any_eq_true, Function.comp_apply, same_string,
    List.mem_singleton, exists_eq_left, contains_string, IsWord]
  refine and_iff_left_of_imp ?_
  rintro ⟨word, -, hj⟩
  exact ⟨word, hj⟩

theorem means_word (word : String) : Means f (wordSchema word) (IsWord [word]) := by
  refine ((Means.check _).both (Means.type [.string])).congr fun j => ?_
  simp only [Check.holds, same_string, List.mem_singleton, exists_eq_left, contains_string, IsWord]
  exact and_iff_left_of_imp fun hj => ⟨word, hj⟩

theorem means_count : Means f countSchema IsCount := by
  refine ((Means.check _).both (Means.type [.integer])).congr fun j => ?_
  simp only [List.mem_singleton, exists_eq_left, contains_integer]
  have hbound : ∀ n : Number, (Check.bound .minimum (.integer 0)).holds (.number n) = true ↔
      n.compare (.integer 0) ≠ .lt := fun n => bne_iff_ne
  constructor
  · rintro ⟨hlow, n, rfl, hn⟩
    exact ⟨n, rfl, hn, (hbound n).mp hlow⟩
  · rintro ⟨n, rfl, hn, hlow⟩
    exact ⟨(hbound n).mpr hlow, n, rfl, hn⟩

theorem means_list (h : Means f s P) : Means f (listSchema s) (IsListOf P) := by
  refine (h.items.both (Means.type [.array])).congr fun j => ?_
  simp only [List.mem_singleton, exists_eq_left]
  constructor
  · rintro ⟨hall, htype⟩
    cases j with
    | array items => exact ⟨items, rfl, hall⟩
    | null | bool _ | number _ | string _ | object _ => exact absurd htype Bool.false_ne_true
  · rintro ⟨items, rfl, hall⟩
    exact ⟨hall, rfl⟩

/-! ### Records -/

def operatorNames : List (List String) :=
  [["gt", "gte", "lt", "lte"], ["eq"], ["neq"], ["contains"], ["exists"], ["in"]]

/-- One of the words that name an operator. -/
def IsOperator : Json → Prop := IsWord operatorNames.flatten

def operatorSchema : Schema.Compiled :=
  .all [.oneOf [wordsSchema ["gt", "gte", "lt", "lte"], wordSchema "eq", wordSchema "neq",
    wordSchema "contains", wordSchema "exists", wordSchema "in"]]

theorem means_operator : Means f operatorSchema IsOperator := by
  have hwords : MeanAll f [wordsSchema ["gt", "gte", "lt", "lte"], wordSchema "eq",
      wordSchema "neq", wordSchema "contains", wordSchema "exists", wordSchema "in"]
      (operatorNames.map IsWord) :=
    .cons (means_words _) (.cons (means_word _) (.cons (means_word _) (.cons (means_word _)
      (.cons (means_word _) (.cons (means_word _) .nil)))))
  -- no word is in two of the lists
  have hapart : ∀ j, (operatorNames.map IsWord).Pairwise fun P Q => P j → ¬ Q j := by
    intro j
    rw [List.pairwise_map]
    refine (List.nodup_flatten.mp (by decide : operatorNames.flatten.Nodup)).2.imp ?_
    rintro words words' hdisjoint ⟨word, hword, rfl⟩ ⟨word', hword', hsame⟩
    cases hsame
    exact hdisjoint hword hword'
  refine (hwords.oneOf hapart).single.congr fun j => ?_
  simp only [IsOperator, IsWord, List.mem_map, List.mem_flatten, exists_exists_and_eq_and]
  constructor
  · rintro ⟨words, hwords, word, hword, hj⟩
    exact ⟨word, ⟨words, hwords, hword⟩, hj⟩
  · rintro ⟨word, ⟨words, hwords, hword⟩, hj⟩
    exact ⟨words, hwords, word, hword, hj⟩

def filterSchema : Schema.Compiled :=
  recordSchema [("operator", referring "#/$defs/FilterOperator"), ("property", typed [.string]),
    ("value", .all [])] ["property", "operator"]

def IsFilter : Json → Prop :=
  IsRecord [("operator", IsOperator), ("property", IsText), ("value", IsAnything)]
    ["property", "operator"]

theorem means_filter (h : Means f (.reference "#/$defs/FilterOperator") IsOperator) :
    Means f filterSchema IsFilter :=
  Schema.means_recordSchema (.cons ⟨rfl, h.single⟩ (.cons ⟨rfl, means_text⟩
    (.cons ⟨rfl, means_anything⟩ .nil))) _

def IsDirection : Json → Prop := IsWord ["asc", "desc"]

def searchSchema : Schema.Compiled :=
  recordSchema [("blueprint_id", typed [.string]),
    ("filters", listSchema (referring "#/$defs/Filter")), ("limit", typed [.integer, .null]),
    ("offset", typed [.integer, .null]), ("order_by", typed [.null, .string]),
    ("order_dir", .all [.anyOf [referring "#/$defs/SortDirection", typed [.null]]])]
    ["blueprint_id"]

def IsSearch : Json → Prop :=
  IsRecord [("blueprint_id", IsText), ("filters", IsListOf IsFilter), ("limit", IsNullOr IsWhole),
    ("offset", IsNullOr IsWhole), ("order_by", IsNullOr IsText),
    ("order_dir", IsNullOr IsDirection)] ["blueprint_id"]

theorem means_search (hfilter : Means f (.reference "#/$defs/Filter") IsFilter)
    (hdirection : Means f (.reference "#/$defs/SortDirection") IsDirection) :
    Means f searchSchema IsSearch := by
  have hchoice : MeanAll f [referring "#/$defs/SortDirection", typed [.null]]
      [IsDirection, fun j => j = .null] := .cons hdirection.single (.cons means_null .nil)
  have horder : Means f (.all [.anyOf [referring "#/$defs/SortDirection", typed [.null]]])
      (IsNullOr IsDirection) := hchoice.anyOf.single.congr fun j => by
    simp only [List.mem_cons, List.not_mem_nil, or_false, exists_eq_or_imp, exists_eq_left, IsNullOr]
    exact or_comm
  exact Schema.means_recordSchema (.cons ⟨rfl, means_text⟩ (.cons ⟨rfl, means_list hfilter.single⟩
    (.cons ⟨rfl, means_nullableWhole⟩ (.cons ⟨rfl, means_nullableWhole⟩
      (.cons ⟨rfl, means_nullableText⟩ (.cons ⟨rfl, horder⟩ .nil)))))) _

def entityDraftSchema : Schema.Compiled :=
  recordSchema [("blueprint_id", typed [.string]), ("data", .all []), ("identifier", typed [.string]),
    ("title", typed [.null, .string])] ["blueprint_id", "identifier"]

def IsEntityDraft : Json → Prop :=
  IsRecord [("blueprint_id", IsText), ("data", IsAnything), ("identifier", IsText),
    ("title", IsNullOr IsText)] ["blueprint_id", "identifier"]

theorem means_entityDraft : Means f entityDraftSchema IsEntityDraft :=
  Schema.means_recordSchema (.cons ⟨rfl, means_text⟩ (.cons ⟨rfl, means_anything⟩
    (.cons ⟨rfl, means_text⟩ (.cons ⟨rfl, means_nullableText⟩ .nil)))) _

def entityPatchSchema : Schema.Compiled :=
  recordSchema [("data", .always), ("title", typed [.null, .string])] []

def IsEntityPatch : Json → Prop := IsRecord [("data", IsAnything), ("title", IsNullOr IsText)] []

theorem means_entityPatch : Means f entityPatchSchema IsEntityPatch :=
  Schema.means_recordSchema (.cons ⟨rfl, Means.always⟩ (.cons ⟨rfl, means_nullableText⟩ .nil)) _

def blueprintDraftSchema : Schema.Compiled :=
  recordSchema [("description", typed [.null, .string]), ("id", typed [.string]),
    ("schema", .all []), ("title", typed [.string])] ["id", "title"]

def IsBlueprintDraft : Json → Prop :=
  IsRecord [("description", IsNullOr IsText), ("id", IsText), ("schema", IsAnything),
    ("title", IsText)] ["id", "title"]

theorem means_blueprintDraft : Means f blueprintDraftSchema IsBlueprintDraft :=
  Schema.means_recordSchema (.cons ⟨rfl, means_nullableText⟩ (.cons ⟨rfl, means_text⟩
    (.cons ⟨rfl, means_anything⟩ (.cons ⟨rfl, means_text⟩ .nil)))) _

def entitySchema : Schema.Compiled :=
  recordSchema [("blueprint_id", typed [.string]), ("created_at", typed [.string]),
    ("data", .always), ("id", typed [.string]), ("identifier", typed [.string]),
    ("tenant_id", typed [.string]), ("title", typed [.null, .string]),
    ("updated_at", typed [.string])]
    ["id", "tenant_id", "blueprint_id", "identifier", "data", "created_at", "updated_at"]

/-- The times are any texts. -/
def IsEntity : Json → Prop :=
  IsRecord [("blueprint_id", IsText), ("created_at", IsText), ("data", IsAnything), ("id", IsText),
    ("identifier", IsText), ("tenant_id", IsText), ("title", IsNullOr IsText),
    ("updated_at", IsText)]
    ["id", "tenant_id", "blueprint_id", "identifier", "data", "created_at", "updated_at"]

theorem means_entity : Means f entitySchema IsEntity :=
  Schema.means_recordSchema (.cons ⟨rfl, means_text⟩ (.cons ⟨rfl, means_text⟩
    (.cons ⟨rfl, Means.always⟩ (.cons ⟨rfl, means_text⟩ (.cons ⟨rfl, means_text⟩
      (.cons ⟨rfl, means_text⟩ (.cons ⟨rfl, means_nullableText⟩
        (.cons ⟨rfl, means_text⟩ .nil)))))))) _

def blueprintSchema : Schema.Compiled :=
  recordSchema [("created_at", typed [.string]), ("description", typed [.null, .string]),
    ("id", typed [.string]), ("schema", .always), ("tenant_id", typed [.string]),
    ("title", typed [.string]), ("updated_at", typed [.string])]
    ["tenant_id", "id", "title", "schema", "created_at", "updated_at"]

def IsBlueprint : Json → Prop :=
  IsRecord [("created_at", IsText), ("description", IsNullOr IsText), ("id", IsText),
    ("schema", IsAnything), ("tenant_id", IsText), ("title", IsText), ("updated_at", IsText)]
    ["tenant_id", "id", "title", "schema", "created_at", "updated_at"]

theorem means_blueprint : Means f blueprintSchema IsBlueprint :=
  Schema.means_recordSchema (.cons ⟨rfl, means_text⟩ (.cons ⟨rfl, means_nullableText⟩
    (.cons ⟨rfl, means_text⟩ (.cons ⟨rfl, Means.always⟩ (.cons ⟨rfl, means_text⟩
      (.cons ⟨rfl, means_text⟩ (.cons ⟨rfl, means_text⟩ .nil))))))) _

def entityPageSchema : Schema.Compiled :=
  recordSchema [("items", listSchema (referring "#/$defs/Entity")), ("limit", countSchema),
    ("offset", countSchema), ("total", countSchema)] ["items", "total", "limit", "offset"]

def IsEntityPage : Json → Prop :=
  IsRecord [("items", IsListOf IsEntity), ("limit", IsCount), ("offset", IsCount),
    ("total", IsCount)] ["items", "total", "limit", "offset"]

theorem means_entityPage (h : Means f (.reference "#/$defs/Entity") IsEntity) :
    Means f entityPageSchema IsEntityPage :=
  Schema.means_recordSchema (.cons ⟨rfl, means_list h.single⟩ (.cons ⟨rfl, means_count⟩
    (.cons ⟨rfl, means_count⟩ (.cons ⟨rfl, means_count⟩ .nil)))) _

end EntityStore.Wire
