import EntityStore.Proofs.Schema.Location
import EntityStore.Schema.Basic
import Mathlib.Data.List.DropRight

/-! # Paths of places in a document

`Location.path` is the notation for the places of a document: keys joined by dots, indices in
brackets, and `$` for the document.  What `fieldPath` gives a place differs from it where a location
starts with empty keys.  These leave no trace, since no dot is written while the path has no
characters (`fieldPath_pointer`).

A missing key is reported where the key would be (`missing_reported_in_place`), unless the path of
the object is `$` although it is not the document, or nothing at all is written of the key.  Where
keys are plain, no two places share a path (`fieldPath_identifies`). -/

namespace EntityStore.Schema

variable {document : Json}

namespace Location

/-! ### The notation -/

/-- Keys with a dot between them, and indices in brackets. -/
def dotted : Location → List Char
  | [] => []
  | .key name :: l => if l = [] then name.toList else dotted l ++ '.' :: name.toList
  | .index i :: l => dotted l ++ '[' :: (Text.natural i ++ [']'])

/-- The location as text, `$` for the root. -/
def path (l : Location) : String :=
  if l = [] then FieldError.rootPath else String.ofList l.dotted

/-- The location without the empty keys that it starts with. -/
def visible (l : Location) : Location := l.rdropWhile (· = .key "")

theorem visible_cons (step : Step) (l : Location) : visible (step :: l) =
    if visible l = [] ∧ step = .key "" then [] else step :: visible l := by
  unfold visible List.rdropWhile
  rw [List.reverse_cons, List.dropWhile_append]
  cases hrest : l.reverse.dropWhile (· = .key "") with
  | nil => by_cases hstep : step = .key "" <;> simp [hstep]
  | cons first rest => simp

/-- Nothing is left out of a location that does not start with an empty key. -/
theorem visible_eq_self {l : Location} (h : l.getLast? ≠ some (.key "")) : l.visible = l := by
  rw [visible, List.rdropWhile_eq_self_iff]
  intro hne hlast
  exact h (by rw [List.getLast?_eq_some_getLast hne, of_decide_eq_true hlast])

/-- What is visible of a location has characters. -/
theorem dotted_visible_eq_nil {l : Location} : l.visible.dotted = [] ↔ l.visible = [] := by
  refine ⟨fun h => ?_, fun h => by rw [h]; rfl⟩
  induction l with
  | nil => rfl
  | cons step l ih =>
      rw [visible_cons] at h ⊢
      by_cases hhidden : visible l = [] ∧ step = .key ""
      · rw [if_pos hhidden]
      · rw [if_neg hhidden] at h
        exfalso
        cases step with
        | index i => simp [dotted] at h
        | key name =>
            by_cases hl : visible l = []
            · have hname : name = "" := by simpa [dotted, hl] using h
              exact hhidden ⟨hl, by rw [hname]⟩
            · simp [dotted, hl] at h

/-- A key is written after a dot, unless it is the first that is written. -/
theorem dotted_visible_key (name : String) (l : Location) :
    dotted (visible (.key name :: l)) =
      (if l.visible.dotted.isEmpty then [] else l.visible.dotted ++ ['.']) ++ name.toList := by
  rw [visible_cons]
  by_cases hl : l.visible = []
  · by_cases hname : name = ""
    · simp [hl, hname, dotted]
    · simp [hl, hname, dotted]
  · have hdotted : l.visible.dotted ≠ [] := fun h => hl (dotted_visible_eq_nil.mp h)
    simp [hl, hdotted, dotted]

theorem dotted_visible_index (i : Nat) (l : Location) :
    dotted (visible (.index i :: l)) = l.visible.dotted ++ '[' :: (Text.natural i ++ [']']) := by
  rw [visible_cons, if_neg (by simp)]
  rfl

/-! ### Walking the document -/

/-- A key is looked up in the object that is reached. -/
theorem pathFrom_key {path : List Char} {fields : Fields} (name : String)
    (rest : List (List Char)) :
    pathFrom path (some (.object fields)) ((Step.key name).piece :: rest) =
      pathFrom ((if path.isEmpty then [] else path ++ ['.']) ++ name.toList)
        (Fields.get? name fields) rest := by
  have hname : unescapePointer (Step.key name).piece = name.toList :=
    unescapePointer_escapePointer name.toList
  rw [pathFrom, hname, String.ofList_toList]
  · rfl
  · exact nofun

theorem pathFrom_index {path : List Char} {items : List Json} (i : Nat)
    (rest : List (List Char)) :
    pathFrom path (some (.array items)) ((Step.index i).piece :: rest) =
      pathFrom (path ++ '[' :: (Text.natural i ++ [']'])) items[i]? rest := by
  have hindex : unescapePointer (Step.index i).piece = Text.natural i := unescapePointer_natural i
  rw [pathFrom, hindex, indexOf?_natural, Option.bind_some]
  simp

/-- The walk along a location comes to its value, and has written what is visible of it. -/
theorem pathFrom_pieces {l : Location} {j : Json} (h : l.value? document = some j)
    (rest : List (List Char)) :
    pathFrom [] (some document) (l.pieces ++ rest) = pathFrom l.visible.dotted (some j) rest := by
  induction l generalizing j rest with
  | nil =>
      cases h
      rfl
  | cons step l ih =>
      obtain ⟨i, hi, hj⟩ := exists_value?_tail h
      rw [pieces_cons, List.append_assoc, List.singleton_append, ih hi]
      obtain ⟨name, fields, rfl, rfl, hget⟩ | ⟨k, items, rfl, rfl, hget⟩ := Step.child?_cases hj
      · rw [pathFrom_key, dotted_visible_key, hget]
      · rw [pathFrom_index, dotted_visible_index, hget]

/-! ### Texts of different locations -/

/-- A text is cut in one way at the last place of a character. -/
theorem eq_and_eq_of_last {c : Char} {as bs as' bs' : List Char} (h : c ∉ bs) (h' : c ∉ bs')
    (heq : as ++ c :: bs = as' ++ c :: bs') : as = as' ∧ bs = bs' := by
  rcases List.append_eq_append_iff.mp heq with ⟨cs, rfl, hcs⟩ | ⟨cs, rfl, hcs⟩
  · cases cs with
    | nil => exact ⟨(List.append_nil as).symm, (List.cons.inj hcs).2⟩
    | cons d cs =>
        have hbs : bs = cs ++ c :: bs' := (List.cons.inj hcs).2
        exact absurd (by simp [hbs]) h
  · cases cs with
    | nil => exact ⟨List.append_nil as', (List.cons.inj hcs).2.symm⟩
    | cons d cs =>
        have hbs : bs' = cs ++ c :: bs := (List.cons.inj hcs).2
        exact absurd (by simp [hbs]) h'

end Location

/-- The key is written so that no notation is mistaken for it. -/
structure PlainKey (name : String) : Prop where
  nonempty : name ≠ ""
  not_root : name ≠ FieldError.rootPath
  no_dot : '.' ∉ name.toList
  no_opening : '[' ∉ name.toList
  no_closing : ']' ∉ name.toList

instance : DecidablePred PlainKey := fun name =>
  decidable_of_iff (name ≠ "" ∧ name ≠ FieldError.rootPath ∧ '.' ∉ name.toList ∧
      '[' ∉ name.toList ∧ ']' ∉ name.toList)
    ⟨fun ⟨hne, hroot, hdot, hopening, hclosing⟩ => ⟨hne, hroot, hdot, hopening, hclosing⟩,
      fun h => ⟨h.nonempty, h.not_root, h.no_dot, h.no_opening, h.no_closing⟩⟩

namespace Location

/-- What ends with a key does not end with a bracket. -/
theorem dotted_key_ne_index {name : String} {l : Location} (h : PlainKey name) (i : Nat)
    (l' : Location) : dotted (.key name :: l) ≠ dotted (.index i :: l') := by
  intro heq
  have hchars : name.toList ≠ [] := fun hnil => h.nonempty (String.toList_eq_nil_iff.mp hnil)
  have hend : ∃ front, dotted (.key name :: l) = front ++ name.toList := by
    unfold dotted
    split
    · exact ⟨[], rfl⟩
    · exact ⟨l.dotted ++ ['.'], by simp⟩
  obtain ⟨front, hfront⟩ := hend
  have hindex : dotted (.index i :: l') = (l'.dotted ++ '[' :: Text.natural i) ++ [']'] := by
    simp [dotted]
  have hlast : (front ++ name.toList).getLast? = some ']' := by
    rw [← hfront, heq, hindex, List.getLast?_concat]
  rw [List.getLast?_append_of_ne_nil front hchars] at hlast
  exact h.no_closing (List.mem_of_getLast? hlast)

/-- A plain key has characters, an index has brackets. -/
theorem dotted_cons_ne_nil {step : Step} (h : ∀ name, step = .key name → PlainKey name)
    (l : Location) : dotted (step :: l) ≠ [] := by
  intro hnil
  cases step with
  | index i => simp [dotted] at hnil
  | key name =>
      by_cases hl : l = []
      · have hname : name = "" := by simpa [dotted, hl] using hnil
        exact (h name rfl).nonempty hname
      · simp [dotted, hl] at hnil

/-- A dot stands in front of a key that is not the first. -/
theorem dot_mem_dotted (name : String) {l : Location} (h : l ≠ []) :
    '.' ∈ dotted (.key name :: l) := by
  simp [dotted, h]

theorem key_eq_of_dotted {name name' : String} {l l' : Location} (hname : PlainKey name)
    (hname' : PlainKey name') (heq : dotted (.key name :: l) = dotted (.key name' :: l')) :
    name = name' ∧ l.dotted = l'.dotted := by
  by_cases hl : l = []
  · rw [hl] at heq ⊢
    by_cases hl' : l' = []
    · rw [hl'] at heq ⊢
      exact ⟨String.toList_inj.mp heq, rfl⟩
    · have hmem := dot_mem_dotted name' hl'
      rw [← heq] at hmem
      exact absurd hmem hname.no_dot
  · by_cases hl' : l' = []
    · have hmem := dot_mem_dotted name hl
      rw [heq, hl'] at hmem
      exact absurd hmem hname'.no_dot
    · have hboth : l.dotted ++ '.' :: name.toList = l'.dotted ++ '.' :: name'.toList := by
        rw [dotted, if_neg hl, dotted, if_neg hl'] at heq
        exact heq
      obtain ⟨hrest, hlast⟩ := eq_and_eq_of_last hname.no_dot hname'.no_dot hboth
      exact ⟨String.toList_inj.mp hlast, hrest⟩

theorem index_eq_of_dotted {i i' : Nat} {l l' : Location}
    (heq : dotted (.index i :: l) = dotted (.index i' :: l')) : i = i' ∧ l.dotted = l'.dotted := by
  have hbracket : ∀ n : Nat, '[' ∉ Text.natural n ++ [']'] := by
    intro n
    simp [not_mem_natural (n := n) (c := '[') rfl]
  obtain ⟨hrest, hlast⟩ := eq_and_eq_of_last (hbracket i) (hbracket i') heq
  have hdigits : Text.natural i = Text.natural i' := List.append_cancel_right hlast
  refine ⟨?_, hrest⟩
  rw [← Text.digitsValue_natural i, hdigits, Text.digitsValue_natural]

/-- Locations of plain keys and indices have different texts. -/
theorem dotted_injective : ∀ {l l' : Location}, (∀ name, .key name ∈ l → PlainKey name) →
    (∀ name, .key name ∈ l' → PlainKey name) → l.dotted = l'.dotted → l = l'
  | [], [], _, _, _ => rfl
  | [], step :: l', _, h', heq =>
    absurd heq.symm (dotted_cons_ne_nil (fun name hstep => h' name (hstep ▸ List.mem_cons_self)) l')
  | step :: l, [], h, _, heq =>
    absurd heq (dotted_cons_ne_nil (fun name hstep => h name (hstep ▸ List.mem_cons_self)) l)
  | .key name :: l, .key name' :: l', h, h', heq => by
      obtain ⟨rfl, hrest⟩ :=
        key_eq_of_dotted (h name List.mem_cons_self) (h' name' List.mem_cons_self) heq
      rw [dotted_injective (fun n hn => h n (List.mem_cons_of_mem _ hn))
        (fun n hn => h' n (List.mem_cons_of_mem _ hn)) hrest]
  | .index i :: l, .index i' :: l', h, h', heq => by
      obtain ⟨rfl, hrest⟩ := index_eq_of_dotted heq
      rw [dotted_injective (fun n hn => h n (List.mem_cons_of_mem _ hn))
        (fun n hn => h' n (List.mem_cons_of_mem _ hn)) hrest]
  | .key name :: l, .index i :: l', h, _, heq =>
    absurd heq (dotted_key_ne_index (h name List.mem_cons_self) i l')
  | .index i :: l, .key name :: l', _, h', heq =>
    absurd heq.symm (dotted_key_ne_index (h' name List.mem_cons_self) i l)

/-- Only the root, and a key that looks like it, have the path of the root. -/
theorem path_eq_rootPath_iff {l : Location} :
    l.path = FieldError.rootPath ↔ l = [] ∨ l = [.key "$"] := by
  cases l with
  | nil => exact iff_of_true rfl (.inl rfl)
  | cons step l =>
      have hpath : path (step :: l) = FieldError.rootPath ↔ dotted (step :: l) = ['$'] := by
        rw [path, if_neg (List.cons_ne_nil step l), FieldError.rootPath, ← String.toList_inj]
        simp
      rw [hpath]
      constructor
      · intro h
        cases step with
        | index i =>
            have hmem : '[' ∈ dotted (.index i :: l) := by simp [dotted]
            rw [h] at hmem
            exact absurd hmem (by decide)
        | key name =>
            by_cases hl : l = []
            · have hname : name = "$" := by
                have hchars : name.toList = ['$'] := by simpa [dotted, hl] using h
                exact String.toList_inj.mp hchars
              exact .inr (by rw [hname, hl])
            · have hmem := dot_mem_dotted name hl
              rw [h] at hmem
              exact absurd hmem (by decide)
      · rintro (h | h)
        · exact absurd h (List.cons_ne_nil step l)
        · rw [h]
          rfl

end Location

/-! ### Keys of a document -/

mutual
/-- The keys of a document, at every depth. -/
def keysIn : Json → List String
  | .object fields => keysInFields fields
  | .array items => keysInItems items
  | _ => []

def keysInFields : List (String × Json) → List String
  | [] => []
  | (name, j) :: rest => name :: (keysIn j ++ keysInFields rest)

def keysInItems : List Json → List String
  | [] => []
  | j :: rest => keysIn j ++ keysInItems rest
end

theorem mem_keysInFields {name : String} {j : Json} {fields : Fields}
    (h : Fields.get? name fields = some j) :
    name ∈ keysInFields fields ∧ keysIn j ⊆ keysInFields fields := by
  induction fields with
  | nil => cases h
  | cons field rest ih =>
      obtain ⟨key, i⟩ := field
      rw [Fields.get?] at h
      rw [keysInFields]
      by_cases hkey : key = name
      · rw [if_pos hkey] at h
        cases h
        exact ⟨by simp [hkey], fun k hk => by simp [hk]⟩
      · rw [if_neg hkey] at h
        obtain ⟨hmem, hsub⟩ := ih h
        exact ⟨by simp [hmem], fun k hk => by simp [hsub hk]⟩

theorem keysIn_item {i : Nat} {j : Json} {items : List Json} (h : items[i]? = some j) :
    keysIn j ⊆ keysInItems items := by
  induction items generalizing i with
  | nil => cases h
  | cons item rest ih =>
      intro k hk
      rw [keysInItems, List.mem_append]
      cases i with
      | zero =>
          cases h
          exact .inl hk
      | succ i => exact .inr (ih h hk)

/-- One step down there are no other keys. -/
theorem keysIn_child {step : Step} {i j : Json} (h : step.child? i = some j) :
    keysIn j ⊆ keysIn i ∧ ∀ name, step = .key name → name ∈ keysIn i := by
  obtain ⟨name, fields, rfl, rfl, hget⟩ | ⟨k, items, rfl, rfl, hget⟩ := Step.child?_cases h
  · obtain ⟨hmem, hsub⟩ := mem_keysInFields hget
    refine ⟨hsub, fun other hother => ?_⟩
    cases hother
    exact hmem
  · exact ⟨keysIn_item hget, nofun⟩

/-- The keys of a place's location, and those below it, are keys of the document. -/
theorem keysIn_value? {l : Location} {j : Json} (h : l.value? document = some j) :
    keysIn j ⊆ keysIn document ∧ ∀ name, .key name ∈ l → name ∈ keysIn document := by
  induction l generalizing j with
  | nil =>
      cases h
      exact ⟨List.Subset.refl _, nofun⟩
  | cons step l ih =>
      obtain ⟨i, hi, hj⟩ := Location.exists_value?_tail h
      obtain ⟨hsub, hkeys⟩ := ih hi
      obtain ⟨hchild, hname⟩ := keysIn_child hj
      refine ⟨List.Subset.trans hchild hsub, fun name hmem => ?_⟩
      rcases List.mem_cons.mp hmem with heq | hmem
      · exact hsub (hname name heq.symm)
      · exact hkeys name hmem

/-! ### Paths of places -/

theorem fieldPath_of_walk {l : Location}
    (h : pathFrom [] (some document) l.pieces = l.visible.dotted) :
    fieldPath document l.pointer = l.visible.path := by
  rw [fieldPath, l.splitAt_pointer, List.tail_cons, h, Location.path]
  by_cases hl : l.visible = []
  · rw [if_pos hl, hl]
    rfl
  · have hdotted : l.visible.dotted ≠ [] := fun hnil => hl (Location.dotted_visible_eq_nil.mp hnil)
    rw [if_neg hl]
    simp [hdotted]

/-- The path of a place shows the location without the empty keys that it starts with. -/
theorem fieldPath_pointer {l : Location} {j : Json} (h : l.value? document = some j) :
    fieldPath document l.pointer = l.visible.path := by
  apply fieldPath_of_walk
  have hwalk := Location.pathFrom_pieces h []
  rwa [List.append_nil] at hwalk

/-- So does the path of a key of an object, although there may be no such key. -/
theorem fieldPath_key {l : Location} {fields : Fields} (name : String)
    (h : l.value? document = some (.object fields)) :
    fieldPath document (Location.pointer (.key name :: l)) =
      (Location.visible (.key name :: l)).path := by
  apply fieldPath_of_walk
  rw [Location.pieces_cons, Location.pathFrom_pieces h, Location.pathFrom_key,
    Location.dotted_visible_key]
  rfl

theorem path_visible_key (name : String) {l : Location} (h : l.visible ≠ []) :
    (Location.visible (.key name :: l)).path = l.visible.path ++ "." ++ name := by
  have hkey : Location.visible (.key name :: l) = .key name :: l.visible := by
    rw [Location.visible_cons, if_neg fun hboth => h hboth.1]
  rw [hkey, Location.path, if_neg (List.cons_ne_nil _ _), Location.path, if_neg h,
    ← String.toList_inj]
  simp [Location.dotted, h]

/-- The name of a key is joined to the path of the object as the key is written in its own path,
except where the object is taken for the document, or where the key alone is written and is empty. -/
theorem joinPath_visible_iff (l : Location) (name : String) :
    joinPath l.visible.path name = (Location.visible (.key name :: l)).path ↔
      l.visible ≠ [.key "$"] ∧ ¬ (l.visible = [] ∧ name = "") := by
  have hroot := Location.path_eq_rootPath_iff (l := l.visible)
  rw [joinPath]
  by_cases hnil : l.visible = []
  · rw [if_pos (hroot.mpr (.inl hnil)), Location.visible_cons, hnil]
    by_cases hname : name = ""
    · simp [hname, Location.path, FieldError.rootPath]
    · simp [hname, Location.path, Location.dotted]
  · rw [path_visible_key name hnil]
    by_cases hdollar : l.visible = [.key "$"]
    · rw [if_pos (hroot.mpr (.inr hdollar)), hroot.mpr (.inr hdollar)]
      refine iff_of_false (fun heq => ?_) fun h => h.1 hdollar
      have hlength := congrArg String.length heq
      simp only [String.length_append, FieldError.rootPath] at hlength
      have hone : "$".length = 1 := rfl
      omega
    · have hother : l.visible.path ≠ FieldError.rootPath := fun h => (hroot.mp h).elim hnil hdollar
      rw [if_neg hother]
      simp [hdollar, hnil]

/-- What is reported of a missing key has the path that is reported of a fault of the key itself.
There are two exceptions.  One is the object under the key `$`, which is taken for the document, so
that the key is reported without the object.  The other is an empty key where nothing is written in
front of it: the path reported of the missing key is empty, that of the key is the one of the
document. -/
theorem missing_reported_in_place {v w : Violation} {fields : Fields} {name : String}
    (hobject : v.location.value? document = some (.object fields))
    (hmissing : v.fault.missing? = some name) (hplace : w.location = .key name :: v.location)
    (hpresent : w.fault.missing? = none) :
    (v.fieldError document).path = (w.fieldError document).path ↔
      v.location.visible ≠ [.key "$"] ∧ ¬ (v.location.visible = [] ∧ name = "") := by
  have hv : (v.fieldError document).path = joinPath v.location.visible.path name := by
    rw [Violation.fieldError, hmissing, fieldPath_pointer hobject]
  have hw : (w.fieldError document).path = (Location.visible (.key name :: v.location)).path := by
    rw [Violation.fieldError, hpresent, hplace, fieldPath_key name hobject]
  rw [hv, hw]
  exact joinPath_visible_iff v.location name

/-- The owners of a service, the second one without a name. -/
def ownersDocument : Json :=
  .object [("owners", .array [.object [("name", .string "ann")], .object []])]

theorem missing_reported_in_place_owner :
    (Violation.fieldError ownersDocument
        ⟨[.index 1, .key "owners"], .object [], .check (.present "name")⟩).path =
      (Violation.fieldError ownersDocument
        ⟨[.key "name", .index 1, .key "owners"], .null, .never⟩).path := by
  have hobject : Location.value? [.index 1, .key "owners"] ownersDocument = some (.object []) := rfl
  exact (missing_reported_in_place (v := ⟨[.index 1, .key "owners"], _, _⟩) hobject rfl rfl rfl).mpr
    ⟨by decide, by decide⟩

/-- A key that is missing below the key `$` is reported as a key of the document. -/
theorem missing_reported_at_root :
    Location.value? [.key "$"] (.object [("$", .object [])]) = some (.object []) ∧
    joinPath (fieldPath (.object [("$", .object [])]) (Location.pointer [.key "$"])) "n" = "n" ∧
    fieldPath (.object [("$", .object [])]) (Location.pointer [.key "n", .key "$"]) = "$.n" := by
  decide +kernel

/-! ### Paths of different places -/

/-- The path of a place shows its location, with keys as they are in the document: all of it, or what
is left without the empty keys that it starts with.  If no key of the document is empty, is `$` or
has a mark of the notation, it shows all of the location, only the root has the path `$`, and
different places have different paths. -/
theorem fieldPath_identifies (document : Json) :
    (∀ l j, Location.value? l document = some j →
      fieldPath document l.pointer = l.visible.path ∧
        (l.getLast? ≠ some (.key "") → fieldPath document l.pointer = l.path)) ∧
    ((∀ name ∈ keysIn document, PlainKey name) →
      (∀ l j, Location.value? l document = some j →
        fieldPath document l.pointer = l.path ∧
          (fieldPath document l.pointer = "$" ↔ l = [])) ∧
      ∀ l j l' j', Location.value? l document = some j → Location.value? l' document = some j' →
        fieldPath document l.pointer = fieldPath document l'.pointer → l = l') := by
  refine ⟨fun l j h => ⟨fieldPath_pointer h, fun hlast => ?_⟩, fun hplain => ?_⟩
  · rw [fieldPath_pointer h, Location.visible_eq_self hlast]
  have hkeys : ∀ l j, Location.value? l document = some j → ∀ name, .key name ∈ l → PlainKey name :=
    fun l j h name hmem => hplain name ((keysIn_value? h).2 name hmem)
  have hpath : ∀ l j, Location.value? l document = some j →
      fieldPath document l.pointer = l.path := by
    intro l j h
    have hlast : l.getLast? ≠ some (.key "") := fun hlast =>
      (hkeys l j h "" (List.mem_of_getLast? hlast)).nonempty rfl
    rw [fieldPath_pointer h, Location.visible_eq_self hlast]
  have hroot : ∀ l j, Location.value? l document = some j → (l.path = "$" ↔ l = []) := by
    intro l j h
    refine ⟨fun hl => ?_, fun hl => by rw [hl]; rfl⟩
    rcases Location.path_eq_rootPath_iff.mp hl with hl | hl
    · exact hl
    · exact absurd rfl (hkeys l j h "$" (by simp [hl])).not_root
  refine ⟨fun l j h => ⟨hpath l j h, by rw [hpath l j h]; exact hroot l j h⟩, ?_⟩
  intro l j l' j' h h' heq
  rw [hpath l j h, hpath l' j' h'] at heq
  by_cases hl : l = []
  · have hl' : l'.path = "$" := by rw [← heq, hl]; rfl
    rw [hl, (hroot l' j' h').mp hl']
  · have hl' : l' ≠ [] := fun hnil => hl ((hroot l j h).mp (by rw [heq, hnil]; rfl))
    rw [Location.path, if_neg hl, Location.path, if_neg hl', String.ofList_inj] at heq
    exact Location.dotted_injective (hkeys l j h) (hkeys l' j' h') heq

/-- Ports by their numbers, under a key that has to be escaped in pointers. -/
def portsDocument : Json :=
  .object [("tcp/~1", .array [.null, .object [("80", .number (.integer 1))]])]

/-- A key with the text of an escaped slash comes back as it was, and the key `80` is no index. -/
theorem fieldPath_identifies_ports :
    fieldPath portsDocument "/tcp~1~01/1/80".toList = "tcp/~1[1].80" ∧
    fieldPath portsDocument "/tcp~1~01".toList ≠ "$" := by
  have hplain : ∀ name ∈ keysIn portsDocument, PlainKey name :=
    show ∀ name ∈ ["tcp/~1", "80"], PlainKey name by decide
  obtain ⟨hpath, -⟩ := (fieldPath_identifies portsDocument).2 hplain
  have hlist := (hpath [.key "tcp/~1"] _ rfl).2
  exact ⟨(hpath [.key "80", .index 1, .key "tcp/~1"] _ rfl).1, fun h => nomatch hlist.mp h⟩

/-- No dot is written after an empty key that stands first. -/
theorem fieldPath_after_empty_key :
    Location.value? [.key "a", .key ""] (.object [("", .object [("a", .null)])]) = some .null ∧
    fieldPath (.object [("", .object [("a", .null)])]) (Location.pointer [.key "a", .key ""]) = "a" ∧
    Location.path [.key "a", .key ""] = ".a" := by
  decide +kernel

end EntityStore.Schema
