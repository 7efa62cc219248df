import EntityStore.Config.Sources
import EntityStore.Proofs.Config.Layers

/-! # The tables that are read are in order

A layer is read from a file or from a variable.  Whatever their text is, the entries of the layer are
ascending by name, and so are those of its tables (`proper_fileLayer`, `proper_variableLayer`), so no
entry is hidden by another one. -/

namespace EntityStore.Config

theorem Setting.proper_of_ne_table {s : Setting} (h : ∀ entries, s ≠ .table entries) : s.Proper :=
  fun entries heq => absurd heq (h entries)

theorem Setting.proper_table {entries : Layer} (h : entries.Ascending) :
    (Setting.table entries).Proper := by
  rintro _ ⟨⟩
  exact h

namespace Layer

theorem proper_empty : Proper empty := ⟨ascending_empty, nofun⟩

theorem proper_singleton {name : String} {s : Setting} (h : s.Proper) : Proper [(name, s)] :=
  ⟨List.pairwise_singleton _ _, List.forall_mem_singleton.mpr h⟩

theorem Proper.set {l : Layer} (hl : l.Proper) {name : String} {s : Setting} (hs : s.Proper) :
    (l.set name s).Proper where
  ascending := hl.ascending.set
  tables e he := by
    rcases mem_set he with rfl | he
    · exact hs
    · exact hl.tables e he

/-- Entries are set one after the other. -/
theorem Proper.foldl_set {entries : List (String × Setting)} (h : ∀ e ∈ entries, e.2.Proper)
    {l : Layer} (hl : l.Proper) : (entries.foldl (fun l e => l.set e.1 e.2) l).Proper := by
  induction entries generalizing l with
  | nil => exact hl
  | cons e rest ih =>
      obtain ⟨he, hrest⟩ := List.forall_mem_cons.mp h
      exact ih hrest (hl.set he)

theorem proper_overlaid {lower : Option Setting} {s : Setting} (hlower : ∀ x ∈ lower, x.Proper)
    (hs : s.Proper) : (overlaid lower s).Proper := by
  cases s with
  | table entries =>
      cases lower with
      | none => exact hs
      | some below =>
          cases below with
          | table lower =>
              rw [overlaid, Setting.overlay]
              exact Setting.proper_table (Ascending.overlay (hlower _ rfl _ rfl))
          | text _ | flag _ | integer _ | decimal | list _ => exact hs
  | text _ | flag _ | integer _ | decimal | list _ =>
      rw [overlaid_of_ne_table fun _ heq => by cases heq]
      exact hs

theorem Proper.overlay {lower upper : Layer} (hlower : lower.Proper)
    (hupper : ∀ e ∈ upper, e.2.Proper) : (lower.overlay upper).Proper := by
  induction upper generalizing lower with
  | nil => exact hlower
  | cons e rest ih =>
      obtain ⟨name, s⟩ := e
      obtain ⟨hs, hrest⟩ := List.forall_mem_cons.mp hupper
      have hbelow : ∀ x ∈ lower.get? name, x.Proper := fun x hx =>
        hlower.tables _ (mem_of_get? hx)
      rw [Layer.overlay]
      exact ih (hlower.set (proper_overlaid hbelow hs)) hrest

theorem proper_stack {layers : List Layer} (h : ∀ l ∈ layers, l.Proper) : (stack layers).Proper := by
  have hfold : ∀ {lower : Layer}, lower.Proper → (layers.foldl Layer.overlay lower).Proper := by
    intro lower hlower
    induction layers generalizing lower with
    | nil => exact hlower
    | cons l rest ih =>
        obtain ⟨hl, hrest⟩ := List.forall_mem_cons.mp h
        exact ih hrest (hlower.overlay hl.tables)
  exact hfold proper_empty

end Layer

/-! ### Variables -/

/-- What holds of every item that is read holds of all of them. -/
theorem readItems?_forall {α : Type} {item : List Char → Option (α × List Char)} {close : Char}
    {P : α → Prop} (hitem : ∀ {cs a rest}, item cs = some (a, rest) → P a) :
    ∀ {fuel cs as rest}, readItems? item close fuel cs = some (as, rest) → ∀ a ∈ as, P a
  | fuel + 1, cs, as, rest, h => by
      rw [readItems?] at h
      split at h
      · cases h
        exact nofun
      · split at h
        · cases h
        · next a more hread =>
            obtain ⟨⟨items, rest'⟩, hitems, heq⟩ := Option.map_eq_some_iff.mp h
            cases heq
            exact List.forall_mem_cons.mpr ⟨hitem hread, readItems?_forall hitem hitems⟩
        · next a more _ hread =>
            obtain ⟨rest', -, heq⟩ := Option.map_eq_some_iff.mp h
            cases heq
            exact List.forall_mem_singleton.mpr (hitem hread)

/-- The value of an entry is what is read after the equals sign. -/
theorem readAssigned?_eq_some {value : List Char → Option (Setting × List Char)} {cs rest : List Char}
    {e : String × Setting} (h : readAssigned? value cs = some (e, rest)) :
    ∃ after, value after = some (e.2, rest) := by
  rw [readAssigned?] at h
  split at h
  · cases h
  · split at h
    · next after _ =>
        obtain ⟨⟨s, rest'⟩, hvalue, heq⟩ := Option.map_eq_some_iff.mp h
        cases heq
        exact ⟨after, hvalue⟩
    · cases h

/-- A value that is read is no table, or one of values that are read. -/
theorem readValue?_cases {fuel depth : Nat} {cs rest : List Char} {s : Setting}
    (h : readValue? fuel (depth + 1) cs = some (s, rest)) :
    (∀ entries, s ≠ .table entries) ∨
      ∃ entries, s = tableOf entries ∧
        ∀ e ∈ entries, ∃ cs rest, readValue? fuel depth cs = some (e.2, rest) := by
  rw [readValue?] at h
  split at h
  · cases h
    exact .inl fun _ heq => by cases heq
  · cases h
    exact .inl fun _ heq => by cases heq
  · obtain ⟨_, -, heq⟩ := Option.map_eq_some_iff.mp h
    cases heq
    exact .inl fun _ heq => by cases heq
  · cases h
    exact .inl fun _ heq => by cases heq
  · cases h
  · obtain ⟨_, -, heq⟩ := Option.map_eq_some_iff.mp h
    cases heq
    exact .inl fun _ heq => by cases heq
  · obtain ⟨⟨entries, more⟩, hentries, heq⟩ := Option.map_eq_some_iff.mp h
    cases heq
    refine .inr ⟨entries, rfl, readItems?_forall (fun {cs e rest} he => ?_) hentries⟩
    obtain ⟨after, hafter⟩ := readAssigned?_eq_some he
    exact ⟨after, rest, hafter⟩
  · cases h
    refine .inl fun entries => ?_
    rw [wordSetting]
    split
    · exact fun heq => by cases heq
    · split <;> exact fun heq => by cases heq

/-- A table that is read is in order, and so are its tables. -/
theorem proper_of_readValue? {fuel : Nat} : ∀ {depth : Nat} {cs rest : List Char} {s : Setting},
    readValue? fuel depth cs = some (s, rest) → ∀ entries, s = .table entries → Layer.Proper entries
  | depth + 1, cs, rest, s, h, entries, hs => by
      obtain hnot | ⟨given, rfl, hgiven⟩ := readValue?_cases h
      · exact absurd hs (hnot entries)
      · cases hs
        refine Layer.Proper.foldl_set (fun e he => ?_) Layer.proper_empty
        obtain ⟨_, _, hread⟩ := hgiven e he
        exact fun entries heq => (proper_of_readValue? hread entries heq).ascending

theorem proper_readVariable {value : String} {entries : Layer}
    (h : readVariable value = .table entries) : entries.Proper := by
  rw [readVariable] at h
  split at h
  · next hread => exact proper_of_readValue? hread entries h
  · cases h

/-- What a variable assigns. -/
def variableLayer (v : String × String) : Layer :=
  match settingPath? v.1 with
  | none => .empty
  | some path =>
    match (readVariable v.2).nested path with
    | .table entries => entries
    | _ => .empty

theorem Setting.proper_nested {s : Setting} (h : s.Proper) : ∀ path, (s.nested path).Proper
  | [] => h
  | _ :: _ => proper_table (List.pairwise_singleton _ _)

theorem proper_variableLayer (v : String × String) : (variableLayer v).Proper := by
  have hvalue : (readVariable v.2).Proper := fun entries h => (proper_readVariable h).ascending
  rw [variableLayer]
  split
  · exact Layer.proper_empty
  · next path _ =>
      cases path with
      | nil =>
          split
          · next h => exact proper_readVariable h
          · exact Layer.proper_empty
      | cons name path => exact Layer.proper_singleton (Setting.proper_nested hvalue path)

/-- An environment is a stack of its variables. -/
theorem layer_eq_stack (env : Environment) : env.layer = Layer.stack (env.map variableLayer) := by
  have hadd : ∀ (l : Layer) (v : String × String),
      l.addVariable v.1 v.2 = l.overlay (variableLayer v) := by
    intro l v
    rw [Layer.addVariable, variableLayer]
    cases settingPath? v.1 with
    | none => rfl
    | some path =>
        dsimp only
        cases (readVariable v.2).nested path <;> rfl
  rw [Environment.layer, Layer.stack, List.foldl_map]
  simp only [hadd]

end EntityStore.Config

/-! ### Files -/

namespace EntityStore.Toml

open Config (Layer Setting)

/-! Tables of a file become settings at the end of the text, where their entries are put in order.  A
value that stands in the table of the whole file was read as a value, so it is in order before. -/

namespace Entries

/-- The values among the entries are in order. -/
def Tidy (entries : Entries) : Prop := ∀ name s, (name, Item.value s) ∈ entries → s.Proper

variable {entries entries' : Entries} {name : String} {item : Item}

theorem mem_put {e : String × Item} : ∀ {entries : Entries},
    e ∈ put name item entries → e = (name, item) ∨ e ∈ entries
  | [], h => .inl (List.mem_singleton.mp h)
  | (n, i) :: rest, h => by
      rw [put] at h
      split at h
      · exact (List.mem_cons.mp h).imp_right (List.mem_cons_of_mem _)
      · rcases List.mem_cons.mp h with rfl | h
        · exact .inr List.mem_cons_self
        · exact (mem_put h).imp_right (List.mem_cons_of_mem _)

theorem Tidy.put (h : entries.Tidy) (hitem : ∀ s, item = .value s → s.Proper) :
    (put name item entries).Tidy := by
  intro n s hmem
  rcases mem_put hmem with heq | hmem
  · obtain ⟨-, heq⟩ := Prod.mk.inj heq
    exact hitem s heq.symm
  · exact h n s hmem

/-- A change inside a table is no change of the values at hand. -/
theorem Tidy.within? (h : entries.Tidy) {dotted : Bool} {change : Origin → Entries → Option Entries}
    {path : List String} {origin : Origin}
    (hchange : ∀ {entries'}, change origin entries = some entries' → entries'.Tidy)
    (hwithin : Entries.within? dotted change path origin entries = some entries') :
    entries'.Tidy := by
  cases path with
  | nil => exact hchange hwithin
  | cons name path =>
      rw [Entries.within?] at hwithin
      split at hwithin
      · dsimp only at hwithin
        split at hwithin
        · cases hwithin
          exact h.put nofun
        · cases hwithin
      · cases hwithin
      · split at hwithin
        · cases hwithin
          exact h.put nofun
        · cases hwithin
      · split at hwithin
        · cases hwithin
        · split at hwithin
          · cases hwithin
            exact h.put nofun
          · cases hwithin

theorem Tidy.assign? (h : entries.Tidy) {path : List String} {s : Setting} (hs : s.Proper)
    (hassign : Entries.assign? path name s entries = some entries') : entries'.Tidy := by
  refine h.within? (fun {inner} hinner => ?_) hassign
  split at hinner
  · cases hinner
  · split at hinner
    · cases hinner
    · cases hinner
      exact h.put fun s' heq => by cases heq; exact hs

theorem Tidy.openTable? (h : entries.Tidy) {path : List String}
    (hopen : Entries.openTable? path name entries = some entries') : entries'.Tidy := by
  refine h.within? (fun {inner} hinner => ?_) hopen
  split at hinner
  · cases hinner
    exact h.put nofun
  · cases hinner
    exact h.put nofun
  · cases hinner

theorem Tidy.openRow? (h : entries.Tidy) {path : List String}
    (hopen : Entries.openRow? path name entries = some entries') : entries'.Tidy := by
  refine h.within? (fun {inner} hinner => ?_) hopen
  split at hinner
  · cases hinner
    exact h.put nofun
  · cases hinner
    exact h.put nofun
  · cases hinner

theorem ascending_settings : ∀ entries : List (String × Item),
    Layer.Ascending (Entries.settings entries)
  | [] => Layer.ascending_empty
  | (name, item) :: rest => by
      rw [settings]
      exact (ascending_settings rest).set

theorem proper_settings : ∀ {entries : List (String × Item)}, Tidy entries →
    Layer.Proper (Entries.settings entries)
  | [], _ => Layer.proper_empty
  | (name, item) :: rest, h => by
      rw [settings]
      refine (proper_settings fun n s hs => h n s (List.mem_cons_of_mem _ hs)).set ?_
      cases item with
      | value s =>
          rw [Item.setting]
          exact h name s List.mem_cons_self
      | table origin entries =>
          rw [Item.setting]
          exact Setting.proper_table (ascending_settings entries)
      | rows latest earlier =>
          rw [Item.setting]
          exact Setting.proper_of_ne_table nofun

end Entries

/-! ### Values and statements -/

/-- A moment is read as a table without entries. -/
theorem proper_of_readNumber? {cs rest : List Char} {s : Setting}
    (h : readNumber? cs = some (s, rest)) : s.Proper := by
  have hempty : (Setting.table []).Proper := Setting.proper_table Layer.ascending_empty
  have hinteger : ∀ {x : Option Int} {more : List Char},
      x.map (fun i => (Setting.integer i, more)) = some (s, rest) → s.Proper := by
    intro x more hx
    obtain ⟨i, -, heq⟩ := Option.map_eq_some_iff.mp hx
    cases heq
    exact Setting.proper_of_ne_table nofun
  have hradix : ∀ {radix : Nat} {cs : List Char}, readRadix? radix cs = some (s, rest) → s.Proper := by
    intro radix cs hx
    rw [readRadix?] at hx
    split at hx
    · exact hinteger hx
    · cases hx
  rw [readNumber?] at h
  split at h
  · next found hmoment =>
      cases h
      rw [readMoment?] at hmoment
      split at hmoment
      · cases hmoment
        exact hempty
      · obtain ⟨_, -, heq⟩ := Option.map_eq_some_iff.mp hmoment
        cases heq
        exact hempty
  · split at h
    · split at h
      · cases h
        exact Setting.proper_of_ne_table nofun
      · cases h
    · obtain h | ⟨-, h⟩ := Option.or_eq_some_iff.mp h
      · rw [readSpecial?] at h
        split at h
        · cases h
          exact Setting.proper_of_ne_table nofun
        · cases h
          exact Setting.proper_of_ne_table nofun
        · cases h
      · rw [readInteger?.eq_def] at h
        split at h
        · exact hradix h
        · exact hradix h
        · exact hradix h
        · dsimp only at h
          split at h
          · exact hinteger h
          · cases h

theorem proper_of_readScalar? {cs rest : List Char} {s : Setting}
    (h : readScalar? cs = some (s, rest)) : s.Proper := by
  rw [readScalar?.eq_def] at h
  split at h
  · cases h
    exact Setting.proper_of_ne_table nofun
  · cases h
    exact Setting.proper_of_ne_table nofun
  · split at h
    · cases h
      exact Setting.proper_of_ne_table nofun
    · exact proper_of_readNumber? h

theorem proper_of_readValue? {fuel limit : Nat} {cs rest : List Char} {s : Setting}
    (h : readValue? fuel limit cs = some (s, rest)) : s.Proper := by
  rw [readValue?.eq_def] at h
  split at h
  · exact proper_of_readScalar? h
  · split at h
    · obtain ⟨_, -, heq⟩ := Option.map_eq_some_iff.mp h
      cases heq
      exact Setting.proper_of_ne_table nofun
    · split at h
      · cases h
        exact Setting.proper_table Layer.ascending_empty
      · split at h
        · obtain ⟨table, htable, heq⟩ := Option.map_eq_some_iff.mp h
          cases heq
          obtain ⟨entries, -, rfl⟩ := Option.map_eq_some_iff.mp htable
          exact Setting.proper_table (Entries.ascending_settings entries)
        · cases h
    · exact proper_of_readScalar? h

/-- The value of a statement is in order. -/
def Statement.Proper : Statement → Prop
  | .assign _ value => value.Proper
  | .table _ | .row _ => True

theorem proper_of_readStatement? {cs rest : List Char} {statement : Statement}
    (h : readStatement? cs = some (statement, rest)) : statement.Proper := by
  rw [readStatement?.eq_def] at h
  split at h
  · rw [readRowHeader?] at h
    split at h
    · cases h
      trivial
    · cases h
  · rw [readTableHeader?] at h
    split at h
    · cases h
      trivial
    · cases h
  · obtain ⟨⟨⟨key, value⟩, more⟩, hassignment, heq⟩ := Option.map_eq_some_iff.mp h
    cases heq
    rw [readAssignment?] at hassignment
    split at hassignment
    · obtain ⟨⟨value', more'⟩, hvalue, heq⟩ := Option.map_eq_some_iff.mp hassignment
      cases heq
      exact proper_of_readValue? hvalue
    · cases hassignment

theorem proper_of_readStatements? : ∀ {fuel : Nat} {cs : List Char} {statements : List Statement},
    readStatements? fuel cs = some statements → ∀ statement ∈ statements, statement.Proper
  | fuel + 1, cs, statements, h => by
      rw [readStatements?] at h
      split at h
      · cases h
        exact nofun
      · split at h
        · exact proper_of_readStatements? h
        · split at h
          · cases h
          · next hstatement =>
              split at h
              · cases h
                exact List.forall_mem_singleton.mpr (proper_of_readStatement? hstatement)
              · split at h
                · obtain ⟨more, hmore, rfl⟩ := Option.map_eq_some_iff.mp h
                  exact List.forall_mem_cons.mpr
                    ⟨proper_of_readStatement? hstatement, proper_of_readStatements? hmore⟩
                · cases h

/-! ### Documents -/

theorem tidy_assignKey? {entries entries' : Entries} (h : entries.Tidy) {key : List String}
    {value : Setting} (hvalue : value.Proper)
    (hassign : assignKey? entries (key, value) = some entries') : entries'.Tidy := by
  rw [assignKey?] at hassign
  split at hassign
  · exact h.assign? hvalue hassign
  · cases hassign

theorem Document.tidy_after? {d d' : Document} (h : d.entries.Tidy) {statement : Statement}
    (hstatement : statement.Proper) (hafter : d.after? statement = some d') : d'.entries.Tidy := by
  cases statement with
  | assign key value =>
      obtain ⟨entries, hentries, rfl⟩ := Option.map_eq_some_iff.mp hafter
      exact h.within? (tidy_assignKey? h hstatement) hentries
  | table key =>
      rw [after?] at hafter
      split at hafter
      · obtain ⟨entries, hentries, rfl⟩ := Option.map_eq_some_iff.mp hafter
        exact h.openTable? hentries
      · cases hafter
  | row key =>
      rw [after?] at hafter
      split at hafter
      · obtain ⟨entries, hentries, rfl⟩ := Option.map_eq_some_iff.mp hafter
        exact h.openRow? hentries
      · cases hafter

theorem Document.tidy_foldlM : ∀ {statements : List Statement} {d d' : Document},
    d.entries.Tidy → (∀ statement ∈ statements, statement.Proper) →
      statements.foldlM after? d = some d' → d'.entries.Tidy
  | [], _, _, h, _, hd => by
      cases hd
      exact h
  | statement :: rest, d, d', h, hstatements, hd => by
      obtain ⟨hstatement, hrest⟩ := List.forall_mem_cons.mp hstatements
      rw [List.foldlM_cons] at hd
      obtain ⟨d₁, hafter, hd⟩ := Option.bind_eq_some_iff.mp hd
      exact tidy_foldlM (tidy_after? h hstatement hafter) hrest hd

theorem proper_of_read? {text : String} {layer : Layer} (h : read? text = some layer) :
    layer.Proper := by
  rw [read?] at h
  obtain ⟨statements, hstatements, h⟩ := Option.bind_eq_some_iff.mp h
  obtain ⟨d, hd, h⟩ := Option.bind_eq_some_iff.mp h
  cases h
  exact Entries.proper_settings
    (Document.tidy_foldlM (by exact nofun) (proper_of_readStatements? hstatements) hd)

end EntityStore.Toml

namespace EntityStore.Config

theorem proper_fileLayer {text : Option String} {layer : Layer} (h : fileLayer text = .ok layer) :
    layer.Proper := by
  rw [fileLayer.eq_def] at h
  split at h
  · cases h
    exact Layer.proper_empty
  · split at h
    · next hread =>
        cases h
        exact Toml.proper_of_read? hread
    · cases h

end EntityStore.Config
