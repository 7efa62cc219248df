import EntityStore.Config.Configuration
import Mathlib.Data.List.Basic
import Mathlib.Data.String.Basic

/-! # Settings through layers

A configuration has nine settings, and a layer assigns any of them (`Layer.assigned?`).  Where layers
give groups of settings as tables, and each setting a value that it takes (`Layer.WellTyped`), layers
that are laid over one another assign what the topmost of them assigns that assigns the setting at all
(`assigned?_stack`): groups are merged setting by setting, and not replaced as a whole.  What is read
of such a layer are the settings that it assigns, and the standard values of the others
(`read_of_wellTyped`). -/

namespace EntityStore.Config

/-! ### Tables -/

namespace Layer

variable {l lower upper : Layer} {name : String} {s : Setting}

/-- The entries are ascending by name, so each name stands once. -/
def Ascending (l : Layer) : Prop := l.Pairwise fun a b => a.1 < b.1

theorem ascending_empty : Ascending empty := List.Pairwise.nil

theorem mem_set {e : String × Setting} : ∀ {l : Layer}, e ∈ l.set name s → e = (name, s) ∨ e ∈ l
  | [], h => .inl (List.mem_singleton.mp h)
  | (n, s') :: rest, h => by
      rw [set] at h
      split at h
      · exact List.mem_cons.mp h
      · split at h
        · exact (List.mem_cons.mp h).imp_right (List.mem_cons_of_mem _)
        · rcases List.mem_cons.mp h with rfl | h
          · exact .inr List.mem_cons_self
          · exact (mem_set h).imp_right (List.mem_cons_of_mem _)

theorem Ascending.set : ∀ {l : Layer}, l.Ascending → (l.set name s).Ascending
  | [], _ => List.pairwise_singleton _ _
  | (n, s') :: rest, h => by
      obtain ⟨hn, hrest⟩ := List.pairwise_cons.mp h
      rw [Layer.set]
      split
      · next hlt =>
          refine List.pairwise_cons.mpr ⟨fun e he => ?_, h⟩
          rcases List.mem_cons.mp he with rfl | he
          · exact hlt
          · exact hlt.trans (hn e he)
      · split
        · next heq => exact List.pairwise_cons.mpr ⟨fun e he => heq ▸ hn e he, hrest⟩
        · next hnot hne =>
            refine List.pairwise_cons.mpr ⟨fun e he => ?_, Ascending.set hrest⟩
            rcases mem_set he with rfl | he
            · exact lt_of_le_of_ne (not_lt.mp hnot) hne
            · exact hn e he

theorem mem_of_get? : ∀ {l : Layer}, l.get? name = some s → (name, s) ∈ l
  | (n, s') :: rest, h => by
      rw [get?] at h
      split at h
      · next heq =>
          cases h
          exact heq ▸ List.mem_cons_self
      · exact List.mem_cons_of_mem _ (mem_of_get? h)

theorem Ascending.overlay (h : lower.Ascending) : (Layer.overlay lower upper).Ascending := by
  induction upper generalizing lower with
  | nil => exact h
  | cons e rest ih =>
      obtain ⟨name, s⟩ := e
      rw [Layer.overlay]
      exact ih h.set

/-- A setting laid over what is there, if anything is. -/
def overlaid (lower : Option Setting) (upper : Setting) : Setting :=
  match lower with
  | some below => below.overlay upper
  | none => upper

/-- Only tables are merged. -/
theorem overlaid_of_ne_table (h : ∀ entries, s ≠ .table entries) (lower : Option Setting) :
    overlaid lower s = s := by
  cases lower with
  | none => rfl
  | some below =>
      rw [overlaid, Setting.overlay]
      exact h

/-- The upper layer is looked at first; what it has is laid over what the lower one has. -/
theorem get?_overlay (h : upper.Ascending) (name : String) :
    (lower.overlay upper).get? name =
      ((upper.get? name).map (overlaid (lower.get? name))).or (lower.get? name) := by
  induction upper generalizing lower with
  | nil => rw [overlay, get?, Option.map_none, Option.none_or]
  | cons e rest ih =>
      obtain ⟨n, s⟩ := e
      obtain ⟨hn, hrest⟩ := List.pairwise_cons.mp h
      rw [overlay, ih hrest, get?_set, get?]
      by_cases heq : n = name
      · subst heq
        have hnone : get? n rest = none := by
          rw [Option.eq_none_iff_forall_not_mem]
          exact fun s' hs' => lt_irrefl n (hn _ (mem_of_get? hs'))
        rw [hnone, if_pos rfl, if_pos rfl]
        rfl
      · rw [if_neg heq, if_neg heq]

end Layer

/-- The entries of a table are ascending. -/
def Setting.Proper (s : Setting) : Prop := ∀ entries, s = .table entries → Layer.Ascending entries

/-- The entries of a layer are ascending, and so are those of its tables. -/
structure Layer.Proper (l : Layer) : Prop where
  ascending : l.Ascending
  tables : ∀ e ∈ l, e.2.Proper

/-! ### The settings of a configuration -/

inductive Key
  | path
  | url
  | authToken
  | statementTimeoutMs
  | retryMaxAttempts
  | retryBaseDelayMs
  | retryMaxDelayMs
  | defaultLimit
  | maxLimit
deriving DecidableEq

namespace Key

/-- The table that the setting stands in. -/
def group : Key → String
  | defaultLimit | maxLimit => "query"
  | _ => "database"

def name : Key → String
  | path => "path"
  | url => "url"
  | authToken => "auth_token"
  | statementTimeoutMs => "statement_timeout_ms"
  | retryMaxAttempts => "retry_max_attempts"
  | retryBaseDelayMs => "retry_base_delay_ms"
  | retryMaxDelayMs => "retry_max_delay_ms"
  | defaultLimit => "default_limit"
  | maxLimit => "max_limit"

/-- The values that a setting takes: texts, or numbers of 32 or 64 bits. -/
def Takes : Key → Setting → Prop
  | path, s | url, s | authToken, s => ∃ text, s = .text text
  | statementTimeoutMs, s | retryBaseDelayMs, s | retryMaxDelayMs, s =>
    ∃ n : Nat, n < unsignedBound ∧ s = .integer n
  | retryMaxAttempts, s | defaultLimit, s | maxLimit, s =>
    ∃ n : Nat, n < halfBound ∧ s = .integer n

def all : List Key :=
  [path, url, authToken, statementTimeoutMs, retryMaxAttempts, retryBaseDelayMs, retryMaxDelayMs,
    defaultLimit, maxLimit]

theorem mem_all (k : Key) : k ∈ all := by cases k <;> decide

end Key

def Setting.isText : Setting → Bool
  | .text _ => true
  | _ => false

/-- A natural number below a bound. -/
def Setting.isNatural (bound : Nat) : Setting → Bool
  | .integer i => 0 ≤ i && i < bound
  | _ => false

theorem Setting.isText_iff {s : Setting} : s.isText = true ↔ ∃ text, s = .text text := by
  cases s with
  | text t => exact iff_of_true rfl ⟨t, rfl⟩
  | flag _ | integer _ | decimal | list _ | table _ => exact iff_of_false nofun nofun

theorem Setting.isNatural_iff {s : Setting} (bound : Nat) :
    s.isNatural bound = true ↔ ∃ n : Nat, n < bound ∧ s = .integer n := by
  cases s with
  | integer i =>
      rw [isNatural, Bool.and_eq_true, decide_eq_true_eq, decide_eq_true_eq]
      constructor
      · rintro ⟨hnonneg, hlt⟩
        obtain ⟨n, rfl⟩ := Int.eq_ofNat_of_zero_le hnonneg
        exact ⟨n, Int.ofNat_lt.mp hlt, rfl⟩
      · rintro ⟨n, hlt, heq⟩
        cases heq
        exact ⟨Int.natCast_nonneg n, Int.ofNat_lt.mpr hlt⟩
  | text _ | flag _ | decimal | list _ | table _ => exact iff_of_false nofun nofun

instance (k : Key) (s : Setting) : Decidable (k.Takes s) :=
  match k with
  | .path | .url | .authToken => decidable_of_iff _ Setting.isText_iff
  | .statementTimeoutMs | .retryBaseDelayMs | .retryMaxDelayMs =>
    decidable_of_iff _ (Setting.isNatural_iff unsignedBound)
  | .retryMaxAttempts | .defaultLimit | .maxLimit =>
    decidable_of_iff _ (Setting.isNatural_iff halfBound)

def Configuration.setting (c : Configuration) : Key → Setting
  | .path => .text c.database.path
  | .url => .text c.database.url
  | .authToken => .text c.database.authToken
  | .statementTimeoutMs => .integer c.database.statementTimeoutMs
  | .retryMaxAttempts => .integer c.database.retryMaxAttempts
  | .retryBaseDelayMs => .integer c.database.retryBaseDelayMs
  | .retryMaxDelayMs => .integer c.database.retryMaxDelayMs
  | .defaultLimit => .integer c.limits.default
  | .maxLimit => .integer c.limits.max

/-! ### What layers assign -/

namespace Layer

/-- The entries of a table in a layer. -/
def group (l : Layer) (name : String) : Layer :=
  match l.get? name with
  | some (.table entries) => entries
  | _ => empty

/-- What a layer assigns to a setting. -/
def assigned? (k : Key) (l : Layer) : Option Setting := (l.group k.group).get? k.name

/-- Groups of settings are given as tables, with values that the settings take. -/
structure WellTyped (l : Layer) : Prop where
  tables : ∀ (k : Key) (s : Setting), l.get? k.group = some s → ∃ entries, s = .table entries
  values : ∀ (k : Key) (s : Setting), l.assigned? k = some s → k.Takes s

/-- What the topmost of some layers assigns to a setting that assigns anything to it; the first layer
is lowest. -/
def topmost? (k : Key) (layers : List Layer) : Option Setting := layers.reverse.findSome? (assigned? k)

/-- The table of a setting is one, and has a value of the setting if it has one. -/
def fits (l : Layer) (k : Key) : Bool :=
  (match l.get? k.group with
    | none | some (.table _) => true
    | _ => false) &&
  match l.assigned? k with
  | none => true
  | some s => k.Takes s

theorem wellTyped_iff_fits {l : Layer} : l.WellTyped ↔ ∀ k ∈ Key.all, l.fits k = true := by
  simp only [fits, Bool.and_eq_true]
  constructor
  · rintro ⟨htables, hvalues⟩ k -
    constructor
    · cases hget : l.get? k.group with
      | none => rfl
      | some s =>
          obtain ⟨entries, rfl⟩ := htables k s hget
          rfl
    · cases hassigned : l.assigned? k with
      | none => rfl
      | some s => exact decide_eq_true (hvalues k s hassigned)
  · intro h
    refine ⟨fun k s hget => ?_, fun k s hassigned => ?_⟩
    · have htable := (h k k.mem_all).1
      rw [hget] at htable
      cases s with
      | table entries => exact ⟨entries, rfl⟩
      | text _ | flag _ | integer _ | decimal | list _ => cases htable
    · have hvalue := (h k k.mem_all).2
      rw [hassigned] at hvalue
      exact of_decide_eq_true hvalue

instance (l : Layer) : Decidable l.WellTyped := decidable_of_iff _ wellTyped_iff_fits.symm

variable {lower upper : Layer} {k : Key}

theorem wellTyped_empty : WellTyped empty := ⟨nofun, nofun⟩

theorem group_of_get? {l : Layer} {name : String} {entries : Layer}
    (h : l.get? name = some (.table entries)) : l.group name = entries := by
  rw [group, h]

/-- A value of a setting replaces what it is laid over. -/
theorem overlaid_of_takes {s : Setting} (h : k.Takes s) (lower : Option Setting) :
    overlaid lower s = s := by
  have hplain : ∀ entries, s ≠ .table entries := by
    cases k with
    | path | url | authToken =>
        obtain ⟨text, rfl⟩ := h
        exact fun _ heq => by cases heq
    | statementTimeoutMs | retryMaxAttempts | retryBaseDelayMs | retryMaxDelayMs | defaultLimit
    | maxLimit =>
        obtain ⟨n, -, rfl⟩ := h
        exact fun _ heq => by cases heq
  exact overlaid_of_ne_table hplain lower

/-- Groups are merged. -/
theorem assigned?_overlay (hlower : lower.WellTyped) (hupper : upper.WellTyped)
    (hproper : upper.Proper) :
    (lower.overlay upper).assigned? k = (upper.assigned? k).or (lower.assigned? k) := by
  have hget : (lower.overlay upper).get? k.group = _ := get?_overlay hproper.ascending k.group
  cases habove : upper.get? k.group with
  | none =>
      rw [habove, Option.map_none, Option.none_or] at hget
      have hempty : upper.group k.group = empty := by rw [group, habove]
      rw [assigned?, group, hget, ← group, assigned?, assigned?, hempty]
      rfl
  | some s =>
      obtain ⟨entries, rfl⟩ := hupper.tables k s habove
      have hentries : Ascending entries := hproper.tables _ (mem_of_get? habove) entries rfl
      rw [habove, Option.map_some, Option.some_or] at hget
      rw [assigned?, assigned?, group_of_get? habove]
      cases hbelow : lower.get? k.group with
      | none =>
          have hempty : lower.group k.group = empty := by rw [group, hbelow]
          rw [hbelow] at hget
          rw [group_of_get? hget, assigned?, hempty]
          exact Option.or_none.symm
      | some s' =>
          obtain ⟨below, rfl⟩ := hlower.tables k s' hbelow
          rw [hbelow, overlaid, Setting.overlay] at hget
          have hkeeps : ∀ x ∈ get? k.name entries, overlaid (get? k.name below) x = x := fun x hx =>
            overlaid_of_takes (hupper.values k x (by rw [assigned?, group_of_get? habove]; exact hx)) _
          rw [group_of_get? hget, assigned?, group_of_get? hbelow, get?_overlay hentries]
          cases hx : get? k.name entries with
          | none => rfl
          | some x => rw [Option.map_some, hkeeps x hx]

theorem WellTyped.overlay (hlower : lower.WellTyped) (hupper : upper.WellTyped)
    (hproper : upper.Proper) : (lower.overlay upper).WellTyped where
  tables k s h := by
    rw [get?_overlay hproper.ascending] at h
    cases habove : upper.get? k.group with
    | none =>
        rw [habove] at h
        exact hlower.tables k s h
    | some s' =>
        obtain ⟨entries, rfl⟩ := hupper.tables k s' habove
        rw [habove, Option.map_some, Option.some_or, Option.some.injEq] at h
        subst h
        cases hbelow : lower.get? k.group with
        | none => exact ⟨entries, rfl⟩
        | some s =>
            obtain ⟨below, rfl⟩ := hlower.tables k s hbelow
            exact ⟨_, by rw [overlaid, Setting.overlay]⟩
  values k s h := by
    rw [assigned?_overlay hlower hupper hproper, Option.or_eq_some_iff] at h
    obtain h | ⟨-, h⟩ := h
    · exact hupper.values k s h
    · exact hlower.values k s h

theorem topmost?_cons (l : Layer) (layers : List Layer) :
    topmost? k (l :: layers) = (topmost? k layers).or (l.assigned? k) := by
  rw [topmost?, List.reverse_cons, List.findSome?_append, topmost?]
  congr 1
  rw [List.findSome?_cons]
  cases l.assigned? k <;> rfl

theorem topmost?_append (below above : List Layer) :
    topmost? k (below ++ above) = (topmost? k above).or (topmost? k below) := by
  rw [topmost?, List.reverse_append, List.findSome?_append, topmost?, topmost?]

theorem foldl_overlay {layers : List Layer} (hl : lower.WellTyped)
    (h : ∀ l ∈ layers, l.WellTyped ∧ l.Proper) :
    (layers.foldl Layer.overlay lower).WellTyped ∧
      ∀ k, (layers.foldl Layer.overlay lower).assigned? k =
        (topmost? k layers).or (lower.assigned? k) := by
  induction layers generalizing lower with
  | nil => exact ⟨hl, fun _ => rfl⟩
  | cons l layers ih =>
      obtain ⟨⟨htyped, hproper⟩, hrest⟩ := List.forall_mem_cons.mp h
      obtain ⟨hstack, hassigned⟩ := ih (hl.overlay htyped hproper) hrest
      refine ⟨hstack, fun k => ?_⟩
      rw [List.foldl_cons, hassigned, assigned?_overlay hl htyped hproper, topmost?_cons,
        Option.or_assoc]

/-- Each setting is taken from the topmost layer that assigns it. -/
theorem assigned?_stack {layers : List Layer} (h : ∀ l ∈ layers, l.WellTyped ∧ l.Proper) :
    (stack layers).WellTyped ∧ ∀ k, (stack layers).assigned? k = topmost? k layers := by
  obtain ⟨htyped, hassigned⟩ := foldl_overlay wellTyped_empty h
  exact ⟨htyped, fun k => (hassigned k).trans Option.or_none⟩

end Layer

/-! ### Reading -/

theorem named_text {entries : Layer} {name : String}
    (h : ∀ s, entries.get? name = some s → ∃ text, s = .text text) (standard : String) :
    ∃ text, named name readText standard entries = .ok text ∧
      .text text = (entries.get? name).getD (.text standard) := by
  rw [named]
  cases hget : entries.get? name with
  | none => exact ⟨standard, rfl, rfl⟩
  | some s =>
      obtain ⟨text, rfl⟩ := h s hget
      exact ⟨text, rfl, rfl⟩

theorem named_natural {entries : Layer} {name : String} {bound : Nat}
    (h : ∀ s, entries.get? name = some s → ∃ n : Nat, n < bound ∧ s = .integer n) (standard : Nat) :
    ∃ n : Nat, named name (readNatural bound) standard entries = .ok n ∧
      .integer n = (entries.get? name).getD (.integer standard) := by
  rw [named]
  cases hget : entries.get? name with
  | none => exact ⟨standard, rfl, rfl⟩
  | some s =>
      obtain ⟨n, hn, rfl⟩ := h s hget
      refine ⟨n, ?_, rfl⟩
      have hbounds : (0 : Int) ≤ n ∧ (n : Int) < bound := ⟨Int.natCast_nonneg n, by exact_mod_cast hn⟩
      dsimp only
      rw [readNatural, if_pos hbounds]
      rfl

theorem bind_of_ok {α β : Type} {x : Except Error α} {f : α → Except Error β} {a : α}
    {y : Except Error β} (hx : x = .ok a) (hf : f a = y) : x >>= f = y := by
  rw [hx]
  exact hf

/-- A group that is a table is read from its entries; one that is missing has no entries. -/
theorem named_group {α : Type} {l : Layer} {name : String} (read : Read α)
    (ofEntries : Layer → Except Error α) {standard : α}
    (htable : ∀ s, l.get? name = some s → ∃ entries, s = .table entries)
    (hread : ∀ entries, read (.table entries) = ofEntries entries)
    (hstandard : ofEntries Layer.empty = .ok standard) {a : α}
    (h : ofEntries (l.group name) = .ok a) : named name read standard l = .ok a := by
  rw [named]
  rw [Layer.group] at h
  cases hget : l.get? name with
  | none =>
      rw [hget] at h
      exact hstandard.symm.trans h
  | some s =>
      obtain ⟨entries, rfl⟩ := htable s hget
      rw [hget] at h
      dsimp only at h ⊢
      rw [hread, h]
      rfl

/-- Of a layer the settings are read that it assigns, and the others have their standard values. -/
theorem read_of_wellTyped {l : Layer} (h : l.WellTyped) :
    ∃ c, Configuration.read l = .ok c ∧
      ∀ k, c.setting k = (l.assigned? k).getD (Configuration.standard.setting k) := by
  obtain ⟨path, hpath, hpath'⟩ := named_text (h.values .path) "tessera.db"
  obtain ⟨url, hurl, hurl'⟩ := named_text (h.values .url) ""
  obtain ⟨authToken, htoken, htoken'⟩ := named_text (h.values .authToken) ""
  obtain ⟨timeout, htimeout, htimeout'⟩ := named_natural (h.values .statementTimeoutMs) 5000
  obtain ⟨attempts, hattempts, hattempts'⟩ := named_natural (h.values .retryMaxAttempts) 4
  obtain ⟨base, hbase, hbase'⟩ := named_natural (h.values .retryBaseDelayMs) 100
  obtain ⟨longest, hlongest, hlongest'⟩ := named_natural (h.values .retryMaxDelayMs) 2000
  obtain ⟨standard, hstandard, hstandard'⟩ := named_natural (h.values .defaultLimit) 50
  obtain ⟨max, hmax, hmax'⟩ := named_natural (h.values .maxLimit) 100
  have hdatabase : named "database" DatabaseSettings.ofSetting .standard l =
      .ok ⟨path, url, authToken, timeout, attempts, base, longest⟩ := by
    refine named_group DatabaseSettings.ofSetting DatabaseSettings.ofEntries (h.tables .path)
      (fun _ => rfl) rfl ?_
    exact bind_of_ok htoken <| bind_of_ok hpath <| bind_of_ok hbase <| bind_of_ok hattempts <|
      bind_of_ok hlongest <| bind_of_ok htimeout <| bind_of_ok hurl rfl
  have hlimits : named "query" limitsOfSetting .standard l = .ok ⟨standard, max⟩ := by
    refine named_group limitsOfSetting limitsOfEntries (h.tables .maxLimit) (fun _ => rfl) rfl ?_
    exact bind_of_ok hstandard <| bind_of_ok hmax rfl
  refine ⟨⟨⟨path, url, authToken, timeout, attempts, base, longest⟩, ⟨standard, max⟩⟩, ?_, fun k => ?_⟩
  · rw [Configuration.read, hdatabase, hlimits]
    rfl
  · cases k with
    | path => exact hpath'
    | url => exact hurl'
    | authToken => exact htoken'
    | statementTimeoutMs => exact htimeout'
    | retryMaxAttempts => exact hattempts'
    | retryBaseDelayMs => exact hbase'
    | retryMaxDelayMs => exact hlongest'
    | defaultLimit => exact hstandard'
    | maxLimit => exact hmax'

end EntityStore.Config
