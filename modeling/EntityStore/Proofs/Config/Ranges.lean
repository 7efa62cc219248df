import EntityStore.Config.Configuration

/-! # The ranges of numeric settings

A setting that is a number is read only if it has the width of its setting, and the standard values
have it too, whether the settings are a table or a list.  So in every configuration that is read the
numbers have their widths (`Configuration.inRange_of_read`), and it is accepted if the limits of pages
are sound as well (`Configuration.ofLayer_eq_ok_iff`). -/

namespace EntityStore.Config

open Query (Limits)

/-- Times have 64 bits, the number of attempts has 32. -/
structure DatabaseSettings.InRange (d : DatabaseSettings) : Prop where
  statementTimeout : d.statementTimeoutMs < unsignedBound
  maxAttempts : d.retryMaxAttempts < halfBound
  baseDelay : d.retryBaseDelayMs < unsignedBound
  maxDelay : d.retryMaxDelayMs < unsignedBound

/-- Both limits have 32 bits. -/
structure LimitsInRange (l : Limits) : Prop where
  default : l.default < halfBound
  max : l.max < halfBound

structure Configuration.InRange (c : Configuration) : Prop where
  database : c.database.InRange
  limits : LimitsInRange c.limits

theorem DatabaseSettings.inRange_standard : standard.InRange where
  statementTimeout := by decide
  maxAttempts := by decide
  baseDelay := by decide
  maxDelay := by decide

theorem limitsInRange_standard : LimitsInRange .standard where
  default := by decide
  max := by decide

/-! ### What is read has a property -/

section
variable {α : Type} {P : α → Prop} {read : Read α} {standard a : α}

/-- Whatever settings are read as has the property. -/
def Read.Gives (read : Read α) (P : α → Prop) : Prop := ∀ s a, read s = .ok a → P a

theorem of_mapError {r : Except Error α} {f : Error → Error} (h : r.mapError f = .ok a) :
    r = .ok a := by
  cases r with
  | error e => cases h
  | ok b => exact h

theorem Read.Gives.named (hread : read.Gives P) (hstandard : P standard) {name : String}
    {entries : Layer} (h : named name read standard entries = .ok a) : P a := by
  rw [Config.named] at h
  split at h
  · cases h
    exact hstandard
  · next s _ => exact hread s a (of_mapError h)

theorem Read.Gives.positioned (hread : read.Gives P) (hstandard : P standard) {position : Nat}
    {items : List Setting} (h : positioned position read standard items = .ok a) : P a := by
  rw [Config.positioned] at h
  split at h
  · cases h
    exact hstandard
  · next s _ => exact hread s a (of_mapError h)

end

theorem exists_of_bind {α β : Type} {x : Except Error α} {f : α → Except Error β} {b : β}
    (h : x >>= f = .ok b) : ∃ a, x = .ok a ∧ f a = .ok b := by
  cases x with
  | error e => cases h
  | ok a => exact ⟨a, rfl, h⟩

theorem gives_readNatural (bound : Nat) : Read.Gives (readNatural bound) (· < bound) := by
  intro s n h
  cases s with
  | integer i =>
      rw [readNatural] at h
      split at h
      · next hi =>
          cases h
          exact (Int.toNat_lt hi.1).mpr hi.2
      · cases h
  | text _ | flag _ | decimal | list _ | table _ => cases h

/-! ### Groups of settings -/

namespace DatabaseSettings

variable {d : DatabaseSettings}

theorem inRange_ofEntries {entries : Layer} (h : ofEntries entries = .ok d) : d.InRange := by
  obtain ⟨_, -, h⟩ := exists_of_bind h
  obtain ⟨_, -, h⟩ := exists_of_bind h
  obtain ⟨baseDelay, hbase, h⟩ := exists_of_bind h
  obtain ⟨maxAttempts, hattempts, h⟩ := exists_of_bind h
  obtain ⟨maxDelay, hlongest, h⟩ := exists_of_bind h
  obtain ⟨timeout, htimeout, h⟩ := exists_of_bind h
  obtain ⟨_, -, h⟩ := exists_of_bind h
  cases h
  exact {
    statementTimeout := (gives_readNatural _).named inRange_standard.statementTimeout htimeout
    maxAttempts := (gives_readNatural _).named inRange_standard.maxAttempts hattempts
    baseDelay := (gives_readNatural _).named inRange_standard.baseDelay hbase
    maxDelay := (gives_readNatural _).named inRange_standard.maxDelay hlongest }

theorem inRange_ofItems {items : List Setting} (h : ofItems items = .ok d) : d.InRange := by
  obtain ⟨_, -, h⟩ := exists_of_bind h
  obtain ⟨_, -, h⟩ := exists_of_bind h
  obtain ⟨_, -, h⟩ := exists_of_bind h
  obtain ⟨timeout, htimeout, h⟩ := exists_of_bind h
  obtain ⟨maxAttempts, hattempts, h⟩ := exists_of_bind h
  obtain ⟨baseDelay, hbase, h⟩ := exists_of_bind h
  obtain ⟨maxDelay, hlongest, h⟩ := exists_of_bind h
  cases h
  exact {
    statementTimeout := (gives_readNatural _).positioned inRange_standard.statementTimeout htimeout
    maxAttempts := (gives_readNatural _).positioned inRange_standard.maxAttempts hattempts
    baseDelay := (gives_readNatural _).positioned inRange_standard.baseDelay hbase
    maxDelay := (gives_readNatural _).positioned inRange_standard.maxDelay hlongest }

theorem gives_ofSetting : Read.Gives ofSetting InRange := by
  intro s d h
  cases s with
  | table entries => exact inRange_ofEntries h
  | list items => exact inRange_ofItems h
  | text _ | flag _ | integer _ | decimal => cases h

end DatabaseSettings

theorem limitsInRange_ofEntries {entries : Layer} {l : Limits} (h : limitsOfEntries entries = .ok l) :
    LimitsInRange l := by
  obtain ⟨standard, hstandard, h⟩ := exists_of_bind h
  obtain ⟨max, hmax, h⟩ := exists_of_bind h
  cases h
  exact {
    default := (gives_readNatural _).named limitsInRange_standard.default hstandard
    max := (gives_readNatural _).named limitsInRange_standard.max hmax }

theorem limitsInRange_ofItems {items : List Setting} {l : Limits} (h : limitsOfItems items = .ok l) :
    LimitsInRange l := by
  obtain ⟨standard, hstandard, h⟩ := exists_of_bind h
  obtain ⟨max, hmax, h⟩ := exists_of_bind h
  cases h
  exact {
    default := (gives_readNatural _).positioned limitsInRange_standard.default hstandard
    max := (gives_readNatural _).positioned limitsInRange_standard.max hmax }

theorem gives_limitsOfSetting : Read.Gives limitsOfSetting LimitsInRange := by
  intro s l h
  cases s with
  | table entries => exact limitsInRange_ofEntries h
  | list items => exact limitsInRange_ofItems h
  | text _ | flag _ | integer _ | decimal => cases h

/-! ### Configurations -/

namespace Configuration

variable {layer : Layer} {c : Configuration}

/-- The numbers in a configuration that is read have the widths of their settings. -/
theorem inRange_of_read (h : read layer = .ok c) : c.InRange := by
  obtain ⟨database, hdatabase, h⟩ := exists_of_bind h
  obtain ⟨limits, hlimits, h⟩ := exists_of_bind h
  cases h
  exact {
    database := DatabaseSettings.gives_ofSetting.named DatabaseSettings.inRange_standard hdatabase
    limits := gives_limitsOfSetting.named limitsInRange_standard hlimits }

/-- A configuration is accepted if it can be read and its limits are sound. -/
theorem ofLayer_eq_ok_iff :
    ofLayer layer = .ok c ↔
      read layer = .ok c ∧ 0 < c.limits.default ∧ c.limits.default ≤ c.limits.max := by
  rw [← checkLimits_eq_ok_iff]
  constructor
  · intro h
    obtain ⟨c', hread, h⟩ := exists_of_bind h
    obtain ⟨⟨⟩, hlimits, h⟩ := exists_of_bind h
    cases h
    exact ⟨hread, hlimits⟩
  · rintro ⟨hread, hlimits⟩
    rw [ofLayer, hread]
    change checkLimits c.limits >>= _ = _
    rw [hlimits]
    rfl

end Configuration
end EntityStore.Config
