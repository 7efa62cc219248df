import EntityStore.Config.Database
import EntityStore.Config.Error
import EntityStore.Config.Setting
import EntityStore.Query.Plan
import EntityStore.Text.Width

/-! # The configuration

A `Configuration` is read from a layer.  Settings that are missing have their standard value,
settings that are unknown are ignored.  A group of settings is given as a table, or as a list of
its settings in their declared order.  Of several settings that cannot be read the first one is
reported: tables are read in the order of names, lists from the front.

`Configuration.ofLayer` also demands that the limits of pages are sound: a page can have at least
one result, and the standard limit is not above the largest one. -/

namespace EntityStore.Config

open Query (Limits)

structure Configuration where
  database : DatabaseSettings
  limits : Limits
deriving DecidableEq

def Configuration.standard : Configuration := ⟨.standard, .standard⟩

/-! ### Single settings -/

/-- What a setting means, or why it means nothing. -/
abbrev Read (α : Type) := Setting → Except Error α

def readText : Read String
  | .text s => .ok s
  | _ => .error (.wrongKind [])

/-- A natural number below a bound. -/
def readNatural (bound : Nat) : Read Nat
  | .integer i => if 0 ≤ i ∧ i < bound then .ok i.toNat else .error (.outOfRange [])
  | _ => .error (.wrongKind [])

/-- The setting of a name, or its standard value. -/
def named {α : Type} (name : String) (read : Read α) (standard : α) (entries : Layer) :
    Except Error α :=
  match entries.get? name with
  | none => .ok standard
  | some s => (read s).mapError (Error.below name)

/-- The setting at a position, or its standard value. -/
def positioned {α : Type} (position : Nat) (read : Read α) (standard : α) (items : List Setting) :
    Except Error α :=
  match items[position]? with
  | none => .ok standard
  | some s => (read s).mapError (Error.below (toString position))

/-! ### Groups of settings -/

def DatabaseSettings.ofEntries (entries : Layer) : Except Error DatabaseSettings := do
  let d := standard
  let authToken ← named "auth_token" readText d.authToken entries
  let path ← named "path" readText d.path entries
  let baseDelay ← named "retry_base_delay_ms" (readNatural unsignedBound) d.retryBaseDelayMs entries
  let maxAttempts ← named "retry_max_attempts" (readNatural halfBound) d.retryMaxAttempts entries
  let maxDelay ← named "retry_max_delay_ms" (readNatural unsignedBound) d.retryMaxDelayMs entries
  let timeout ← named "statement_timeout_ms" (readNatural unsignedBound) d.statementTimeoutMs entries
  let url ← named "url" readText d.url entries
  return ⟨path, url, authToken, timeout, maxAttempts, baseDelay, maxDelay⟩

def DatabaseSettings.ofItems (items : List Setting) : Except Error DatabaseSettings := do
  let d := standard
  let path ← positioned 0 readText d.path items
  let url ← positioned 1 readText d.url items
  let authToken ← positioned 2 readText d.authToken items
  let timeout ← positioned 3 (readNatural unsignedBound) d.statementTimeoutMs items
  let maxAttempts ← positioned 4 (readNatural halfBound) d.retryMaxAttempts items
  let baseDelay ← positioned 5 (readNatural unsignedBound) d.retryBaseDelayMs items
  let maxDelay ← positioned 6 (readNatural unsignedBound) d.retryMaxDelayMs items
  return ⟨path, url, authToken, timeout, maxAttempts, baseDelay, maxDelay⟩

def DatabaseSettings.ofSetting : Read DatabaseSettings
  | .table entries => ofEntries entries
  | .list items => ofItems items
  | _ => .error (.wrongKind [])

def limitsOfEntries (entries : Layer) : Except Error Limits := do
  let standard ← named "default_limit" (readNatural halfBound) Limits.standard.default entries
  let max ← named "max_limit" (readNatural halfBound) Limits.standard.max entries
  return ⟨standard, max⟩

def limitsOfItems (items : List Setting) : Except Error Limits := do
  let standard ← positioned 0 (readNatural halfBound) Limits.standard.default items
  let max ← positioned 1 (readNatural halfBound) Limits.standard.max items
  return ⟨standard, max⟩

def limitsOfSetting : Read Limits
  | .table entries => limitsOfEntries entries
  | .list items => limitsOfItems items
  | _ => .error (.wrongKind [])

/-! ### The whole -/

/-- The limits are sound: `0 < default ≤ max`. -/
def checkLimits (l : Limits) : Except Error Unit :=
  if l.max = 0 then .error (.unacceptable "query.max_limit" "must be greater than 0")
  else if l.default = 0 ∨ l.max < l.default then
    .error (.unacceptable "query.default_limit" ("must be in 1..=" ++ toString l.max))
  else .ok ()

/-- The configuration of a layer as it is read. -/
def Configuration.read (layer : Layer) : Except Error Configuration := do
  let database ← named "database" DatabaseSettings.ofSetting .standard layer
  let limits ← named "query" limitsOfSetting .standard layer
  return ⟨database, limits⟩

def Configuration.ofLayer (layer : Layer) : Except Error Configuration := do
  let c ← read layer
  checkLimits c.limits
  return c

theorem checkLimits_eq_ok_iff (l : Limits) :
    checkLimits l = .ok () ↔ 0 < l.default ∧ l.default ≤ l.max := by
  unfold checkLimits
  by_cases h : l.max = 0
  · simp [h]; omega
  · by_cases hd : l.default = 0 ∨ l.max < l.default
    · simp [h, hd]; omega
    · simp [h, hd]; omega

end EntityStore.Config
