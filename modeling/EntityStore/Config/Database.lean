import EntityStore.Time.Duration

/-! # Database settings

Where the database is, how long a statement may take, and how often and after which delays a
statement is tried again.  `RetryPolicy.delays` is the sequence of delays: each one is twice the one
before, up to the longest delay. -/

namespace EntityStore.Config

open Time (Duration)

structure DatabaseSettings where
  /-- The file of a local database. -/
  path : String
  url : String
  authToken : String
  statementTimeoutMs : Nat
  retryMaxAttempts : Nat
  retryBaseDelayMs : Nat
  retryMaxDelayMs : Nat
deriving DecidableEq

namespace DatabaseSettings

def standard : DatabaseSettings := ⟨"tessera.db", "", "", 5000, 4, 100, 2000⟩

/-- A remote database needs both an address and a token. -/
def isRemote (d : DatabaseSettings) : Bool := d.url ≠ "" && d.authToken ≠ ""

def statementTimeout (d : DatabaseSettings) : Duration := .ofMillis d.statementTimeoutMs

/-- What stands before the last slash of a path, or the root when that slash is its first
character; nothing when there is no slash. -/
def directory (path : List Char) : List Char :=
  match path.reverse.dropWhile (· ≠ '/') with
  | [] => []
  | [_] => ['/']
  | _ :: before => before.reverse

end DatabaseSettings

/-! ### Trying again -/

structure RetryPolicy where
  /-- How often a statement is tried in all. -/
  maxAttempts : Nat
  baseDelay : Duration
  maxDelay : Duration
deriving DecidableEq

namespace RetryPolicy

def standard : RetryPolicy := ⟨4, .ofMillis 100, .ofMillis 2000⟩

/-- The policy of the settings; a statement is tried at least once. -/
def ofSettings (d : DatabaseSettings) : RetryPolicy :=
  ⟨max d.retryMaxAttempts 1, .ofMillis d.retryBaseDelayMs, .ofMillis d.retryMaxDelayMs⟩

/-- The delay after a given one. -/
def nextDelay (p : RetryPolicy) (delay : Duration) : Duration := delay.double.shorter p.maxDelay

/-- The first `count` delays from a given one on. -/
def delaysFrom (p : RetryPolicy) (delay : Duration) : Nat → List Duration
  | 0 => []
  | count + 1 => delay :: delaysFrom p (p.nextDelay delay) count

def delays (p : RetryPolicy) (count : Nat) : List Duration := p.delaysFrom p.baseDelay count

end RetryPolicy
end EntityStore.Config
