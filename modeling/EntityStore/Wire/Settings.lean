import EntityStore.Config.Configuration
import EntityStore.Wire.Fields

/-! # The written form of settings -/

namespace EntityStore.Wire

open Config (Configuration DatabaseSettings)
open Query (Limits)

def readDatabaseSettings? (j : Json) : Option DatabaseSettings := do
  let d := DatabaseSettings.standard
  match ← slots? [⟨"path", true⟩, ⟨"url", true⟩, ⟨"auth_token", true⟩,
      ⟨"statement_timeout_ms", true⟩, ⟨"retry_max_attempts", true⟩,
      ⟨"retry_base_delay_ms", true⟩, ⟨"retry_max_delay_ms", true⟩] j with
  | [path, url, authToken, timeout, maxAttempts, baseDelay, maxDelay] =>
    return ⟨← orElse d.path readString? path, ← orElse d.url readString? url,
      ← orElse d.authToken readString? authToken,
      ← orElse d.statementTimeoutMs (readNatural? unsignedBound) timeout,
      ← orElse d.retryMaxAttempts (readNatural? halfBound) maxAttempts,
      ← orElse d.retryBaseDelayMs (readNatural? unsignedBound) baseDelay,
      ← orElse d.retryMaxDelayMs (readNatural? unsignedBound) maxDelay⟩
  | _ => none

def ofDatabaseSettings (d : DatabaseSettings) : Json :=
  .object [("auth_token", .string d.authToken), ("path", .string d.path),
    ("retry_base_delay_ms", natural d.retryBaseDelayMs),
    ("retry_max_attempts", natural d.retryMaxAttempts),
    ("retry_max_delay_ms", natural d.retryMaxDelayMs),
    ("statement_timeout_ms", natural d.statementTimeoutMs), ("url", .string d.url)]

def readLimits? (j : Json) : Option Limits := do
  match ← slots? [⟨"default_limit", true⟩, ⟨"max_limit", true⟩] j with
  | [standard, max] =>
    return ⟨← orElse Limits.standard.default (readNatural? halfBound) standard,
      ← orElse Limits.standard.max (readNatural? halfBound) max⟩
  | _ => none

def ofLimits (l : Limits) : Json :=
  .object [("default_limit", natural l.default), ("max_limit", natural l.max)]

def ofConfiguration (c : Configuration) : Json :=
  .object [("database", ofDatabaseSettings c.database), ("query", ofLimits c.limits)]

end EntityStore.Wire
