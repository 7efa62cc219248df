import EntityStore.Json.Basic
import EntityStore.Text.Width

/-! # Reading the fields of a record

A record is written as an object with its fields by name, or as an array of its fields in their
declared order.  `slots?` brings both to one form: for each declared field the value that was
given, if any.  Fields of other names are ignored; a declared field given twice makes the record
unreadable.  In an array a field may be missing only at the end, and only when it has a default. -/

namespace EntityStore.Wire

/-- A declared field of a record. -/
structure Slot where
  name : String
  hasDefault : Bool
deriving DecidableEq

/-- The value of a field that is given at most once; the inner option is empty when it is not
given at all. -/
def single? (name : String) (fields : Fields) : Option (Option Json) :=
  match fields.filter (fun f => f.1 = name) with
  | [] => some none
  | [f] => some (some f.2)
  | _ => none

/-- The declared fields of an object. -/
def named? (fields : Fields) : List Slot → Option (List (Option Json))
  | [] => some []
  | slot :: slots => do return (← single? slot.name fields) :: (← named? fields slots)

/-- The declared fields of an array. -/
def positional? : List Slot → List Json → Option (List (Option Json))
  | [], [] => some []
  | [], _ :: _ => none
  | slot :: slots, [] => if slot.hasDefault then (positional? slots []).map (none :: ·) else none
  | _ :: slots, item :: items => (positional? slots items).map (some item :: ·)

/-- The declared fields of a record. -/
def slots? (slots : List Slot) : Json → Option (List (Option Json))
  | .object fields => named? fields slots
  | .array items => positional? slots items
  | _ => none

/-! ### Single fields -/

/-- A field that has to be given. -/
def required {α : Type} (read : Json → Option α) : Option Json → Option α
  | none => none
  | some j => read j

/-- A field that may be missing or null. -/
def optional {α : Type} (read : Json → Option α) : Option Json → Option (Option α)
  | none | some .null => some none
  | some j => (read j).map some

/-- A field with a default. -/
def orElse {α : Type} (default : α) (read : Json → Option α) : Option Json → Option α
  | none => some default
  | some j => read j

/-! ### Plain values -/

def readString? : Json → Option String
  | .string s => some s
  | _ => none

/-- Any value, in canonical form. -/
def readAny? (j : Json) : Option Json := some j.canonical

/-- An integer between two bounds. -/
def readInteger? (low high : Int) : Json → Option Int
  | .number (.integer i) => if low ≤ i ∧ i ≤ high then some i else none
  | _ => none

/-- An integer of 64 bits with sign. -/
def readInt64? (j : Json) : Option Int64 :=
  (readInteger? (-(signedBound : Int)) (signedBound - 1) j).map Int64.ofInt

/-- A natural number below a bound. -/
def readNatural? (bound : Nat) (j : Json) : Option Nat :=
  (readInteger? 0 (bound - 1) j).map Int.toNat

/-- All items of an array. -/
def readItems? {α : Type} (read : Json → Option α) : List Json → Option (List α)
  | [] => some []
  | j :: rest => do return (← read j) :: (← readItems? read rest)

def readList? {α : Type} (read : Json → Option α) : Json → Option (List α)
  | .array items => readItems? read items
  | _ => none

/-- A word, either as a string or as an object with the word as its only field, of value null. -/
def readWord? {α : Type} (word : String → Option α) : Json → Option α
  | .string s => word s
  | .object [(name, .null)] => word name
  | _ => none

/-! ### Writing -/

def optionalValue {α : Type} (write : α → Json) : Option α → Json
  | none => .null
  | some a => write a

def natural (n : Nat) : Json := .number (.integer n)

end EntityStore.Wire
