/-! # Settings and layers

A source of configuration gives a `Layer`: settings by name, where a setting may itself be a table
of settings.  Layers are laid over one another: `overlay` takes each setting from the upper layer
if it is there, and tables are merged setting by setting.

Entries of a table are kept ascending by name, each name once. -/

namespace EntityStore.Config

inductive Setting
  | text (value : String)
  | flag (value : Bool)
  | integer (value : Int)
  /-- A number that is written with a point or an exponent.  No setting takes one, so its value is
  not kept. -/
  | decimal
  | list (items : List Setting)
  | table (entries : List (String × Setting))

/-- The settings of one source. -/
abbrev Layer := List (String × Setting)

instance : Inhabited Setting := ⟨.table []⟩

namespace Layer

def empty : Layer := []

def get? (name : String) : Layer → Option Setting
  | [] => none
  | (n, s) :: rest => if n = name then some s else get? name rest

/-- Give a setting a value, in place of the one it has. -/
def set (name : String) (value : Setting) : Layer → Layer
  | [] => [(name, value)]
  | (n, s) :: rest =>
    if name < n then (name, value) :: (n, s) :: rest
    else if n = name then (name, value) :: rest
    else (n, s) :: set name value rest

end Layer

/-! ### Overlaying -/

mutual
/-- The upper setting laid over the lower one: two tables are merged, anything else is replaced. -/
def Setting.overlay (lower : Setting) : Setting → Setting
  | .table entries =>
    match lower with
    | .table below => .table (Layer.overlay below entries)
    | _ => .table entries
  | upper => upper

def Layer.overlay (lower : Layer) : List (String × Setting) → Layer
  | [] => lower
  | (name, s) :: rest =>
    Layer.overlay
      (lower.set name (match lower.get? name with
        | some below => Setting.overlay below s
        | none => s)) rest
end

/-- All layers over one another, the first one lowest. -/
def Layer.stack (layers : List Layer) : Layer := layers.foldl Layer.overlay Layer.empty

/-- A setting inside tables, by the names on the way to it. -/
def Setting.nested (value : Setting) : List String → Setting
  | [] => value
  | name :: path => .table [(name, nested value path)]

/-! ### Looking up and setting -/

namespace Layer

theorem get?_set (name other : String) (value : Setting) (l : Layer) :
    (l.set name value).get? other = if name = other then some value else l.get? other := by
  induction l with
  | nil => simp [set, get?]
  | cons e rest ih =>
    obtain ⟨n, s⟩ := e
    unfold set
    split
    · by_cases h : name = other <;> simp [get?, h]
    · split
      · next h => subst h; by_cases h : n = other <;> simp [get?, h]
      · next h =>
        simp only [get?, ih]
        by_cases hn : n = other
        · simp [hn, show name ≠ other from fun e => h (hn.trans e.symm)]
        · simp [hn]

end Layer
end EntityStore.Config
