import EntityStore.Config.Setting
import EntityStore.Query.Operand
import EntityStore.Text.Split
import EntityStore.Text.Width
import EntityStore.Toml.Text

/-! # Settings in environment variables

An environment is a list of variables in the order in which they were set.  A variable whose name
starts with `TESSERA_`, in any case, assigns the setting that the rest of its name spells: lower-case
names, with `__` or a point between the names on the way.  Later variables win.

A value is read as a flag, a number, a list `[a, b]`, a table `{k=v, …}` or a text in quotes; a
value that is none of them is a text as it stands. -/

namespace EntityStore.Config

/-! ### Variables -/

/-- Variables with their values, each name once. -/
abbrev Environment := List (String × String)

namespace Environment

def get? (name : String) : Environment → Option String
  | [] => none
  | (n, v) :: rest => if n = name then some v else get? name rest

/-- Add a variable, unless there is one of its name. -/
def add (env : Environment) (name value : String) : Environment :=
  match env.get? name with
  | some _ => env
  | none => env ++ [(name, value)]

theorem get?_append (name : String) (a b : Environment) :
    get? name (a ++ b) = (get? name a).or (get? name b) := by
  induction a with
  | nil => simp [get?]
  | cons e rest ih =>
    obtain ⟨n, v⟩ := e
    by_cases h : n = name <;> simp [get?, h, ih]

/-- A variable that is there already keeps its value. -/
theorem get?_add (env : Environment) (name value other : String) :
    (env.add name value).get? other =
      (env.get? other).or (if name = other then some value else none) := by
  unfold add
  cases h : env.get? name with
  | none => by_cases e : name = other <;> simp [get?_append, get?, e]
  | some v =>
    by_cases e : name = other
    · subst e; simp [h]
    · simp [e]

end Environment

/-! ### Values -/

/-- ASCII white space other than the vertical tab. -/
def isSpace (c : Char) : Bool := c = ' ' || c = '\t' || c = '\n' || c = '\x0c' || c = '\r'

def skipSpace (cs : List Char) : List Char := cs.dropWhile isSpace

/-- The characters that end a plain word. -/
def isSeparator (c : Char) : Bool :=
  c = ',' || c = '[' || c = ']' || c = '\x7b' || c = '\x7d'

/-- An integer of 64 bits, signed or unsigned, with an optional sign. -/
def wordInteger? (cs : List Char) : Option Int :=
  let (negative, ds) := Query.takeSign cs
  if ds.isEmpty || !ds.all Text.isDigit then none
  else
    let n := Text.digitsValue ds
    if !negative && n < unsignedBound then some n else signed64? negative n

/-- A decimal with a point, of any size. -/
def isDecimalWord (cs : List Char) : Bool :=
  let (_, rest) := (Query.takeSign cs).2.span Text.isDigit
  match rest with
  | '.' :: rest =>
    let (_, rest) := rest.span Text.isDigit
    isExponent rest && hasMantissa (Query.takeSign cs).2
  | _ => false
where
  /-- Nothing, or an exponent. -/
  isExponent (cs : List Char) : Bool := (Query.exponentLiteral? cs).isSome
  /-- A digit stands before or directly after the point. -/
  hasMantissa : List Char → Bool
    | '.' :: c :: _ => Text.isDigit c
    | c :: _ => Text.isDigit c
    | [] => false

/-- What a trimmed word means. -/
def wordSetting (cs : List Char) : Setting :=
  if isDecimalWord cs then .decimal
  else
    match wordInteger? cs with
    | some i => .integer i
    | none => .text (String.ofList cs)

/-- A text in quotes up to its closing quote; escapes are those of TOML. -/
def readQuoted? (cs : List Char) : Option (String × List Char) :=
  Toml.readBasic? (cs.length + 1) [] cs

/-- Items with commas between them up to a closing bracket; a comma may stand at the end. -/
def readItems? {α : Type} (item : List Char → Option (α × List Char)) (close : Char) :
    Nat → List Char → Option (List α × List Char)
  | 0, _ => none
  | fuel + 1, cs =>
    match closed? cs with
    | some rest => some ([], rest)
    | none =>
      match item cs with
      | none => none
      | some (a, ',' :: rest) =>
        (readItems? item close fuel rest).map fun (as, rest) => (a :: as, rest)
      | some (a, rest) => (closed? rest).map ([a], ·)
where
  /-- What comes after the closing bracket. -/
  closed? : List Char → Option (List Char)
    | c :: rest => if c = close then some rest else none
    | [] => none

/-- A character of the name of a setting in a table. -/
def isNameChar (c : Char) : Bool :=
  ('A' ≤ c && c ≤ 'Z') || ('a' ≤ c && c ≤ 'z') || Text.isDigit c || c = '_' || c = '-'

/-- The name of a setting in a table, and what comes after it. -/
def readName? : List Char → Option (String × List Char)
  | '"' :: rest => readQuoted? rest
  | cs =>
    match cs.span isNameChar with
    | ([], _) => none
    | (name, rest) => some (String.ofList name, rest)

/-- A name, an equals sign and a value. -/
def readAssigned? (value : List Char → Option (Setting × List Char)) (cs : List Char) :
    Option ((String × Setting) × List Char) :=
  match readName? (skipSpace cs) with
  | none => none
  | some (name, rest) =>
    match skipSpace rest with
    | '=' :: rest => (value rest).map fun (s, rest) => ((name, s), rest)
    | _ => none

/-- The table of entries, of which the last one of each name counts. -/
def tableOf (entries : List (String × Setting)) : Setting :=
  .table (entries.foldl (fun l e => Layer.set e.1 e.2 l) Layer.empty)

/-- A value at the front of a text, and what comes after it and the space behind it.  `depth` bounds
how deep lists and tables are nested, `fuel` how many items they have. -/
def readValue? (fuel : Nat) : Nat → List Char → Option (Setting × List Char)
  | 0, _ => none
  | depth + 1, cs =>
    match skipSpace cs with
    | 't' :: 'r' :: 'u' :: 'e' :: rest => some (.flag true, skipSpace rest)
    | 'f' :: 'a' :: 'l' :: 's' :: 'e' :: rest => some (.flag false, skipSpace rest)
    | '"' :: rest => (readQuoted? rest).map fun (s, rest) => (.text s, skipSpace rest)
    | '\'' :: c :: '\'' :: rest => some (.text (String.ofList [c]), skipSpace rest)
    | '\'' :: _ => none
    | '[' :: rest => (readItems? (readValue? fuel depth) ']' fuel rest).map
        fun (items, rest) => (.list items, skipSpace rest)
    | '\x7b' :: rest => (readItems? (readAssigned? (readValue? fuel depth)) '\x7d' fuel rest).map
        fun (entries, rest) => (tableOf entries, skipSpace rest)
    | cs =>
      let (word, rest) := cs.span (fun c => !isSeparator c)
      some (wordSetting (Text.trimList word), skipSpace rest)

/-- What the value of a variable means. -/
def readVariable (value : String) : Setting :=
  let cs := value.toList
  match readValue? (cs.length + 1) (cs.length + 1) cs with
  | some (s, []) => s
  | _ => .text value

/-! ### Names -/

/-- What the names of variables start with, in lower case. -/
def variablePrefix : List Char := "tessera_".toList

/-- Every `__` is a point. -/
def pointed : List Char → List Char
  | '_' :: '_' :: rest => '.' :: pointed rest
  | c :: rest => c :: pointed rest
  | [] => []

/-- The names on the way to the setting that a variable of that name assigns.  A name that is empty
ends the way. -/
def settingPath? (name : String) : Option (List String) :=
  let name := Text.lower (Text.trimList name.toList)
  if variablePrefix.isPrefixOf name then
    let rest := name.drop variablePrefix.length
    if (Text.trimList rest).isEmpty then none
    else some (((Text.splitAt '.' (pointed rest)).takeWhile (!·.isEmpty)).map String.ofList)
  else none

/-- The layer with the setting of one more variable. -/
def Layer.addVariable (l : Layer) (name value : String) : Layer :=
  match settingPath? name with
  | none => l
  | some path =>
    match (readVariable value).nested path with
    | .table entries => Layer.overlay l entries
    | _ => l

/-- The settings of an environment. -/
def Environment.layer (env : Environment) : Layer :=
  env.foldl (fun l e => Layer.addVariable l e.1 e.2) Layer.empty

end EntityStore.Config
