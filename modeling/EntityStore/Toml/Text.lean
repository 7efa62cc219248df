import EntityStore.Text.Digits

/-! # Strings in TOML

The four kinds of strings of TOML 1.0 and the characters between tokens.  A basic string has
escapes, a literal one has none; each of them may span lines when it starts with three quotes.
A line break inside a string is read as a line feed. -/

namespace EntityStore.Toml

/-- Space and tab. -/
def isSpace (c : Char) : Bool := c = ' ' || c = '\t'

def skipSpace (cs : List Char) : List Char := cs.dropWhile isSpace

/-- A character that may stand in a comment or a string as it is: no control character but the
tab. -/
def isPlain (c : Char) : Bool := c = '\t' || (0x20 ≤ c.toNat && c.toNat ≠ 0x7F)

/-- What comes after a line break. -/
def lineBreak? : List Char → Option (List Char)
  | '\n' :: rest => some rest
  | '\r' :: '\n' :: rest => some rest
  | _ => none

/-- What comes after white space, line breaks and comments.  A comment stops at a character that it
cannot hold. -/
def skipFill (inComment : Bool) : List Char → List Char
  | [] => []
  | '\n' :: rest => skipFill false rest
  | '\r' :: '\n' :: rest => skipFill false rest
  | c :: rest =>
    if inComment then if isPlain c then skipFill true rest else c :: rest
    else if c = '#' then skipFill true rest
    else if isSpace c then skipFill false rest
    else c :: rest

/-! ### Escapes -/

/-- The character of a one-letter escape. -/
def shortEscape? : Char → Option Char
  | '"' => some '"'
  | '\\' => some '\\'
  | 'b' => some '\x08'
  | 'f' => some '\x0c'
  | 'n' => some '\n'
  | 'r' => some '\r'
  | 't' => some '\t'
  | _ => none

/-- The number that hexadecimal digits spell. -/
def hexNumber? (ds : List Char) : Option Nat :=
  ds.foldlM (fun n c => (Text.hexValue? c).map (16 * n + ·)) 0

/-- The character whose code point is spelled. -/
def codePoint? (ds : List Char) : Option Char :=
  match hexNumber? ds with
  | some n => if n.isValidChar then some (Char.ofNat n) else none
  | none => none

/-- The character of an escape, given what follows the backslash. -/
def readEscape? : List Char → Option (Char × List Char)
  | 'u' :: rest =>
    if (rest.take 4).length = 4 then (codePoint? (rest.take 4)).map (·, rest.drop 4) else none
  | 'U' :: rest =>
    if (rest.take 8).length = 8 then (codePoint? (rest.take 8)).map (·, rest.drop 8) else none
  | c :: rest => (shortEscape? c).map (·, rest)
  | [] => none

/-! ### Strings of one line -/

/-- The rest of a basic string; `read` are the characters before, last first. -/
def readBasic? : Nat → List Char → List Char → Option (String × List Char)
  | 0, _, _ => none
  | _ + 1, _, [] => none
  | _ + 1, read, '"' :: rest => some (String.ofList read.reverse, rest)
  | fuel + 1, read, '\\' :: rest =>
    match readEscape? rest with
    | some (c, rest) => readBasic? fuel (c :: read) rest
    | none => none
  | fuel + 1, read, c :: rest => if isPlain c then readBasic? fuel (c :: read) rest else none

/-- The rest of a literal string. -/
def readLiteral? (read : List Char) : List Char → Option (String × List Char)
  | [] => none
  | '\'' :: rest => some (String.ofList read.reverse, rest)
  | c :: rest => if isPlain c then readLiteral? (c :: read) rest else none

/-! ### Strings of several lines -/

/-- After three closing quotes: up to two more quotes belong to the string. -/
def closeMultiline (quote : Char) (read rest : List Char) : String × List Char :=
  match rest with
  | a :: b :: tail =>
    if a = quote ∧ b = quote then (String.ofList (quote :: quote :: read).reverse, tail)
    else if a = quote then (String.ofList (quote :: read).reverse, b :: tail)
    else (String.ofList read.reverse, rest)
  | [a] =>
    if a = quote then (String.ofList (quote :: read).reverse, [])
    else (String.ofList read.reverse, rest)
  | [] => (String.ofList read.reverse, [])

/-- Only white space is left on the line. -/
def endsLine (cs : List Char) : Bool := (lineBreak? (skipSpace cs)).isSome

/-- The rest of a basic string of several lines.  A backslash at the end of a line removes the
white space and the line breaks up to the next character. -/
def readMultiBasic? : Nat → List Char → List Char → Option (String × List Char)
  | 0, _, _ => none
  | _ + 1, _, [] => none
  | _ + 1, read, '"' :: '"' :: '"' :: rest => some (closeMultiline '"' read rest)
  | fuel + 1, read, '\r' :: '\n' :: rest => readMultiBasic? fuel ('\n' :: read) rest
  | fuel + 1, read, '\n' :: rest => readMultiBasic? fuel ('\n' :: read) rest
  | fuel + 1, read, '\\' :: rest =>
    if endsLine rest then readMultiBasic? fuel read (skipBlankLines rest)
    else
      match readEscape? rest with
      | some (c, rest) => readMultiBasic? fuel (c :: read) rest
      | none => none
  | fuel + 1, read, c :: rest => if isPlain c then readMultiBasic? fuel (c :: read) rest else none
where
  /-- What comes after white space and line breaks. -/
  skipBlankLines : List Char → List Char
    | '\n' :: rest => skipBlankLines rest
    | '\r' :: '\n' :: rest => skipBlankLines rest
    | c :: rest => if isSpace c then skipBlankLines rest else c :: rest
    | [] => []

/-- The rest of a literal string of several lines. -/
def readMultiLiteral? (read : List Char) : List Char → Option (String × List Char)
  | [] => none
  | '\'' :: '\'' :: '\'' :: rest => some (closeMultiline '\'' read rest)
  | '\r' :: '\n' :: rest => readMultiLiteral? ('\n' :: read) rest
  | '\n' :: rest => readMultiLiteral? ('\n' :: read) rest
  | c :: rest => if isPlain c then readMultiLiteral? (c :: read) rest else none

/-! ### Any string -/

/-- A line break directly after the opening quotes is not part of the string. -/
def afterOpening (cs : List Char) : List Char := (lineBreak? cs).getD cs

/-- A string of any kind; nothing when the text starts with no quote. -/
def readString? : List Char → Option (String × List Char)
  | '"' :: '"' :: '"' :: rest => readMultiBasic? (rest.length + 1) [] (afterOpening rest)
  | '\'' :: '\'' :: '\'' :: rest => readMultiLiteral? [] (afterOpening rest)
  | '"' :: rest => readBasic? (rest.length + 1) [] rest
  | '\'' :: rest => readLiteral? [] rest
  | _ => none

/-! ### Keys -/

/-- A character of a key that is not quoted. -/
def isBareKey (c : Char) : Bool :=
  ('A' ≤ c && c ≤ 'Z') || ('a' ≤ c && c ≤ 'z') || Text.isDigit c || c = '_' || c = '-'

/-- One name of a key, bare or in quotes. -/
def readName? : List Char → Option (String × List Char)
  | '"' :: rest => readBasic? (rest.length + 1) [] rest
  | '\'' :: rest => readLiteral? [] rest
  | cs =>
    match cs.span isBareKey with
    | ([], _) => none
    | (name, rest) => some (String.ofList name, rest)

/-- How many names a key can have, and how deep values can be nested. -/
def nestingLimit : Nat := 79

/-- A key: names with dots between them and space around them. -/
def readNames? : Nat → List Char → Option (List String × List Char)
  | 0, _ => none
  | limit + 1, cs =>
    match readName? (skipSpace cs) with
    | none => none
    | some (name, rest) =>
      match skipSpace rest with
      | '.' :: rest => (readNames? limit rest).map fun (names, rest) => (name :: names, rest)
      | rest => some ([name], rest)

def readKey? (cs : List Char) : Option (List String × List Char) := readNames? nestingLimit cs

end EntityStore.Toml
