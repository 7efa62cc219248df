import EntityStore.Text.Split

/-! # Pattern matching

A pattern is matched against a whole text: `%` stands for any characters, `_` for one, a backslash
takes the next character as it is, and letters match in either case as far as ASCII goes.  The two
characters that are none, U+FFFE and U+FFFF, are taken for the replacement character U+FFFD on both
sides.  `containing needle` is the pattern of the texts that have the needle in them. -/

namespace EntityStore.Sql.Like

/-- A step of a pattern. -/
inductive Step
  | any
  | one
  | char (c : Char)
deriving DecidableEq

/-- The steps of a pattern; a backslash at the end matches nothing. -/
def steps? : List Char → Option (List Step)
  | [] => some []
  | '\\' :: c :: rest => (steps? rest).map (.char c :: ·)
  | ['\\'] => none
  | c :: rest =>
    (steps? rest).map ((if c = '%' then .any else if c = '_' then .one else .char c) :: ·)

/-- What is read for a character: U+FFFE and U+FFFF give the replacement character. -/
def readChar (c : Char) : Char := if c = '\ufffe' ∨ c = '\uffff' then '\ufffd' else c

/-- What a character is compared as. -/
def foldChar (c : Char) : Char := Text.lowerChar (readChar c)

/-- What a text is compared as. -/
def fold (cs : List Char) : List Char := cs.map foldChar

/-- The suffixes of a text, itself first. -/
def suffixes : List Char → List (List Char)
  | [] => [[]]
  | c :: rest => (c :: rest) :: suffixes rest

/-- The steps match the whole text. -/
def run : List Step → List Char → Bool
  | [], cs => cs.isEmpty
  | .any :: steps, cs => (suffixes cs).any (run steps)
  | .one :: steps, cs =>
    match cs with
    | [] => false
    | _ :: rest => run steps rest
  | .char a :: steps, cs =>
    match cs with
    | [] => false
    | c :: rest => foldChar a = foldChar c && run steps rest

/-- The text matches the pattern; both end at their first NUL. -/
def holds (pattern cs : List Char) : Bool :=
  match steps? (Text.untilNul pattern) with
  | none => false
  | some steps => run steps (Text.untilNul cs)

/-- The longest pattern, in bytes. -/
def maxLength : Nat := 50000

/-- A character that stands for itself in a pattern. -/
def escapeChar (c : Char) : List Char :=
  if c = '%' ∨ c = '_' ∨ c = '\\' then ['\\', c] else [c]

/-- The pattern of the texts that contain the needle. -/
def containing (needle : List Char) : List Char := '%' :: needle.flatMap escapeChar ++ ['%']

end EntityStore.Sql.Like
