import EntityStore.Text.Split

/-! # Property paths

A property path names a place in a document by the object keys that lead to it: words of ASCII
letters, digits and underscores with dots between them.  `Path.parse` accepts at most 256 bytes
and 16 words, and says what is wrong with every other text; `Path.display` gives the text back. -/

namespace EntityStore.Query

def isWordChar (c : Char) : Bool :=
  ('A' ≤ c && c ≤ 'Z') || ('a' ≤ c && c ≤ 'z') || ('0' ≤ c && c ≤ '9') || c = '_'

/-- A nonempty run of word characters. -/
def isWord (cs : List Char) : Bool := !cs.isEmpty && cs.all isWordChar

/-- The keys on the way from the root of a document, at least one. -/
structure Path where
  words : List (List Char)
  nonempty : words ≠ []
  isWord_of_mem : ∀ w ∈ words, isWord w = true
deriving DecidableEq

/-- Why a text is no property path. -/
inductive PathFault
  | empty
  | tooLong
  | emptySegment
  | badSegment (segment : String)
  | tooDeep
deriving DecidableEq

namespace Path

/-- The greatest number of bytes of a path. -/
def maxLength : Nat := 256

/-- The greatest number of words of a path. -/
def maxDepth : Nat := 16

def segments (p : Path) : List String := p.words.map String.ofList

/-- The dotted text of the path. -/
def display (p : Path) : String := String.ofList (Text.joinWith '.' p.words)

/-- The path in the notation of the database: `$` for the document and a quoted label for each
key. -/
def jsonPath (p : Path) : String :=
  String.ofList ('$' :: p.words.flatMap (fun w => '.' :: '"' :: w ++ ['"']))

/-- What is wrong with a text, length first, then the segments from the left, then the depth. -/
def parse (text : String) : Except PathFault Path :=
  if text.isEmpty then .error .empty
  else if maxLength < text.utf8ByteSize then .error .tooLong
  else
    let words := Text.splitAt '.' text.toList
    match h : words.find? (fun w => !isWord w) with
    | some [] => .error .emptySegment
    | some w => .error (.badSegment (String.ofList w))
    | none =>
      if maxDepth < words.length then .error .tooDeep
      else .ok ⟨words, Text.splitAt_ne_nil _ _, by simpa using h⟩

theorem display_parse {text : String} {p : Path} (h : parse text = .ok p) : p.display = text := by
  unfold parse at h
  split at h
  · simp at h
  split at h
  · simp at h
  dsimp only at h
  split at h
  · simp at h
  · simp at h
  split at h
  · simp at h
  injection h with h
  subst h
  simp [display, Text.joinWith_splitAt]

end Path

namespace PathFault

def message : PathFault → String
  | empty => "path is empty"
  | tooLong => "longer than " ++ String.ofList (Nat.toDigits 10 Path.maxLength) ++ " bytes"
  | emptySegment => "empty path segment"
  | badSegment segment => "segment '" ++ segment ++ "' may only contain A-Z, a-z, 0-9 and _"
  | tooDeep => "deeper than " ++ String.ofList (Nat.toDigits 10 Path.maxDepth) ++ " segments"

end PathFault
end EntityStore.Query
