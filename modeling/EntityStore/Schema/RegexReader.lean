import EntityStore.Schema.Regex

/-! # Reading regular expressions

`Regex.read?` reads the usual notation: alternatives, sequences, the quantifiers `* + ? {n,m}`
with their marks, groups, looking ahead and behind, character classes and escapes.  A quantifier
without something to repeat, an open bracket or parenthesis, a range or a repetition in the wrong
order and an unknown escape make the text unreadable. -/

namespace EntityStore.Schema.Regex

/-! ### Escapes -/

/-- The class of an escape letter. -/
def classEscape? : Char → Option ClassItem
  | 'd' => some (.digit false)
  | 'D' => some (.digit true)
  | 'w' => some (.word false)
  | 'W' => some (.word true)
  | 's' => some (.blank false)
  | 'S' => some (.blank true)
  | _ => none

/-- The control character of an escape letter. -/
def controlEscape? : Char → Option Char
  | 'n' => some '\n'
  | 'r' => some '\r'
  | 't' => some '\t'
  | 'f' => some '\x0c'
  | 'v' => some '\x0b'
  | 'a' => some '\x07'
  | _ => none

/-- The value of a run of hexadecimal digits. -/
def hexRun? (cs : List Char) : Option Nat :=
  if cs.isEmpty then none
  else cs.foldl (fun n c => do return (← n) * 16 + (← Text.hexValue? c)) (some 0)

def charOf? (n : Nat) : Option Char :=
  if n.isValidChar then some (Char.ofNat n) else none

/-- A character given by its number: `width` digits, or any number of them in braces. -/
def readNumbered? (width : Nat) : List Char → Option (Char × List Char)
  | '\x7b' :: rest =>
    match rest.span (· ≠ '\x7d') with
    | (ds, _ :: rest) => do return (← charOf? (← hexRun? ds), rest)
    | _ => none
  | cs =>
    let ds := cs.take width
    if ds.length = width then do return (← charOf? (← hexRun? ds), cs.drop width) else none

def isAsciiLetter (c : Char) : Bool := ('A' ≤ c && c ≤ 'Z') || ('a' ≤ c && c ≤ 'z')

/-- The character that an escape stands for; what follows the backslash is given. -/
def readCharEscape? : List Char → Option (Char × List Char)
  | [] => none
  | 'x' :: rest => readNumbered? 2 rest
  | 'u' :: rest => readNumbered? 4 rest
  | 'U' :: rest => readNumbered? 8 rest
  | 'c' :: letter :: rest =>
    if isAsciiLetter letter then some (Char.ofNat (letter.toNat % 32), rest) else none
  | c :: rest =>
    match controlEscape? c with
    | some control => some (control, rest)
    | none =>
      if c.toNat < 128 && !isAsciiLetter c && !Text.isDigit c && c ≠ '<' && c ≠ '>' then
        some (c, rest)
      else none

/-! ### Classes -/

/-- A character or a class inside brackets. -/
def readClassAtom? : List Char → Option ((Char ⊕ ClassItem) × List Char)
  | [] => none
  | '\\' :: c :: rest =>
    match classEscape? c with
    | some item => some (.inr item, rest)
    | none => (readCharEscape? (c :: rest)).map fun (c, rest) => (.inl c, rest)
  | c :: rest => some (.inl c, rest)

/-- The items of a class up to its closing bracket. -/
def readClassItems? : Nat → List Char → Option (List ClassItem × List Char)
  | 0, _ => none
  | _ + 1, [] => none
  | _ + 1, ']' :: rest => some ([], rest)
  | fuel + 1, cs => do
    let (atom, rest) ← readClassAtom? cs
    match atom, rest with
    | .inr item, rest =>
      let (items, rest) ← readClassItems? fuel rest
      return (item :: items, rest)
    | .inl low, '-' :: ']' :: rest => return ([.range low low, .range '-' '-'], rest)
    | .inl low, '-' :: rest =>
      match ← readClassAtom? rest with
      | (.inl high, rest) =>
        if high < low then none
        else
          let (items, rest) ← readClassItems? fuel rest
          return (.range low high :: items, rest)
      | (.inr _, _) => none
    | .inl c, rest =>
      let (items, rest) ← readClassItems? fuel rest
      return (.range c c :: items, rest)

/-- A class after its opening bracket.  A closing bracket in first place is a member. -/
def readClass? (cs : List Char) : Option (CharClass × List Char) :=
  let (negated, cs) := match cs with
    | '^' :: rest => (true, rest)
    | cs => (false, cs)
  match cs with
  | ']' :: rest => do
    let (items, rest) ← readClassItems? cs.length rest
    return (⟨negated, .range ']' ']' :: items⟩, rest)
  | cs => do
    let (items, rest) ← readClassItems? (cs.length + 1) cs
    return (⟨negated, items⟩, rest)

/-! ### Quantifiers -/

/-- The bounds of a repetition in braces, after the opening one. -/
def readBounds? (cs : List Char) : Option ((Nat × Option Nat) × List Char) :=
  let (low, rest) := cs.span Text.isDigit
  if low.isEmpty then none
  else
    let n := Text.digitsValue low
    match rest with
    | '\x7d' :: rest => some ((n, some n), rest)
    | ',' :: '\x7d' :: rest => some ((n, none), rest)
    | ',' :: rest =>
      match rest.span Text.isDigit with
      | ([], _) => none
      | (high, '\x7d' :: rest) =>
        let m := Text.digitsValue high
        if m < n then none else some ((n, some m), rest)
      | _ => none
    | _ => none

/-- Only these can be repeated. -/
def isRepeatable : Regex → Bool
  | start | finish | wordEdge _ | ahead _ _ | behind _ _ => false
  | _ => true

/-- A repetition with the marks after it: a question mark makes it prefer few repetitions, which
alone has no influence on whether there is a match, and a plus lets it give nothing back. -/
def readMarks (repeated : Regex) : List Char → Regex × List Char
  | '?' :: '+' :: rest => (only false repeated, rest)
  | '?' :: rest => (repeated, rest)
  | '+' :: rest => (only true repeated, rest)
  | cs => (repeated, cs)

/-- The quantifier after an atom, if there is one.  Two in a row are refused. -/
def readQuantifier? (atom : Regex) (cs : List Char) : Option (Regex × List Char) :=
  let quantified (low : Nat) (high : Option Nat) (rest : List Char) :=
    if isRepeatable atom then some (readMarks (times atom low high) rest) else none
  match cs with
  | '*' :: rest => quantified 0 none rest
  | '+' :: rest => quantified 1 none rest
  | '?' :: rest => quantified 0 (some 1) rest
  | '\x7b' :: rest => do
    let ((low, high), rest) ← readBounds? rest
    quantified low high rest
  | cs => some (atom, cs)

/-! ### Expressions -/

/-- What a group is for. -/
inductive GroupKind
  | plain
  | ahead (negated : Bool)
  | behind (negated : Bool)

/-- The text after the name of a group. -/
def skipGroupName? (cs : List Char) : Option (List Char) :=
  match cs.span (· ≠ '>') with
  | ([], _) => none
  | (name, _ :: rest) => if name.all isWordChar then some rest else none
  | _ => none

/-- The kind of a group after its opening parenthesis. -/
def readGroupKind? : List Char → Option (GroupKind × List Char)
  | '?' :: ':' :: rest => some (.plain, rest)
  | '?' :: '=' :: rest => some (.ahead false, rest)
  | '?' :: '!' :: rest => some (.ahead true, rest)
  | '?' :: '<' :: '=' :: rest => some (.behind false, rest)
  | '?' :: '<' :: '!' :: rest => some (.behind true, rest)
  | '?' :: 'P' :: '<' :: rest => (skipGroupName? rest).map ((.plain, ·))
  | '?' :: '<' :: rest => (skipGroupName? rest).map ((.plain, ·))
  | '?' :: _ => none
  | cs => some (.plain, cs)

def GroupKind.apply (body : Regex) : GroupKind → Regex
  | plain => cat empty body
  | ahead negated => Regex.ahead negated body
  | behind negated => Regex.behind negated body

/-- An escape outside brackets. -/
def readEscape? : List Char → Option (Regex × List Char)
  | 'b' :: rest => some (wordEdge false, rest)
  | 'B' :: rest => some (wordEdge true, rest)
  | 'A' :: rest => some (start, rest)
  | 'z' :: rest => some (finish, rest)
  | c :: rest =>
    match classEscape? c with
    | some item => some (one ⟨false, [item]⟩, rest)
    | none => (readCharEscape? (c :: rest)).map fun (c, rest) => (one (.char c), rest)
  | [] => none

mutual
/-- Alternatives up to a closing parenthesis or the end. -/
def readAlternatives? : Nat → List Char → Option (Regex × List Char)
  | 0, _ => none
  | fuel + 1, cs => do
    let (first, rest) ← readSequence? fuel empty cs
    match rest with
    | '|' :: rest =>
      let (others, rest) ← readAlternatives? fuel rest
      return (alt first others, rest)
    | rest => return (first, rest)

/-- A sequence of repeated atoms, joined to what was read before. -/
def readSequence? : Nat → Regex → List Char → Option (Regex × List Char)
  | 0, _, _ => none
  | _ + 1, read, [] => some (read, [])
  | fuel + 1, read, c :: rest =>
    if c = '|' ∨ c = ')' then some (read, c :: rest)
    else do
      let (atom, rest) ← readAtom? fuel c rest
      let (piece, rest) ← readQuantifier? atom rest
      readSequence? fuel (cat read piece) rest

/-- An atom that starts with the given character. -/
def readAtom? : Nat → Char → List Char → Option (Regex × List Char)
  | 0, _, _ => none
  | fuel + 1, c, rest =>
    match c with
    | '.' => some (one .dot, rest)
    | '^' => some (start, rest)
    | '$' => some (finish, rest)
    | '\\' => readEscape? rest
    | '[' => (readClass? rest).map fun (set, rest) => (one set, rest)
    | '(' => do
      let (kind, rest) ← readGroupKind? rest
      let (body, rest) ← readAlternatives? fuel rest
      match rest with
      | ')' :: rest => return (kind.apply body, rest)
      | _ => none
    | '*' | '+' | '?' | '\x7b' => none
    | c => some (one (.char c), rest)
end

/-- The expression that a text spells. -/
def read? (text : String) : Option Regex :=
  let cs := text.toList
  match readAlternatives? (4 * cs.length + 4) cs with
  | some (r, []) => some r
  | _ => none

end EntityStore.Schema.Regex
