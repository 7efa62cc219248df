import EntityStore.Text.Blank
import EntityStore.Text.Digits

/-! # Regular expressions

`Regex.ends` gives the positions at which a match that starts at a position can end, so an
expression is a relation between the positions of a text.  No match is preferred to another but
where a repetition gives nothing back (`only`).
`Regex.occurs` asks for a match anywhere.

Digits and word characters are those of ASCII, a dot matches everything but a line feed, and the
two anchors match only at the ends of the text. -/

namespace EntityStore.Schema

/-- A member of a character class. -/
inductive ClassItem
  | range (low high : Char)
  | digit (negated : Bool)
  | word (negated : Bool)
  | blank (negated : Bool)
deriving DecidableEq

/-- A set of characters: the items, or what is outside all of them. -/
structure CharClass where
  negated : Bool
  items : List ClassItem
deriving DecidableEq

inductive Regex
  | empty
  | one (set : CharClass)
  | start
  | finish
  | wordEdge (negated : Bool)
  | cat (first second : Regex)
  | alt (first second : Regex)
  /-- At least `low` times, and at most `high` times when there is a bound. -/
  | times (body : Regex) (low : Nat) (high : Option Nat)
  /-- The body, of whose ends only the last one counts, or the first one. -/
  | only (last : Bool) (body : Regex)
  | ahead (negated : Bool) (body : Regex)
  | behind (negated : Bool) (body : Regex)
deriving DecidableEq

def isWordChar (c : Char) : Bool :=
  ('A' ≤ c && c ≤ 'Z') || ('a' ≤ c && c ≤ 'z') || Text.isDigit c || c = '_'

namespace CharClass

def char (c : Char) : CharClass := ⟨false, [.range c c]⟩

/-- Every character but a line feed. -/
def dot : CharClass := ⟨true, [.range '\n' '\n']⟩

end CharClass

def ClassItem.contains (c : Char) : ClassItem → Bool
  | range low high => low ≤ c && c ≤ high
  | digit negated => Text.isDigit c != negated
  | word negated => isWordChar c != negated
  | blank negated => Text.isBlank c != negated

def CharClass.contains (s : CharClass) (c : Char) : Bool :=
  s.items.any (ClassItem.contains c) != s.negated

/-- A position in a text: how many characters stand before it, these characters, the nearest one
first, and those after it. -/
structure Position where
  offset : Nat
  before : List Char
  after : List Char
deriving DecidableEq

namespace Position

/-- The start of a text. -/
def ofText (cs : List Char) : Position := ⟨0, [], cs⟩

def atWordEdge (p : Position) : Bool :=
  p.before.head?.any isWordChar != p.after.head?.any isWordChar

/-- All positions from this one to the end of the text. -/
def following (offset : Nat) (before : List Char) : List Char → List Position
  | [] => [⟨offset, before, []⟩]
  | c :: rest => ⟨offset, before, c :: rest⟩ :: following (offset + 1) (c :: before) rest

/-- All positions from this one back to the start of the text. -/
def preceding (after : List Char) : List Char → List Position
  | [] => [⟨0, [], after⟩]
  | c :: rest => ⟨rest.length + 1, c :: rest, after⟩ :: preceding (c :: after) rest

/-! ### Sets of positions

Positions of one text, ascending and each one once. -/

def isBefore (p q : Position) : Bool := p.offset ≤ q.offset

/-- One of each position of an ascending list. -/
def distinct : List Position → List Position
  | p :: q :: rest =>
    if p.offset = q.offset then distinct (q :: rest) else p :: distinct (q :: rest)
  | ps => ps

def union (ps qs : List Position) : List Position := distinct (List.merge ps qs isBefore)

/-- What is not among the others. -/
def minus (ps qs : List Position) : List Position :=
  ps.filter fun p => !qs.any fun q => p.offset = q.offset

/-- Everything that one of the positions leads to. -/
def image (step : Position → List Position) (ps : List Position) : List Position :=
  ps.foldl (fun reached p => union reached (step p)) []

end Position

namespace Regex

open Position (image minus union)

/-- The positions reached by exactly `count` steps. -/
def steps (step : Position → List Position) : Nat → List Position → List Position
  | 0, ps => ps
  | count + 1, ps => if ps.isEmpty then [] else steps step count (image step ps)

/-- The positions reached by at most `count` steps from the latest of those that are seen. -/
def reach (step : Position → List Position) : Nat → List Position → List Position → List Position
  | 0, seen, _ => seen
  | count + 1, seen, latest =>
    match minus (image step latest) seen with
    | [] => seen
    | new => reach step count (union seen new) new

/-- The positions at which a match from `p` can end.  More repetitions than there are characters
left reach nothing new. -/
def ends : Regex → Position → List Position
  | empty, p => [p]
  | one set, p =>
    match p.after with
    | [] => []
    | c :: rest => if set.contains c then [⟨p.offset + 1, c :: p.before, rest⟩] else []
  | start, p => if p.before.isEmpty then [p] else []
  | finish, p => if p.after.isEmpty then [p] else []
  | wordEdge negated, p => if p.atWordEdge != negated then [p] else []
  | cat first second, p => image second.ends (first.ends p)
  | alt first second, p => union (first.ends p) (second.ends p)
  | times body low high, p =>
    let more := match high with
      | none => p.after.length
      | some h => min (h - low) p.after.length
    let least := steps body.ends low [p]
    reach body.ends more least least
  | only last body, p =>
    let found := body.ends p
    (if last then found.getLast? else found.head?).toList
  | ahead negated body, p => if (body.ends p).isEmpty == negated then [p] else []
  | behind negated body, p =>
    let found := (Position.preceding p.after p.before).any fun q =>
      (body.ends q).any fun e => e.offset = p.offset
    if found != negated then [p] else []

/-- The expression matches somewhere in the text. -/
def occurs (r : Regex) (text : String) : Bool :=
  (Position.following 0 [] text.toList).any fun p => !(r.ends p).isEmpty

end Regex
end EntityStore.Schema
