/-! # White space

`isBlank` is the class of characters with the Unicode property `White_Space`.  Identifiers,
ordering targets and numeric operands are trimmed of this class, so a name made only of
ideographic spaces is as empty as one made of tabs, while a zero-width space is a character like
any other.

`trim` drops the blank margin on both sides and `allBlank` says that nothing is left
(`trimList_eq_nil_iff`). -/

namespace EntityStore.Text

/-- Characters with the Unicode property `White_Space`. -/
def isBlank (c : Char) : Bool :=
  let n := c.toNat
  (0x09 ≤ n && n ≤ 0x0D) || n == 0x20 || n == 0x85 || n == 0xA0 || n == 0x1680 ||
    (0x2000 ≤ n && n ≤ 0x200A) || n == 0x2028 || n == 0x2029 || n == 0x202F || n == 0x205F ||
    n == 0x3000

/-- Drop the blank characters at both ends. -/
def trimList (cs : List Char) : List Char :=
  ((cs.dropWhile isBlank).reverse.dropWhile isBlank).reverse

def trim (s : String) : String := String.ofList (trimList s.toList)

/-- Every character is blank; the empty text is blank. -/
def allBlank (s : String) : Bool := s.toList.all isBlank

theorem dropWhile_isBlank_eq_nil_iff (cs : List Char) :
    cs.dropWhile isBlank = [] ↔ cs.all isBlank = true := by
  induction cs with
  | nil => simp
  | cons c r ih => by_cases h : isBlank c = true <;> simp [h, ih]

theorem trimList_eq_nil_iff (cs : List Char) : trimList cs = [] ↔ cs.all isBlank = true := by
  unfold trimList
  rw [List.reverse_eq_nil_iff, dropWhile_isBlank_eq_nil_iff, List.all_reverse]
  induction cs with
  | nil => simp
  | cons c r ih =>
    by_cases h : isBlank c = true
    · simpa [List.dropWhile_cons, h] using ih
    · simp [h]

theorem trim_eq_empty_iff (s : String) : trim s = "" ↔ allBlank s = true := by
  unfold trim allBlank
  rw [← trimList_eq_nil_iff, show ("" : String) = String.ofList [] from rfl, String.ofList_inj]

end EntityStore.Text
