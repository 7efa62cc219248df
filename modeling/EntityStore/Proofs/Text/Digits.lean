import EntityStore.Text.Digits
import Mathlib.Algebra.Group.Nat.Defs

/-! # Reading back decimal text

The text of a natural number consists of digits, at least one (`isDigit_of_mem_natural`,
`natural_ne_nil`), and their value is the number (`digitsValue_natural`).  Zeros before a digit run
leave its value and zeros after it multiply it by powers of ten.  A number that fits a width is
padded to exactly that width, and numbers of one width are ordered as their texts are
(`padded_append_lt`). -/

namespace EntityStore.Text

theorem isDigit_eq (c : Char) : isDigit c = c.isDigit := rfl

theorem isDigit_iff {c : Char} : isDigit c = true ↔ 48 ≤ c.toNat ∧ c.toNat ≤ 57 := by
  rw [isDigit, Bool.and_eq_true, decide_eq_true_eq, decide_eq_true_eq]
  exact Iff.rfl

theorem isDigit_of_mem_natural {n : Nat} {c : Char} (h : c ∈ natural n) : isDigit c = true := by
  rw [isDigit_eq]
  exact Nat.isDigit_of_mem_toDigits (by omega) (by omega) h

theorem natural_ne_nil (n : Nat) : natural n ≠ [] := Nat.toDigits_ne_nil

theorem digitsValue_natural (n : Nat) : digitsValue (natural n) = n :=
  Nat.ofDigitChars_ten_toDigits

theorem digitsValue_zeros_append (k : Nat) (ds : List Char) :
    digitsValue (List.replicate k '0' ++ ds) = digitsValue ds := by
  induction k with
  | zero => rfl
  | succ k ih => exact ih

theorem digitsValue_append_zeros (ds : List Char) (k : Nat) :
    digitsValue (ds ++ List.replicate k '0') = digitsValue ds * 10 ^ k := by
  induction k with
  | zero => simp
  | succ k ih =>
      rw [List.replicate_succ', ← List.append_assoc, digitsValue_append, ih, Nat.pow_succ]
      have hz : digitValue '0' = 0 := rfl
      rw [hz, Nat.add_zero, Nat.mul_comm 10, Nat.mul_assoc]

theorem length_natural_mul_ten_pow {n : Nat} (hn : 0 < n) (k : Nat) :
    (natural (n * 10 ^ k)).length = (natural n).length + k := by
  induction k with
  | zero => simp
  | succ k ih =>
      have hpos : 0 < n * 10 ^ k := Nat.mul_pos hn (Nat.pow_pos (by decide))
      have hge : 10 ≤ n * 10 ^ (k + 1) := by
        rw [Nat.pow_succ, ← Nat.mul_assoc]
        omega
      rw [natural, Nat.toDigits_of_base_le (by decide) hge, List.length_append,
        List.length_singleton, Nat.pow_succ, ← Nat.mul_assoc, Nat.mul_div_cancel _ (by decide)]
      rw [natural] at ih
      rw [ih, Nat.add_assoc]

theorem length_natural_le {n k : Nat} (hk : 0 < k) : (natural n).length ≤ k ↔ n < 10 ^ k :=
  Nat.length_toDigits_le_iff (by decide) hk

/-! ### Padded digits -/

theorem length_padded {width n : Nat} (hw : 0 < width) (h : n < 10 ^ width) :
    (padded width n).length = width := by
  have := (length_natural_le hw).mpr h
  simp only [padded, List.length_append, List.length_replicate]
  omega

theorem digitsValue_padded (width n : Nat) : digitsValue (padded width n) = n := by
  rw [padded, digitsValue_zeros_append, digitsValue_natural]

theorem isDigit_of_mem_padded {width n : Nat} {c : Char} (h : c ∈ padded width n) :
    isDigit c = true := by
  rw [padded, List.mem_append] at h
  rcases h with h | h
  · rw [(List.mem_replicate.mp h).2]
    rfl
  · exact isDigit_of_mem_natural h

/-! ### The order of padded digits -/

theorem digitValue_le {c : Char} (h : isDigit c = true) : digitValue c ≤ 9 := by
  have := (isDigit_iff.mp h).2
  rw [digitValue, show '0'.toNat = 48 from rfl]
  omega

theorem lt_of_digitValue_lt {c d : Char} (hc : isDigit c = true)
    (h : digitValue c < digitValue d) : c < d := by
  have := (isDigit_iff.mp hc).1
  rw [digitValue, digitValue, show '0'.toNat = 48 from rfl] at h
  exact UInt32.lt_iff_toNat_lt.mpr (show c.toNat < d.toNat by omega)

theorem eq_of_digitValue_eq {c d : Char} (hc : isDigit c = true) (hd : isDigit d = true)
    (h : digitValue c = digitValue d) : c = d := by
  have := (isDigit_iff.mp hc).1
  have := (isDigit_iff.mp hd).1
  rw [digitValue, digitValue, show '0'.toNat = 48 from rfl] at h
  exact Char.toNat_inj.mp (by omega)

theorem foldl_digitValue (cs : List Char) (n : Nat) :
    cs.foldl (fun n c => 10 * n + digitValue c) n = n * 10 ^ cs.length + digitsValue cs := by
  induction cs generalizing n with
  | nil => simp [digitsValue]
  | cons c cs ih =>
      rw [digitsValue, List.foldl_cons, List.foldl_cons, ih, ih, List.length_cons, Nat.pow_succ]
      simp only [Nat.add_mul, Nat.mul_zero, Nat.zero_add]
      rw [Nat.mul_comm 10 n, Nat.mul_assoc, Nat.mul_comm 10, Nat.add_assoc]

/-- The first digit counts for the most. -/
theorem digitsValue_cons (c : Char) (cs : List Char) :
    digitsValue (c :: cs) = digitValue c * 10 ^ cs.length + digitsValue cs := by
  rw [digitsValue, List.foldl_cons, foldl_digitValue, Nat.mul_zero, Nat.zero_add]

theorem digitsValue_lt {cs : List Char} (h : ∀ c ∈ cs, isDigit c = true) :
    digitsValue cs < 10 ^ cs.length := by
  induction cs with
  | nil => exact Nat.one_pos
  | cons c cs ih =>
      have hc := digitValue_le (h c List.mem_cons_self)
      have hcs := ih fun d hd => h d (List.mem_cons_of_mem c hd)
      have hfirst := Nat.mul_le_mul_right (10 ^ cs.length) hc
      rw [digitsValue_cons, List.length_cons, Nat.pow_succ]
      omega

/-- Of two digit runs of one length, the one with the greater value is the greater text. -/
theorem append_lt_append_of_digitsValue_lt {cs ds : List Char} (hlen : cs.length = ds.length)
    (hcs : ∀ c ∈ cs, isDigit c = true) (hds : ∀ d ∈ ds, isDigit d = true)
    (h : digitsValue cs < digitsValue ds) (x y : List Char) : cs ++ x < ds ++ y := by
  induction cs generalizing ds with
  | nil =>
      rw [List.length_nil, eq_comm, List.length_eq_zero_iff] at hlen
      rw [hlen] at h
      exact absurd h (Nat.lt_irrefl _)
  | cons c cs ih =>
      cases ds with
      | nil => exact absurd hlen (Nat.succ_ne_zero _)
      | cons d ds =>
          have hlen : cs.length = ds.length := Nat.succ.inj hlen
          have hc := hcs c List.mem_cons_self
          have hd := hds d List.mem_cons_self
          have hcs := fun e he => hcs e (List.mem_cons_of_mem c he)
          have hds := fun e he => hds e (List.mem_cons_of_mem d he)
          have hlast := digitsValue_lt hds
          rw [digitsValue_cons, digitsValue_cons, hlen] at h
          rw [List.cons_append, List.cons_append, List.cons_lt_cons_iff]
          rcases Nat.lt_trichotomy (digitValue c) (digitValue d) with hlt | heq | hgt
          · exact .inl (lt_of_digitValue_lt hc hlt)
          · rw [heq] at h
            exact .inr ⟨eq_of_digitValue_eq hc hd heq, ih hlen hcs hds (by omega)⟩
          · have hstep := Nat.mul_le_mul_right (10 ^ ds.length) (Nat.succ_le_of_lt hgt)
            rw [Nat.succ_mul] at hstep
            omega

/-- Numbers of one width are compared before what follows them. -/
theorem padded_append_lt {width m n : Nat} (hw : 0 < width) (hm : m < 10 ^ width)
    (hn : n < 10 ^ width) {x y : List Char} (h : m < n ∨ m = n ∧ x < y) :
    padded width m ++ x < padded width n ++ y := by
  rcases h with hlt | ⟨rfl, hxy⟩
  · refine append_lt_append_of_digitsValue_lt ?_ (fun c hc => isDigit_of_mem_padded hc)
      (fun c hc => isDigit_of_mem_padded hc) ?_ x y
    · rw [length_padded hw hm, length_padded hw hn]
    · rwa [digitsValue_padded, digitsValue_padded]
  · exact List.append_left_lt hxy

end EntityStore.Text
