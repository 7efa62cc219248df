import EntityStore.Proofs.Sql.Spelling
import EntityStore.Proofs.Store.Selection

/-! # What the comparisons select

A comparison selects the rows where the path leads to something that stands for a number, if that
number is in the relation (`selects_comparison`): a number stands for what the database holds, and a
text for the real that it spells up to its first NUL (`Denotes`).  So of two opposite comparisons
exactly one selects a row, if anything there stands for a number, and none does if not.

A text is read up to its first NUL only, so one that is no number as a whole can be selected
(`selects_beyond_nul`). -/

namespace EntityStore.Store

open Query (Comparison Path Predicate)
open Sql (Extended Spells)

/-- The value stands for the number in comparisons. -/
def Denotes : Json → Extended → Prop
  | .number m, a => a = m.stored
  | .string s, a => ∃ n, Spells (Text.untilNul s.toList) n ∧ a = (Sql.Real.ofNumeral n).value
  | _, _ => False

/-- A value stands for one number at most. -/
theorem Denotes.unique {j : Json} {a b : Extended} (ha : Denotes j a) (hb : Denotes j b) :
    a = b := by
  cases j with
  | number m => exact Eq.trans ha (Eq.symm hb)
  | string s =>
      obtain ⟨m, hm, rfl⟩ := ha
      obtain ⟨n, hn, rfl⟩ := hb
      rw [hm.unique hn]
  | null | bool _ | array _ | object _ => exact absurd ha id

/-! ### Comparing a stored value -/

section compares
variable {relation : Comparison} {n : Number}

theorem compares_number (m : Number) :
    Query.compares (Json.number m).source relation n = true ↔
      relation.Relates m.stored (Sql.extend n.bound) := by
  rw [← Sql.order_test_number (Sql.numeralValue_number? m) (Sql.ofNumber_number? n)]
  exact decide_eq_true_iff

/-- A text is compared as the real that it spells. -/
theorem compares_string (s : String) :
    Query.compares (Json.string s).source relation n = true ↔
      ∃ m, Spells (Text.untilNul s.toList) m ∧
        relation.Relates (Sql.Real.ofNumeral m).value (Sql.extend n.bound) := by
  have hstands : ∀ x : Sql.Real,
      (Sql.Relation.order relation).test (.real x) (Sql.Param.ofNumber n).value = some true ↔
        relation.Relates x.value (Sql.extend n.bound) :=
    fun x => Sql.order_test_number rfl (Sql.ofNumber_number? n) relation
  rw [Json.source, Query.compares, Sql.bodyText_escape]
  dsimp only
  constructor
  · intro h
    split at h
    · next d hd =>
        rw [Bool.and_eq_true_iff, decide_eq_true_iff] at h
        obtain ⟨m, rfl⟩ := Query.exists_number h.1
        have hspells := Sql.parse?_eq_number_iff.mp hd
        rw [Sql.leadingReal_of_spells hspells, hstands] at h
        exact ⟨m, hspells, h.2⟩
    · cases h
  · rintro ⟨m, hspells, hrelates⟩
    have hread : Sql.readDocument? s.toList = some (.number m) :=
      Sql.parse?_eq_number_iff.mpr hspells
    rw [hread, Sql.leadingReal_of_spells hspells]
    exact Bool.and_eq_true_iff.mpr
      ⟨Query.isNumber_kind m, decide_eq_true ((hstands _).mpr hrelates)⟩

theorem compares_source (j : Json) :
    Query.compares j.source relation n = true ↔
      ∃ a, Denotes j a ∧ relation.Relates a (Sql.extend n.bound) := by
  cases j with
  | number m =>
      rw [compares_number m]
      exact ⟨fun hrelates => ⟨_, rfl, hrelates⟩, fun ⟨_, heq, hrelates⟩ => heq ▸ hrelates⟩
  | string s =>
      rw [compares_string]
      exact ⟨fun ⟨m, hm, hrelates⟩ => ⟨_, ⟨m, hm, rfl⟩, hrelates⟩,
        fun ⟨_, ⟨m, hm, heq⟩, hrelates⟩ => ⟨m, hm, heq ▸ hrelates⟩⟩
  | null | bool _ | array _ | object _ =>
      exact iff_of_false Bool.false_ne_true fun ⟨_, hdenotes, _⟩ => hdenotes

end compares

/-! ### Rows -/

/-- A path leads to something that stands for the number. -/
def DenotesAt (document : Json) (path : Path) (a : Extended) : Prop :=
  ∃ j, document.at? path.segments = some j ∧ Denotes j a

/-- What the comparisons of a path with a number select of a row with a document. -/
structure ComparisonSelects (document : Json) (r : EntityRow) (path : Path) (n : Number) :
    Prop where
  decided : ∀ relation, Decided (.compares path relation n) r
    (∃ a, DenotesAt document path a ∧ relation.Relates a (Sql.extend n.bound))
  less_or_greaterEqual : (∃ a, DenotesAt document path a) →
    (selects (.compares path .less n) r = .ok true ↔
      ¬ selects (.compares path .greaterEqual n) r = .ok true)
  greater_or_lessEqual : (∃ a, DenotesAt document path a) →
    (selects (.compares path .greater n) r = .ok true ↔
      ¬ selects (.compares path .lessEqual n) r = .ok true)
  nothing : (¬ ∃ a, DenotesAt document path a) →
    ∀ relation, selects (.compares path relation n) r = .ok false

section comparison
variable {document : Json} {r : EntityRow} {path : Path}

theorem DenotesAt.unique {a b : Extended} (ha : DenotesAt document path a)
    (hb : DenotesAt document path b) : a = b := by
  obtain ⟨j, hj, ha⟩ := ha
  obtain ⟨k, hk, hb⟩ := hb
  obtain rfl := Option.some.inj (hj.symm.trans hk)
  exact ha.unique hb

theorem decided_comparison (hr : r.data = document.source)
    (relation : Comparison) (n : Number) : Decided (.compares path relation n) r
      (∃ a, DenotesAt document path a ∧ relation.Relates a (Sql.extend n.bound)) := by
  refine decided_of_holds trivial (predicateDepth_le (by simp)) ?_
  rw [hr, Predicate.holds, any_lookup?_iff]
  constructor
  · rintro ⟨j, hj, hcompares⟩
    obtain ⟨a, ha, hrelates⟩ := (compares_source j).mp hcompares
    exact ⟨a, ⟨j, hj, ha⟩, hrelates⟩
  · rintro ⟨a, ⟨j, hj, ha⟩, hrelates⟩
    exact ⟨j, hj, (compares_source j).mpr ⟨a, ha, hrelates⟩⟩

/-- Comparisons never fail, and they select by what stands at the end of the path. -/
theorem selects_comparison (hr : r.data = document.source) (path : Path) (n : Number) :
    ComparisonSelects document r path n := by
  have hdecided : ∀ relation, Decided (.compares path relation n) r
      (∃ a, DenotesAt document path a ∧ relation.Relates a (Sql.extend n.bound)) :=
    fun relation => decided_comparison hr relation n
  have hselects : ∀ {a}, DenotesAt document path a → ∀ relation,
      selects (.compares path relation n) r = .ok true ↔
        relation.Relates a (Sql.extend n.bound) := by
    intro a ha relation
    rw [decided_iff (hdecided relation)]
    exact ⟨fun ⟨b, hb, hrelates⟩ => hb.unique ha ▸ hrelates, fun hrelates => ⟨a, ha, hrelates⟩⟩
  constructor
  case decided => exact hdecided
  case less_or_greaterEqual =>
    rintro ⟨a, ha⟩
    rw [hselects ha, hselects ha]
    exact not_le.symm
  case greater_or_lessEqual =>
    rintro ⟨a, ha⟩
    rw [hselects ha, hselects ha]
    exact not_le.symm
  case nothing =>
    intro hnone relation
    obtain ⟨answer, hanswer, hiff⟩ := hdecided relation
    cases answer with
    | false => exact hanswer
    | true =>
        obtain ⟨a, ha, -⟩ := hiff.mp rfl
        exact absurd ⟨a, ha⟩ hnone

end comparison

/-- Five is less than ten, and the text of a name is no number. -/
theorem selects_comparison_sample :
    selects (.compares countPath .less (.integer 10)) sampleRow = .ok true ∧
      selects (.compares namePath .less (.integer 10)) sampleRow = .ok false := by
  have hcount := selects_comparison (r := sampleRow) rfl countPath
    (.integer 10)
  have hname := selects_comparison (r := sampleRow) rfl namePath
    (.integer 10)
  constructor
  · refine (decided_iff (hcount.decided .less)).mpr
      ⟨_, ⟨.number (.integer 5), rfl, rfl⟩, ?_⟩
    rw [Number.stored_integer (by decide)]
    refine Sql.strictMono_extend ?_
    rw [Number.bound_integer (by decide), Number.bound_integer (by decide), Int.cast_lt]
    decide
  · refine hname.nothing ?_ .less
    rintro ⟨a, j, hj, ha⟩
    cases hj
    obtain ⟨n, hspells, -⟩ := ha
    have hread : Source.parse? 0 (Text.untilNul "api-15".toList) = none := rfl
    rw [Sql.parse?_eq_number_iff.mpr hspells] at hread
    cases hread

/-! ### Behind a NUL -/

/-- The name of this entity starts with a number and goes on behind a NUL. -/
def nulDocument : Json := .object [("name", .string "15\x00abc")]

def nulRow : EntityRow :=
  .ofEntity ⟨"ent-1", "acme", "service", "api", none, nulDocument, ⟨0, 0⟩, ⟨0, 0⟩⟩

/-- A text that spells no number is selected for the number in front of its first NUL. -/
theorem selects_beyond_nul :
    (∀ n, ¬ Spells "15\x00abc".toList n) ∧
      selects (.compares namePath .greaterEqual (.integer 10)) nulRow = .ok true := by
  constructor
  · intro n hspells
    have hread : Source.parse? 0 "15\x00abc".toList = none := rfl
    rw [Sql.parse?_eq_number_iff.mpr hspells] at hread
    cases hread
  · have hholds : (Predicate.compares namePath .greaterEqual (.integer 10)).holds nulRow.data =
        true := by decide +kernel
    have hdepth : predicateDepth (.compares namePath .greaterEqual (.integer 10)) ≤ maxDepth :=
      predicateDepth_le (by simp)
    have hfits : (Predicate.compares namePath .greaterEqual (.integer 10)).Fits := trivial
    rw [selects_eq hfits hdepth, hholds]

end EntityStore.Store
