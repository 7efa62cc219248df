import Mathlib.Logic.Relation
import EntityStore.Proofs.Schema.Documents
import EntityStore.Proofs.Schema.Reached

/-! # Validating without demands for presence

A document that meets a schema in the full mode meets it in the lenient mode, if lenience is
`Shielded` from the sensitive keywords of the schema: it changes nothing below them and nothing
behind the references below them. -/

namespace EntityStore.Schema

open Compiled (Follow followWithin)

/-! ### Where lenience must not reach -/

/-- The place that the first reference names contains the second one. -/
def LeadsTo (root : Json) (r r' : String) : Prop :=
  ∃ j, resolve? root r = some j ∧ r' ∈ writtenReferences j

/-- The reference and all behind it name places that lenience does not change. -/
def Untouched (root : Json) (r : String) : Prop :=
  ∀ r', Relation.ReflTransGen (LeadsTo root) r r' →
    resolve? (stripRequired root) r' = resolve? root r'

/-- A reference that is followed is untouched. -/
def Validator.Safe (v : Validator) (r : String) : Prop := r ∈ v.references → Untouched v.root r

/-- Lenience is kept away from the sensitive keywords of an accepted schema: at the root, and at all
places that references lead to, whether lenience changes these or not. -/
structure Validator.Shielded (v : Validator) : Prop where
  root : ∀ a ∈ sensitives v.dialect v.root, Spared v.Safe .lenient a
  reference : ∀ r ∈ v.references, ∀ j, resolve? v.root r = some j →
    ∃ m : Mode, resolve? (stripRequired v.root) r = some (m.schema j) ∧
      ∀ a ∈ sensitives v.dialect j, Spared v.Safe m a

/-! ### References that are followed -/

/-- Only the listed references lead anywhere. -/
def confined (l : List String) (target : String → Option Compiled) (r : String) : Option Compiled :=
  if r ∈ l then target r else none

/-- A reference means what its target means with one reference less to follow. -/
theorem same_followWithin_succ {target target' : String → Option Compiled} {n : Nat} {r : String}
    (htarget : target' r = target r) (h : ∀ s, target r = some s →
      Same (followWithin target n) (followWithin target' n) s) :
    Same (followWithin target (n + 1)) (followWithin target' (n + 1)) (.reference r) := by
  cases hs : target r with
  | none =>
      rw [hs] at htarget
      constructor <;> intros <;>
        simp only [Compiled.violations, Compiled.evaluatedNames, Compiled.evaluatedItems, followWithin,
          hs, htarget, Option.map_none]
  | some s =>
      rw [hs] at htarget
      have hsame := h s hs
      constructor <;> intros <;>
        simp only [Compiled.violations, Compiled.evaluatedNames, Compiled.evaluatedItems, followWithin,
          hs, htarget, Option.map_some, Option.getD_some, hsame.violations, hsame.names, hsame.items]

theorem looser_followWithin_succ {target target' : String → Option Compiled} {n : Nat} {r : String}
    (hnone : target r = none → target' r = none)
    (h : Carries (Looser (followWithin target n) (followWithin target' n)) (target r)
      (target' r)) :
    Looser (followWithin target (n + 1)) (followWithin target' (n + 1)) (.reference r)
      (.reference r) := by
  cases hs : target r with
  | none =>
      refine (same_followWithin_succ ?_ fun s hs' => ?_).looser
      · rw [hs, hnone hs]
      · rw [hs] at hs'
        cases hs'
  | some s =>
      obtain ⟨s', hs', hlooser⟩ := h s hs
      refine ⟨fun {j l} hv => ?_, fun j => ?_, fun j => ?_, rfl⟩
      · simp only [Compiled.violations, followWithin, hs, hs', Option.map_some,
          Option.getD_some] at hv ⊢
        exact hlooser.met hv
      · simp only [Compiled.evaluatedNames, followWithin, hs, hs', Option.map_some,
          Option.getD_some]
        exact hlooser.names j
      · simp only [Compiled.evaluatedItems, followWithin, hs, hs', Option.map_some,
          Option.getD_some]
        exact hlooser.items j

/-- Schemas that use only the listed references do not notice. -/
theorem agree_confined {l : List String} {target : String → Option Compiled}
    (hclosed : ∀ r ∈ l, ∀ s, target r = some s → UsesOnly (· ∈ l) s) (n : Nat) :
    Agree (· ∈ l) (followWithin target n) (followWithin (confined l target) n) := by
  induction n with
  | zero => exact fun _ _ => ⟨fun _ _ => rfl, fun _ => rfl, fun _ => rfl⟩
  | succ n ih =>
      exact fun r hr => same_followWithin_succ (if_pos hr) fun s hs =>
        UsesOnly.same ih s (hclosed r hr s hs)

/-! ### Following references without demands for presence -/

theorem Untouched.step {root j : Json} {r r' : String} (h : Untouched root r)
    (hj : resolve? root r = some j) (hr' : r' ∈ writtenReferences j) : Untouched root r' :=
  fun _ hreach => h _ (.head ⟨j, hj, hr'⟩ hreach)

section
variable {v : Validator} (hv : v.Shielded)

/-- The target of a reference that is followed, as it was written. -/
def Validator.target? (v : Validator) : String → Option Compiled :=
  confined v.references (Schema.target? v.dialect v.root)

/-- The same without demands for presence. -/
def Validator.lenientTarget? (v : Validator) : String → Option Compiled :=
  confined v.references (Schema.target? v.dialect (stripRequired v.root))

theorem Validator.target?_eq_some {r : String} {s : Compiled} (h : v.target? r = some s) :
    r ∈ v.references ∧ ∃ j, resolve? v.root r = some j ∧ Compiled.ofJson? v.dialect j = some s := by
  rw [Validator.target?, confined] at h
  split at h
  · next hr => exact ⟨hr, Option.bind_eq_some_iff.mp h⟩
  · cases h

include hv in
/-- A target asks for less without demands for presence. -/
theorem Validator.Shielded.carries_target? {f g : Follow} (hways : Eases v.Safe f g) (r : String) :
    Carries (Looser f g) (v.target? r) (v.lenientTarget? r) := by
  intro s hs
  obtain ⟨hr, j, hj, hs⟩ := Validator.target?_eq_some hs
  obtain ⟨m, hm, hspared⟩ := hv.reference r hr j hj
  rw [Validator.lenientTarget?, confined, if_pos hr, Schema.target?, hm]
  exact carries_ofJson? hways j hspared s hs

include hv in
/-- However many references are followed, lenience asks for less, and for the same where nothing is
touched. -/
theorem eases_followWithin (hreached : ∀ r ∈ v.references, ∃ s, v.target? r = some s) (n : Nat) :
    Eases v.Safe (followWithin v.target? n) (followWithin v.lenientTarget? n) := by
  induction n with
  | zero =>
      have hzero : ∀ r, Same (followWithin v.target? 0) (followWithin v.lenientTarget? 0)
          (.reference r) := fun r => ⟨fun _ _ => rfl, fun _ => rfl, fun _ => rfl⟩
      exact ⟨fun r _ => hzero r, fun r => (hzero r).looser⟩
  | succ n ih =>
      refine ⟨fun r hsafe => same_followWithin_succ ?_ fun s hs => ?_,
        fun r => looser_followWithin_succ (fun hnone => ?_) (hv.carries_target? ih r)⟩
      · unfold Validator.target? Validator.lenientTarget? confined
        split
        · next hr => rw [Schema.target?, Schema.target?, hsafe hr r .refl]
        · rfl
      · obtain ⟨hr, j, hj, hs⟩ := Validator.target?_eq_some hs
        have hsafes : ∀ r' ∈ writtenReferences j, v.Safe r' :=
          fun _ hr' _ => (hsafe hr).step hj hr'
        exact UsesOnly.same ih.agree s (usesOnly_ofJson? j hsafes s hs)
      · by_cases hr : r ∈ v.references
        · obtain ⟨s, hs⟩ := hreached r hr
          rw [hs] at hnone
          cases hnone
        · exact if_neg hr

end

/-! ### Accepting the schema -/

theorem Validator.compile?_eq_some {root : Json} {v : Validator} :
    Validator.compile? root = some v ↔ Dialect.of? root = some v.dialect ∧
      wellFormed v.dialect root = true ∧ v.root = root ∧
      Compiled.ofJson? v.dialect root = some v.schema ∧
      reached? (Schema.target? v.dialect root) (writtenReferences root).length []
        v.schema.references = some v.references := by
  rw [Validator.compile?]
  constructor
  · intro h
    obtain ⟨d, hd, h⟩ := Option.bind_eq_some_iff.mp h
    split at h
    · next hwell =>
        obtain ⟨s, hs, h⟩ := Option.bind_eq_some_iff.mp h
        obtain ⟨l, hl, h⟩ := Option.bind_eq_some_iff.mp h
        cases h
        exact ⟨hd, hwell, rfl, hs, hl⟩
    · cases h
  · rintro ⟨hd, hwell, rfl, hs, hl⟩
    simp only [hd, hwell, hs, hl, if_true, Option.bind_eq_bind, Option.bind_some]
    rfl

theorem dialect_stripRequired (j : Json) : Dialect.of? (stripRequired j) = Dialect.of? j := by
  cases j with
  | object fields =>
      have hfields : stripRequired (.object fields) = .object (Mode.lenient.fields fields) := rfl
      rw [hfields, Dialect.of?, Dialect.of?, Json.field?, Json.field?,
        Mode.lenient.get?_fields_keep rfl]
  | array items => rfl
  | _ => rfl

/-- An accepted schema is accepted without its demands for presence, and follows the same references,
if it and the targets of its references still compile, and refer to what they referred to. -/
theorem Validator.compile?_stripRequired {v : Validator} {root : Json} {s' : Compiled}
    (hcompile : Validator.compile? root = some v)
    (hs' : Compiled.ofJson? v.dialect (stripRequired root) = some s')
    (hreferences : s'.references = v.schema.references)
    (htargets : ∀ r s, r ∈ v.references → Schema.target? v.dialect root r = some s →
      ∃ t, Schema.target? v.dialect (stripRequired root) r = some t ∧ t.references = s.references) :
    Validator.compile? (stripRequired root) =
      some ⟨v.dialect, stripRequired root, s', v.references⟩ := by
  obtain ⟨hdialect, hwell, rfl, -, hreached⟩ := Validator.compile?_eq_some.mp hcompile
  obtain ⟨-, hown, hclosed⟩ := reached?_closed hreached
  have hwritten : ∀ r ∈ s'.references, r ∈ writtenReferences (stripRequired v.root) :=
    usesOnly_ofJson? (P := (· ∈ writtenReferences (stripRequired v.root))) _ (fun _ h => h) s' hs'
  have hsame : reached? (Schema.target? v.dialect (stripRequired v.root))
      (writtenReferences v.root).length [] s'.references = some v.references := by
    rw [hreferences]
    refine reached?_of_targets (C := (· ∈ v.references)) (fun r s hr hs => ?_) htargets hreached hown
    obtain ⟨t, ht, hreferences⟩ := hclosed r hr nofun
    rw [hs] at ht
    cases ht
    exact hreferences
  refine Validator.compile?_eq_some.mpr ⟨?_, ?_, rfl, hs', ?_⟩
  · rw [dialect_stripRequired, hdialect]
  · exact wellFormed_stripRequired _ hwell
  · exact reached?_of_written hsame hwritten

/-- An accepted schema is accepted without its demands for presence, follows the same references, and
asks for less. -/
theorem Validator.Shielded.compile?_stripRequired {v : Validator} {root : Json} (hv : v.Shielded)
    (hcompile : Validator.compile? root = some v) :
    ∃ s', Validator.compile? (stripRequired root) =
        some ⟨v.dialect, stripRequired root, s', v.references⟩ ∧
      ∀ n, Looser (followWithin v.target? n) (followWithin v.lenientTarget? n) v.schema s' := by
  obtain ⟨-, -, rfl, hschema, hreached⟩ := Validator.compile?_eq_some.mp hcompile
  obtain ⟨-, -, hclosed⟩ := reached?_closed hreached
  have htargets : ∀ r ∈ v.references, ∃ s, v.target? r = some s := by
    intro r hr
    obtain ⟨s, hs, -⟩ := hclosed r hr nofun
    exact ⟨s, by rw [Validator.target?, confined, if_pos hr, hs]⟩
  have hways := eases_followWithin hv htargets
  obtain ⟨s', hs', -⟩ := carries_ofJson? (hways 0) v.root hv.root _ hschema
  have hlooser : ∀ n, Looser (followWithin v.target? n) (followWithin v.lenientTarget? n)
      v.schema s' := by
    intro n
    obtain ⟨t, ht, hlooser⟩ := carries_ofJson? (hways n) v.root hv.root _ hschema
    rw [hs'] at ht
    cases ht
    exact hlooser
  refine ⟨s', Validator.compile?_stripRequired hcompile hs' (hlooser 0).references
    fun r s hr hs => ?_, hlooser⟩
  have hs : v.target? r = some s := by rw [Validator.target?, confined, if_pos hr, hs]
  obtain ⟨t, ht, hlooser⟩ := hv.carries_target? (hways 0) r s hs
  rw [Validator.lenientTarget?, confined, if_pos hr] at ht
  exact ⟨t, ht, hlooser.references⟩

/-! ### Judging documents -/

/-- An accepted schema follows no reference but those that it lists. -/
theorem Validator.violations_eq {v : Validator} {root : Json}
    (hcompile : Validator.compile? root = some v) (document : Json) : v.violations document =
      v.schema.violations (followWithin v.target? (v.referenceFuel document)) document [] := by
  obtain ⟨-, -, rfl, -, hreached⟩ := Validator.compile?_eq_some.mp hcompile
  obtain ⟨-, hown, hclosed⟩ := reached?_closed hreached
  have huses : ∀ r ∈ v.references, ∀ s, Schema.target? v.dialect v.root r = some s →
      UsesOnly (· ∈ v.references) s := by
    intro r hr s hs
    obtain ⟨t, ht, hreferences⟩ := hclosed r hr nofun
    rw [hs] at ht
    cases ht
    exact hreferences
  exact (UsesOnly.same (agree_confined huses _) v.schema hown).violations document []

/-- A document without violations of a schema has none of it without its demands for presence. -/
theorem Validator.Shielded.violations_eq_nil {v v' : Validator} {root document : Json}
    (hv : v.Shielded) (hcompile : Validator.compile? root = some v)
    (hcompile' : Validator.compile? (stripRequired root) = some v')
    (h : v.violations document = []) : v'.violations document = [] := by
  obtain ⟨s', hs', hlooser⟩ := hv.compile?_stripRequired hcompile
  have hroot : v.root = root := (Validator.compile?_eq_some.mp hcompile).2.2.1
  rw [hcompile'] at hs'
  cases hs'
  subst hroot
  rw [Validator.violations_eq hcompile] at h
  rw [Validator.violations_eq hcompile']
  exact (hlooser (v.referenceFuel document)).met h

theorem Validator.errors_eq_nil {v : Validator} {document : Json} :
    v.errors document = [] ↔ v.violations document = [] := by
  rw [Validator.errors, List.map_eq_nil_iff]

theorem Validator.ofJson_eq_ok {root : Json} {v : Validator} :
    Validator.ofJson root = .ok v ↔ Validator.compile? root = some v := by
  have hwell : Validator.compile? root = some v → wellFormed v.dialect root = true :=
    fun h => (Validator.compile?_eq_some.mp h).2.1
  cases root with
  | object _ | bool _ =>
      rw [Validator.ofJson]
      split
      · next w hcompile => rw [hcompile, Except.ok.injEq, Option.some.injEq]
      · next hcompile => simp only [hcompile, reduceCtorEq]
  | _ =>
      refine iff_of_false (fun h => ?_) fun h => ?_
      · cases h
      · cases hwell h

/-- A document is accepted if the schema says nothing, or if the schema that counts is accepted and
has no violations in it. -/
theorem validate_eq_ok {m : Mode} {schema document : Json} :
    validate m schema document = .ok () ↔ isUnconstrained schema = true ∨
      ∃ v, Validator.compile? (m.schema schema) = some v ∧ v.violations document = [] := by
  rw [validate]
  split
  · next hu => exact iff_of_true rfl (.inl hu)
  · next hu =>
      rw [or_iff_right hu]
      split
      · next fault hfault =>
          refine iff_of_false nofun fun ⟨v, hv, _⟩ => ?_
          rw [Validator.ofJson_eq_ok.mpr hv] at hfault
          cases hfault
      · next v hok =>
          have hv := Validator.ofJson_eq_ok.mp hok
          split
          · next hnone =>
              exact iff_of_true rfl ⟨v, hv, Validator.errors_eq_nil.mp hnone⟩
          · next hsome =>
              refine iff_of_false nofun fun ⟨w, hw, hnone⟩ => ?_
              rw [hv] at hw
              cases hw
              exact hsome (Validator.errors_eq_nil.mpr hnone)

/-- What the full mode accepts, the lenient mode accepts. -/
theorem validate_lenient_of_full {schema document : Json}
    (hshielded : ∀ v, Validator.compile? schema = some v → v.Shielded)
    (h : validate .full schema document = .ok ()) : validate .lenient schema document = .ok () := by
  rw [validate_eq_ok] at h ⊢
  rcases h with hu | ⟨v, hv, hnone⟩
  · exact .inl hu
  · obtain ⟨s', hs', -⟩ := (hshielded v hv).compile?_stripRequired hv
    exact .inr ⟨_, hs', (hshielded v hv).violations_eq_nil hv hs' hnone⟩

end EntityStore.Schema
