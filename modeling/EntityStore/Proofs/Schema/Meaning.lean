import EntityStore.Proofs.Schema.Lenient

/-! # What a schema says

`Means f s P` says that a schema, with references followed as `f` does, accepts the values that have a
property `P`: there is one clause for each way to build a schema, so what a document says is read off
its schema from the inside out.  A reference means what its target means, if enough references can be
followed (`MeansFrom.reference`).

`IsRecord` is what the schema of a record says (`means_recordSchema`), and `validate_iff` takes the
meaning of a schema document to validation. -/

namespace EntityStore.Schema

open Compiled

/-- The schema has no violations in a value, wherever that stands, if it has the property. -/
def Means (f : Follow) (s : Compiled) (P : Json → Prop) : Prop :=
  ∀ j l, violations f s j l = [] ↔ P j

/-- Each schema means one of the properties. -/
def MeanAll (f : Follow) : List Compiled → List (Json → Prop) → Prop := List.Forall₂ (Means f)

variable {f : Follow} {s : Compiled} {P Q : Json → Prop}

/-! ### One schema -/

namespace Means

theorem congr (h : Means f s P) (hiff : ∀ j, P j ↔ Q j) : Means f s Q :=
  fun j l => (h j l).trans (hiff j)

theorem isEmpty_iff (h : Means f s P) {j : Json} {l : Location} :
    (violations f s j l).isEmpty = true ↔ P j := List.isEmpty_iff.trans (h j l)

theorem always : Means f .always fun _ => True := fun _ _ => by
  rw [violations]
  exact iff_of_true rfl trivial

theorem check (c : Check) : Means f (.check c) fun j => c.holds j = true := fun j l => by
  rw [violations]
  split
  · next h => exact iff_of_true rfl h
  · next h => exact iff_of_false nofun h

theorem type (types : List TypeName) : Means f (.check (.type false types)) fun j =>
    ∃ t ∈ types, t.contains false j = true :=
  (check _).congr fun j => by simp only [Check.holds, List.any_eq_true]

theorem property (name : String) (h : Means f s P) : Means f (.property name s) fun j =>
    ∀ v, Fields.get? name (propertiesOf j) = some v → P v := fun j l => by
  rw [violations]
  dsimp only
  cases Fields.get? name (propertiesOf j) with
  | none => exact iff_of_true rfl nofun
  | some v => simp only [h v, Option.some.injEq, forall_eq']

theorem mem_indexed {v : Json} : ∀ {items : List Json} {start : Nat},
    (∃ i, (i, v) ∈ indexed start items) ↔ v ∈ items
  | [], _ => by simp only [indexed, List.not_mem_nil, exists_false]
  | j :: rest, start => by
      simp only [indexed, List.mem_cons, Prod.mk.injEq, exists_or, mem_indexed, exists_and_right,
        exists_eq, true_and]

theorem items (h : Means f s P) : Means f (.itemsFrom 0 s) fun j => ∀ v ∈ itemsOf j, P v :=
  fun j l => by
    simp only [violations, List.drop_zero, List.flatMap_eq_nil_iff, Prod.forall]
    constructor
    · intro hall v hv
      obtain ⟨i, hi⟩ := mem_indexed.mpr hv
      exact (h v _).mp (hall i v hi)
    · exact fun hall i v hv => (h v _).mpr (hall v (mem_indexed.mp ⟨i, hv⟩))

end Means

/-! ### Several schemas -/

namespace MeanAll

variable {ss ss' : List Compiled} {Ps Ps' : List (Json → Prop)}

theorem append (h : MeanAll f ss Ps) (h' : MeanAll f ss' Ps') : MeanAll f (ss ++ ss') (Ps ++ Ps') :=
  List.rel_append h h'

/-- The keywords of a schema object. -/
theorem all (h : MeanAll f ss Ps) : Means f (.all ss) fun j => ∀ P ∈ Ps, P j := fun j l => by
  rw [violations]
  induction h with
  | nil => exact iff_of_true rfl nofun
  | cons hs _ ih =>
      rw [violationsAll, List.append_eq_nil_iff, hs j l, ih]
      exact (List.forall_mem_cons (p := fun P : Json → Prop => P j)).symm

theorem countMet_eq_zero (h : MeanAll f ss Ps) (j : Json) :
    countMet f ss j = 0 ↔ ∀ P ∈ Ps, ¬ P j := by
  induction h with
  | nil => exact iff_of_true rfl fun _ hP => absurd hP List.not_mem_nil
  | @cons s P ss Ps hs _ ih =>
      rw [countMet, Nat.add_eq_zero_iff, ih, List.forall_mem_cons]
      by_cases hj : P j
      · rw [if_pos (hs.isEmpty_iff.mpr hj)]
        exact iff_of_false (fun h => absurd h.1 Nat.one_ne_zero) fun h => h.1 hj
      · rw [if_neg (mt hs.isEmpty_iff.mp hj)]
        exact and_congr_left' (iff_of_true rfl hj)

theorem anyOf (h : MeanAll f ss Ps) : Means f (.anyOf ss) fun j => ∃ P ∈ Ps, P j := fun j l => by
  have hzero := h.countMet_eq_zero j
  rw [violations]
  split
  · next hnone => exact iff_of_false nofun fun ⟨P, hP, hj⟩ => hzero.mp hnone P hP hj
  · next hsome =>
      refine iff_of_true rfl (by_contra fun hnone => hsome (hzero.mpr fun P hP hj => ?_))
      exact hnone ⟨P, hP, hj⟩

/-- Where no two properties go together, a value that meets a schema meets no other one. -/
theorem countMet_eq_one (h : MeanAll f ss Ps) (j : Json)
    (hapart : Ps.Pairwise fun P Q => P j → ¬ Q j) : countMet f ss j = 1 ↔ ∃ P ∈ Ps, P j := by
  induction h with
  | nil => exact iff_of_false nofun fun ⟨_, hP, _⟩ => nomatch hP
  | @cons s P ss Ps hs hrest ih =>
      obtain ⟨hP, hapart⟩ := List.pairwise_cons.mp hapart
      rw [countMet]
      by_cases hj : P j
      · have hzero : countMet f ss j = 0 :=
          (countMet_eq_zero hrest j).mpr fun Q hQ => hP Q hQ hj
        rw [if_pos (hs.isEmpty_iff.mpr hj), hzero]
        exact iff_of_true rfl ⟨P, List.mem_cons_self, hj⟩
      · rw [if_neg (mt hs.isEmpty_iff.mp hj), Nat.zero_add, ih hapart]
        simp only [List.mem_cons, exists_eq_or_imp, hj, false_or]

theorem oneOf (h : MeanAll f ss Ps) (hapart : ∀ j, Ps.Pairwise fun P Q => P j → ¬ Q j) :
    Means f (.oneOf ss) fun j => ∃ P ∈ Ps, P j := fun j l => by
  refine Iff.trans ?_ (h.countMet_eq_one j (hapart j))
  rw [violations]
  split
  · next hzero =>
      exact iff_of_false (List.cons_ne_nil _ _) fun hone =>
        absurd (hzero.symm.trans hone) Nat.zero_ne_one
  · next hone => exact iff_of_true rfl hone
  · next hnot => exact iff_of_false (List.cons_ne_nil _ _) hnot

end MeanAll

/-- A schema object with one keyword. -/
theorem Means.single (h : Means f s P) : Means f (.all [s]) P := by
  have hparts : MeanAll f [s] [P] := .cons h .nil
  exact hparts.all.congr fun j => List.forall_mem_singleton (p := fun P : Json → Prop => P j)

/-- A schema object with two keywords. -/
theorem Means.both {s' : Compiled} (h : Means f s P) (h' : Means f s' Q) :
    Means f (.all [s, s']) fun j => P j ∧ Q j := by
  have hparts : MeanAll f [s, s'] [P, Q] := .cons h (.cons h' .nil)
  refine hparts.all.congr fun j => ?_
  simp only [List.mem_cons, List.not_mem_nil, or_false, forall_eq_or_imp, forall_eq]

/-! ### References -/

/-- What a schema means wherever at least so many references can be followed. -/
def MeansFrom (target : String → Option Compiled) (fuel : Nat) (s : Compiled) (P : Json → Prop) : Prop :=
  ∀ n, fuel ≤ n → Means (followWithin target n) s P

/-- A reference means what the schema means that it leads to. -/
theorem MeansFrom.reference {target : String → Option Compiled} {fuel : Nat} {pointer : String}
    (h : MeansFrom target fuel s P) (htarget : target pointer = some s) :
    MeansFrom target (fuel + 1) (.reference pointer) P := by
  rintro (_ | n) hn j l
  · exact absurd hn (Nat.not_succ_le_zero fuel)
  · rw [violations, followWithin]
    dsimp only
    rw [htarget, Option.map_some, Option.getD_some]
    exact h n (Nat.le_of_succ_le_succ hn) j l

/-! ### Records -/

/-- An object that has the required fields, and in which each field that there is has its form. -/
def IsRecord (forms : List (String × (Json → Prop))) (required : List String) (j : Json) : Prop :=
  ∃ fields : Fields, j = .object fields ∧
    (∀ form ∈ forms, ∀ v, fields.get? form.1 = some v → form.2 v) ∧
    ∀ name ∈ required, (fields.get? name).isSome

/-- The same, as the keywords of a schema say it. -/
theorem isRecord_iff {forms : List (String × (Json → Prop))} {required : List String} {j : Json} :
    IsRecord forms required j ↔
      (∀ form ∈ forms, ∀ v, Fields.get? form.1 (propertiesOf j) = some v → form.2 v) ∧
      (Check.type false [.object]).holds j = true ∧
      ∀ name ∈ required, (Check.present name).holds j = true := by
  constructor
  · rintro ⟨fields, rfl, hforms, hrequired⟩
    exact ⟨hforms, rfl, hrequired⟩
  · rintro ⟨hforms, htype, hrequired⟩
    cases j with
    | object fields => exact ⟨fields, rfl, hforms, hrequired⟩
    | null | bool _ | number _ | string _ | array _ => exact absurd htype Bool.false_ne_true

/-- The schema of a record: of each field, of the required fields and of the whole. -/
def recordSchema (members : List (String × Compiled)) (required : List String) : Compiled :=
  .all (members.map (fun m => .property m.1 m.2) ++
    (if required.isEmpty then [] else [presence required]) ++ [.check (.type false [.object])])

/-- Each field has a form and a schema that means it. -/
def MembersMean (f : Follow) : List (String × Compiled) → List (String × (Json → Prop)) → Prop :=
  List.Forall₂ fun m form => m.1 = form.1 ∧ Means f m.2 form.2

theorem means_presence (names : List String) : Means f (presence names) fun j =>
    ∀ name ∈ names, (Check.present name).holds j = true := by
  have hchecks : MeanAll f (names.map fun n => .check (.present n))
      (names.map fun n j => (Check.present n).holds j = true) := by
    rw [MeanAll, List.forall₂_map_left_iff, List.forall₂_map_right_iff, List.forall₂_same]
    exact fun n _ => .check _
  exact hchecks.all.congr fun j => List.forall_mem_map

theorem means_recordSchema {members : List (String × Compiled)}
    {forms : List (String × (Json → Prop))} (h : MembersMean f members forms)
    (required : List String) : Means f (recordSchema members required) (IsRecord forms required) := by
  have hmembers : MeanAll f (members.map fun m => .property m.1 m.2) (forms.map fun form j =>
      ∀ v, Fields.get? form.1 (propertiesOf j) = some v → form.2 v) := by
    rw [MeanAll, List.forall₂_map_left_iff, List.forall₂_map_right_iff]
    refine List.Forall₂.imp (fun m form hm => ?_) h
    rw [hm.1]
    exact hm.2.property form.1
  have hrequired : MeanAll f (if required.isEmpty then [] else [presence required])
      (if required.isEmpty then [] else
        [fun j => ∀ name ∈ required, (Check.present name).holds j = true]) := by
    split
    · exact .nil
    · exact .cons (means_presence required) .nil
  have htype : MeanAll f [.check (.type false [.object])]
      [fun j => (Check.type false [.object]).holds j = true] := .cons (.check _) .nil
  refine ((hmembers.append hrequired).append htype).all.congr fun j => ?_
  rw [List.forall_mem_append, List.forall_mem_append, List.forall_mem_map,
    List.forall_mem_singleton]
  have hkeys : (∀ P ∈ (if required.isEmpty then [] else
      [fun j => ∀ name ∈ required, (Check.present name).holds j = true]), P j) ↔
      ∀ name ∈ required, (Check.present name).holds j = true := by
    cases required with
    | nil => exact iff_of_true nofun nofun
    | cons name rest => exact List.forall_mem_singleton
  rw [hkeys, isRecord_iff, and_assoc]
  exact and_congr_right fun _ => and_comm

/-! ### Validation -/

/-- A document is accepted if it has the property that the schema means, where references can be
followed as often as on the way through two levels of the document. -/
theorem validate_iff {v : Validator} {root : Json} {fuel : Nat}
    (hcompile : Validator.compile? root = some v) (hconstrained : isUnconstrained root = false)
    (hfuel : fuel ≤ v.references.length * 2 + 1)
    (h : MeansFrom (target? v.dialect root) fuel v.schema P) {j : Json} :
    validate .full root j = .ok () ↔ P j := by
  obtain ⟨-, -, hroot, -, -⟩ := Validator.compile?_eq_some.mp hcompile
  have henough : fuel ≤ v.referenceFuel j :=
    Nat.le_trans hfuel (Nat.succ_le_succ (Nat.mul_le_mul_left _ (Nat.le_add_left 2 j.depth)))
  have hviolations : v.violations j = [] ↔ P j := by
    rw [Validator.violations, hroot]
    exact h _ henough j []
  rw [validate_eq_ok, hconstrained, or_iff_right Bool.false_ne_true, ← hviolations]
  constructor
  · rintro ⟨w, hw, hnone⟩
    have hsame : some w = some v := hw.symm.trans hcompile
    cases hsame
    exact hnone
  · exact fun hnone => ⟨v, hcompile, hnone⟩

end EntityStore.Schema
