import EntityStore.Proofs.Schema.Looser

/-! # Schemas that use some references only

Two ways of following references make no difference to a schema that uses only references on which
they agree (`UsesOnly.same`). -/

namespace EntityStore.Schema

open Compiled

/-! ### The references that a schema uses -/

/-- All references of the schema are of that kind. -/
def UsesOnly (P : String → Prop) (s : Compiled) : Prop := ∀ r ∈ s.references, P r

/-- The same of a list of schemas. -/
def AllUseOnly (P : String → Prop) (ss : List Compiled) : Prop := ∀ r ∈ referencesOf ss, P r

theorem allUseOnly_nil {P : String → Prop} : AllUseOnly P [] := nofun

theorem allUseOnly_cons {P : String → Prop} {s : Compiled} {ss : List Compiled} :
    AllUseOnly P (s :: ss) ↔ UsesOnly P s ∧ AllUseOnly P ss := by
  rw [AllUseOnly, referencesOf, List.forall_mem_append, UsesOnly, AllUseOnly]

theorem allUseOnly_iff {P : String → Prop} : ∀ {ss : List Compiled},
    AllUseOnly P ss ↔ ∀ s ∈ ss, UsesOnly P s
  | [] => ⟨fun _ _ h => (List.not_mem_nil h).elim, fun _ => allUseOnly_nil⟩
  | s :: ss => by rw [allUseOnly_cons, List.forall_mem_cons, allUseOnly_iff]

theorem usesOnly_reference {P : String → Prop} {r : String} (h : P r) :
    UsesOnly P (.reference r) := fun _ hr => List.mem_singleton.mp hr ▸ h

theorem usesOnly_ifThenElse {P : String → Prop} {c yes no : Compiled} :
    UsesOnly P (.ifThenElse c yes no) ↔ UsesOnly P c ∧ UsesOnly P yes ∧ UsesOnly P no := by
  rw [UsesOnly, Compiled.references, List.forall_mem_append, List.forall_mem_append]
  exact Iff.rfl

theorem usesOnly_unevaluatedProperties {P : String → Prop} {siblings : List Compiled} {s : Compiled} :
    UsesOnly P (.unevaluatedProperties siblings s) ↔ AllUseOnly P siblings ∧ UsesOnly P s := by
  rw [UsesOnly, Compiled.references, List.forall_mem_append]
  exact Iff.rfl

theorem usesOnly_unevaluatedItems {P : String → Prop} {siblings : List Compiled} {s : Compiled} :
    UsesOnly P (.unevaluatedItems siblings s) ↔ AllUseOnly P siblings ∧ UsesOnly P s := by
  rw [UsesOnly, Compiled.references, List.forall_mem_append]
  exact Iff.rfl

/-! ### No difference -/

/-- The two ways make no difference to the schema. -/
structure Same (f g : Follow) (s : Compiled) : Prop where
  violations : ∀ j l, violations f s j l = violations g s j l
  names : ∀ j, evaluatedNames f s j = evaluatedNames g s j
  items : ∀ j, evaluatedItems f s j = evaluatedItems g s j

/-- The two ways agree on the references of that kind. -/
def Agree (P : String → Prop) (f g : Follow) : Prop := ∀ r, P r → Same f g (.reference r)

/-- The same of a list of schemas, however it is read. -/
structure SameAll (f g : Follow) (ss : List Compiled) : Prop where
  violations : ∀ j l, violationsAll f ss j l = violationsAll g ss j l
  count : ∀ j, countMet f ss j = countMet g ss j
  names : ∀ j, namesOfAll f ss j = namesOfAll g ss j
  namesMet : ∀ j, namesOfMet f ss j = namesOfMet g ss j
  items : ∀ j, itemsOfAll f ss j = itemsOfAll g ss j
  itemsMet : ∀ j, itemsOfMet f ss j = itemsOfMet g ss j

variable {f g : Follow}

theorem SameAll.nil : SameAll f g [] := by
  constructor <;> intros <;> rfl

theorem SameAll.cons {s : Compiled} {ss : List Compiled} (h : Same f g s) (hs : SameAll f g ss) :
    SameAll f g (s :: ss) where
  violations j l := by rw [violationsAll, violationsAll, h.violations, hs.violations]
  count j := by rw [countMet, countMet, h.violations, hs.count]
  names j := by rw [namesOfAll, namesOfAll, h.names, hs.names]
  namesMet j := by rw [namesOfMet, namesOfMet, h.violations, h.names, hs.namesMet]
  items j := by rw [itemsOfAll, itemsOfAll, h.items, hs.items]
  itemsMet j := by rw [itemsOfMet, itemsOfMet, h.violations, h.items, hs.itemsMet]

mutual
theorem UsesOnly.same {P : String → Prop} (hfg : Agree P f g) : ∀ (s : Compiled),
    UsesOnly P s → Same f g s
  | .always, _ | .never, _ | .check _, _ | .closed _ _, _ | .noProperties, _ | .noNames, _
  | .noItemsFrom _, _ => ⟨fun _ _ => rfl, fun _ => rfl, fun _ => rfl⟩
  | .reference r, h => hfg r (h r (List.mem_singleton.mpr rfl))
  | .all ss, h =>
    have ih := AllUseOnly.same hfg ss h
    ⟨ih.violations, ih.names, ih.items⟩
  | .allOf ss, h =>
    have ih := AllUseOnly.same hfg ss h
    ⟨ih.violations, ih.namesMet, ih.itemsMet⟩
  | .anyOf ss, h =>
    have ih := AllUseOnly.same hfg ss h
    ⟨fun j l => by rw [violations, violations, ih.count], ih.namesMet, ih.itemsMet⟩
  | .oneOf ss, h =>
    have ih := AllUseOnly.same hfg ss h
    ⟨fun j l => by rw [violations, violations, ih.count], ih.namesMet, ih.itemsMet⟩
  | .not _ s, h =>
    have ih := UsesOnly.same hfg s h
    ⟨fun j l => by rw [violations, violations, ih.violations], fun _ => rfl, fun _ => rfl⟩
  | .ifThenElse c yes no, h =>
    have huses := usesOnly_ifThenElse.mp h
    have hc := UsesOnly.same hfg c huses.1
    have hyes := UsesOnly.same hfg yes huses.2.1
    have hno := UsesOnly.same hfg no huses.2.2
    { violations := fun j l => by
        rw [violations, violations, hc.violations, hyes.violations, hno.violations]
      names := fun j => by
        rw [evaluatedNames, evaluatedNames, hc.violations, hc.names, hyes.names, hno.names]
      items := fun j => by
        rw [evaluatedItems, evaluatedItems, hc.violations, hc.items, hyes.items, hno.items] }
  | .property name s, h =>
    have ih := UsesOnly.same hfg s h
    { violations := fun j l => by simp only [violations, ih.violations]
      names := fun j => by simp only [evaluatedNames, ih.violations]
      items := fun _ => rfl }
  | .matching regex s, h =>
    have ih := UsesOnly.same hfg s h
    { violations := fun j l => by simp only [violations, ih.violations]
      names := fun j => by simp only [evaluatedNames, ih.violations]
      items := fun _ => rfl }
  | .additional listed patterns s, h =>
    have ih := UsesOnly.same hfg s h
    { violations := fun j l => by simp only [violations, ih.violations]
      names := fun j => by simp only [evaluatedNames, ih.violations]
      items := fun _ => rfl }
  | .names s, h =>
    have ih := UsesOnly.same hfg s h
    ⟨fun j l => by simp only [violations, ih.violations], fun _ => rfl, fun _ => rfl⟩
  | .dependent name s, h =>
    have ih := UsesOnly.same hfg s h
    { violations := fun j l => by simp only [violations, ih.violations]
      names := fun j => by simp only [evaluatedNames, ih.names]
      items := fun _ => rfl }
  | .item index s, h =>
    have ih := UsesOnly.same hfg s h
    ⟨fun j l => by simp only [violations, ih.violations], fun _ => rfl, fun _ => rfl⟩
  | .itemsFrom index s, h =>
    have ih := UsesOnly.same hfg s h
    ⟨fun j l => by simp only [violations, ih.violations], fun _ => rfl, fun _ => rfl⟩
  | .contains low high s, h =>
    have ih := UsesOnly.same hfg s h
    { violations := fun j l => by cases j <;> simp only [violations, ih.violations]
      names := fun _ => rfl
      items := fun j => by simp only [evaluatedItems, ih.violations] }
  | .unevaluatedProperties siblings s, h =>
    have huses := usesOnly_unevaluatedProperties.mp h
    have hs := AllUseOnly.same hfg siblings huses.1
    have ih := UsesOnly.same hfg s huses.2
    { violations := fun j l => by simp only [violations, hs.names, ih.violations]
      names := fun j => by simp only [evaluatedNames, ih.violations]
      items := fun _ => rfl }
  | .unevaluatedItems siblings s, h =>
    have huses := usesOnly_unevaluatedItems.mp h
    have hs := AllUseOnly.same hfg siblings huses.1
    have ih := UsesOnly.same hfg s huses.2
    { violations := fun j l => by simp only [violations, hs.items, ih.violations]
      names := fun _ => rfl
      items := fun j => by simp only [evaluatedItems, ih.violations] }

theorem AllUseOnly.same {P : String → Prop} (hfg : Agree P f g) : ∀ (ss : List Compiled),
    AllUseOnly P ss → SameAll f g ss
  | [], _ => .nil
  | s :: ss, h =>
    have huses := allUseOnly_cons.mp h
    .cons (UsesOnly.same hfg s huses.1) (AllUseOnly.same hfg ss huses.2)
end

theorem Same.looser {s : Compiled} (h : Same f g s) : Looser f g s s where
  met hv := by rw [← h.violations, hv]
  names j := by rw [h.names]; exact List.Subset.refl _
  items j := by rw [h.items]; exact fun _ hi => hi
  references := rfl

theorem SameAll.looser {ss : List Compiled} (h : SameAll f g ss) : LooserAll f g ss ss where
  met hv := by rw [← h.violations, hv]
  names j := by rw [h.names]; exact List.Subset.refl _
  items j := by rw [h.items]; exact fun _ hi => hi
  references := rfl

/-- A schema without references means the same, however they are followed. -/
theorem looser_self {s : Compiled} (h : UsesOnly (fun _ => False) s) : Looser f g s s :=
  (UsesOnly.same (P := fun _ => False) nofun s h).looser

end EntityStore.Schema
