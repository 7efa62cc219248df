import EntityStore.Proofs.Json.Text

/-! # Values with the same text

`Json.Alike` compares two values structurally: fields in any order, and numbers as they are printed,
so that `1` and `1.0` are different.  For values as they are stored, with sorted fields and numbers
of 64 bits, this is equality, and so is having the same text (`Json.print_eq_iff_alike`): an exact
reader reads a text as one value only. -/

namespace EntityStore

/-- Numbers that are printed alike are the same. -/
theorem Number.eq_of_text {m n : Number} (hm : m.Fits) (hn : n.Fits)
    (h : m.numeral.text = n.numeral.text) : m = n := by
  have hends : Numeral.Ends [] := ⟨Text.bounded_nil, by simp, by simp⟩
  have hread := Numeral.read?_text m.numeral_wellSpelled hends
  rw [h, Numeral.read?_text n.numeral_wellSpelled hends] at hread
  have hnumeral : n.numeral = m.numeral := congrArg Prod.fst (Option.some.inj hread)
  -- an exact reader gives both numbers back
  have hvalue := Number.value?_numeral hm
  rw [← hnumeral, Number.value?_numeral hn, Number.reread_exact, Number.reread_exact] at hvalue
  exact (Option.some.inj hvalue).symm

namespace Json

mutual
/-- Equal but for the order of fields, with numbers taken as printed. -/
def Alike : Json → Json → Prop
  | .null, k => k = .null
  | .bool b, k => k = .bool b
  | .number m, k => ∃ n, k = .number n ∧ m.numeral.text = n.numeral.text
  | .string s, k => k = .string s
  | .array items, k => ∃ others, k = .array others ∧ AlikeItems items others
  | .object fields, k => ∃ others, k = .object others ∧ AlikeFields fields others

def AlikeItems : List Json → List Json → Prop
  | [], others => others = []
  | j :: rest, others => ∃ k rest', others = k :: rest' ∧ Alike j k ∧ AlikeItems rest rest'

def AlikeFields : List (String × Json) → List (String × Json) → Prop
  | [], others => others = []
  | (name, j) :: rest, others =>
    ∃ before k after, others = before ++ (name, k) :: after ∧ Alike j k ∧
      AlikeFields rest (before ++ after)
end

mutual
theorem alike_refl : ∀ j : Json, j.Alike j
  | .null | .bool _ | .string _ => rfl
  | .number m => ⟨m, rfl, rfl⟩
  | .array items => ⟨items, rfl, alikeItems_refl items⟩
  | .object fields => ⟨fields, rfl, alikeFields_refl fields⟩

theorem alikeItems_refl : ∀ items : List Json, AlikeItems items items
  | [] => rfl
  | j :: rest => ⟨j, rest, rfl, alike_refl j, alikeItems_refl rest⟩

theorem alikeFields_refl : ∀ fields : List (String × Json), AlikeFields fields fields
  | [] => rfl
  | (_, j) :: rest => ⟨[], j, rest, rfl, alike_refl j, alikeFields_refl rest⟩
end

/-- The names on the right all stand on the left. -/
theorem exists_name_of_alikeFields : ∀ {fields others : Fields}, AlikeFields fields others →
    ∀ g ∈ others, ∃ f ∈ fields, f.1 = g.1
  | [], _, h, g, hg => by
      rw [h] at hg
      cases hg
  | (name, j) :: rest, _, ⟨before, k, after, rfl, _, hrest⟩, g, hg => by
      have hmem : g = (name, k) ∨ g ∈ before ++ after := by
        simp only [List.mem_append, List.mem_cons] at hg ⊢
        tauto
      rcases hmem with rfl | hmem
      · exact ⟨(name, j), List.mem_cons_self, rfl⟩
      · obtain ⟨f, hf, hname⟩ := exists_name_of_alikeFields hrest g hmem
        exact ⟨f, List.mem_cons_of_mem _ hf, hname⟩

/-- Where both sides are sorted, the least names stand together. -/
theorem before_eq_nil {name : String} {j k : Json} {rest before after : Fields}
    (hleft : Fields.Ascending ((name, j) :: rest))
    (hright : Fields.Ascending (before ++ (name, k) :: after))
    (h : AlikeFields rest (before ++ after)) : before = [] := by
  cases before with
  | nil => rfl
  | cons b bs =>
      have hlt : b.1 < name :=
        (List.pairwise_append.mp hright).2.2 b List.mem_cons_self (name, k) List.mem_cons_self
      obtain ⟨f, hf, hname⟩ := exists_name_of_alikeFields h b (by simp)
      have hgt : name < f.1 := (List.pairwise_cons.mp hleft).1 f hf
      rw [hname] at hgt
      exact absurd (String.lt_trans hlt hgt) (String.lt_irrefl _)

mutual
theorem eq_of_alike : ∀ {j k : Json}, j.Canonical → k.Canonical → j.NumbersFit → k.NumbersFit →
    j.Alike k → j = k
  | .null, _, _, _, _, _, h => h.symm
  | .bool _, _, _, _, _, _, h => h.symm
  | .string _, _, _, _, _, _, h => h.symm
  | .number _, _, _, _, hm, hn, ⟨_, rfl, h⟩ => by rw [Number.eq_of_text hm hn h]
  | .array _, _, hj, hk, hm, hn, ⟨_, rfl, h⟩ => by rw [eq_of_alikeItems hj hk hm hn h]
  | .object _, _, hj, hk, hm, hn, ⟨_, rfl, h⟩ => by rw [eq_of_alikeFields hj.1 hk.1 hj.2 hk.2 hm hn h]

theorem eq_of_alikeItems : ∀ {items others : List Json}, CanonicalItems items →
    CanonicalItems others → NumbersFitItems items → NumbersFitItems others →
    AlikeItems items others → items = others
  | [], _, _, _, _, _, h => h.symm
  | _ :: _, _, hj, hk, hm, hn, ⟨_, _, rfl, hhead, hrest⟩ => by
      rw [eq_of_alike hj.1 hk.1 hm.1 hn.1 hhead, eq_of_alikeItems hj.2 hk.2 hm.2 hn.2 hrest]

theorem eq_of_alikeFields : ∀ {fields others : List (String × Json)}, Fields.Ascending fields →
    Fields.Ascending others → CanonicalFields fields → CanonicalFields others →
    NumbersFitFields fields → NumbersFitFields others → AlikeFields fields others →
    fields = others
  | [], _, _, _, _, _, _, _, h => h.symm
  | (name, j) :: rest, _, hleft, hright, hj, hk, hm, hn, ⟨before, k, after, heq, hhead, hrest⟩ => by
      rw [heq] at hright hk hn
      obtain rfl := before_eq_nil hleft hright hrest
      rw [List.nil_append] at heq hright hk hn hrest
      rw [eq_of_alike hj.1 hk.1 hm.1 hn.1 hhead, eq_of_alikeFields (List.pairwise_cons.mp hleft).2
        (List.pairwise_cons.mp hright).2 hj.2 hk.2 hm.2 hn.2 hrest, heq]
end

section text
variable {j k : Json}

/-- A text is the text of one value only. -/
theorem eq_of_source_text (hj : j.NumbersFit) (hk : k.NumbersFit)
    (h : j.source.text = k.source.text) : j = k := by
  have hread := Source.parse?_text (source_lexical j) (Nat.le_max_left _ k.source.depth)
  rw [h, Source.parse?_text (source_lexical k) (Nat.le_max_right _ _)] at hread
  have hvalue := value?_source j hj
  rw [← Option.some.inj hread, value?_source k hk, reread_exact, reread_exact] at hvalue
  exact (Option.some.inj hvalue).symm

theorem source_text_eq_iff (hj : j.NumbersFit) (hk : k.NumbersFit) :
    j.source.text = k.source.text ↔ j = k :=
  ⟨eq_of_source_text hj hk, fun h => by rw [h]⟩

/-- Stored values have the same text exactly if they are alike. -/
theorem print_eq_iff_alike (hj : j.Canonical) (hk : k.Canonical) (hm : j.NumbersFit)
    (hn : k.NumbersFit) : j.print = k.print ↔ j.Alike k := by
  rw [print, print, String.ofList_inj, source_text_eq_iff hm hn]
  exact ⟨fun h => h ▸ alike_refl j, eq_of_alike hj hk hm hn⟩

end text

end Json
end EntityStore
