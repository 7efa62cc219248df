import EntityStore.Proofs.Wire.RoundTrip

/-! # Two readers of filters

The filters of a search are read by `Filter.readAll`, which says what is wrong with the first item
that is no filter, and as records by `readList? readFilter?`, which only says that something is.  A
record may also be spelled as a list of its fields, and its operator as an object.  For items that are
objects and name their operator by a string, both readers ask for the same (`readAt_eq_ok`,
`readFilter?_object`), so they agree on every list (`readAll_agrees`). -/

namespace EntityStore.Wire

open Query (Filter Operator)

/-- An object that names an operator by a string, which may be no operator. -/
def NamesOperator (j : Json) : Prop :=
  ∃ fields name, j = .object fields ∧ Fields.get? "operator" fields = some (.string name)

/-- The fields are those of a filter; a missing value is null. -/
structure Spells (fields : Fields) (f : Filter) : Prop where
  property : Fields.get? "property" fields = some (.string f.property)
  operator : Fields.get? "operator" fields = some (.string f.operator.name)
  value : (Fields.get? "value" fields).getD .null = f.value

/-- What is said of the item at an index that is no filter: that its property is no string, or else
that its operator is none. -/
inductive Refused (index : Nat) (j : Json) : Query.Error → Prop
  | property : (∀ property, j.field? "property" ≠ some (.string property)) →
      Refused index j (.malformed index .propertyNotString)
  | operator {property name : String} : j.field? "property" = some (.string property) →
      j.field? "operator" = some (.string name) → (∀ o : Operator, o.name ≠ name) →
      Refused index j (.unknownOperator name)

/-! ### Single items -/

theorem asString?_eq_some {o : Option Json} {text : String} :
    o.bind Json.asString? = some text ↔ o = some (.string text) := by
  cases o with
  | none => exact iff_of_false nofun nofun
  | some j => cases j <;> simp [Json.asString?]

theorem required_readString?_eq_some {o : Option Json} {text : String} :
    required readString? o = some text ↔ o = some (.string text) := by
  cases o with
  | none => exact iff_of_false nofun nofun
  | some j => cases j <;> simp [required, readString?]

theorem ofName?_eq_some {name : String} {o : Operator} :
    Operator.ofName? name = some o ↔ o.name = name := by
  constructor
  · exact Operator.name_of_ofName?
  · rintro rfl
    exact Operator.ofName?_name o

theorem ofName?_eq_none {name : String} :
    Operator.ofName? name = none ↔ ∀ o : Operator, o.name ≠ name := by
  rw [Option.eq_none_iff_forall_ne_some]
  exact forall_congr' fun o => not_congr ofName?_eq_some

section item
variable {index : Nat} {fields : Fields} {f : Filter}

/-- The reader with errors reads an object exactly if it spells a filter, wherever it stands. -/
theorem readAt_eq_ok : Filter.readAt index (.object fields) = .ok f ↔ Spells fields f := by
  rw [Filter.readAt]
  constructor
  · intro h
    split at h
    · cases h
    · next property hproperty =>
        split at h
        · cases h
        · next name hname =>
            split at h
            · cases h
            · next operator hoperator =>
                cases h
                have hspelled := ofName?_eq_some.mp hoperator
                exact ⟨asString?_eq_some.mp hproperty,
                  hspelled.symm ▸ asString?_eq_some.mp hname, rfl⟩
  · rintro ⟨hproperty, hoperator, hvalue⟩
    rw [hproperty, hoperator, hvalue]
    simp only [Option.bind_some, Json.asString?, Operator.ofName?_name]

/-- What is wrong with an item is one thing. -/
theorem Refused.unique {j : Json} {e e' : Query.Error} (h : Refused index j e)
    (h' : Refused index j e') : e = e' := by
  cases h with
  | property hnone =>
      cases h' with
      | property => rfl
      | operator hproperty => exact absurd hproperty (hnone _)
  | operator hproperty hname =>
      cases h' with
      | property hnone => exact absurd hproperty (hnone _)
      | operator _ hother =>
          rw [hname] at hother
          cases hother
          rfl

/-- An item that is refused spells no filter. -/
theorem Refused.not_spells {e : Query.Error} (h : Refused index (.object fields) e) :
    ¬ Spells fields f := by
  intro hspells
  cases h with
  | property hnone => exact hnone f.property hspells.property
  | operator _ hname hunknown =>
      rw [Json.field?, hspells.operator] at hname
      cases hname
      exact hunknown f.operator rfl

/-- An item is read or refused. -/
theorem readAt_outcome (index : Nat) (h : NamesOperator (.object fields)) :
    (∃ f, Filter.readAt index (.object fields) = .ok f) ∨
      ∃ e, Filter.readAt index (.object fields) = .error e ∧ Refused index (.object fields) e := by
  obtain ⟨_, name, hfields, hname⟩ := h
  cases hfields
  have hstring : (Fields.get? "operator" fields).bind Json.asString? = some name :=
    asString?_eq_some.mpr hname
  rw [Filter.readAt, hstring]
  cases hproperty : (Fields.get? "property" fields).bind Json.asString? with
  | none =>
      refine .inr ⟨_, rfl, .property fun property hsome => ?_⟩
      have hread := asString?_eq_some.mpr (show Fields.get? "property" fields = _ from hsome)
      rw [hproperty] at hread
      cases hread
  | some property =>
      dsimp only
      cases hfound : Operator.ofName? name with
      | none =>
          exact .inr ⟨_, rfl, .operator (asString?_eq_some.mp hproperty) hname
            (ofName?_eq_none.mp hfound)⟩
      | some operator => exact .inl ⟨_, rfl⟩

theorem readAt_eq_error {e : Query.Error} (h : NamesOperator (.object fields)) :
    Filter.readAt index (.object fields) = .error e ↔ Refused index (.object fields) e := by
  constructor
  · intro herror
    obtain ⟨f, hf⟩ | ⟨e', he', hrefused⟩ := readAt_outcome index h
    · rw [hf] at herror
      cases herror
    · rw [he'] at herror
      cases herror
      exact hrefused
  · intro hrefused
    obtain ⟨f, hf⟩ | ⟨e', he', hother⟩ := readAt_outcome index h
    · exact absurd (readAt_eq_ok.mp hf) hrefused.not_spells
    · rw [he', hother.unique hrefused]

/-- The reader of records asks for the same. -/
theorem readFilter?_object (hcanonical : (Json.object fields).Canonical)
    (h : NamesOperator (.object fields)) : readFilter? (.object fields) = some f ↔ Spells fields f := by
  obtain ⟨_, name, hfields, hname⟩ := h
  cases hfields
  have hslots : slots? Kind.filter.slots (.object fields) = some [Fields.get? "property" fields,
      Fields.get? "operator" fields, Fields.get? "value" fields] := slots?_object hcanonical.1 _
  have hvalue : orElse .null readAny? (Fields.get? "value" fields) =
      some ((Fields.get? "value" fields).getD .null) := by
    cases hgiven : Fields.get? "value" fields with
    | none => rfl
    | some j => exact readAny?_of_canonical (Json.canonical_of_get? hcanonical.2 hgiven)
  rw [readFilter?_eq_some, hslots]
  constructor
  · rintro ⟨property, operator, value, hgiven, hproperty, hoperator, hread⟩
    cases hgiven
    rw [hvalue] at hread
    have hoperator : Operator.ofName? name = some f.operator := by
      rw [hname] at hoperator
      exact (operatorOfWord?_eq_ofName? name).symm.trans hoperator
    refine ⟨required_readString?_eq_some.mp hproperty, ?_, Option.some.inj hread⟩
    rw [hname, ofName?_eq_some.mp hoperator]
  · rintro ⟨hproperty, hoperator, hgiven⟩
    refine ⟨_, _, _, rfl, required_readString?_eq_some.mpr hproperty, ?_,
      hvalue.trans (congrArg some hgiven)⟩
    rw [hoperator, ← operatorWord_eq_name]
    exact readOperator?_ofOperator f.operator

end item

/-! ### Lists -/

section list
variable {index : Nat} {items : List Json}

/-- The items are values that there are, objects that name an operator. -/
def Named (items : List Json) : Prop := ∀ j ∈ items, j.Canonical ∧ NamesOperator j

/-- On a single item the readers agree, at any index. -/
theorem readAt_eq_ok_iff {j : Json} {f : Filter} (hcanonical : j.Canonical) (h : NamesOperator j) :
    Filter.readAt index j = .ok f ↔ readFilter? j = some f := by
  obtain ⟨fields, -, rfl, -⟩ := id h
  rw [readAt_eq_ok, readFilter?_object hcanonical h]

/-- All items are filters. -/
theorem readFrom_eq_ok (h : Named items) {fs : List Filter} :
    Filter.readFrom index items = .ok fs ↔ readItems? readFilter? items = some fs := by
  rw [forall₂_readItems?]
  induction items generalizing index fs with
  | nil =>
      rw [Filter.readFrom, Except.ok.injEq, List.forall₂_nil_left_iff, eq_comm]
  | cons j rest ih =>
      obtain ⟨⟨hcanonical, hnames⟩, hrest⟩ := List.forall_mem_cons.mp h
      rw [Filter.readFrom, List.forall₂_cons_left_iff]
      constructor
      · intro hread
        cases hj : Filter.readAt index j with
        | error e => rw [hj] at hread; cases hread
        | ok f =>
            rw [hj] at hread
            dsimp only at hread
            cases htail : Filter.readFrom (index + 1) rest with
            | error e => rw [htail] at hread; cases hread
            | ok gs =>
                rw [htail] at hread
                cases hread
                exact ⟨f, gs, (readAt_eq_ok_iff hcanonical hnames).mp hj, (ih hrest).mp htail, rfl⟩
      · rintro ⟨f, gs, hf, hgs, rfl⟩
        rw [(readAt_eq_ok_iff hcanonical hnames).mpr hf]
        dsimp only
        rw [(ih hrest).mpr hgs]

/-- Behind items that are filters, the error of an item is the error of the list. -/
theorem readFrom_append_error {before after : List Json} {j : Json} {e : Query.Error}
    (h : Named before) (hbefore : ∀ i ∈ before, ∃ f, readFilter? i = some f)
    (hj : Filter.readAt (index + before.length) j = .error e) :
    Filter.readFrom index (before ++ j :: after) = .error e := by
  induction before generalizing index with
  | nil =>
      rw [List.nil_append, Filter.readFrom]
      rw [List.length_nil, Nat.add_zero] at hj
      rw [hj]
  | cons i before ih =>
      obtain ⟨⟨hcanonical, hnames⟩, hrest⟩ := List.forall_mem_cons.mp h
      obtain ⟨⟨f, hf⟩, hfilters⟩ := List.forall_mem_cons.mp hbefore
      have hindex : index + (i :: before).length = index + 1 + before.length := by
        rw [List.length_cons]
        omega
      rw [hindex] at hj
      rw [List.cons_append, Filter.readFrom, (readAt_eq_ok_iff hcanonical hnames).mpr hf]
      dsimp only
      rw [ih hrest hfilters hj]

/-- All items are filters, or there is a first one that is refused. -/
theorem exists_first_refused (h : Named items) (index : Nat) :
    (∃ fs, readItems? readFilter? items = some fs) ∨
      ∃ before j after e, items = before ++ j :: after ∧
        (∀ i ∈ before, ∃ f, readFilter? i = some f) ∧ Refused (index + before.length) j e := by
  simp only [forall₂_readItems?]
  induction items generalizing index with
  | nil => exact .inl ⟨[], .nil⟩
  | cons j rest ih =>
      obtain ⟨⟨hcanonical, hnames⟩, hrest⟩ := List.forall_mem_cons.mp h
      obtain ⟨fields, -, rfl, -⟩ := id hnames
      obtain ⟨f, hf⟩ | ⟨e, -, hrefused⟩ := readAt_outcome index hnames
      · have hfilter := (readAt_eq_ok_iff hcanonical hnames).mp hf
        obtain ⟨fs, hfs⟩ | ⟨before, k, after, e, rfl, hbefore, hk⟩ := ih hrest (index + 1)
        · exact .inl ⟨f :: fs, .cons hfilter hfs⟩
        · refine .inr ⟨.object fields :: before, k, after, e, rfl,
            List.forall_mem_cons.mpr ⟨⟨f, hfilter⟩, hbefore⟩, ?_⟩
          have hindex : index + (Json.object fields :: before).length =
              index + 1 + before.length := by
            rw [List.length_cons]
            omega
          rw [hindex]
          exact hk
      · exact .inr ⟨[], .object fields, rest, e, rfl, nofun, hrefused⟩

/-- The error is the one of the first item that is no filter. -/
theorem readFrom_eq_error (h : Named items) {e : Query.Error} :
    Filter.readFrom index items = .error e ↔ ∃ before j after, items = before ++ j :: after ∧
      (∀ i ∈ before, ∃ f, readFilter? i = some f) ∧ Refused (index + before.length) j e := by
  have herror : ∀ {before j after e}, items = before ++ j :: after →
      (∀ i ∈ before, ∃ f, readFilter? i = some f) → Refused (index + before.length) j e →
      Filter.readFrom index items = .error e := by
    rintro before j after e rfl hbefore hj
    obtain ⟨fields, -, rfl, -⟩ := id (h j (by simp)).2
    exact readFrom_append_error (fun i hi => h i (List.mem_append_left _ hi)) hbefore
      ((readAt_eq_error (h _ (by simp)).2).mpr hj)
  constructor
  · intro hread
    obtain ⟨fs, hfs⟩ | ⟨before, j, after, e', hsplit, hbefore, hj⟩ := exists_first_refused h index
    · rw [readFrom_eq_ok h |>.mpr hfs] at hread
      cases hread
    · rw [herror hsplit hbefore hj] at hread
      cases hread
      exact ⟨before, j, after, hsplit, hbefore, hj⟩
  · rintro ⟨before, j, after, hsplit, hbefore, hj⟩
    exact herror hsplit hbefore hj

/-- An item that is refused is not read as a record either. -/
theorem Refused.readFilter? {j : Json} {e : Query.Error} (hcanonical : j.Canonical)
    (hnames : NamesOperator j) (h : Refused index j e) : readFilter? j = none := by
  obtain ⟨fields, -, rfl, -⟩ := id hnames
  rw [Option.eq_none_iff_forall_ne_some]
  exact fun f hf => h.not_spells ((readFilter?_object hcanonical hnames).mp hf)

/-- Filters are read as they were written, at any index. -/
theorem readFrom_write (fs : List Filter) : Filter.readFrom index (fs.map ofFilter) = .ok fs := by
  induction fs generalizing index with
  | nil => rfl
  | cons f rest ih =>
      have hword : ofOperator f.operator = .string f.operator.name :=
        congrArg Json.string (operatorWord_eq_name f.operator)
      have hf : Filter.readAt index (ofFilter f) = .ok f :=
        readAt_eq_ok.mpr ⟨rfl, congrArg some hword, rfl⟩
      rw [List.map_cons, Filter.readFrom, hf]
      dsimp only
      rw [ih]

end list

/-- Both readers of filters agree on lists of objects that name an operator.  Both read the same
filters, and if there are none the reader with errors says what is wrong with the first item that the
other one does not read, with its index if the property is no string.  All filters are read as they
were written. -/
theorem readAll_agrees :
    (∀ items, (∀ j ∈ items, j.Canonical ∧ NamesOperator j) →
      (∀ fs, Filter.readAll (.array items) = .ok fs ↔
        readList? readFilter? (.array items) = some fs) ∧
      ∀ e, Filter.readAll (.array items) = .error e ↔
        ∃ before j after, items = before ++ j :: after ∧
          (∀ i ∈ before, ∃ f, readFilter? i = some f) ∧ readFilter? j = none ∧
          Refused before.length j e) ∧
    ∀ fs : List Filter, Filter.readAll (.array (fs.map ofFilter)) = .ok fs := by
  refine ⟨fun items h => ⟨fun fs => ?_, fun e => ?_⟩, fun fs => readFrom_write fs⟩
  · rw [Filter.readAll, readFrom_eq_ok h, readList?]
  · rw [Filter.readAll, readFrom_eq_error h]
    constructor
    · rintro ⟨before, j, after, hsplit, hbefore, hj⟩
      obtain ⟨hcanonical, hnames⟩ := h j (by simp [hsplit])
      rw [Nat.zero_add] at hj
      exact ⟨before, j, after, hsplit, hbefore, hj.readFilter? hcanonical hnames, hj⟩
    · rintro ⟨before, j, after, hsplit, hbefore, -, hj⟩
      rw [← Nat.zero_add before.length] at hj
      exact ⟨before, j, after, hsplit, hbefore, hj⟩

def tierItem : Json := .object [("operator", .string "gte"), ("property", .string "tier"),
  ("unit", .null), ("value", .number (.integer 2))]

/-- The operator is none, and the value is missing. -/
def betweenItem : Json := .object [("operator", .string "between"), ("property", .string "tier")]

def numberedItem : Json := .object [("operator", .string "eq"), ("property", .number (.integer 5))]

/-- The first item is read by both readers.  Of the two others the one that comes first decides. -/
theorem readAll_agrees_tier :
    Filter.readAll (.array [tierItem]) = .ok [⟨"tier", .greaterEqual, .number (.integer 2)⟩] ∧
    Filter.readAll (.array [tierItem, betweenItem, numberedItem]) =
      .error (.unknownOperator "between") ∧
    Filter.readAll (.array [tierItem, numberedItem, betweenItem]) =
      .error (.malformed 1 .propertyNotString) := by
  have htier : tierItem.Canonical ∧ NamesOperator tierItem :=
    ⟨(by decide +kernel : tierItem.Regular).canonical, _, "gte", rfl, rfl⟩
  have hbetween : betweenItem.Canonical ∧ NamesOperator betweenItem :=
    ⟨(by decide +kernel : betweenItem.Regular).canonical, _, "between", rfl, rfl⟩
  have hnumbered : numberedItem.Canonical ∧ NamesOperator numberedItem :=
    ⟨(by decide +kernel : numberedItem.Regular).canonical, _, "eq", rfl, rfl⟩
  have hread : readFilter? tierItem = some ⟨"tier", .greaterEqual, .number (.integer 2)⟩ := by
    decide +kernel
  have hfirst : ∀ i ∈ [tierItem], ∃ f, readFilter? i = some f :=
    List.forall_mem_singleton.mpr ⟨_, hread⟩
  have hunknown : Refused 1 betweenItem (.unknownOperator "between") :=
    .operator rfl rfl fun o => by cases o <;> decide
  have hnumber : Refused 1 numberedItem (.malformed 1 .propertyNotString) := .property fun _ => nofun
  refine ⟨((readAll_agrees.1 _ (by simpa using htier)).1 _).mpr (by decide +kernel),
    ((readAll_agrees.1 _ (by simp [htier, hbetween, hnumbered])).2 _).mpr ?_,
    ((readAll_agrees.1 _ (by simp [htier, hbetween, hnumbered])).2 _).mpr ?_⟩
  · exact ⟨[tierItem], betweenItem, [numberedItem], rfl, hfirst, by decide +kernel, hunknown⟩
  · exact ⟨[tierItem], numberedItem, [betweenItem], rfl, hfirst, by decide +kernel, hnumber⟩

end EntityStore.Wire
