import EntityStore.Proofs.Schema.Demand
import EntityStore.Proofs.Schema.Positions
import EntityStore.Proofs.Schema.Same

/-! # Relations between a schema and what is left of it in a mode

A part of a schema document is compiled as it was written, and as it counts in a mode.  What is known
of the two schemas is a relation that goes from subschemas to the keywords over them, and that allows
demands for presence to be missing: a `Relaxation`.  For any such relation one lemma for each step of
the compilation says that the step hands it on. -/

namespace EntityStore.Schema

variable {R : Compiled → Compiled → Prop} {RAll : List Compiled → List Compiled → Prop} {m : Mode}
  {d : Dialect}

/-! ### Pieces -/

/-- The pieces have the same form, and there are related schemas in the second one. -/
inductive PieceCarries (R : Compiled → Compiled → Prop) : Piece → Piece → Prop
  | none : PieceCarries R .none .none
  | single {o o' : Option Compiled} : Carries R o o' → PieceCarries R (.single o) (.single o')
  | list {os os' : List (Option Compiled)} : List.Forall₂ (Carries R) os os' →
      PieceCarries R (.list os) (.list os')
  | map {ms ms' : List (String × Option Compiled)} :
      List.Forall₂ (fun a b => a.1 = b.1 ∧ Carries R a.2 b.2) ms ms' →
      PieceCarries R (.map ms) (.map ms')

/-- A keyword for subschemas is gone through according to its shape; under two of them nothing is
changed. -/
theorem rule_of_shape {keyword : String} (hnot : keyword ≠ "not") (hif : keyword ≠ "if") :
    match shapeOf keyword with
    | .single | .list | .singleOrList => StripRule.of keyword = .schema
    | .map => StripRule.of keyword = .members
    | .dependencies => keyword = "dependencies"
    | .none => True := by
  fun_cases shapeOf keyword
  all_goals first
    | rfl
    | exact absurd rfl hnot
    | exact absurd rfl hif
    | trivial

theorem carries_map {items : List Json}
    (ih : ∀ i ∈ items, Carries R (Compiled.ofJson? d i) (Compiled.ofJson? d (m.schema i))) :
    List.Forall₂ (Carries R) (items.map (Compiled.ofJson? d))
      ((items.map m.schema).map (Compiled.ofJson? d)) := by
  induction items with
  | nil => exact .nil
  | cons i rest hrest =>
      obtain ⟨hi, his⟩ := List.forall_mem_cons.mp ih
      exact .cons hi (hrest his)

theorem carries_members {members : Fields}
    (ih : ∀ a ∈ members, Carries R (Compiled.ofJson? d a.2) (Compiled.ofJson? d (m.schema a.2))) :
    List.Forall₂ (fun a b => a.1 = b.1 ∧ Carries R a.2 b.2)
      (members.map fun a => (a.1, Compiled.ofJson? d a.2))
      ((members.map fun a => (a.1, m.schema a.2)).map fun a => (a.1, Compiled.ofJson? d a.2)) := by
  induction members with
  | nil => exact .nil
  | cons a rest hrest =>
      obtain ⟨ha, has⟩ := List.forall_mem_cons.mp ih
      exact .cons ⟨rfl, ha⟩ (hrest has)

theorem pieceCarries_pieceOf {keyword : String} {j : Json} (hnot : keyword ≠ "not")
    (hif : keyword ≠ "if") (hdependencies : keyword ≠ "dependencies")
    (ih : ∀ i ∈ subschemas keyword j,
      Carries R (Compiled.ofJson? d i) (Compiled.ofJson? d (m.schema i))) :
    PieceCarries R (pieceOf d keyword j) (pieceOf d keyword (m.value keyword j)) := by
  have hrule := rule_of_shape hnot hif
  unfold subschemas at ih
  unfold pieceOf
  generalize shapeOf keyword = shape at ih hrule ⊢
  cases shape with
  | none => exact .none
  | single =>
      rw [m.value_schema hrule]
      exact .single (ih j (List.mem_singleton.mpr rfl))
  | list =>
      rw [m.value_schema hrule]
      cases j with
      | array items =>
          rw [m.schema_array]
          exact .list (carries_map ih)
      | _ => cases m <;> exact .none
  | map =>
      cases j with
      | object members =>
          rw [m.value_members hrule]
          exact .map (carries_members fun a ha => ih a.2 (List.mem_map_of_mem ha))
      | _ =>
          rw [m.value_of_not_object (by rw [hrule]; decide) rfl]
          exact .none
  | dependencies => exact absurd hrule hdependencies
  | singleOrList =>
      rw [m.value_schema hrule]
      cases j with
      | array items =>
          rw [m.schema_array]
          exact .list (carries_map ih)
      | _ => cases m <;> exact .single (ih _ (List.mem_singleton.mpr rfl))

/-- A keyword that is read together with its neighbours. -/
theorem pieceCarries_find {all : Fields} {name : String} (hrule : StripRule.of name = .schema)
    (ih : ∀ j, (name, j) ∈ all → ∀ i ∈ subschemas name j,
      Carries R (Compiled.ofJson? d i) (Compiled.ofJson? d (m.schema i))) :
    PieceCarries R ((piecesOf d all).find name) ((piecesOf d (m.fields all)).find name) := by
  rw [find_piecesOf, find_piecesOf, m.get?_fields (m.keeps_of_ne (by rw [hrule]; decide))]
  cases hget : Fields.get? name all with
  | none => exact .none
  | some j =>
      have hnot : name ≠ "not" := by rintro rfl; cases hrule
      have hif : name ≠ "if" := by rintro rfl; cases hrule
      have hdependencies : name ≠ "dependencies" := by rintro rfl; cases hrule
      exact pieceCarries_pieceOf hnot hif hdependencies (ih j (mem_of_get? hget))

/-- The keywords that count, one after the other. -/
theorem fields_cons (keyword : String) (j : Json) (rest : Fields) :
    m.fields ((keyword, j) :: rest) =
      if m.keeps keyword then (keyword, m.value keyword j) :: m.fields rest else m.fields rest := by
  rw [m.fields_eq_map, m.fields_eq_map, List.filter_cons]
  split <;> rfl

/-! ### Relations that keywords hand on -/

theorem usesOnly_of_isLeaf {P : String → Prop} {s : Compiled} (h : s.isLeaf = true) : UsesOnly P s := by
  cases s
  all_goals first
    | exact allUseOnly_nil
    | cases h

/-- A relation of schemas, and the same of schemas that stand next to each other.  Keywords hand it
on from their subschemas, and demands for presence may be missing. -/
structure Relaxation (R : Compiled → Compiled → Prop) (RAll : List Compiled → List Compiled → Prop) :
    Prop where
  nil : RAll [] []
  append {ss ts ss' ts' : List Compiled} : RAll ss ts → RAll ss' ts' → RAll (ss ++ ss') (ts ++ ts')
  single {s t : Compiled} : R s t → RAll [s] [t]
  drop (keys : List String) : RAll [presence keys] []
  dropDependent (name : String) (keys : List String) : RAll [.dependent name (presence keys)] []
  leaf {s : Compiled} : s.isLeaf = true → R s s
  all {ss ts : List Compiled} : RAll ss ts → R (.all ss) (.all ts)
  allOf {ss ts : List Compiled} : List.Forall₂ R ss ts → R (.allOf ss) (.allOf ts)
  property {s t : Compiled} (name : String) : R s t → R (.property name s) (.property name t)
  matching {s t : Compiled} (regex : Regex) : R s t → R (.matching regex s) (.matching regex t)
  additional {s t : Compiled} (listed : List String) (patterns : List Regex) : R s t →
    R (.additional listed patterns s) (.additional listed patterns t)
  names {s t : Compiled} : R s t → R (.names s) (.names t)
  dependent {s t : Compiled} (name : String) : R s t → R (.dependent name s) (.dependent name t)
  item {s t : Compiled} (index : Nat) : R s t → R (.item index s) (.item index t)
  itemsFrom {s t : Compiled} (index : Nat) : R s t → R (.itemsFrom index s) (.itemsFrom index t)

namespace Relaxation

variable (h : Relaxation R RAll)

include h in
theorem requiredTogether (members : Fields) : RAll (requiredTogether members) [] := by
  induction members with
  | nil => exact h.nil
  | cons a rest ih => exact h.append (h.dropDependent a.1 _) ih

include h in
theorem itemSchemas {ss ts : List Compiled} (hss : List.Forall₂ R ss ts) :
    ∀ start : Nat, RAll (itemSchemas start ss) (itemSchemas start ts) := by
  induction hss with
  | nil => exact fun _ => h.nil
  | cons hs _ ih => exact fun start => h.append (h.single (h.item start hs)) (ih (start + 1))

include h in
theorem namedSchemas {make : String → Compiled → Compiled}
    (hmake : ∀ name s t, R s t → R (make name s) (make name t))
    {ms ms' : List (String × Option Compiled)}
    (hms : List.Forall₂ (fun a b => a.1 = b.1 ∧ Carries R a.2 b.2) ms ms') :
    Carries RAll (namedSchemas make ms) (namedSchemas make ms') := by
  induction hms with
  | nil => exact Carries.some h.nil
  | @cons a b _ _ hm _ ih =>
      obtain ⟨name, o⟩ := a
      obtain ⟨name', o'⟩ := b
      obtain ⟨rfl, ho⟩ := hm
      rw [Schema.namedSchemas, Schema.namedSchemas]
      exact ho.bind fun s t hs => ih.bind fun _ _ hss =>
        Carries.some (h.append (h.single (hmake name s t hs)) hss)

include h in
theorem matchingSchemas {ms ms' : List (String × Option Compiled)}
    (hms : List.Forall₂ (fun a b => a.1 = b.1 ∧ Carries R a.2 b.2) ms ms') :
    Carries RAll (matchingSchemas ms) (matchingSchemas ms') := by
  induction hms with
  | nil => exact Carries.some h.nil
  | @cons a b _ _ hm _ ih =>
      obtain ⟨name, o⟩ := a
      obtain ⟨name', o'⟩ := b
      obtain ⟨rfl, ho⟩ := hm
      have hread : Carries Eq (Regex.read? name) (Regex.read? name) := fun x hx => ⟨x, hx, rfl⟩
      rw [Schema.matchingSchemas, Schema.matchingSchemas]
      refine hread.bind fun x _ hx => ho.bind fun _ _ hs => ih.bind fun _ _ hss => ?_
      subst hx
      exact Carries.some (h.append (h.single (h.matching x hs)) hss)

include h in
/-- Where lists of names are left out, related schemas follow nonetheless. -/
theorem dependencies {members : Fields}
    (hfull : m = .full → ∀ keys, R (Schema.presence keys) (Schema.presence keys))
    (ih : ∀ a ∈ members, a.2.isArray = false →
      Carries R (Compiled.ofJson? d a.2) (Compiled.ofJson? d (m.schema a.2))) :
    Carries RAll (Schema.namedSchemas .dependent (members.map fun a => (a.1, dependencyOf? d a.2)))
      (Schema.namedSchemas .dependent (((members.filter fun a => m = .full || !a.2.isArray).map
        fun a => (a.1, m.schema a.2)).map fun a => (a.1, dependencyOf? d a.2))) := by
  induction members with
  | nil => exact Carries.some h.nil
  | cons a rest hrest =>
      obtain ⟨ha, has⟩ := List.forall_mem_cons.mp ih
      have hnext := hrest has
      obtain ⟨name, j⟩ := a
      rw [List.map_cons, List.filter_cons, Schema.namedSchemas]
      cases j with
      | array items =>
          cases m with
          | full =>
              exact hnext.bind fun _ _ hss =>
                Carries.some (h.append (h.single (h.dependent name (hfull rfl _))) hss)
          | lenient =>
              intro ss hss
              obtain ⟨_, hs, hss⟩ := Option.bind_eq_some_iff.mp hss
              cases hs
              obtain ⟨ts, hts, heq⟩ := Option.bind_eq_some_iff.mp hss
              cases heq
              obtain ⟨ts', hts', hrelated⟩ := hnext ts hts
              exact ⟨ts', hts', h.append (h.dropDependent name _) hrelated⟩
      | _ =>
          rw [if_pos (by cases m <;> rfl), List.map_cons, List.map_cons, Schema.namedSchemas]
          cases m <;> exact (ha rfl).bind fun _ _ hs => hnext.bind fun _ _ hss =>
            Carries.some (h.append (h.single (h.dependent name hs)) hss)

include h in
/-- The keyword of these, for which a list of names is no subschema. -/
theorem dependents {j : Json} {pieces pieces' : Pieces}
    (hfull : m = .full → ∀ keys, R (Schema.presence keys) (Schema.presence keys))
    (ih : ∀ i ∈ subschemas "dependencies" j,
      Carries R (Compiled.ofJson? d i) (Compiled.ofJson? d (m.schema i))) :
    Carries RAll (Demand.dependents.schemas? pieces (pieceOf d "dependencies" j))
      (Demand.dependents.schemas? pieces' (pieceOf d "dependencies" (m.value "dependencies" j))) := by
  cases j with
  | object members =>
      rw [m.value_dependencies]
      refine h.dependencies hfull fun a ha harray => ih a.2 ?_
      exact List.mem_filter.mpr ⟨List.mem_map_of_mem ha, by rw [harray]; rfl⟩
  | _ =>
      rw [m.value_of_not_object (by decide) rfl]
      exact Carries.some h.nil

include h in
theorem keyword {o o' : Option Compiled} {F G : Compiled → Compiled} (ho : Carries R o o')
    (hF : ∀ s t, R s t → R (F s) (G t)) :
    Carries RAll (o.map fun s => [F s]) (o'.map fun s => [G s]) :=
  ho.map fun _ _ hs => h.single (hF _ _ hs)

include h in
theorem listKeyword {os os' : List (Option Compiled)} {F : List Compiled → Compiled}
    (hos : List.Forall₂ (Carries R) os os')
    (hF : ∀ ss ts, List.Forall₂ R ss ts → R (F ss) (F ts)) :
    Carries RAll ((allSome os).map fun ss => [F ss]) ((allSome os').map fun ss => [F ss]) :=
  (carries_allSome hos).map fun _ _ hss => h.single (hF _ _ hss)

include h in
/-- A condition whose branches are related, if the condition itself decides alike. -/
theorem conditionOf {pieces pieces' : Pieces} {o : Option Compiled}
    (ho : Each (fun c => ∀ yes no yes' no', R yes yes' → R no no' →
      R (.ifThenElse c yes no) (.ifThenElse c yes' no')) o)
    (hthen : PieceCarries R (pieces.find "then") (pieces'.find "then"))
    (helse : PieceCarries R (pieces.find "else") (pieces'.find "else")) :
    Carries RAll (conditionOf pieces o) (conditionOf pieces' o) := by
  have hc := Carries.of_each (R := fun c c' => c = c' ∧ ∀ yes no yes' no', R yes yes' → R no no' →
    R (.ifThenElse c yes no) (.ifThenElse c yes' no')) ho fun _ hc => ⟨rfl, hc⟩
  have halways : R .always .always := h.leaf rfl
  unfold Schema.conditionOf
  generalize pieces.find "then" = yes, pieces'.find "then" = yes' at hthen ⊢
  generalize pieces.find "else" = no, pieces'.find "else" = no' at helse ⊢
  cases hthen with
  | single hyes =>
      cases helse with
      | single hno =>
          refine hc.bind fun c c' h' => hyes.bind fun _ _ hy => hno.bind fun _ _ hn => ?_
          obtain ⟨rfl, hbranches⟩ := h'
          exact Carries.some (h.single (hbranches _ _ _ _ hy hn))
      | _ =>
          refine hc.bind fun c c' h' => hyes.bind fun _ _ hy => ?_
          obtain ⟨rfl, hbranches⟩ := h'
          exact Carries.some (h.single (hbranches _ _ _ _ hy halways))
  | _ =>
      cases helse with
      | single hno =>
          refine hc.bind fun c c' h' => hno.bind fun _ _ hn => ?_
          obtain ⟨rfl, hbranches⟩ := h'
          exact Carries.some (h.single (hbranches _ _ _ _ halways hn))
      | _ => exact Carries.some h.nil

include h in
/-- A plain keyword with related subschemas. -/
theorem plain {demand : Demand} {pieces pieces' : Pieces} {piece piece' : Piece}
    (hplain : demand.isPlain = true) (hpiece : PieceCarries R piece piece') :
    Carries RAll (demand.schemas? pieces piece) (demand.schemas? pieces' piece') := by
  cases demand with
  | nothing => exact Carries.some h.nil
  | unreadable => exact Carries.none
  | check c => exact Carries.some (h.single (h.leaf hplain))
  | allOf =>
      cases hpiece with
      | list hos => exact h.listKeyword hos fun _ _ hss => h.allOf hss
      | _ => exact Carries.some h.nil
  | properties =>
      cases hpiece with
      | map hms => exact h.namedSchemas (fun name _ _ hs => h.property name hs) hms
      | _ => exact Carries.some h.nil
  | matching =>
      cases hpiece with
      | map hms => exact h.matchingSchemas hms
      | _ => exact Carries.some h.nil
  | additional listed patterns =>
      cases hpiece with
      | single ho => exact h.keyword ho fun _ _ hs => h.additional listed patterns hs
      | _ => exact Carries.some h.nil
  | closed listed patterns => exact Carries.some (h.single (h.leaf rfl))
  | noProperties => exact Carries.some (h.single (h.leaf rfl))
  | names =>
      cases hpiece with
      | single ho => exact h.keyword ho fun _ _ hs => h.names hs
      | _ => exact Carries.some h.nil
  | noNames => exact Carries.some (h.single (h.leaf rfl))
  | dependents =>
      cases hpiece with
      | map hms => exact h.namedSchemas (fun name _ _ hs => h.dependent name hs) hms
      | _ => exact Carries.some h.nil
  | items =>
      cases hpiece with
      | list hos => exact (carries_allSome hos).map fun _ _ hss => h.itemSchemas hss 0
      | _ => exact Carries.some h.nil
  | itemsFrom index =>
      cases hpiece with
      | single ho => exact h.keyword ho fun _ _ hs => h.itemsFrom index hs
      | _ => exact Carries.some h.nil
  | noItemsFrom index => exact Carries.some (h.single (h.leaf rfl))
  | _ => cases hplain

/-! ### Schema objects -/

include h in
/-- A keyword that does not count asks for presence. -/
theorem dropped {all : Fields} {keyword : String} {j : Json} (hkeeps : m.keeps keyword = false)
    (pieces : Pieces) (piece : Piece) : Each (fun ss => RAll ss [])
      ((demandOf d all keyword j).schemas? pieces piece) := by
  cases m with
  | full => cases hkeeps
  | lenient =>
      have hrule : StripRule.of keyword = .drop := by
        by_contra hne
        rw [Mode.keeps_of_ne _ hne] at hkeeps
        cases hkeeps
      unfold StripRule.of at hrule
      split at hrule
      all_goals cases hrule
      · exact Each.some (h.drop _)
      · cases d with
        | draft2020 =>
            cases j with
            | object members => exact Each.some (h.requiredTogether members)
            | _ => exact Each.some h.nil
        | _ => exact Each.some h.nil

variable {all : Fields}

include h in
/-- The keywords of a schema object, if it goes well for each of those that count. -/
theorem allKeywords? (hkeyword : ∀ keyword j, (keyword, j) ∈ all → m.keeps keyword = true →
    Carries RAll ((demandOf d all keyword j).schemas? (piecesOf d all) (pieceOf d keyword j))
      ((demandOf d (m.fields all) keyword (m.value keyword j)).schemas? (piecesOf d (m.fields all))
        (pieceOf d keyword (m.value keyword j)))) :
    ∀ {fields : Fields}, fields ⊆ all → Carries RAll
      (Schema.allKeywords? d all (piecesOf d all) fields (piecesOf d fields))
      (Schema.allKeywords? d (m.fields all) (piecesOf d (m.fields all)) (m.fields fields)
        (piecesOf d (m.fields fields)))
  | [], _ => by cases m <;> exact Carries.some h.nil
  | (keyword, j) :: rest, hsub => by
      obtain ⟨hmem, hrest⟩ := List.cons_subset.mp hsub
      have hnext := allKeywords? hkeyword hrest
      rw [fields_cons, piecesOf_cons, Schema.allKeywords?]
      cases hkeeps : m.keeps keyword with
      | true =>
          rw [if_pos rfl, piecesOf_cons, Schema.allKeywords?]
          exact (hkeyword keyword j hmem hkeeps).bind fun _ _ hss =>
            hnext.bind fun _ _ hts => Carries.some (h.append hss hts)
      | false =>
          rw [if_neg Bool.false_ne_true]
          exact (h.dropped hkeeps _ _).bind fun _ hss => Each.bind hnext fun _ hrelated => by
            obtain ⟨ts, hts, hrelated⟩ := hrelated
            exact Each.some ⟨ts, hts, h.append hss hrelated⟩

include h in
/-- A schema object, if it goes well for its keywords, for what they leave over, and for a reference
that stands alone. -/
theorem objectSchema?
    (hkeyword : ∀ keyword j, (keyword, j) ∈ all → m.keeps keyword = true →
      Carries RAll ((demandOf d all keyword j).schemas? (piecesOf d all) (pieceOf d keyword j))
        ((demandOf d (m.fields all) keyword (m.value keyword j)).schemas?
          (piecesOf d (m.fields all)) (pieceOf d keyword (m.value keyword j))))
    (hleftover : ∀ ss ts, RAll ss ts → Carries RAll (leftoverSchemas? d (piecesOf d all) ss)
      (leftoverSchemas? d (piecesOf d (m.fields all)) ts))
    (href : ∀ j, ("$ref", j) ∈ all → ∀ r, j.asString? = some r → R (.reference r) (.reference r)) :
    Carries R (Schema.objectSchema? d all (piecesOf d all))
      (Schema.objectSchema? d (m.fields all) (piecesOf d (m.fields all))) := by
  have hkeywords : Carries R
      (do
        let parts ← Schema.allKeywords? d all (piecesOf d all) all (piecesOf d all)
        return Compiled.all (parts ++ (← leftoverSchemas? d (piecesOf d all) parts)))
      (do
        let parts ← Schema.allKeywords? d (m.fields all) (piecesOf d (m.fields all)) (m.fields all)
          (piecesOf d (m.fields all))
        return Compiled.all (parts ++ (← leftoverSchemas? d (piecesOf d (m.fields all)) parts))) :=
    (h.allKeywords? hkeyword (List.Subset.refl all)).bind fun _ _ hss =>
      (hleftover _ _ hss).bind fun _ _ hts => Carries.some (h.all (h.append hss hts))
  unfold Schema.objectSchema?
  rw [m.get?_fields_keep rfl]
  cases hget : Fields.get? "$ref" all with
  | none => exact hkeywords
  | some j =>
      dsimp only
      split
      · have hsame : Carries (fun r r' => r = r' ∧ R (.reference r) (.reference r))
            j.asString? j.asString? := fun r hr => ⟨r, hr, rfl, href j (mem_of_get? hget) r hr⟩
        exact hsame.map fun r _ hr => hr.1 ▸ hr.2
      · exact hkeywords

include h in
/-- What keywords ask for that look at what the others leave over, if they hand the relation on. -/
theorem leftoverSchemas? {all : Fields} {ss ts : List Compiled}
    (hproperties : ∀ s t, R s t → R (.unevaluatedProperties ss s) (.unevaluatedProperties ts t))
    (hitems : ∀ s t, R s t → R (.unevaluatedItems ss s) (.unevaluatedItems ts t))
    (ih : ∀ name j, StripRule.of name = .schema → (∀ i, demandOf d all name i = .nothing) →
      (name, j) ∈ all → ∀ i ∈ subschemas name j,
        Carries R (Compiled.ofJson? d i) (Compiled.ofJson? d (m.schema i))) :
    Carries RAll (Schema.leftoverSchemas? d (piecesOf d all) ss)
      (Schema.leftoverSchemas? d (piecesOf d (m.fields all)) ts) := by
  have hof : ∀ {piece piece' : Piece} {make make' : Compiled → Compiled}, PieceCarries R piece piece' →
      (∀ s t, R s t → R (make s) (make' t)) →
      Carries RAll (leftoverOf? make piece) (leftoverOf? make' piece') := by
    intro piece piece' make make' hpiece hmake
    cases hpiece with
    | single ho => exact h.keyword ho hmake
    | _ => exact Carries.some h.nil
  unfold Schema.leftoverSchemas?
  split
  · exact Carries.some h.nil
  · exact (hof (pieceCarries_find rfl fun j hj => ih _ j rfl (fun _ => rfl) hj) hproperties).bind
      fun _ _ hss => (hof (pieceCarries_find rfl fun j hj => ih _ j rfl (fun _ => rfl) hj) hitems).bind
        fun _ _ hts => Carries.some (h.append hss hts)

end Relaxation
end EntityStore.Schema
