import EntityStore.Sql.Eval

/-! # Placeholders of an expression

`Expr.map σ` puts `σ p` in the place of every placeholder `p`, and `Expr.params` lists the
placeholders from left to right.

An expression has the value that its image has when the placeholders of the image are bound to what
those of the expression are bound to (`Expr.eval_map`), it is as deep as its image (`Expr.height_map`)
and looks into arrays when its image does (`Expr.visitsElements_map`).  The placeholders in the text
of a numbered expression are those of the expression (`Expr.paramsOf_tokens`). -/

namespace EntityStore.Sql

variable {π ρ : Type}

/-! ### Replacing placeholders -/

mutual
/-- The expression with other placeholders. -/
def Expr.map (σ : π → ρ) : Expr π → Expr ρ
  | .param p => .param (σ p)
  | .word text => .word text
  | .integer value => .integer value
  | .column c => .column c
  | .id => .id
  | .kindAt path => .kindAt (path.map σ)
  | .valueAt path => .valueAt (path.map σ)
  | .elementKind => .elementKind
  | .elementValue => .elementValue
  | .kindOf text => .kindOf (text.map σ)
  | .isDocument text => .isDocument (text.map σ)
  | .minify text => .minify (text.map σ)
  | .lower text => .lower (text.map σ)
  | .cast value storage => .cast (value.map σ) storage
  | .compare relation left right => .compare relation (left.map σ) (right.map σ)
  | .among value words => .among (value.map σ) words
  | .isNull value => .isNull (value.map σ)
  | .isNotNull value => .isNotNull (value.map σ)
  | .not condition => .not (condition.map σ)
  | .and left right => .and (left.map σ) (right.map σ)
  | .or left right => .or (left.map σ) (right.map σ)
  | .like value pattern => .like (value.map σ) (pattern.map σ)
  | .cases branches => .cases (branches.map σ)
  | .casesOf subject branches => .casesOf (subject.map σ) (branches.map σ)
  | .anyElement path condition => .anyElement (path.map σ) (condition.map σ)
  | .group value => .group (value.map σ)

def Branches.map (σ : π → ρ) : Branches π → Branches ρ
  | .none => .none
  | .otherwise value => .otherwise (value.map σ)
  | .branch guard value rest => .branch (guard.map σ) (value.map σ) (rest.map σ)
end

mutual
/-- The value of an expression depends on its placeholders only through what they are bound to. -/
theorem Expr.eval_map (σ : π → ρ) (bound : ρ → Value) (row : Row) :
    ∀ (e : Expr π) (element : Option Source),
      (e.map σ).eval ⟨bound, row, element⟩ = e.eval ⟨bound ∘ σ, row, element⟩
  | .param _, _ | .word _, _ | .integer _, _ | .column _, _ | .id, _ | .elementKind, _
  | .elementValue, _ => by simp only [Expr.map, Expr.eval, Function.comp]
  | .kindAt x, el | .valueAt x, el | .kindOf x, el | .isDocument x, el | .minify x, el
  | .lower x, el | .cast x _, el | .among x _, el | .isNull x, el | .isNotNull x, el
  | .not x, el | .group x, el => by
      simp only [Expr.map, Expr.eval, Expr.eval_map σ bound row x el]
  | .compare _ x y, el | .and x y, el | .or x y, el | .like x y, el => by
      simp only [Expr.map, Expr.eval, Expr.eval_map σ bound row x el,
        Expr.eval_map σ bound row y el]
  | .cases bs, el => by
      simp only [Expr.map, Expr.eval, Branches.eval_map σ bound row _ bs el]
  | .casesOf x bs, el => by
      simp only [Expr.map, Expr.eval, Expr.eval_map σ bound row x el,
        Branches.eval_map σ bound row _ bs el]
  | .anyElement x c, el => by
      simp only [Expr.map, Expr.eval, Expr.eval_map σ bound row x el,
        fun s => Expr.eval_map σ bound row c (some s)]

theorem Branches.eval_map (σ : π → ρ) (bound : ρ → Value) (row : Row)
    (taken : Value → Option Bool) : ∀ (bs : Branches π) (element : Option Source),
      (bs.map σ).eval ⟨bound, row, element⟩ taken = bs.eval ⟨bound ∘ σ, row, element⟩ taken
  | .none, _ => by simp only [Branches.map, Branches.eval]
  | .otherwise x, el => by simp only [Branches.map, Branches.eval, Expr.eval_map σ bound row x el]
  | .branch g x bs, el => by
      simp only [Branches.map, Branches.eval, Expr.eval_map σ bound row g el,
        Expr.eval_map σ bound row x el, Branches.eval_map σ bound row taken bs el]
end

mutual
theorem Expr.height_map (σ : π → ρ) : ∀ e : Expr π, (e.map σ).height = e.height
  | .param _ | .word _ | .integer _ | .column _ | .id | .elementKind | .elementValue => by
      simp only [Expr.map, Expr.height]
  | .kindAt x | .valueAt x | .kindOf x | .isDocument x | .minify x | .lower x | .cast x _
  | .among x _ | .isNull x | .isNotNull x | .not x | .group x => by
      simp only [Expr.map, Expr.height, Expr.height_map σ x]
  | .compare _ x y | .and x y | .or x y | .like x y | .anyElement x y => by
      simp only [Expr.map, Expr.height, Expr.height_map σ x, Expr.height_map σ y]
  | .cases bs => by simp only [Expr.map, Expr.height, Branches.height_map σ bs]
  | .casesOf x bs => by
      simp only [Expr.map, Expr.height, Expr.height_map σ x, Branches.height_map σ bs]

theorem Branches.height_map (σ : π → ρ) : ∀ bs : Branches π, (bs.map σ).height = bs.height
  | .none => by simp only [Branches.map, Branches.height]
  | .otherwise x => by simp only [Branches.map, Branches.height, Expr.height_map σ x]
  | .branch g x bs => by
      simp only [Branches.map, Branches.height, Expr.height_map σ g, Expr.height_map σ x,
        Branches.height_map σ bs]
end

mutual
theorem Expr.visitsElements_map (σ : π → ρ) :
    ∀ e : Expr π, (e.map σ).visitsElements = e.visitsElements
  | .param _ | .word _ | .integer _ | .column _ | .id | .elementKind | .elementValue
  | .anyElement _ _ => by simp only [Expr.map, Expr.visitsElements]
  | .kindAt x | .valueAt x | .kindOf x | .isDocument x | .minify x | .lower x | .cast x _
  | .among x _ | .isNull x | .isNotNull x | .not x | .group x => by
      simp only [Expr.map, Expr.visitsElements, Expr.visitsElements_map σ x]
  | .compare _ x y | .and x y | .or x y | .like x y => by
      simp only [Expr.map, Expr.visitsElements, Expr.visitsElements_map σ x,
        Expr.visitsElements_map σ y]
  | .cases bs => by simp only [Expr.map, Expr.visitsElements, Branches.visitsElements_map σ bs]
  | .casesOf x bs => by
      simp only [Expr.map, Expr.visitsElements, Expr.visitsElements_map σ x,
        Branches.visitsElements_map σ bs]

theorem Branches.visitsElements_map (σ : π → ρ) :
    ∀ bs : Branches π, (bs.map σ).visitsElements = bs.visitsElements
  | .none => by simp only [Branches.map, Branches.visitsElements]
  | .otherwise x => by
      simp only [Branches.map, Branches.visitsElements, Expr.visitsElements_map σ x]
  | .branch g x bs => by
      simp only [Branches.map, Branches.visitsElements, Expr.visitsElements_map σ g,
        Expr.visitsElements_map σ x, Branches.visitsElements_map σ bs]
end

/-! ### Listing placeholders -/

mutual
/-- The placeholders of an expression, as often as they are written. -/
def Expr.params : Expr π → List π
  | .param p => [p]
  | .word _ | .integer _ | .column _ | .id | .elementKind | .elementValue => []
  | .kindAt x | .valueAt x | .kindOf x | .isDocument x | .minify x | .lower x | .cast x _
  | .among x _ | .isNull x | .isNotNull x | .not x | .group x => x.params
  | .compare _ x y | .and x y | .or x y | .like x y | .anyElement x y => x.params ++ y.params
  | .cases branches => branches.params
  | .casesOf subject branches => subject.params ++ branches.params

def Branches.params : Branches π → List π
  | .none => []
  | .otherwise value => value.params
  | .branch guard value rest => guard.params ++ (value.params ++ rest.params)
end

theorem paramsOf_append (xs ys : List Token) : paramsOf (xs ++ ys) = paramsOf xs ++ paramsOf ys :=
  List.filterMap_append

@[simp] theorem paramsOf_fixed (text : String) (ts : List Token) :
    paramsOf (.fixed text :: ts) = paramsOf ts := rfl

@[simp] theorem paramsOf_param (n : Nat) (ts : List Token) :
    paramsOf (.param n :: ts) = n :: paramsOf ts := rfl

@[simp] theorem paramsOf_nil : paramsOf [] = [] := rfl

mutual
/-- The placeholders in the text of an expression are its own. -/
theorem Expr.paramsOf_tokens (t : Table) : ∀ e : Expr Nat, paramsOf (e.tokens t) = e.params
  | .param _ | .word _ | .integer _ | .column _ | .id | .elementKind | .elementValue => by
      simp [Expr.tokens, Expr.params]
  | .kindAt x | .valueAt x | .kindOf x | .isDocument x | .minify x | .lower x | .cast x _
  | .among x _ | .isNull x | .isNotNull x | .not x | .group x => by
      simp [Expr.tokens, Expr.params, paramsOf_append, Expr.paramsOf_tokens t x]
  | .compare _ x y | .and x y | .or x y | .like x y | .anyElement x y => by
      simp [Expr.tokens, Expr.params, paramsOf_append, Expr.paramsOf_tokens t x,
        Expr.paramsOf_tokens t y]
  | .cases bs => by simp [Expr.tokens, Expr.params, Branches.paramsOf_tokens t bs]
  | .casesOf x bs => by
      simp [Expr.tokens, Expr.params, paramsOf_append, Expr.paramsOf_tokens t x,
        Branches.paramsOf_tokens t bs]

theorem Branches.paramsOf_tokens (t : Table) :
    ∀ bs : Branches Nat, paramsOf (bs.tokens t) = bs.params
  | .none => by simp [Branches.tokens, Branches.params]
  | .otherwise x => by
      simp [Branches.tokens, Branches.params, paramsOf_append, Expr.paramsOf_tokens t x]
  | .branch g x bs => by
      simp [Branches.tokens, Branches.params, paramsOf_append, Expr.paramsOf_tokens t g,
        Expr.paramsOf_tokens t x, Branches.paramsOf_tokens t bs]
end

end EntityStore.Sql
