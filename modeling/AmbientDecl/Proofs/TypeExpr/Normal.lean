/- # The normal form of a type expression

What of an expression is left in the type that it is lowered to, where a name is written as it is
or as another expression.

* A union in a union goes up into it.
* The arguments of a generic type become one, their union.
* A variadic type becomes the type that it repeats.

The **normal form** of an expression (`normal`) is the union of its normal branches.  The text of a
lowered type (`render`) is a function of the normal form (`Readable.render_normal`).
-/

import AmbientDecl.Proofs.TypeExpr.Lowered
import AmbientDecl.Proofs.TypeExpr.Readable

namespace AmbientDecl
namespace TypeExpr

mutual

/-- The expression with `meaning n` in the place of each name `n` that stands alone. -/
def withNames (meaning : String → TypeExpr) : TypeExpr → TypeExpr
  | name n => meaning n
  | generic base args => generic base (withNamesAll meaning args)
  | union branches => union (withNamesAll meaning branches)
  | array element => array (withNames meaning element)
  | variadic inner => variadic (withNames meaning inner)

/-- A list of expressions, each with its names replaced. -/
def withNamesAll (meaning : String → TypeExpr) : List TypeExpr → List TypeExpr
  | [] => []
  | e :: rest => withNames meaning e :: withNamesAll meaning rest

end

mutual

/-- The branches of the normal form. -/
def normalBranches : TypeExpr → List TypeExpr
  | name n => [name n]
  | generic base args => [generic base [ofBranches (normalBranchesAll args)]]
  | union branches => normalBranchesAll branches
  | array element => [array (ofBranches (normalBranches element))]
  | variadic inner => normalBranches inner

/-- The branches of the normal form of a union. -/
def normalBranchesAll : List TypeExpr → List TypeExpr
  | [] => []
  | e :: rest => normalBranches e ++ normalBranchesAll rest

end

/-- The normal form. -/
def normal (e : TypeExpr) : TypeExpr := ofBranches (normalBranches e)

mutual

/-- The text of the lowered type, with every name as it is. -/
def render : TypeExpr → String
  | name n => n
  | generic base args => base ++ "<" ++ "|".intercalate (renderAll args) ++ ">"
  | union branches => "|".intercalate (renderAll branches)
  | array element =>
    if 1 < (TypeText.branches (render element)).length then "(" ++ render element ++ ")[]"
    else render element ++ "[]"
  | variadic inner => render inner

/-- The texts of several lowered types. -/
def renderAll : List TypeExpr → List String
  | [] => []
  | e :: rest => render e :: renderAll rest

end

variable {meaning : String → TypeExpr} {e : TypeExpr} {es : List TypeExpr}

@[simp] theorem withNamesAll_eq_map (meaning : String → TypeExpr) (es : List TypeExpr) :
    withNamesAll meaning es = es.map (withNames meaning) := by
  induction es with
  | nil => rfl
  | cons e rest ih => rw [withNamesAll, ih, List.map_cons]

@[simp] theorem normalBranchesAll_eq_flatMap (es : List TypeExpr) :
    normalBranchesAll es = es.flatMap normalBranches := by
  induction es with
  | nil => rfl
  | cons e rest ih => rw [normalBranchesAll, ih, List.flatMap_cons]

@[simp] theorem renderAll_eq_map (es : List TypeExpr) : renderAll es = es.map render := by
  induction es with
  | nil => rfl
  | cons e rest ih => rw [renderAll, ih, List.map_cons]

/-- Names are written as the expressions that they mean, and as themselves before arguments. -/
structure Naming.Writes (naming : Naming) (meaning : String → TypeExpr) : Prop where
  alone : ∀ n, naming.alone n = .ok (.str (render (meaning n)))
  withArguments : ∀ n, naming.withArguments n = .ok (.str n)

mutual

/-- An expression is lowered to the text of what it means. -/
theorem Naming.Writes.lower {naming : Naming} (h : naming.Writes meaning) :
    (e : TypeExpr) → lower naming e = .ok (.str (render (withNames meaning e)))
  | name n => h.alone n
  | generic base args => by
    rw [TypeExpr.lower, h.lowerAll args, bind_ok, joined_map_str, bind_ok, h.withArguments base]
    rfl
  | union branches => by
    rw [TypeExpr.lower, h.lowerAll branches, bind_ok, joined_map_str]
    rfl
  | array element => by
    rw [TypeExpr.lower, h.lower element, bind_ok, arrayOf, TypeText.branchesOf?_str, withNames,
      render, ShapeFault.required_some, bind_ok, List.length_map]
    rfl
  | variadic inner => h.lower inner

theorem Naming.Writes.lowerAll {naming : Naming} (h : naming.Writes meaning) :
    (es : List TypeExpr) →
      lowerAll naming es = .ok ((renderAll (withNamesAll meaning es)).map .str)
  | [] => rfl
  | e :: rest => by
    rw [TypeExpr.lowerAll, h.lower e, bind_ok, h.lowerAll rest]
    rfl

end

mutual

/-- Names that mean themselves leave an expression as it is. -/
theorem withNames_name : (e : TypeExpr) → withNames name e = e
  | name _ => rfl
  | generic base args => by rw [withNames, withNamesAll_name args]
  | union branches => by rw [withNames, withNamesAll_name branches]
  | array element => by rw [withNames, withNames_name element]
  | variadic inner => by rw [withNames, withNames_name inner]

theorem withNamesAll_name : (es : List TypeExpr) → withNamesAll name es = es
  | [] => rfl
  | e :: rest => by rw [withNamesAll, withNames_name e, withNamesAll_name rest]

end

/-- Readable expressions in the place of names keep an expression readable. -/
theorem Readable.withNames (h : e.Readable)
    (names : ∀ n, Token.IsName n.toList → (meaning n).Readable) :
    (withNames meaning e).Readable := by
  induction h with
  | name isName => exact names _ isName
  | generic isName some _ ih =>
    rw [TypeExpr.withNames, withNamesAll_eq_map]
    exact .generic isName (by simpa using some) (List.forall_mem_map.2 ih)
  | union some _ ih =>
    rw [TypeExpr.withNames, withNamesAll_eq_map]
    exact .union (by simpa using some) (List.forall_mem_map.2 ih)
  | array _ ih => exact .array ih
  | variadic _ ih => exact .variadic ih

/-- A normal form has a branch. -/
theorem Readable.normalBranches_ne_nil (h : e.Readable) : normalBranches e ≠ [] := by
  induction h with
  | name => exact List.cons_ne_nil _ _
  | generic => exact List.cons_ne_nil _ _
  | @union branches some _ ih =>
    obtain ⟨e, mem⟩ := List.exists_mem_of_ne_nil branches some
    rw [normalBranches, normalBranchesAll_eq_flatMap]
    simpa using ⟨e, mem, ih e mem⟩
  | array => exact List.cons_ne_nil _ _
  | variadic _ ih => exact ih

/-- The text of a union is that of its branches. -/
theorem render_ofBranches (some : es ≠ []) :
    render (ofBranches es) = "|".intercalate (es.map render) := by
  match es with
  | [] => exact absurd rfl some
  | [e] => simp [ofBranches]
  | e :: e' :: rest => rw [ofBranches, render, renderAll_eq_map]; simp

/-- Texts that are joined in groups are joined in all. -/
theorem intercalate_flatMap {α : Type} {f : α → List String} {g : α → String} {xs : List α}
    (separator : String) (each : ∀ x ∈ xs, f x ≠ [] ∧ separator.intercalate (f x) = g x) :
    separator.intercalate (xs.flatMap f) = separator.intercalate (xs.map g) := by
  induction xs with
  | nil => rfl
  | cons x rest ih =>
    obtain ⟨⟨some, same⟩, each⟩ := List.forall_mem_cons.1 each
    cases rest with
    | nil => simpa using same
    | cons y rest =>
      have some' : (y :: rest).flatMap f ≠ [] := by simp [(each y List.mem_cons_self).1]
      rw [List.flatMap_cons, String.intercalate_append_of_ne_nil some some', same, ih each,
        List.map_cons, List.map_cons, List.map_cons, String.intercalate_cons_cons]

/-- Branches that go up from each of several unions are joined as the unions are. -/
theorem intercalate_normalBranches_flatMap (each : ∀ e ∈ es, e.Readable)
    (same : ∀ e ∈ es, "|".intercalate ((normalBranches e).map render) = render e) :
    "|".intercalate ((es.flatMap normalBranches).map render) = "|".intercalate (es.map render) := by
  rw [List.map_flatMap]
  refine intercalate_flatMap "|" fun e mem => ⟨?_, same e mem⟩
  simpa using (each e mem).normalBranches_ne_nil

/-- The texts of the normal branches, joined, are the text of the expression. -/
theorem Readable.intercalate_normalBranches (h : e.Readable) :
    "|".intercalate ((normalBranches e).map render) = render e := by
  induction h with
  | name => simp [normalBranches, render]
  | @generic base args isName some each ih =>
    have parts := (Readable.union some each).normalBranches_ne_nil
    rw [normalBranches, normalBranchesAll_eq_flatMap] at parts
    simp only [normalBranches, normalBranchesAll_eq_flatMap, List.map_singleton,
      String.intercalate_singleton, render, renderAll_eq_map, render_ofBranches parts,
      intercalate_normalBranches_flatMap each ih]
  | @union branches some each ih =>
    rw [normalBranches, normalBranchesAll_eq_flatMap, intercalate_normalBranches_flatMap each ih,
      render, renderAll_eq_map]
  | @array element readable ih =>
    simp only [normalBranches, List.map_singleton, String.intercalate_singleton, render,
      render_ofBranches readable.normalBranches_ne_nil, ih]
  | variadic _ ih => exact ih

/-- **An expression and its normal form have one text.** -/
theorem Readable.render_normal (h : e.Readable) : render (normal e) = render e := by
  rw [normal, render_ofBranches h.normalBranches_ne_nil, h.intercalate_normalBranches]

end TypeExpr
end AmbientDecl
