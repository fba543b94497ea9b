/- # Type expressions

What the type of a parameter, a property or a result is written as: a name, a name with
arguments, a union, an array or a variadic type, such as `Array<String, Number>|Ember.Foo...`.
-/

namespace AmbientDecl

/-- A type expression. -/
inductive TypeExpr where
  | name (name : String)
  | generic (base : String) (args : List TypeExpr)
  | union (branches : List TypeExpr)
  | array (element : TypeExpr)
  | variadic (inner : TypeExpr)
  deriving Inhabited

namespace TypeExpr

/-- The union of branches; a single branch stands for itself. -/
def ofBranches : List TypeExpr → TypeExpr
  | [branch] => branch
  | branches => union branches

mutual

/-- Whether a variadic type stands anywhere in the expression. -/
def hasVariadic : TypeExpr → Bool
  | name _ => false
  | generic _ args => anyVariadic args
  | union branches => anyVariadic branches
  | array element => hasVariadic element
  | variadic _ => true

/-- Whether a variadic type stands anywhere in a list of expressions. -/
def anyVariadic : List TypeExpr → Bool
  | [] => false
  | e :: rest => hasVariadic e || anyVariadic rest

end

end TypeExpr
end AmbientDecl
