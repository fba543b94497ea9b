/- # The tree of namespaces

A namespace has a name in its parent and children in the order of their creation; it is known
by its path, the names from the root down to it.  The root has the empty path.

The tree is stored as the forest of the root's children: the first child, the children below it
and the siblings after it.  A namespace is asked for by its name, and what is missing on the way
is created if the request says so (`forName`).

Two traversals list all namespaces, each before its children and children in their order:
`preorder` follows the structure, `walk` keeps a stack of the namespaces to visit.
-/

import AmbientDecl.Dotted

namespace AmbientDecl

/-- The children of a namespace, in the order of their creation. -/
inductive Forest where
  | nil
  | node (name : String) (children rest : Forest)
  deriving Inhabited

namespace Forest

/-- The path that a dotted name spells; the empty name is the root. -/
def path (name : String) : List String :=
  if name = "" then [] else Dotted.segments name

/-- The namespaces below the child with a name. -/
def child? (name : String) : Forest → Option Forest
  | nil => none
  | node n children rest => if n = name then some children else child? name rest

/-- The namespaces below a path, or `none` where no namespace has that path. -/
def find? : List String → Forest → Option Forest
  | [], forest => some forest
  | name :: path, forest =>
    match child? name forest with
    | some children => find? path children
    | none => none

/-- Whether a namespace has this path. -/
def contains (path : List String) (forest : Forest) : Bool :=
  (find? path forest).isSome

/-- Changes what is below a child; a missing child is created last, with nothing below it. -/
def update (name : String) (change : Forest → Forest) : Forest → Forest
  | nil => node name (change nil) nil
  | node n children rest =>
    if n = name then node n (change children) rest else node n children (update name change rest)

/-- The tree with every namespace on a path. -/
def insert : List String → Forest → Forest
  | [] => id
  | name :: path => update name (insert path)

/-- The namespaces below the child with a name; below one that may be created there are none. -/
def childFor (creates : Bool) (name : String) (forest : Forest) : Option Forest :=
  (child? name forest).orElse fun _ => if creates then some nil else none

/-- Follows a path down from the namespace at `above`: the path of the namespace that is reached,
and the tree then.  A name that is missing is created on request; otherwise nothing is reached. -/
def follow (creates : Bool) (above : List String) :
    List String → Forest → Option (List String) × Forest
  | [], forest => (some above, forest)
  | name :: path, forest =>
    match childFor creates name forest with
    | some children =>
      let (reached, children) := follow creates (above ++ [name]) path children
      (reached, update name (fun _ => children) forest)
    | none => (none, forest)

/-- The path of the namespace with a name, and the tree after asking for it. -/
def forName (creates : Bool) (name : String) (forest : Forest) : Option (List String) × Forest :=
  follow creates [] (path name) forest

theorem child?_update (name other : String) (change : Forest → Forest) (forest : Forest) :
    child? other (update name change forest) =
      if other = name then some (change ((child? name forest).getD nil))
      else child? other forest := by
  induction forest with
  | nil =>
    by_cases h : other = name
    · simp [update, child?, h]
    · simp [update, child?, h, Ne.symm h]
  | node n children rest _ ih =>
    by_cases hn : n = name
    · by_cases h : other = name
      · simp [update, child?, hn, h]
      · simp [update, child?, hn, h, Ne.symm h]
    · by_cases ho : n = other
      · subst ho
        simp [update, child?, hn]
      · simp [update, child?, hn, ho, ih]

/-- A path leads to a namespace after another one is created if it did so before or leads to a
namespace on the way of the new one. -/
theorem contains_insert (path other : List String) (forest : Forest) :
    contains other (insert path forest) = (contains other forest || other.isPrefixOf path) := by
  induction path generalizing other forest with
  | nil =>
    cases other with
    | nil => simp [contains, find?, insert]
    | cons name rest => simp [insert]
  | cons name path ih =>
    cases other with
    | nil => simp [contains, find?]
    | cons first rest =>
      by_cases h : first = name
      · subst h
        have step : contains (first :: rest) (insert (first :: path) forest) =
            contains rest (insert path ((child? first forest).getD nil)) := by
          simp [contains, find?, insert, child?_update]
        rw [step, ih]
        cases hc : child? first forest with
        | none => cases rest <;> simp [contains, find?, hc, child?]
        | some children => simp [contains, find?, hc]
      · simp [contains, find?, insert, child?_update, h]

/-- The names of the first level. -/
def names : Forest → List String
  | nil => []
  | node name _ rest => name :: names rest

/-- The paths of all namespaces of a forest below `above`. -/
def preorder (above : List String) : Forest → List (List String)
  | nil => []
  | node name children rest =>
    (above ++ [name]) :: preorder (above ++ [name]) children ++ preorder above rest

/-- The number of namespaces. -/
def size : Forest → Nat
  | nil => 0
  | node _ children rest => size children + size rest + 1

/-- The children of the namespace at `above`, each with its path and what is below it. -/
def entries (above : List String) : Forest → List (List String × Forest)
  | nil => []
  | node name children rest => (above ++ [name], children) :: entries above rest

/-- The number of namespaces on a stack and below it. -/
def stackSize : List (List String × Forest) → Nat
  | [] => 0
  | (_, children) :: stack => children.size + 1 + stackSize stack

theorem stackSize_append (stack below : List (List String × Forest)) :
    stackSize (stack ++ below) = stackSize stack + stackSize below := by
  induction stack with
  | nil => simp [stackSize]
  | cons entry stack ih => simp [stackSize, ih, Nat.add_assoc]

theorem stackSize_entries (above : List String) (forest : Forest) :
    stackSize (entries above forest) = forest.size := by
  induction forest with
  | nil => rfl
  | node name children rest _ ih =>
    simp only [entries, stackSize, size]
    omega

/-- Visits a stack of namespaces, the top first, putting the children of each on top. -/
def visit : List (List String × Forest) → List (List String)
  | [] => []
  | (path, children) :: stack => path :: visit (entries path children ++ stack)
  termination_by stack => stackSize stack
  decreasing_by
    simp only [stackSize, stackSize_append, stackSize_entries]
    omega

/-- The paths of all namespaces, the root first. -/
def walk (forest : Forest) : List (List String) :=
  visit [([], forest)]

end Forest
end AmbientDecl
