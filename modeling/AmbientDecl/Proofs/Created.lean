/- # Namespaces and the requests for them

A request asks for the namespace with a name and may create what is missing.  A namespace is never
moved or dropped, so its path tells it from the others.  Two things are known of a tree that served
requests from the beginning.

* **Which namespaces there are.**  The paths of the created namespaces are the leading runs of the
  names in the creating requests, each where it first comes (`Forest.created`).  They are those that
  lead to a namespace, and the children of a namespace stand in this order (`Forest.recorded_after`:
  one creation is one more path in the record, `Recorded.insert_concat`, a request is a number of
  creations, `Recorded.insert`).
* **How they are listed.**  The stack of `walk` visits them in the order of the recursive traversal
  (`Forest.walk_eq_preorder`), which is the order of their blocks in the declaration file.

What a request is answered with follows from the first (`Forest.requests_answered`).
-/

import AmbientDecl.Proofs.Dotted
import AmbientDecl.Proofs.Keyed
import AmbientDecl.Proofs.Namespaces
import AmbientDecl.Proofs.Output.Levels
import Mathlib.Data.List.Infix
import Mathlib.Data.List.Induction

namespace AmbientDecl
namespace Forest

variable {forest : Forest} {name : String} {path above : List String} {creates : Bool}

/-! Following a path -/

/-- A change of what is below a child is told by what is there. -/
theorem update_eq_of_child (name : String) (change : Forest → Forest) (forest : Forest) :
    update name (fun _ => change ((child? name forest).getD nil)) forest =
      update name change forest := by
  induction forest with
  | nil => rfl
  | node first children siblings _ ih =>
    by_cases same : first = name
    · simp [update, child?, same]
    · simp [update, child?, same, ih]

theorem childFor_true : childFor true name forest = some ((child? name forest).getD nil) := by
  rw [childFor]
  cases child? name forest <;> rfl

theorem childFor_false : childFor false name forest = child? name forest := by
  rw [childFor]
  cases child? name forest <;> rfl

/-- Where names may be created, the whole path is followed. -/
theorem follow_true :
    follow true above path forest = (some (above ++ path), insert path forest) := by
  induction path generalizing above forest with
  | nil => rw [follow, List.append_nil]; rfl
  | cons name path ih =>
    rw [follow, childFor_true]
    dsimp only
    rw [ih, update_eq_of_child, List.append_assoc]
    rfl

/-- Otherwise it is followed if it leads to a namespace, and the tree stays as it is. -/
theorem follow_false : follow false above path forest =
    (if contains path forest then some (above ++ path) else none, forest) := by
  induction path generalizing above forest with
  | nil => rw [follow, List.append_nil]; rfl
  | cons name path ih =>
    rw [follow, childFor_false, contains, find?]
    cases there : child? name forest with
    | none => rfl
    | some children =>
      have same : update name (fun _ => children) forest = forest := update_of_child there rfl
      dsimp only
      rw [ih, same, List.append_assoc]
      rfl

theorem forName_true : forName true name forest =
    (some (Forest.path name), insert (Forest.path name) forest) :=
  follow_true

theorem forName_false : forName false name forest =
    (if contains (Forest.path name) forest then some (Forest.path name) else none, forest) :=
  follow_false

/-- The full name of the namespace with a name is the name. -/
theorem join_path (name : String) : Dotted.join (Forest.path name) = name := by
  rw [Forest.path]
  split
  · rename_i root
    rw [root]
    rfl
  · exact Dotted.join_segments name

/-- What is answered is the path of the name, and it leads to a namespace afterwards. -/
theorem path_of_forName (h : (forest.forName creates name).1 = some path) :
    path = Forest.path name ∧ contains path (forest.forName creates name).2 = true := by
  cases creates with
  | false =>
    rw [forName_false] at h ⊢
    split at h
    · rename_i there
      obtain rfl := Option.some.inj h
      exact ⟨rfl, there⟩
    · cases h
  | true =>
    rw [forName_true] at h ⊢
    obtain rfl := Option.some.inj h
    exact ⟨rfl, by simp [contains_insert]⟩

theorem forName_of_contains (creates : Bool) (there : contains (Forest.path name) forest = true) :
    (forest.forName creates name).1 = some (Forest.path name) := by
  cases creates with
  | false => rw [forName_false, if_pos there]
  | true => rw [forName_true]

/-! The order of creation -/

/-- The names of the children of the namespace at `above`. -/
def namesBelow (above : List String) (forest : Forest) : List String :=
  ((find? above forest).getD nil).names

/-- The paths of the children of the namespace at `above`, in their order. -/
def childPaths (above : List String) (forest : Forest) : List (List String) :=
  (namesBelow above forest).map fun name => above ++ [name]

/-- Whether a path leads to a child of the namespace at `above`. -/
def isChildPath (above path : List String) : Bool :=
  !path.isEmpty && path.dropLast == above

theorem names_update {change : Forest → Forest} : (update name change forest).names =
    if name ∈ forest.names then forest.names else forest.names ++ [name] := by
  induction forest with
  | nil => rfl
  | node first children siblings _ ih =>
    by_cases same : first = name
    · simp [update, names, same]
    · by_cases mem : name ∈ siblings.names <;> simp_all [update, names, Ne.symm same]

theorem namesBelow_cons (first : String) (above : List String) (forest : Forest) :
    namesBelow (first :: above) forest = namesBelow above ((child? first forest).getD nil) := by
  rw [namesBelow, find?, namesBelow]
  cases child? first forest with
  | none => cases above <;> rfl
  | some children => rfl

/-- A namespace that is created comes last among its siblings, and no other list of children
changes. -/
theorem namesBelow_insert (there : contains path forest = true) :
    namesBelow above (insert (path ++ [name]) forest) =
      if above = path ∧ name ∉ namesBelow above forest
      then namesBelow above forest ++ [name] else namesBelow above forest := by
  induction path generalizing above forest with
  | nil =>
    cases above with
    | nil =>
      have root : ∀ forest, namesBelow [] forest = forest.names := fun _ => rfl
      rw [root, root, List.nil_append, insert, names_update]
      by_cases mem : name ∈ forest.names <;> simp [mem]
    | cons first above =>
      rw [if_neg (by simp), List.nil_append, insert, namesBelow_cons, namesBelow_cons,
        child?_update]
      by_cases same : first = name
      · rw [if_pos same, Option.getD_some, same]
        rfl
      · rw [if_neg same]
  | cons step path ih =>
    have step_there : step ∈ forest.names := mem_names_of_contains there
    cases above with
    | nil =>
      have root : ∀ forest, namesBelow [] forest = forest.names := fun _ => rfl
      rw [if_neg (by simp), root, root, List.cons_append, insert, names_update, if_pos step_there]
    | cons first above =>
      rw [List.cons_append, insert, namesBelow_cons, namesBelow_cons, child?_update]
      by_cases same : first = step
      · subst same
        have below : contains path ((child? first forest).getD nil) = true := by
          rw [contains, find?] at there
          cases found : child? first forest with
          | none => simp [found] at there
          | some children => simpa [found, contains] using there
        rw [if_pos rfl, Option.getD_some, ih below]
        simp
      · rw [if_neg same, if_neg fun h => same (List.cons.inj h.1).1]

theorem mem_namesBelow_iff : name ∈ namesBelow above forest ↔
    contains (above ++ [name]) forest = true := by
  rw [contains_concat, namesBelow]
  cases find? above forest <;> simp [names]

/-- What stands above a namespace is there. -/
theorem contains_of_leads {lead : List String} (leads : lead <+: path)
    (there : contains path forest = true) : contains lead forest = true := by
  obtain ⟨rest, rfl⟩ := leads
  rw [contains, find?_append] at there
  rw [contains]
  cases found : find? lead forest with
  | none => simp [found] at there
  | some children => rfl

theorem update_update (name : String) (first next : Forest → Forest) (forest : Forest) :
    update name next (update name first forest) = update name (next ∘ first) forest := by
  induction forest with
  | nil => simp [update]
  | node other children siblings _ ih =>
    by_cases same : other = name
    · simp [update, same]
    · simp [update, same, ih]

/-- A path can be inserted in two steps. -/
theorem insert_append (path more : List String) (forest : Forest) :
    insert (path ++ more) (insert path forest) = insert (path ++ more) forest := by
  induction path generalizing forest with
  | nil => rfl
  | cons name path ih =>
    rw [List.cons_append, insert, insert, update_update]
    exact congrArg (update name · forest) (funext ih)

/-- The paths of the namespaces that exist, in the order of their creation. -/
structure Recorded (record : List (List String)) (forest : Forest) : Prop where
  nodup : record.Nodup
  mem_iff : ∀ path, path ∈ record ↔ contains path forest = true
  children : ∀ above, childPaths above forest = record.filter (isChildPath above)

/-- In the beginning there is the root. -/
theorem recorded_nil : Recorded [[]] nil where
  nodup := List.nodup_singleton _
  mem_iff path := by rw [List.mem_singleton, contains_nil]
  children above := by
    cases above <;> rfl

/-- Only the children of a namespace have a path with one more name than its own. -/
theorem isChildPath_concat : isChildPath above (path ++ [name]) = decide (path = above) := by
  simp [isChildPath, beq_eq_decide]

/-- **One creation** is one more path in the record, if the path is new. -/
theorem Recorded.insert_concat {steps : List (List String)}
    (h : Recorded (Keyed.firsts id steps) forest) (there : contains path forest = true) :
    Recorded (Keyed.firsts id (steps ++ [path ++ [name]])) (insert (path ++ [name]) forest) := by
  rw [Keyed.firsts_concat, List.map_id, id]
  by_cases old : contains (path ++ [name]) forest = true
  · rwa [if_pos ((h.mem_iff _).2 old), insert_of_contains old]
  · have new : path ++ [name] ∉ Keyed.firsts id steps := fun mem => old ((h.mem_iff _).1 mem)
    rw [if_neg new]
    refine ⟨?_, fun other => ?_, fun above => ?_⟩
    · exact List.nodup_append.2 ⟨h.nodup, List.pairwise_singleton _ _, by
        rintro _ mem _ mem' rfl
        exact new (List.mem_singleton.1 mem' ▸ mem)⟩
    · rw [List.mem_append, h.mem_iff, List.mem_singleton, contains_insert, Bool.or_eq_true,
        List.isPrefixOf_iff_prefix, List.prefix_concat_iff]
      exact or_congr_right' fun missing =>
        (or_iff_left fun lead => missing (contains_of_leads lead there)).symm
    · rw [childPaths, namesBelow_insert there, List.filter_append, ← h.children above]
      by_cases here : above = path
      · subst here
        have fresh : name ∉ namesBelow above forest := fun mem => old (mem_namesBelow_iff.1 mem)
        rw [if_pos ⟨rfl, fresh⟩, List.map_append, List.filter_singleton, isChildPath_concat]
        simp [childPaths]
      · rw [if_neg fun h => here h.1, List.filter_singleton, isChildPath_concat]
        simp [childPaths, Ne.symm here]

/-- A request creates the namespaces on a path one after the other. -/
theorem Recorded.insert {steps : List (List String)} (h : Recorded (Keyed.firsts id steps) forest)
    (path : List String) :
    Recorded (Keyed.firsts id (steps ++ path.inits)) (insert path forest) := by
  induction path using List.reverseRecOn with
  | nil =>
    have root : ([] : List String) ∈ Keyed.firsts id steps := (h.mem_iff _).2 rfl
    rw [List.inits, Keyed.firsts_concat, List.map_id, id, if_pos root]
    exact h
  | append_singleton path name ih =>
    have there : contains path (Forest.insert path forest) = true := by
      rw [contains_insert, Bool.or_eq_true, List.isPrefixOf_iff_prefix]
      exact .inr List.prefix_rfl
    have runs : (path ++ [name]).inits = path.inits ++ [path ++ [name]] := by
      simp [List.inits_append]
    rw [runs, ← List.append_assoc, ← insert_append path [name]]
    exact ih.insert_concat there

/-! Runs -/

/-- A request for the namespace with a name, which may create what is missing. -/
structure Request where
  name : String
  creates : Bool

/-- The tree after a request. -/
def serve (forest : Forest) (request : Request) : Forest :=
  (forest.forName request.creates request.name).2

/-- The tree after requests, from the beginning. -/
def after (requests : List Request) : Forest :=
  requests.foldl serve nil

theorem after_concat (requests : List Request) (request : Request) :
    after (requests ++ [request]) =
      ((after requests).forName request.creates request.name).2 := by
  rw [after, List.foldl_append]
  rfl

/-- The paths of the namespaces that requests create, in the order of their creation: the root is
there first, and a creating request goes down the leading runs of its name. -/
def created (requests : List Request) : List (List String) :=
  Keyed.firsts id ([] ::
    (requests.filter Request.creates).flatMap fun request => (Forest.path request.name).inits)

/-- **The record of a run** holds the namespaces of its tree. -/
theorem recorded_after (requests : List Request) :
    Recorded (created requests) (after requests) := by
  induction requests using List.reverseRecOn with
  | nil => exact recorded_nil
  | append_singleton requests request ih =>
    obtain ⟨name, creates⟩ := request
    rw [after_concat, created, List.filter_append, List.flatMap_append]
    dsimp only
    cases creates with
    | false =>
      rw [forName_false]
      simpa [created] using ih
    | true =>
      rw [forName_true, ← List.cons_append]
      simpa using ih.insert (Forest.path name)

/-- Namespaces that are created later come later in the record. -/
theorem created_append (requests more : List Request) :
    created requests <+: created (requests ++ more) := by
  rw [created, created, List.filter_append, List.flatMap_append, ← List.cons_append, Keyed.firsts,
    Keyed.firsts, Keyed.firstsAfter_append]
  exact List.prefix_append _ _

/-- A name leads to a namespace if it is empty or starts a name that was created. -/
theorem contains_after {requests : List Request} :
    contains (Forest.path name) (after requests) = true ↔ name = "" ∨
      ∃ request ∈ requests, request.creates = true ∧
        Dotted.segments name <+: Dotted.segments request.name := by
  have keys : ∀ steps : List (List String), Forest.path name ∈ Keyed.firsts id steps ↔
      Forest.path name ∈ steps := by
    intro steps
    rw [← List.map_id (Keyed.firsts id steps), Keyed.mem_keys_firsts, List.map_id]
  rw [← (recorded_after requests).mem_iff, created, keys, List.mem_cons, path_eq_nil_iff]
  simp only [List.mem_flatMap, List.mem_filter, List.mem_inits, path_isPrefix_iff,
    Dotted.isUnder_iff, and_assoc]
  constructor
  · rintro (root | ⟨request, mem, creates, root | lead⟩)
    · exact .inl root
    · exact .inl root
    · exact .inr ⟨request, mem, creates, lead⟩
  · rintro (root | ⟨request, mem, creates, lead⟩)
    · exact .inl root
    · exact .inr ⟨request, mem, creates, .inr lead⟩

/-! Listing -/

/-- The stack holds the children of a namespace as the recursion goes through them. -/
theorem visit_entries (forest : Forest) (above : List String)
    (stack : List (List String × Forest)) :
    visit (entries above forest ++ stack) = preorder above forest ++ visit stack := by
  induction forest generalizing above stack with
  | nil => rfl
  | node name children siblings ihChildren ihSiblings =>
    rw [entries, List.cons_append, visit, ihChildren, ihSiblings, preorder, List.cons_append,
      List.cons_append, List.append_assoc]

/-- **The stack lists the namespaces in the order of the recursion.** -/
theorem walk_eq_preorder (forest : Forest) : forest.walk = [] :: forest.preorder [] := by
  have below := visit_entries forest [] []
  rw [List.append_nil, visit, List.append_nil] at below
  rw [walk, visit, List.append_nil, below]

theorem Distinct.forName (h : forest.Distinct) (creates : Bool) (name : String) :
    (forest.forName creates name).2.Distinct := by
  cases creates with
  | false => rwa [forName_false]
  | true =>
    rw [forName_true]
    exact h.insert _

theorem distinct_after (requests : List Request) : (after requests).Distinct := by
  induction requests using List.reverseRecOn with
  | nil => exact .nil
  | append_singleton requests request ih =>
    rw [after_concat]
    exact ih.forName _ _

/-- **A tree of namespaces answers what was created.**  After any requests:

* what a request is answered with has the requested name as its full name and is in the tree, and
  a request that may create is always answered;
* another one is answered just when the name is empty or its segments are a leading run of those of
  a name that was created before;
* a namespace that was the answer once is the answer to all later requests for its name, and its
  place in the order of creation does not change;
* a request that may not create anything changes nothing;
* `walk` goes through the namespaces in the order of the recursion, as the blocks of the declaration
  file do, and lists each one that was created exactly once;
* the children of a namespace stand in the order of their creation. -/
theorem requests_answered (requests : List Request) :
    (∀ name creates path, ((after requests).forName creates name).1 = some path →
      Dotted.join path = name ∧ path ∈ ((after requests).forName creates name).2.walk) ∧
    (∀ name, ((after requests).forName true name).1.isSome = true) ∧
    (∀ name, ((after requests).forName false name).1.isSome = true ↔ name = "" ∨
      ∃ request ∈ requests, request.creates = true ∧
        Dotted.segments name <+: Dotted.segments request.name) ∧
    (∀ name creates path, ((after requests).forName creates name).1 = some path →
      ∀ more creates', ((after (requests ++ ⟨name, creates⟩ :: more)).forName creates' name).1 =
        some path) ∧
    (∀ more, created requests <+: created (requests ++ more)) ∧
    (∀ name, ((after requests).forName false name).2 = after requests) ∧
    (after requests).walk = [] :: (after requests).preorder [] ∧
    (∀ m layout, m.tree = after requests → Output.layout m = .ok layout →
      layout.levels.map Output.Level.path = (after requests).walk) ∧
    (after requests).walk.Nodup ∧ (after requests).walk.Perm (created requests) ∧
    ∀ above, childPaths above (after requests) =
      (created requests).filter (isChildPath above) := by
  have recorded := recorded_after requests
  have paths := walk_eq_preorder (after requests)
  have nodup : (after requests).walk.Nodup := paths ▸ (distinct_after requests).nodup_paths
  refine ⟨fun name creates path answer => ?_, fun name => ?_, fun name => ?_, ?_,
    created_append requests, fun name => ?_, paths, fun m layout tree rendered => ?_, nodup, ?_,
    recorded.children⟩
  · obtain ⟨rfl, there⟩ := path_of_forName answer
    refine ⟨join_path name, ?_⟩
    rwa [walk_eq_preorder, ((distinct_after requests).forName _ _).mem_paths_iff]
  · rw [forName_true]
    rfl
  · rw [← contains_after, forName_false]
    by_cases there : contains (Forest.path name) (after requests) = true <;> simp [there]
  · intro name creates path answer more creates'
    obtain ⟨rfl, there⟩ := path_of_forName answer
    refine forName_of_contains creates' ?_
    rw [← after_concat requests ⟨name, creates⟩, ← (recorded_after _).mem_iff] at there
    rw [← (recorded_after _).mem_iff, List.append_cons]
    exact (created_append _ more).subset there
  · rw [forName_false]
  · obtain ⟨shape, -⟩ := Output.shape_of_layout rendered
    rw [Output.paths_layout shape, tree, paths]
  · refine (List.perm_ext_iff_of_nodup nodup recorded.nodup).2 fun path => ?_
    rw [paths, (distinct_after requests).mem_paths_iff, recorded.mem_iff]

-- Segments may be empty: `a..b` goes through a child of `a` without a name.
example : (after [⟨"a..b", true⟩, ⟨"c", false⟩, ⟨"", true⟩, ⟨"a.d", true⟩]).walk =
    [[], ["a"], ["a", ""], ["a", "", "b"], ["a", "d"]] := by decide +kernel

end Forest
end AmbientDecl
