/- # Namespaces with distinct names

A path leads to a namespace name by name (`find?_append`, `contains_concat`), and a path that leads
to one is inserted without a change (`insert_of_contains`).

The children of a namespace have distinct names at every level of a tree that grows from the empty
one (`Distinct`, `Distinct.insert`).  In such a tree the paths listed in `preorder` are those that
lead to a namespace (`Distinct.mem_preorder_iff`), and none of them is listed twice
(`Distinct.nodup_preorder`).
-/

import AmbientDecl.Namespaces

namespace AmbientDecl
namespace Forest

variable {forest children siblings : Forest} {name other : String} {path above : List String}

/-- No two children of a namespace have the same name. -/
inductive Distinct : Forest → Prop where
  | nil : Distinct nil
  | node {name : String} {children siblings : Forest} (fresh : name ∉ siblings.names)
      (below : Distinct children) (after : Distinct siblings) :
      Distinct (node name children siblings)

theorem mem_names_update {change : Forest → Forest} :
    other ∈ (update name change forest).names ↔ other = name ∨ other ∈ forest.names := by
  induction forest with
  | nil => simp [update, names]
  | node first children siblings _ ih =>
    unfold update
    split
    · rename_i same
      simp [names, same]
    · rw [names, names, List.mem_cons, List.mem_cons, ih, or_left_comm]

theorem Distinct.update (h : forest.Distinct) {change : Forest → Forest}
    (keeps : ∀ {children : Forest}, children.Distinct → (change children).Distinct) :
    (update name change forest).Distinct := by
  induction h with
  | nil => exact .node List.not_mem_nil (keeps .nil) .nil
  | node fresh below after _ ih =>
    unfold Forest.update
    split
    · exact .node fresh (keeps below) after
    · rename_i ne
      refine .node (fun mem => ?_) below ih
      exact (mem_names_update.1 mem).elim ne fresh

/-- **Creating the namespaces on a path keeps the names distinct.** -/
theorem Distinct.insert (path : List String) (h : forest.Distinct) :
    (insert path forest).Distinct := by
  induction path generalizing forest with
  | nil => exact h
  | cons name path ih => exact h.update ih

theorem contains_node {first : String} :
    contains (other :: path) (node first children siblings) =
      if first = other then contains path children else contains (other :: path) siblings := by
  by_cases same : first = other <;> simp [contains, find?, child?, same]

theorem contains_nil : contains path nil = true ↔ path = [] := by
  cases path <;> simp [contains, find?, child?]

theorem find?_append {below : List String} :
    find? (path ++ below) forest = (find? path forest).bind (find? below) := by
  induction path generalizing forest with
  | nil => rfl
  | cons name path ih =>
    rw [List.cons_append, find?, find?]
    cases child? name forest with
    | none => rfl
    | some children => exact ih

theorem isSome_child?_iff : (child? name forest).isSome ↔ name ∈ forest.names := by
  induction forest with
  | nil => simp [child?, names]
  | node first children siblings _ ih =>
    rw [child?, names, List.mem_cons]
    split
    · rename_i same
      simp [same]
    · rename_i other
      rw [ih, or_iff_right (Ne.symm other)]

/-- A path with one more name leads to a child of the namespace at the path. -/
theorem contains_concat : contains (path ++ [name]) forest = true ↔
    ∃ children, find? path forest = some children ∧ name ∈ children.names := by
  rw [contains, find?_append]
  cases find? path forest with
  | none => simp
  | some children =>
    have step : find? [name] children = child? name children := by
      rw [find?]
      cases child? name children <;> rfl
    simp [step, isSome_child?_iff]

/-- A change that leaves the namespaces below a child as they are changes nothing. -/
theorem update_of_child {change : Forest → Forest} {children : Forest}
    (there : child? name forest = some children) (same : change children = children) :
    update name change forest = forest := by
  induction forest with
  | nil => cases there
  | node first below siblings _ ih =>
    rw [child?] at there
    rw [update]
    split at there
    · rename_i here
      obtain rfl := Option.some.inj there
      rw [if_pos here, same]
    · rename_i other
      rw [if_neg other, ih there]

/-- **Nothing is created where everything is there.** -/
theorem insert_of_contains (h : contains path forest = true) : insert path forest = forest := by
  induction path generalizing forest with
  | nil => rfl
  | cons name path ih =>
    rw [contains, find?] at h
    cases there : child? name forest with
    | none =>
      rw [there] at h
      cases h
    | some children =>
      rw [there] at h
      exact update_of_child there (ih h)

theorem mem_names_of_contains (h : contains (other :: path) forest) : other ∈ forest.names := by
  induction forest with
  | nil => cases h
  | node first children siblings _ ih =>
    rw [contains_node] at h
    rw [names, List.mem_cons]
    split at h
    · exact .inl (Eq.symm ‹_›)
    · exact .inr (ih h)

/-- The paths that are listed are those that lead to a namespace. -/
theorem Distinct.mem_preorder_iff (h : forest.Distinct) :
    path ∈ forest.preorder above ↔
      ∃ name below, path = above ++ name :: below ∧ contains (name :: below) forest := by
  induction h generalizing above path with
  | nil => simp [preorder, contains, find?, child?]
  | @node first children siblings fresh _ _ ihBelow ihAfter =>
    rw [preorder, List.cons_append, List.mem_cons, List.mem_append, ihBelow, ihAfter]
    constructor
    · rintro (rfl | ⟨name, below, rfl, there⟩ | ⟨name, below, rfl, there⟩)
      · exact ⟨first, [], rfl, by rw [contains_node, if_pos rfl]; rfl⟩
      · exact ⟨first, name :: below, by simp, by rwa [contains_node, if_pos rfl]⟩
      · have ne : first ≠ name := fun same => fresh (same ▸ mem_names_of_contains there)
        exact ⟨name, below, rfl, by rwa [contains_node, if_neg ne]⟩
    · rintro ⟨name, below, rfl, there⟩
      rw [contains_node] at there
      split at there
      · rename_i same
        subst same
        cases below with
        | nil => exact .inl rfl
        | cons next below => exact .inr (.inl ⟨next, below, by simp, there⟩)
      · exact .inr (.inr ⟨name, below, rfl, there⟩)

/-- **No path is listed twice.** -/
theorem Distinct.nodup_preorder (h : forest.Distinct) : (forest.preorder above).Nodup := by
  induction h generalizing above with
  | nil => exact List.nodup_nil
  | @node first children siblings fresh below after ihBelow ihAfter =>
    have inside : ∀ path ∈ children.preorder (above ++ [first]),
        ∃ name rest, path = above ++ first :: name :: rest := by
      intro path mem
      obtain ⟨name, rest, rfl, -⟩ := below.mem_preorder_iff.1 mem
      exact ⟨name, rest, by simp⟩
    have beside : ∀ path ∈ siblings.preorder above,
        ∃ name rest, path = above ++ name :: rest ∧ name ≠ first := by
      intro path mem
      obtain ⟨name, rest, rfl, there⟩ := after.mem_preorder_iff.1 mem
      exact ⟨name, rest, rfl, fun same => fresh (same ▸ mem_names_of_contains there)⟩
    rw [preorder, List.cons_append, List.nodup_cons, List.nodup_append, List.mem_append]
    refine ⟨?_, ihBelow, ihAfter, fun path mem path' mem' same => ?_⟩
    · rintro (mem | mem)
      · obtain ⟨name, rest, same⟩ := inside _ mem
        simp at same
      · obtain ⟨name, rest, same, ne⟩ := beside _ mem
        exact ne (List.head_eq_of_cons_eq (List.append_cancel_left same)).symm
    · obtain ⟨name, rest, rfl⟩ := inside path mem
      obtain ⟨name', rest', rfl, ne⟩ := beside path' mem'
      exact ne (List.head_eq_of_cons_eq (List.append_cancel_left same)).symm

/-- The root has the empty path, and it is no namespace of the list. -/
theorem Distinct.nodup_paths (h : forest.Distinct) : ([] :: forest.preorder []).Nodup := by
  refine List.nodup_cons.2 ⟨fun mem => ?_, h.nodup_preorder⟩
  obtain ⟨name, below, same, -⟩ := h.mem_preorder_iff.1 mem
  cases same

theorem Distinct.mem_paths_iff (h : forest.Distinct) :
    path ∈ [] :: forest.preorder [] ↔ contains path forest := by
  rw [List.mem_cons, h.mem_preorder_iff]
  cases path with
  | nil => simp [contains, find?]
  | cons name below =>
    refine ⟨?_, fun there => .inr ⟨name, below, rfl, there⟩⟩
    rintro (root | ⟨name', below', same, there⟩)
    · cases root
    · rwa [show name :: below = name' :: below' from same]

end Forest
end AmbientDecl
