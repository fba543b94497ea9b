/- # The directory of a path

The components of a path are read back from the path that is spelled with them
(`Path.components_spell`).  So the way to a path goes through its directory: the directory has all
components of the path but the last one (`Path.steps_parent`), and both ways start at the same place
(`Place.startOf_parent`).
-/

import AmbientDecl.Command.Path
import AmbientDecl.Dotted

namespace AmbientDecl
namespace Path

variable {cs : List Char} {parts : List (List Char)}

/-- Whether some characters can be a component. -/
def IsComponent (part : List Char) : Prop :=
  '/' ∉ part ∧ part ≠ [] ∧ part ≠ ['.']

theorem isComponent_of_mem {part : List Char} (mem : part ∈ components cs) : IsComponent part := by
  obtain ⟨piece, kept⟩ := List.mem_filter.1 mem
  exact ⟨Dotted.not_mem_piece piece, by simpa using kept⟩

/-- The components above a file. -/
theorem isComponent_above (cs : List Char) : ∀ part ∈ (components cs).dropLast, IsComponent part :=
  fun _ mem => isComponent_of_mem (List.dropLast_subset _ mem)

theorem components_slash (cs : List Char) : components ('/' :: cs) = components cs := by
  simp [components, List.splitOn_cons_eq_if_modifyHead]

theorem components_intercalate (h : ∀ part ∈ parts, IsComponent part) :
    components (List.intercalate ['/'] parts) = parts := by
  by_cases none : parts = []
  · rw [none]
    rfl
  · rw [components, List.splitOn_intercalate '/' (fun part mem => (h part mem).1) none,
      List.filter_eq_self]
    intro part mem
    simpa using (h part mem).2

/-- An absolute path starts with a slash, and another one does not. -/
theorem root_cases (cs : List Char) : root cs = [] ∧ cs.head? ≠ some '/' ∨
    (root cs = ['/'] ∨ root cs = ['/', '/']) ∧ cs.head? = some '/' := by
  cases cs with
  | nil => exact .inl ⟨rfl, by simp⟩
  | cons c cs =>
    by_cases slash : c = '/'
    · right
      refine ⟨?_, by simp [slash]⟩
      unfold root
      split
      · simp_all
      · exact .inr rfl
      · exact .inl rfl
    · left
      simp [root, slash]

theorem root_eq_nil_iff : root cs = [] ↔ cs.head? ≠ some '/' := by
  obtain ⟨relative, start⟩ | ⟨one | two, start⟩ := root_cases cs
  · simp [relative, start]
  · simp [one, start]
  · simp [two, start]

/-- The characters of a path that is spelled: its root and its components, or a dot. -/
theorem toList_spell (root : List Char) (parts : List (List Char)) :
    (spell root parts).toList = ['.'] ∧ root ++ List.intercalate ['/'] parts = [] ∨
      (spell root parts).toList = root ++ List.intercalate ['/'] parts := by
  unfold spell
  split
  · exact .inl ⟨rfl, ‹_›⟩
  · exact .inr String.toList_ofList

/-- The components that a path is spelled with are read back. -/
theorem components_spell (h : ∀ part ∈ parts, IsComponent part) (cs : List Char) :
    components (spell (root cs) parts).toList = parts := by
  have written : components (spell (root cs) parts).toList =
      components (root cs ++ List.intercalate ['/'] parts) := by
    obtain ⟨dot, none⟩ | text := toList_spell (root cs) parts
    · rw [dot, none]
      rfl
    · rw [text]
  rw [written]
  obtain ⟨relative, -⟩ | ⟨one | two, -⟩ := root_cases cs
  · rw [relative, List.nil_append, components_intercalate h]
  · rw [one, List.singleton_append, components_slash, components_intercalate h]
  · rw [two, List.cons_append, List.singleton_append, components_slash, components_slash,
      components_intercalate h]

theorem head?_intercalate (h : ∀ part ∈ parts, IsComponent part) :
    (List.intercalate ['/'] parts).head? ≠ some '/' := by
  cases parts with
  | nil => simp
  | cons first rest =>
    obtain ⟨noSlash, some, -⟩ := h first List.mem_cons_self
    obtain ⟨c, cs, rfl⟩ := List.exists_cons_of_ne_nil some
    have other : c ≠ '/' := fun same => noSlash (same ▸ List.mem_cons_self)
    cases rest <;> simpa using other

/-- A path that is spelled is absolute if its root is. -/
theorem root_spell_eq_nil_iff (h : ∀ part ∈ parts, IsComponent part) (cs : List Char) :
    root (spell (root cs) parts).toList = [] ↔ root cs = [] := by
  rw [root_eq_nil_iff]
  obtain ⟨dot, none⟩ | text := toList_spell (root cs) parts
  · rw [dot, (List.append_eq_nil_iff.1 none).1]
    decide
  · rw [text]
    obtain ⟨relative, -⟩ | ⟨one | two, -⟩ := root_cases cs
    · simpa [relative] using head?_intercalate h
    · simp [one]
    · simp [two]

/-- The directory of a path has all components of the path but the last one. -/
theorem steps_parent (path : String) : steps (parent path) = (steps path).dropLast := by
  rw [steps, parent, components_spell (isComponent_above _), steps, List.map_dropLast]

end Path

/-- The way to a path starts where the way to its directory does. -/
theorem Place.startOf_parent (path : String) : startOf (Path.parent path) = startOf path := by
  have same := Path.root_spell_eq_nil_iff (Path.isComponent_above path.toList) path.toList
  rw [startOf, startOf, Path.parent]
  by_cases relative : Path.root path.toList = []
  · rw [same.2 relative, relative]
  · rw [bne_iff_ne.2 (mt same.1 relative), bne_iff_ne.2 relative]

end AmbientDecl
