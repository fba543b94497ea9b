/- # Names that continue a name

A name is another one or continues it after a dot just when the segments of the other one are a
leading run of its own (`Dotted.isUnder_iff`).  So the paths of namespaces can be compared as
texts: a path leads to a namespace above another one, or to the same, when it is empty or the other
one is under it as a name (`Forest.path_isPrefix_iff`).
-/

import AmbientDecl.Namespaces

namespace AmbientDecl

namespace Dotted

variable {name lead : String}

theorem continues_iff : continues name lead = true ↔ ∃ rest, name = lead ++ "." ++ rest := by
  rw [continues, List.isPrefixOf_iff_prefix]
  constructor
  · rintro ⟨rest, same⟩
    refine ⟨String.ofList rest, String.toList_inj.1 ?_⟩
    rw [String.toList_append, String.toList_ofList, same]
  · rintro ⟨rest, rfl⟩
    exact ⟨rest.toList, by simp⟩

/-- A dot joins what is joined before it and after it. -/
theorem join_append {run more : List String} (some : run ≠ []) (some' : more ≠ []) :
    join (run ++ more) = join run ++ "." ++ join more :=
  String.intercalate_append_of_ne_nil some some'

/-- The segments of two names with a dot between them. -/
theorem segments_append (lead rest : String) :
    segments (lead ++ "." ++ rest) = segments lead ++ segments rest := by
  have joined : lead ++ "." ++ rest = join (segments lead ++ segments rest) := by
    rw [join_append (segments_ne_nil lead) (segments_ne_nil rest), join_segments, join_segments]
  have undotted : ∀ text ∈ segments lead ++ segments rest, '.' ∉ text.toList := by
    intro text mem
    rcases List.mem_append.1 mem with mem | mem
    · exact dot_not_mem_segment mem
    · exact dot_not_mem_segment mem
  rw [joined, segments_join (by simp [segments_ne_nil]) undotted]

theorem segments_injective : Function.Injective segments := by
  intro name other same
  rw [← join_segments name, same, join_segments]

/-- **A name is under another one** when the segments of the other one are a leading run of its
own. -/
theorem isUnder_iff : isUnder name lead = true ↔ segments lead <+: segments name := by
  rw [isUnder, Bool.or_eq_true, beq_iff_eq, continues_iff]
  constructor
  · rintro (rfl | ⟨rest, rfl⟩)
    · exact List.prefix_rfl
    · rw [segments_append]
      exact List.prefix_append ..
  · rintro ⟨rest, same⟩
    by_cases last : rest = []
    · left
      rw [last, List.append_nil] at same
      exact segments_injective same.symm
    · right
      refine ⟨join rest, ?_⟩
      rw [← join_segments name, ← same, join_append (segments_ne_nil lead) last, join_segments]

end Dotted

namespace Forest

variable {name lead : String}

theorem path_eq_nil_iff : path name = [] ↔ name = "" := by
  unfold path
  split
  · simp [*]
  · simp [*, Dotted.segments_ne_nil]

theorem path_injective : Function.Injective path := by
  intro name other same
  by_cases root : other = ""
  · rw [root, path_eq_nil_iff.2 rfl, path_eq_nil_iff] at same
    rw [same, root]
  · have root' : name ≠ "" := fun h => root (path_eq_nil_iff.1 (same ▸ path_eq_nil_iff.2 h))
    rw [path, path, if_neg root, if_neg root'] at same
    exact Dotted.segments_injective same

/-- **A path above another one,** by their names. -/
theorem path_isPrefix_iff : path lead <+: path name ↔ lead = "" ∨ Dotted.isUnder name lead := by
  by_cases root : lead = ""
  · simp [root, path]
  by_cases root' : name = ""
  · have other : ¬ Dotted.segments lead <+: [] := by simp [Dotted.segments_ne_nil]
    have under : ¬ Dotted.isUnder "" lead = true := by
      simp [Dotted.isUnder, Dotted.continues, Ne.symm root]
    simp [path, root, root', other, under]
  · rw [path, path, if_neg root, if_neg root', ← Dotted.isUnder_iff]
    simp [root]

end Forest
end AmbientDecl
