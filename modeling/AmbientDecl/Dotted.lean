/- # Dotted names

A dotted name is a sequence of segments with a dot between any two.  Segments may be empty: `A.`
has the segments `A` and the empty text, and the empty name has one empty segment.  A segment
holds no dot, so joining the segments of a name gives the name back.
-/

namespace AmbientDecl
namespace Dotted

/-- The segments of a name. -/
def segments (name : String) : List String :=
  (name.toList.splitOn '.').map String.ofList

/-- The name with the given segments. -/
def join (segments : List String) : String :=
  ".".intercalate segments

theorem join_segments (name : String) : join (segments name) = name := by
  apply String.toList_inj.1
  simp [join, segments, String.toList_intercalate, Function.comp_def, List.intercalate_splitOn]

theorem segments_ne_nil (name : String) : segments name ≠ [] := by
  simp [segments]

/-- No piece between separators holds a separator. -/
theorem not_mem_piece {separator : Char} {cs piece : List Char}
    (h : piece ∈ cs.splitOn separator) : separator ∉ piece := by
  induction cs generalizing piece with
  | nil =>
    rw [List.splitOn_nil, List.mem_singleton] at h
    simp [h]
  | cons c cs ih =>
    obtain ⟨first, rest, split⟩ := List.exists_cons_of_ne_nil (List.splitOn_ne_nil separator cs)
    rw [List.splitOn_cons_eq_if_modifyHead, split] at h
    by_cases separates : c = separator
    · rw [if_pos (by simp [separates]), List.mem_cons, ← split] at h
      exact h.elim (fun empty => by simp [empty]) ih
    · rw [if_neg (by simp [separates]), List.modifyHead_cons, List.mem_cons] at h
      rcases h with rfl | mem
      · have head : separator ∉ first := ih (by simp [split])
        exact fun mem => (List.mem_cons.1 mem).elim (fun same => separates same.symm) head
      · exact ih (by simp [split, mem])

theorem dot_not_mem_segment {segment name : String} (h : segment ∈ segments name) :
    '.' ∉ segment.toList := by
  obtain ⟨piece, mem, rfl⟩ := List.mem_map.1 h
  rw [String.toList_ofList]
  exact not_mem_piece mem

/-- Texts without a dot are the segments of the name that they are joined to. -/
theorem segments_join {texts : List String} (nonempty : texts ≠ [])
    (undotted : ∀ text ∈ texts, '.' ∉ text.toList) : segments (join texts) = texts := by
  have pieces : ∀ cs ∈ texts.map String.toList, '.' ∉ cs := List.forall_mem_map.2 undotted
  have dot : ".".toList = ['.'] := rfl
  rw [segments, join, String.toList_intercalate, dot,
    List.splitOn_intercalate '.' pieces (by simpa using nonempty), List.map_map]
  simp [Function.comp_def]

/-- The leading runs of a list, the longest first and the empty one left out. -/
def leadingRuns {α : Type} : List α → List (List α)
  | [] => []
  | x :: xs => (leadingRuns xs).map (x :: ·) ++ [[x]]

/-- The segments before the last one. -/
def owner (name : String) : String :=
  join (segments name).dropLast

/-- The last segment. -/
def simpleName (name : String) : String :=
  (segments name).getLast (segments_ne_nil name)

/-- Whether a name continues `lead` after a dot. -/
def continues (name lead : String) : Bool :=
  (lead ++ ".").toList.isPrefixOf name.toList

/-- Whether a name is `lead` or continues it after a dot. -/
def isUnder (name lead : String) : Bool :=
  name == lead || continues name lead

end Dotted
end AmbientDecl
