/- # Bars and brackets of a text

How many branches a text has that is put together from others.  A text is **enclosed** when in
brackets it neither parts a branch nor leaves a bracket open (`Enclosed`), and it is **closed** when
this is so outside of all brackets as well (`Closed`).  Brackets close what they enclose
(`Enclosed.closed`), so only the bars between closed texts part branches.
-/

import AmbientDecl.TypeExpr.Lowered

namespace AmbientDecl
namespace TypeText

variable {cs ds rest : List Char} {depth : Int} {c : Char}

/-- The number of parts between the bars outside all brackets, from a depth on. -/
def parts (depth : Int) (cs : List Char) : Nat := (split markOf depth cs).length

theorem length_branches (text : String) : (branches text).length = parts 0 text.toList := by
  simp [branches, parts]

@[simp] theorem parts_nil (depth : Int) : parts depth [] = 1 := rfl

/-- A bar outside all brackets parts. -/
theorem parts_bar (cs : List Char) : parts 0 ('|' :: cs) = parts 0 cs + 1 := by
  have bar : markOf '|' = .bar := by decide
  simp [parts, split, bar]

/-- Any other character only changes the depth, and a bar in brackets not even that. -/
theorem parts_cons (h : markOf c ≠ .bar ∨ depth ≠ 0) (cs : List Char) :
    parts depth (c :: cs) = parts ((markOf c).depthAfter depth) cs := by
  have notParting : ¬ (markOf c = .bar ∧ depth = 0) := fun ⟨bar, outside⟩ =>
    h.elim (· bar) (· outside)
  rw [parts, split, if_neg notParting, List.length_modifyHead, parts]

/-- In brackets the text parts nothing and leaves the depth as it was. -/
def Enclosed (cs : List Char) : Prop :=
  ∀ depth rest, 0 < depth → parts depth (cs ++ rest) = parts depth rest

/-- Neither in brackets nor outside of all does the text part anything. -/
def Closed (cs : List Char) : Prop :=
  ∀ depth rest, 0 ≤ depth → parts depth (cs ++ rest) = parts depth rest

theorem Enclosed.append (h : Enclosed cs) (h' : Enclosed ds) : Enclosed (cs ++ ds) := by
  intro depth rest inside
  rw [List.append_assoc, h depth _ inside, h' depth rest inside]

theorem Enclosed.bar : Enclosed ['|'] := by
  intro depth rest inside
  have bar : markOf '|' = .bar := by decide
  rw [List.singleton_append, parts_cons (.inr (by omega)), bar, Mark.depthAfter]

namespace Closed

theorem nil : Closed [] := fun _ _ _ => rfl

theorem append (h : Closed cs) (h' : Closed ds) : Closed (cs ++ ds) := by
  intro depth rest outside
  rw [List.append_assoc, h depth _ outside, h' depth rest outside]

theorem enclosed (h : Closed cs) : Enclosed cs := fun depth rest inside =>
  h depth rest (by omega)

/-- A text without brackets and bars is closed. -/
theorem of_plain (h : ∀ c ∈ cs, markOf c = .plain) : Closed cs := by
  induction cs with
  | nil => exact nil
  | cons c cs ih =>
    obtain ⟨plain, each⟩ := List.forall_mem_cons.1 h
    intro depth rest outside
    rw [List.cons_append, parts_cons (.inl (by simp [plain])), plain, Mark.depthAfter,
      ih each depth rest outside]

end Closed

/-- Brackets close what they enclose. -/
theorem Enclosed.closed {opening closing : Char} (h : Enclosed cs)
    (opens : markOf opening = .opening) (closes : markOf closing = .closing) :
    Closed (opening :: (cs ++ [closing])) := by
  intro depth rest outside
  have first : markOf opening ≠ .bar := by simp [opens]
  have last : markOf closing ≠ .bar := by simp [closes]
  rw [List.cons_append, List.append_assoc, parts_cons (.inl first), opens, Mark.depthAfter,
    h _ _ (by omega), List.singleton_append, parts_cons (.inl last), closes, Mark.depthAfter,
    Int.add_sub_cancel]

end TypeText
end AmbientDecl
