/- # Hearing of types

What lowering a type does to a model depends on its text alone: the text is **heard**, and if it is
unreadable and has not been reported before, then it is reported (`Model.hear`).  A text that has
been heard can be heard again without a trace (`Model.Heard.hear_eq`), and an action that recalls
what has been reported keeps texts heard (`Model.Heard.of_recalls`).
-/

import AmbientDecl.Model.Members
import AmbientDecl.Proofs.Action.Keeps

namespace AmbientDecl
namespace Model

/-- The model after an unreadable text: what has not been reported is reported. -/
def refuse (m : Model) (error : TypeExpr.SyntaxError) (subject : String) : Model :=
  if error.text ∈ m.reported then m
  else { m with
    reported := m.reported ++ [error.text]
    log := m.log ++ [.warning ⟨Diagnostic.unparseableType, "Can't parse type annotation; type=" ++
      Text.quoted error.text ++ ", error=" ++ error.message, subject⟩] }

/-- The model after a text has been lowered. -/
def hear (m : Model) (text subject : String) : Model :=
  match WrittenType.ofText text with
  | .unreadable error => m.refuse error subject
  | _ => m

/-- A text has been reported as a type if it is unreadable. -/
def Heard (m : Model) (text : String) : Prop :=
  ∀ error, WrittenType.ofText text = .unreadable error → error.text ∈ m.reported

/-- The settings stay, and so does what has been reported. -/
structure Recalls (m m' : Model) : Prop where
  settings : m'.settings = m.settings
  reported : m.reported ⊆ m'.reported

variable {m m' m'' : Model} {text : String}

theorem Recalls.refl (m : Model) : m.Recalls m := ⟨rfl, List.Subset.refl _⟩

theorem Recalls.trans (h : m.Recalls m') (h' : m'.Recalls m'') : m.Recalls m'' :=
  ⟨h'.settings.trans h.settings, List.Subset.trans h.reported h'.reported⟩

theorem Heard.of_recalls (h : m.Heard text) (recalls : m.Recalls m') : m'.Heard text :=
  fun error unreadable => recalls.reported (h error unreadable)

/-- What has been heard is not reported again. -/
theorem Heard.hear_eq (h : m.Heard text) (subject : String) : m.hear text subject = m := by
  unfold hear
  split
  next error unreadable => rw [refuse, if_pos (h error unreadable)]
  next => rfl

theorem heard_hear (m : Model) (text subject : String) : (m.hear text subject).Heard text := by
  intro error unreadable
  rw [hear, unreadable]
  dsimp only [refuse]
  split
  · assumption
  · exact List.mem_append_right _ List.mem_cons_self

theorem recalls_hear (m : Model) (text subject : String) : m.Recalls (m.hear text subject) := by
  unfold hear
  split
  · unfold refuse
    split
    · exact .refl m
    · exact ⟨rfl, List.subset_append_left _ _⟩
  · exact .refl m

theorem classes_hear (m : Model) (text subject : String) :
    (m.hear text subject).classes = m.classes := by
  unfold hear
  split
  · unfold refuse
    split <;> rfl
  · rfl

end Model

namespace Build

theorem run_reportUnreadable (error : TypeExpr.SyntaxError) (subject : String) (m : Model) :
    (reportUnreadable error subject).run m = .ok () (m.refuse error subject) := by
  unfold reportUnreadable Model.refuse
  rw [EStateM.run_bind, EStateM.run_get]
  by_cases old : error.text ∈ m.reported
  · simp [old]
  · simp only [List.contains_eq_mem, old, decide_false, Bool.false_eq_true, if_false]
    rfl

/-- **What a text is lowered to depends on the text and the naming alone,** and so does what the
model hears. -/
theorem run_lowerWith_eq (naming : TypeExpr.Naming) (text subject : String) (m : Model) :
    (lowerWith naming text subject).run m =
      (ofReading ((WrittenType.ofText text).lower naming)).run (m.hear text subject) := by
  unfold lowerWith Model.hear
  cases WrittenType.ofText text with
  | absent => rfl
  | expression e => rfl
  | shape interior => rfl
  | unreadable error =>
    dsimp only
    rw [EStateM.run_bind, run_reportUnreadable]

theorem run_lowerType (text base : String) (m : Model) :
    (lowerType text base).run m =
      (ofReading ((WrittenType.ofText text).lower (m.naming base))).run (m.hear text base) :=
  run_lowerWith_eq (m.naming base) text base m

end Build
end AmbientDecl
