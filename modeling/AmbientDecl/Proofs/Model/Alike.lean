/- # Models that differ in the order of their reports

Two models are **alike** when they have the same settings, the same tree and the same classes, when
the same unreadable types have been reported, in any order, and when their diagnostics have the same
codes, in any order.

A heedless action sees no more of the reports than which types were reported before.  So it is
**blind** to the order: in models that are alike it ends in the same way, and with models that are
alike (`Heedless.blind`).
-/

import AmbientDecl.Proofs.Model.Heedless

namespace AmbientDecl
namespace Model

variable {m m' m'' s s' : Model} {texts : List String}

/-- Two models have the same content, and the same reports up to their order and their texts. -/
structure Alike (m m' : Model) : Prop where
  settings : m'.settings = m.settings
  tree : m'.tree = m.tree
  classes : m'.classes = m.classes
  reported : m.reported.Perm m'.reported
  codes : m.codes.Perm m'.codes

theorem Alike.refl (m : Model) : m.Alike m := ⟨rfl, rfl, rfl, .refl _, .refl _⟩

theorem Alike.symm (h : m.Alike m') : m'.Alike m :=
  ⟨h.settings.symm, h.tree.symm, h.classes.symm, h.reported.symm, h.codes.symm⟩

theorem Alike.trans (h : m.Alike m') (h' : m'.Alike m'') : m.Alike m'' :=
  ⟨h'.settings.trans h.settings, h'.tree.trans h.tree, h'.classes.trans h.classes,
    h.reported.trans h'.reported, h.codes.trans h'.codes⟩

/-- Models that are alike differ in their reports. -/
theorem Alike.eq (h : m.Alike m') : m' = { m with reported := m'.reported, log := m'.log } := by
  rw [← h.settings, ← h.tree, ← h.classes]

theorem Alike.outline (h : m.Alike m') : m'.outline = m.outline := by
  rw [h.eq]
  rfl

theorem Alike.classAt (h : m.Alike m') (id : ClassId) : m'.classAt id = m.classAt id := by
  rw [h.eq]
  rfl

end Model

namespace Build

open Model

variable {α : Type}

/-- Two runs end with the same value or with the same error, and with models that are alike. -/
inductive EndsAlike : EStateM.Result BuildError Model α → EStateM.Result BuildError Model α → Prop
  | ok {value : α} {m m' : Model} (alike : m.Alike m') : EndsAlike (.ok value m) (.ok value m')
  | error {error : BuildError} {m m' : Model} (alike : m.Alike m') :
      EndsAlike (.error error m) (.error error m')

/-- An action that ends alike in models that are alike. -/
def Blind (action : Build α) : Prop :=
  ∀ m m', m.Alike m' → EndsAlike (action.run m) (action.run m')

/-- Models that are alike stay so when their content changes in the same way. -/
theorem overlooks_alike : Overlooks Alike where
  eq := Alike.eq
  content alike c settings := ⟨rfl, rfl, rfl, alike.reported, alike.codes⟩
  note alike entry := by
    refine ⟨alike.settings, alike.tree, alike.classes, alike.reported, ?_⟩
    rw [codes_log, codes_log]
    exact alike.codes.append_right _
  refuse {m m'} alike error subject := by
    unfold refuse
    simp only [alike.reported.mem_iff]
    split
    · exact alike
    · refine ⟨alike.settings, alike.tree, alike.classes, alike.reported.append_right _, ?_⟩
      have first := codes_log { m with reported := m.reported ++ [error.text] }
      have second := codes_log { m' with reported := m'.reported ++ [error.text] }
      dsimp only at first second
      rw [first, second]
      exact alike.codes.append_right _

/-- A heedless action is blind to the order of the reports. -/
theorem Heedless.blind {action : Build α} (h : Heedless action) : Blind action := by
  intro m m' alike
  have ends := h.endsBy overlooks_alike alike
  generalize action.run m = r at ends
  generalize action.run m' = r' at ends
  cases ends with
  | ok alike' => exact .ok alike'
  | error alike' => exact .error alike'

end Build
end AmbientDecl
