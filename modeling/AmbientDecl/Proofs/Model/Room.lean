/- # More room changes nothing

The room of the resolver bounds its recursion.  With more of it a call does the same, unless the
room was used up, which shows as a class that is found abandoned
(`agrees_resolveWithin`).  So a call that finds no class abandoned ends as it would with any
larger bound: the bound plays no part in what it does.

The recursive calls are the only use of the room, so this is one induction on it.  Actions that
are put together of others agree when the parts do (`Agrees`).
-/

import AmbientDecl.Model.Resolution
import AmbientDecl.Proofs.Action.Ends

namespace AmbientDecl
namespace Build

variable {α β : Type} {stack : List ClassId} {id : ClassId}

/-- `action'` does what `action` does wherever that finds no class abandoned. -/
def Agrees (action' action : Build α) : Prop :=
  ∀ m, Ends action m (fun value m' => action'.run m = .ok value m')
    fun error m' => error ≠ .abandonedClass → action'.run m = .error error m'

namespace Agrees

theorem refl (action : Build α) : Agrees action action :=
  fun _ => ends_of (fun _ _ run => run) fun _ _ run _ => run

theorem abandoned (action : Build α) : Agrees action (throw .abandonedClass) :=
  fun _ named => absurd rfl named

theorem bind {action action' : Build β} {next next' : β → Build α} (h : Agrees action' action)
    (h' : ∀ value, Agrees (next' value) (next value)) :
    Agrees (action' >>= next') (action >>= next) := by
  intro m
  rw [ends_bind]
  refine (h m).mono (fun value m₁ run => ?_) fun error m₁ run named => ?_
  · rw [EStateM.run_bind, run]
    exact h' value m₁
  · rw [EStateM.run_bind, run named]

theorem forM {action action' : β → Build PUnit} (h : ∀ x, Agrees (action' x) (action x))
    (xs : List β) : Agrees (xs.forM action') (xs.forM action) := by
  induction xs with
  | nil => exact .refl _
  | cons x rest ih => exact (h x).bind fun _ => ih

/-- A handler that passes on that a class is abandoned is no obstacle. -/
theorem tryCatch {action action' : Build α} {handle : BuildError → Build α}
    (h : Agrees action' action)
    (passes : ∀ m, (handle .abandonedClass).run m = .error .abandonedClass m) :
    Agrees (tryCatch action' handle) (tryCatch action handle) := by
  intro m
  rw [ends_tryCatch]
  refine (h m).mono (fun value m₁ run => ?_) fun error m₁ run => ?_
  · rw [run_tryCatch, run]
  · by_cases same : error = .abandonedClass
    · subst same
      exact ends_of (fun _ _ handled => by rw [passes] at handled; cases handled)
        fun _ _ handled named => by rw [passes] at handled; cases handled; exact absurd rfl named
    · rw [run_tryCatch, run same]
      exact refl (handle error) m₁

end Agrees

theorem agrees_resolveNew {body body' : Build Unit} (h : Agrees body' body) :
    Agrees (resolveNew id body') (resolveNew id body) := by
  unfold resolveNew
  exact .bind (.refl _) fun _ => .bind (.tryCatch h fun _ => rfl) fun _ => .refl _

theorem agrees_reach {whenNew whenNew' : Build Unit} (h : Agrees whenNew' whenNew) :
    Agrees (reach stack id whenNew') (reach stack id whenNew) := by
  refine .bind (.refl _) fun m => ?_
  cases (m.classAt id).progress with
  | unresolved => exact h
  | resolving => exact .refl _
  | resolved => exact .refl _

theorem agrees_link {enter enter' : ClassId → Build Unit}
    (h : ∀ k, Agrees (enter' k) (enter k)) : Agrees (link id enter') (link id enter) := by
  refine .bind (.refl _) fun m => .bind (.refl _) fun _ => ?_
  have rest : Agrees
      (do
        (← orFault .unfit (m.classAt id).record.usedNames?).forM (linkMixin id)
        (((← get).classAt id).implemented.filterMap TypeRef.target?).forM fun mixin =>
          mergeMixin id mixin enter')
      (do
        (← orFault .unfit (m.classAt id).record.usedNames?).forM (linkMixin id)
        (((← get).classAt id).implemented.filterMap TypeRef.target?).forM fun mixin =>
          mergeMixin id mixin enter) := by
    refine .bind (.refl _) fun names => .bind (.refl _) fun _ => .bind (.refl _) fun m₁ => ?_
    exact .forM (fun mixin => (h mixin).bind fun _ => .refl _) _
  dsimp only
  cases (m.classAt id).record.parentName? with
  | none => exact rest
  | some parentName =>
    refine Agrees.bind (.bind (.refl _) fun m₁ => .bind (.refl _) fun found => ?_) fun _ => rest
    cases found with
    | none => exact .refl _
    | some parent => exact (h parent).bind fun _ => .refl _

/-- **A call with more room does the same**, unless the room was used up. -/
theorem agrees_resolveWithin {room room' : Nat} (more : room ≤ room') :
    Agrees (resolveWithin room' stack id) (resolveWithin room stack id) := by
  induction room generalizing room' stack id with
  | zero =>
    cases room' with
    | zero => exact .refl _
    | succ room' => exact agrees_reach (.abandoned _)
  | succ room ih =>
    obtain ⟨room', rfl⟩ := Nat.exists_eq_add_of_lt (Nat.lt_of_succ_le more)
    refine agrees_reach (agrees_resolveNew (agrees_link fun k => ih ?_))
    omega

end Build
end AmbientDecl
