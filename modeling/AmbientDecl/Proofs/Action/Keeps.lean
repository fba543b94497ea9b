/- # Actions that keep to a relation

An action **keeps to** a relation between models when it leads from every model to one that the
relation holds of, whether it ends with a value or with an error.  For a reflexive and transitive
relation this is closed under the ways in which actions are put together, so that for a relation of
this kind it is enough to look at the single changes of the model.
-/

import AmbientDecl.Proofs.Action.Ends
import Mathlib.Order.Defs.Unbundled

namespace AmbientDecl
namespace Build

variable {R : Model → Model → Prop} {α β : Type}

/-- The action leads from every model to one that is related to it, however it ends. -/
def Keeps (R : Model → Model → Prop) (action : Build α) : Prop :=
  ∀ m, Ends action m (fun _ m' => R m m') fun _ m' => R m m'

namespace Keeps

theorem after {action : Build α} (h : Keeps R action) (m : Model) : R m (Build.after action m) :=
  (h m).after (fun _ _ related => related) fun _ _ related => related

theorem mono {S : Model → Model → Prop} {action : Build α} (h : Keeps R action)
    (weaker : ∀ m m', R m m' → S m m') : Keeps S action :=
  fun m => (h m).mono (fun _ _ => weaker m _) fun _ _ => weaker m _

/-- An action may look at the model. -/
theorem getting {next : Model → Build α} (h : ∀ m, Keeps R (next m)) : Keeps R (get >>= next) :=
  fun m => h m m

variable [IsPreorder Model R]

theorem pure (value : α) : Keeps R (pure value : Build α) := fun m => refl_of R m

theorem throw (error : BuildError) : Keeps R (throw error : Build α) := fun m => refl_of R m

theorem of_reading (reading : Except ShapeFault α) : Keeps R (ofReading reading) := by
  cases reading with
  | ok value => exact pure value
  | error fault => exact throw (.shape fault)

theorem orFault (fault : ShapeFault) (value? : Option α) : Keeps R (orFault fault value?) := by
  cases value? with
  | some value => exact pure value
  | none => exact throw (.shape fault)

/-- What an action leads to may be the start of another one. -/
theorem ends_bind_of {action : Build β} {next : β → Build α} {m : Model}
    (h : Ends action m (fun value m' => R m m' ∧ Ends (next value) m' (fun _ m'' => R m' m'')
      fun _ m'' => R m' m'') fun _ m' => R m m') :
    Ends (action >>= next) m (fun _ m' => R m m') fun _ m' => R m m' := by
  rw [ends_bind]
  refine h.mono (fun value m' ⟨first, second⟩ => ?_) fun _ _ first => first
  exact second.mono (fun _ _ => trans_of R first) fun _ _ => trans_of R first

theorem bind {action : Build β} {next : β → Build α} (h : Keeps R action)
    (h' : ∀ value, Keeps R (next value)) : Keeps R (action >>= next) :=
  fun m => ends_bind_of ((h m).mono (fun value m' first => ⟨first, h' value m'⟩)
    fun _ _ first => first)

theorem forM {action : β → Build PUnit} (h : ∀ x, Keeps R (action x)) (xs : List β) :
    Keeps R (xs.forM action) := by
  induction xs with
  | nil => exact pure _
  | cons x rest ih => exact (h x).bind fun _ => ih

theorem foldlM {action : α → β → Build α} (h : ∀ value x, Keeps R (action value x)) (value : α)
    (xs : List β) : Keeps R (xs.foldlM action value) := by
  induction xs generalizing value with
  | nil => exact pure value
  | cons x rest ih =>
    rw [List.foldlM_cons]
    exact (h value x).bind ih

theorem map {action : Build β} (f : β → α) (h : Keeps R action) : Keeps R (f <$> action) := by
  rw [map_eq_pure_bind]
  exact h.bind fun value => pure (f value)

theorem tryCatch {action : Build α} {handle : BuildError → Build α} (h : Keeps R action)
    (h' : ∀ error, Keeps R (handle error)) : Keeps R (tryCatch action handle) := by
  intro m
  rw [ends_tryCatch]
  refine (h m).mono (fun _ _ first => first) fun error m' first => ?_
  exact (h' error m').mono (fun _ _ => trans_of R first) fun _ _ => trans_of R first

end Keeps
end Build
end AmbientDecl
