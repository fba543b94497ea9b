/- # Faults of shape

What a run stops on when a configuration or a record holds a value of the wrong type.
-/

namespace AmbientDecl

/-- A value of the wrong type. -/
inductive ShapeFault where
  /-- A value without fields stands where a record is read. -/
  | noFields
  /-- A value cannot be used as its place requires. -/
  | unfit
  deriving DecidableEq

namespace ShapeFault

/-- The value of an option, or a fault where there is none. -/
def required {α : Type} (fault : ShapeFault) : Option α → Except ShapeFault α
  | some value => .ok value
  | none => .error fault

@[simp] theorem required_some {α : Type} (fault : ShapeFault) (value : α) :
    required fault (some value) = .ok value := rfl

end ShapeFault
end AmbientDecl
