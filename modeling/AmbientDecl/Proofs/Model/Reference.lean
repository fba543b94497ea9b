/- # What a reference means

Inside the class named `base` a text means the class that goes by it as a local name in the
nearest of the surroundings, or else the class of that full name (`meaning?`).

A reference leaves out what the full name shares with `base`, and looks at these two names only.
On the way out from `base` the text that is left may meet the name of another class before it
meets the full name it was made from (`nearer?`).  So a reference means the class it was made for
just when no other class is met (`reference_means_iff`).  Before that, the full name itself may be
taken for a local name of another class (`standsFor`).
-/

import AmbientDecl.Proofs.Dotted
import AmbientDecl.Proofs.Model.Quiet
import AmbientDecl.Proofs.Model.WellTyped
import Mathlib.Data.List.TakeWhile

namespace AmbientDecl

namespace Dotted

theorem ne_nil_of_mem_leadingRuns {α : Type} {run xs : List α} (h : run ∈ leadingRuns xs) :
    run ≠ [] := by
  cases xs with
  | nil => exact absurd h List.not_mem_nil
  | cons x rest =>
    rw [leadingRuns, List.mem_append, List.mem_map, List.mem_singleton] at h
    rcases h with ⟨run', -, rfl⟩ | rfl
    · simp
    · simp

/-- One more segment is joined by a dot. -/
theorem join_concat {run : List String} (nonempty : run ≠ []) (name : String) :
    join (run ++ [name]) = join run ++ "." ++ name := by
  rw [join_append nonempty (List.cons_ne_nil name []), join, join, String.intercalate_singleton]

end Dotted

namespace Model

variable {m : Model} {id own : ClassId} {text name base : String}

theorem ne_nil_of_mem_surroundings {run : List String} (h : run ∈ surroundings base) :
    run ≠ [] := by
  unfold surroundings at h
  split at h
  · exact absurd h List.not_mem_nil
  · exact Dotted.ne_nil_of_mem_leadingRuns h

/-- A name continues a run by a text just when the text as one more segment gives the name. -/
theorem afterRun?_eq_some_iff {run : List String} (nonempty : run ≠ []) :
    afterRun? name run = some text ↔ Dotted.join (run ++ [text]) = name := by
  rw [Dotted.join_concat nonempty, afterRun?, Option.map_eq_some_iff]
  constructor
  · rintro ⟨rest, after, rfl⟩
    rw [Text.afterLead?_eq_some_iff] at after
    apply String.toList_inj.1
    simp [after]
  · rintro rfl
    refine ⟨text.toList, Text.afterLead?_eq_some_iff.2 (by simp), by simp⟩

/-- The class that a text means inside `base`. -/
def meaning? (m : Model) (text base : String) : Except ShapeFault (Option ClassId) := do
  match ← m.nearby? text base with
  | some id => return some id
  | none => m.find? text

/-- The class that the full name of a class stands for inside `base`. -/
def standsFor (m : Model) (id : ClassId) (base : String) : Except ShapeFault ClassId :=
  if !m.settings.builtInTypes.contains (m.fullName id) && isCapitalised (m.fullName id) then
    (m.nearby? (m.fullName id) base).map fun found => found.getD id
  else .ok id

/-- The class that goes by a text on the way out from `base`, up to where the text is a local name
for a full name. -/
def nearer? (m : Model) (text fullName base : String) : Except ShapeFault (Option ClassId) :=
  ((surroundings base).takeWhile fun run => Dotted.join (run ++ [text]) ≠ fullName).findSomeM?
    fun run => m.find? (Dotted.join (run ++ [text]))

/-- The local name of a name is the name itself, or a local name for it in one of the
surroundings. -/
theorem localName_cases (settings : Settings) (name base : String) :
    localName settings name base = name ∨
      ∃ run ∈ surroundings base, Dotted.join (run ++ [localName settings name base]) = name := by
  unfold localName shortened
  dsimp only
  split
  · exact .inl rfl
  · cases left : (surroundings base).findSome? (afterRun? name) with
    | none => exact .inl rfl
    | some text =>
      obtain ⟨run, mem, after⟩ := List.exists_of_findSome?_eq_some left
      have nonempty := ne_nil_of_mem_surroundings mem
      exact .inr ⟨run, mem, (afterRun?_eq_some_iff nonempty).1 after⟩

/-- A text made from the full name of a class means the class that is met before the full name, or
else this class. -/
theorem meaning?_eq {fullName : String} (named : m.find? fullName = .ok (some own))
    (made : text = fullName ∨ ∃ run ∈ surroundings base, Dotted.join (run ++ [text]) = fullName) :
    m.meaning? text base =
      (m.nearer? text fullName base).map fun found => some (found.getD own) := by
  let away := fun run : List String => decide (Dotted.join (run ++ [text]) ≠ fullName)
  let look := fun run : List String => m.find? (Dotted.join (run ++ [text]))
  have nearby : m.nearby? text base = m.nearer? text fullName base >>= fun found =>
      found.elim (((surroundings base).dropWhile away).findSomeM? look)
        fun value => .ok (some value) := by
    rw [nearer?, ← findSomeM?_append, List.takeWhile_append_dropWhile]
    rfl
  -- the first of the surroundings that is left, if any, is where the text is a local name
  have left : ((surroundings base).dropWhile away).findSomeM? look = .ok (some own) ∨
      ((surroundings base).dropWhile away).findSomeM? look = .ok none ∧ text = fullName := by
    cases rest : (surroundings base).dropWhile away with
    | nil =>
      refine .inr ⟨rfl, made.resolve_right ?_⟩
      rintro ⟨run, mem, same⟩
      have := List.dropWhile_eq_nil_iff.1 rest run mem
      exact of_decide_eq_true this same
    | cons run more =>
      have stops : away run = false := by
        have first := List.head?_dropWhile_not away (surroundings base)
        rwa [rest] at first
      have same : Dotted.join (run ++ [text]) = fullName := by simpa [away] using stops
      have found : look run = .ok (some own) := by
        rw [← named, ← same]
      refine .inl ?_
      rw [List.findSomeM?, found]
      rfl
  rw [meaning?, nearby]
  cases m.nearer? text fullName base with
  | error fault => rfl
  | ok found =>
    cases found with
    | some other => rfl
    | none =>
      rw [bind_ok, Option.elim_none]
      rcases left with found | ⟨nothing, rfl⟩
      · rw [found]
        rfl
      · rw [nothing]
        exact named

/-- The full name that the full name of a class stands for. -/
theorem fullNameOf_fullName (m : Model) (id : ClassId) (base : String) :
    m.fullNameOf (m.fullName id) base = (m.standsFor id base).map m.fullName := by
  unfold fullNameOf standsFor
  split
  · cases m.nearby? (m.fullName id) base with
    | error fault => rfl
    | ok found =>
      cases found with
      | none => rfl
      | some other => rfl
  · rfl

/-- The class that a full name stands for is registered. -/
theorem standsFor_lt (registered : id < m.classes.length) (stands : m.standsFor id base = .ok own) :
    own < m.classes.length := by
  unfold standsFor at stands
  split at stands
  · cases near : m.nearby? (m.fullName id) base with
    | error fault =>
      rw [near] at stands
      cases stands
    | ok found =>
      rw [near] at stands
      obtain rfl := Except.ok.inj stands
      cases found with
      | none => exact registered
      | some other =>
        obtain ⟨run, -, found⟩ := exists_mem_of_findSomeM? near
        exact lt_of_found? (found?_of_find? found)
  · exact Except.ok.inj stands ▸ registered

/-- The reference to a class is the one that is fixed for the class that its full name stands for,
or the local name of that class. -/
theorem reference_fullName (stands : m.standsFor id base = .ok own) {fixed : Option Json}
    (found : Settings.fixedReference? m.settings.fixedReferences (m.fullName own) = .ok fixed) :
    m.reference (m.fullName id) base =
      .ok (fixed.getD (.str (localName m.settings (m.fullName own) base))) := by
  rw [reference, fullNameOf_fullName, stands, Except.map, bind_ok, found, bind_ok]
  cases fixed with
  | none => rfl
  | some fixed => rfl

/-- **What a reference to a class means.**  Inside `base` the full name of the class stands for the
class itself or for one nearby.  The reference to that one means it, unless another class is met on
the way out from `base` before the full name is, or the configuration fixes the reference.  So the
reference means the class it was made for just when no other class is nearby under the full name
or is met on the way. -/
theorem reference_means_iff (typed : m.settings.WellTyped)
    (named : ∀ id < m.classes.length, m.find? (m.fullName id) = .ok (some id))
    (registered : id < m.classes.length)
    (free : Settings.fixedReference? m.settings.fixedReferences (m.fullName id) = .ok none)
    (base : String) :
    ∃ own text nearer, m.standsFor id base = .ok own ∧
      m.reference (m.fullName id) base = .ok (.str text) ∧
      m.nearer? text (m.fullName own) base = .ok nearer ∧
      (∀ fixed, Settings.fixedReference? m.settings.fixedReferences (m.fullName own) =
        .ok (some fixed) → own ≠ id ∧ fixed = .str text) ∧
      (Settings.fixedReference? m.settings.fixedReferences (m.fullName own) = .ok none →
        m.meaning? text base = .ok (some (nearer.getD own)) ∧
        (m.meaning? text base = .ok (some id) ↔
          nearer = some id ∨ nearer = none ∧ own = id)) := by
  have total : ∀ name, ∃ found, m.find? name = .ok found := exists_find? typed
  obtain ⟨own, stands⟩ : ∃ own, m.standsFor id base = .ok own := by
    obtain ⟨found, near⟩ := exists_nearby? typed (m.fullName id) base
    unfold standsFor
    rw [near]
    split
    · exact ⟨_, rfl⟩
    · exact ⟨_, rfl⟩
  have known := named own (standsFor_lt registered stands)
  obtain ⟨text, refers⟩ := exists_reference typed (m.fullName id) base
  obtain ⟨nearer, met⟩ : ∃ nearer, m.nearer? text (m.fullName own) base = .ok nearer :=
    exists_findSomeM? (fun _ => total _) _
  refine ⟨own, text, nearer, stands, refers, met, fun fixed there => ?_, fun none => ?_⟩
  · refine ⟨fun same => ?_, ?_⟩
    · rw [same, free] at there
      cases there
    · exact Except.ok.inj ((reference_fullName stands there).symm.trans refers)
  · have made : text = localName m.settings (m.fullName own) base :=
      Json.str.inj (Except.ok.inj (refers.symm.trans (reference_fullName stands none)))
    have means : m.meaning? text base = .ok (some (nearer.getD own)) := by
      rw [meaning?_eq known (made ▸ localName_cases m.settings (m.fullName own) base), met]
      rfl
    refine ⟨means, ?_⟩
    rw [means]
    cases nearer with
    | none => simp
    | some other => simp

/-- The classes `A.C`, `A.B.C` and `A.B.X`. -/
def shadowing : Document := .ofFields [
  ("classes", .obj [("A.C", .obj []), ("A.B.C", .obj []), ("A.B.X", .obj [])])]

/-- The model with a class in the way. -/
def shadowed : Model := Build.after (Build.assemble shadowing) (empty .blank)

/-- Inside `A.B.X` the reference to `A.C` means `A.B.C`. -/
theorem reference_shadowed : shadowed.fullName 0 = "A.C" ∧
    shadowed.reference "A.C" "A.B.X" = .ok (.str "C") ∧
    shadowed.meaning? "C" "A.B.X" = .ok (some 1) ∧ shadowed.fullName 1 = "A.B.C" ∧
    shadowed.meaning? "C" "A.B.X" ≠ .ok (some 0) := by
  have name : shadowed.fullName 0 = "A.C" := by decide +kernel
  have typed : shadowed.settings.WellTyped := by decide +kernel
  have named : ∀ id < shadowed.classes.length,
      shadowed.find? (shadowed.fullName id) = .ok (some id) := by
    decide +kernel
  have registered : 0 < shadowed.classes.length := by decide +kernel
  have settings : shadowed.settings = .blank := (Build.ends_assemble_settings rfl shadowing).of_ok
    (Build.run_of_succeeds (by decide +kernel))
  have free : ∀ id, Settings.fixedReference? shadowed.settings.fixedReferences
      (shadowed.fullName id) = .ok none := by
    intro id
    rw [settings]
    rfl
  obtain ⟨own, text, nearer, stands, refers, met, -, means⟩ :=
    reference_means_iff typed named registered (free 0) "A.B.X"
  have own₀ : own = 0 := Except.ok.inj (stands.symm.trans (by decide +kernel))
  subst own₀
  have text₀ : text = localName shadowed.settings (shadowed.fullName 0) "A.B.X" :=
    Json.str.inj (Except.ok.inj (refers.symm.trans (reference_fullName stands (free 0))))
  obtain rfl : text = "C" := text₀.trans (by decide +kernel)
  have other : nearer = some 1 := Except.ok.inj (met.symm.trans (by decide +kernel))
  obtain ⟨meaning, iff⟩ := means (free 0)
  subst other
  refine ⟨name, name ▸ refers, meaning, by decide +kernel, fun same => ?_⟩
  rcases iff.1 same with self | ⟨none, -⟩
  · exact absurd self (by decide)
  · exact absurd none (by decide)

end Model
end AmbientDecl
