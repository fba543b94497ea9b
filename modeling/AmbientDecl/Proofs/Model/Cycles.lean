/- # Cycles of classes

Classes may extend and use each other in cycles.  In a well-typed model the one thing that stops
a run is a loop of names that an `extends` link closes (`ends_resolveAll_typed`).

* A class that extends itself at some distance stops every run.
* Whether a loop that also takes `uses` links stops a run depends on where it is entered.  A class
  is resolved after the class that it extends, so a run that starts with the parent of an `extends`
  link comes back to the parent while it is being resolved, and stops.  Hence some order stops if
  and only if an `extends` link lies on a loop (`raises_iff`).
* A run that ends well has dropped a mixin on every loop, and has reported it.
-/

import AmbientDecl.Proofs.Model.Run
import AmbientDecl.Proofs.Model.WellTyped

namespace AmbientDecl
namespace Model

open Build

variable {m m' m₀ : Model} {clean : Prop} {id parent k : ClassId} {ids : List ClassId}

/-- A class extends itself at some distance. -/
def ExtendsItself (m : Model) : Prop := ∃ id, Relation.TransGen m.Extends id id

/-- A class extends another one that leads back to it by extending and using classes. -/
def ExtendsOnLoop (m : Model) : Prop :=
  ∃ id parent, m.Extends id parent ∧ Relation.ReflTransGen m.Names parent id

/-- Resolving the classes in the given order stops with a report of cyclic inheritance. -/
def Raises (m : Model) (ids : List ClassId) : Prop :=
  ∃ chain m', (resolveAll ids).run m = .error (.cycle chain) m'

theorem extends_reflTransGen (way : Relation.ReflTransGen m.Extends id parent) :
    Relation.ReflTransGen m.Names id parent :=
  way.lift (fun k => k) fun _ _ => .inl

/-- The error for a loop in a clean run shows an `extends` link on the loop. -/
theorem Loop.extendsOnLoop {error : BuildError} (h : m₀.Loop True error) :
    (∃ chain, error = .cycle chain) ∧ m₀.ExtendsOnLoop := by
  cases h with
  | @intro first rest _ chain closing =>
    refine ⟨⟨_, rfl⟩, ?_⟩
    have last := List.getLast?_eq_some_getLast (List.cons_ne_nil first rest)
    refine ⟨_, first, closing trivial _ last, ?_⟩
    exact List.relationReflTransGen_of_exists_isChain (first :: rest) chain.left_of_append (by simp)

/-- A loop of one relation is a loop of another one that holds of all steps on the loop. -/
theorem transGen_of_loop {R S : ClassId → ClassId → Prop} (loop : Relation.TransGen R k k)
    (onLoop : ∀ a b, Relation.ReflTransGen R k a → R a b → Relation.ReflTransGen R b k → S a b) :
    Relation.TransGen S k k := by
  have upTo : ∀ l, Relation.TransGen R k l → Relation.ReflTransGen R l k →
      Relation.TransGen S k l := by
    intro l way
    induction way with
    | single step => exact fun back => .single (onLoop _ _ .refl step back)
    | tail way step ih =>
      exact fun back => .tail (ih (back.head step)) (onLoop _ _ way.to_reflTransGen step back)
  exact upTo k loop .refl

namespace Steady

/-- When nothing is being resolved, what a resolved class names is resolved. -/
theorem resolved_of_names (h : Steady m₀ True [] m) (resolved : m.IsResolved id)
    (way : Relation.ReflTransGen m₀.Names id k) : m.IsResolved k := by
  induction way with
  | refl => exact resolved
  | tail _ names ih =>
    rcases m.progress_cases _ with new | being | done
    · exact absurd new (h.closed trivial _ ih _ names)
    · exact absurd ((h.resolving _).1 being) List.not_mem_nil
    · exact done

/-- A resolved class is linked to the class that it extends. -/
theorem hasLink_of_extends {stack : List ClassId} (h : Steady m₀ clean stack m)
    (resolved : m.IsResolved id) (extended : m₀.Extends id parent) : m.HasLink id parent := by
  obtain ⟨start, busy, -, linked⟩ := h.consistent.linked id resolved
  refine .inl ?_
  rw [linked.parent, parentOf?_of_outline_eq h.outline]
  exact extended

/-- No resolved class extends itself at some distance. -/
theorem not_extends_itself (h : Steady m₀ True [] m) (resolved : m.IsResolved id) :
    ¬ Relation.TransGen m₀.Extends id id := by
  intro cycle
  refine (h.consistent.settled id resolved).not_transGen ?_
  refine transGen_of_loop cycle fun a b way extended _ => ?_
  exact h.hasLink_of_extends (h.resolved_of_names resolved (extends_reflTransGen way)) extended

/-- On every loop of names through a resolved class a mixin was dropped and reported. -/
theorem exists_dropped (h : Steady m₀ True [] m) (resolved : m.IsResolved id)
    (loop : Relation.TransGen m₀.Names id id) :
    ∃ user mixin, Relation.ReflTransGen m₀.Names id user ∧ mixin ∈ m₀.mixinsOf user ∧
      Relation.ReflTransGen m₀.Names mixin id ∧ ¬ m.HasLink user mixin ∧
        m₀.cyclicMixin user mixin ∈ m.diagnostics := by
  by_contra none
  refine (h.consistent.settled id resolved).not_transGen ?_
  refine transGen_of_loop loop fun user mixin way names back => ?_
  by_contra unlinked
  obtain ⟨start, busy, -, linked⟩ := h.consistent.linked user (h.resolved_of_names resolved way)
  rw [← names_of_outline_eq h.outline] at names
  rcases linked.names_cases names with link | ⟨used, being⟩
  · exact unlinked link
  · have reported := linked.reported mixin used being
    rw [mixinsOf_of_outline_eq h.outline] at used
    rw [cyclicMixin, fullName_of_outline_eq h.outline, fullName_of_outline_eq h.outline] at reported
    exact none ⟨user, mixin, way, used, back, unlinked, reported⟩

end Steady

/-- In a well-typed model a run resolves all of its classes or shows a loop. -/
theorem ends_resolveAll_typed (unlinked : m₀.Unlinked) (typed : m₀.WellTyped)
    (registered : ∀ id ∈ ids, id < m₀.classes.length) :
    Ends (resolveAll ids) m₀ (fun _ m => Steady m₀ True [] m ∧ ∀ id ∈ ids, m.IsResolved id)
      fun error _ => m₀.Loop True error := by
  have start : Steady m₀ True [] m₀ := .of_unlinked unlinked
  refine (ends_resolveAll_steady unlinked start registered).mono ?_ ?_
  · exact fun _ m h => ⟨h.1, h.2.2⟩
  · rintro error m ⟨-, -, loop | ⟨id, stops⟩⟩
    · exact loop
    · exact absurd stops (typed.not_stops id error)

/-- A run that starts with the parent of an `extends` link on a loop does not end well. -/
theorem ends_resolveAll_parent (unlinked : m₀.Unlinked) (registered : parent < m₀.classes.length)
    (rest : List ClassId) :
    Ends (resolveAll (parent :: rest)) m₀
      (fun _ _ => ∀ id, m₀.Extends id parent → ¬ Relation.ReflTransGen m₀.Names parent id)
      fun _ _ => True := by
  have start : Steady m₀ True [] m₀ := .of_unlinked unlinked
  unfold resolveAll
  rw [List.forM, ends_bind]
  refine (ends_resolve_steady unlinked start registered).mono ?_ fun _ _ _ => trivial
  rintro - m₁ ⟨steady, -, resolved, last⟩
  refine ends_of (fun _ _ _ id extended way => ?_) fun _ _ _ => trivial
  exact last (unlinked.unresolved parent) id (steady.resolved_of_names resolved way) extended

theorem not_raises_of_ok (run : (resolveAll ids).run m₀ = .ok () m) : ¬ m₀.Raises ids := by
  rintro ⟨chain, m', run'⟩
  rw [run] at run'
  cases run'

/-- A well-typed run raises, or it ends well. -/
theorem raises_or_ok (unlinked : m₀.Unlinked) (typed : m₀.WellTyped)
    (registered : ∀ id ∈ ids, id < m₀.classes.length) :
    m₀.Raises ids ∨ ∃ m, (resolveAll ids).run m₀ = .ok () m := by
  have ends := ends_resolveAll_typed unlinked typed registered
  cases run : (resolveAll ids).run m₀ with
  | ok value m => exact .inr ⟨m, rfl⟩
  | error error m =>
    obtain ⟨chain, rfl⟩ := (ends.of_error run).extendsOnLoop.1
    exact .inl ⟨chain, m, run⟩

theorem mem_classIds_perm (order : ids.Perm m₀.classIds) :
    id ∈ ids ↔ id < m₀.classes.length :=
  order.mem_iff.trans List.mem_range

/-- A run that raises shows an `extends` link on a loop. -/
theorem Raises.extendsOnLoop (h : m₀.Raises ids) (unlinked : m₀.Unlinked) (typed : m₀.WellTyped)
    (registered : ∀ id ∈ ids, id < m₀.classes.length) : m₀.ExtendsOnLoop := by
  obtain ⟨chain, m, run⟩ := h
  have loop := (ends_resolveAll_typed unlinked typed registered).of_error run
  exact loop.extendsOnLoop.2

/-- A class that extends itself at some distance stops every run over all classes. -/
theorem ExtendsItself.raises (h : m₀.ExtendsItself) (unlinked : m₀.Unlinked)
    (typed : m₀.WellTyped) (order : ids.Perm m₀.classIds) : m₀.Raises ids := by
  obtain ⟨id, cycle⟩ := h
  have registered : ∀ id ∈ ids, id < m₀.classes.length := fun _ => (mem_classIds_perm order).1
  refine (raises_or_ok unlinked typed registered).resolve_right ?_
  rintro ⟨m, run⟩
  obtain ⟨steady, resolved⟩ := (ends_resolveAll_typed unlinked typed registered).of_ok run
  obtain ⟨child, -, extended⟩ := Relation.TransGen.tail'_iff.1 cycle
  exact steady.not_extends_itself (resolved id ((mem_classIds_perm order).2 extended.lt)) cycle

/-- With an `extends` link on a loop, the order that begins with its parent raises. -/
theorem ExtendsOnLoop.exists_raises (h : m₀.ExtendsOnLoop) (unlinked : m₀.Unlinked)
    (typed : m₀.WellTyped) : ∃ ids, ids.Perm m₀.classIds ∧ m₀.Raises ids := by
  obtain ⟨id, parent, extended, way⟩ := h
  have order : (parent :: m₀.classIds.erase parent).Perm m₀.classIds :=
    (List.perm_cons_erase (List.mem_range.2 extended.lt)).symm
  have registered : ∀ k ∈ parent :: m₀.classIds.erase parent, k < m₀.classes.length :=
    fun _ => (mem_classIds_perm order).1
  refine ⟨_, order, (raises_or_ok unlinked typed registered).resolve_right ?_⟩
  rintro ⟨m, run⟩
  exact (ends_resolveAll_parent unlinked extended.lt _).of_ok run id extended way

/-- **When a run stops.**  Take the classes of a document with well-typed records, in any order.

* A run that raises shows an `extends` link on a loop, and nothing else stops a run.
* If a class extends itself at some distance, every order raises.
* Some order raises if and only if an `extends` link lies on a loop.
* So the orders raise exactly when a class extends itself at some distance, for all orders, if and
  only if an `extends` link on a loop is never there without such a class.
* When a run ends well, a mixin was dropped and reported on every loop. -/
theorem raises_iff {settings : Settings} {document : Document}
    (assembled : (assemble document).run (empty settings) = .ok () m₀) (typed : m₀.WellTyped) :
    (∀ ids, ids.Perm m₀.classIds → ∀ error m, (resolveAll ids).run m₀ = .error error m →
      m₀.Raises ids ∧ m₀.ExtendsOnLoop) ∧
    (m₀.ExtendsItself → ∀ ids, ids.Perm m₀.classIds → m₀.Raises ids) ∧
    ((∃ ids, ids.Perm m₀.classIds ∧ m₀.Raises ids) ↔ m₀.ExtendsOnLoop) ∧
    ((∀ ids, ids.Perm m₀.classIds → (m₀.Raises ids ↔ m₀.ExtendsItself)) ↔
      (m₀.ExtendsOnLoop → m₀.ExtendsItself)) ∧
    ∀ ids, ids.Perm m₀.classIds → ∀ m, (resolveAll ids).run m₀ = .ok () m →
      ∀ id, Relation.TransGen m₀.Names id id → ∃ user mixin,
        Relation.ReflTransGen m₀.Names id user ∧ mixin ∈ m₀.mixinsOf user ∧
        Relation.ReflTransGen m₀.Names mixin id ∧ ¬ m.HasLink user mixin ∧
          m₀.cyclicMixin user mixin ∈ m.diagnostics := by
  have unlinked := (ends_assemble (unlinked_empty settings) document).of_ok assembled
  have registered : ∀ {ids : List ClassId}, ids.Perm m₀.classIds →
      ∀ id ∈ ids, id < m₀.classes.length :=
    fun order _ => (mem_classIds_perm order).1
  have shows : ∀ ids, ids.Perm m₀.classIds → m₀.Raises ids → m₀.ExtendsOnLoop :=
    fun ids order raises => raises.extendsOnLoop unlinked typed (registered order)
  refine ⟨?_, fun cycle ids order => cycle.raises unlinked typed order, ⟨?_, ?_⟩,
    ⟨fun claim onLoop => ?_, fun only ids order => ⟨fun raises => ?_, fun cycle => ?_⟩⟩, ?_⟩
  · intro ids order error m run
    have loop := (ends_resolveAll_typed unlinked typed (registered order)).of_error run
    obtain ⟨⟨chain, rfl⟩, onLoop⟩ := loop.extendsOnLoop
    exact ⟨⟨chain, m, run⟩, onLoop⟩
  · rintro ⟨ids, order, raises⟩
    exact shows ids order raises
  · exact fun onLoop => onLoop.exists_raises unlinked typed
  · obtain ⟨ids, order, raises⟩ := onLoop.exists_raises unlinked typed
    exact (claim ids order).1 raises
  · exact only (shows ids order raises)
  · exact cycle.raises unlinked typed order
  · intro ids order m run id loop
    obtain ⟨steady, resolved⟩ :=
      (ends_resolveAll_typed unlinked typed (registered order)).of_ok run
    obtain ⟨last, -, names⟩ := Relation.TransGen.tail'_iff.1 loop
    exact steady.exists_dropped (resolved id ((mem_classIds_perm order).2 names.lt)) loop

/-- The class `A` uses `B`, which extends `A`. -/
def mixedCycle : Document := .ofFields [
  ("classes", .obj [
    ("A", .obj [("uses", .arr [.str "B"])]),
    ("B", .obj [("extends", .str "A")])])]

/-- The model for the mixed cycle before any class is resolved. -/
def mixedStart : Model := after (assemble mixedCycle) (empty .blank)

/-- No class of the mixed cycle extends itself, but a run that starts with `A` stops. -/
theorem raises_mixedCycle : ¬ mixedStart.ExtendsItself ∧ mixedStart.Raises [0, 1] ∧
    ¬ mixedStart.Raises [1, 0] ∧ ∃ ids, ids.Perm mixedStart.classIds ∧ mixedStart.Raises ids := by
  have assembled : (assemble mixedCycle).run (empty .blank) = .ok () mixedStart :=
    run_of_succeeds (by decide +kernel)
  have typed : mixedStart.WellTyped := ⟨by decide +kernel, by decide +kernel⟩
  have parents : mixedStart.parentOf? 0 = none ∧ mixedStart.parentOf? 1 = some 0 := by
    decide +kernel
  have uses : 1 ∈ mixedStart.mixinsOf 0 := by decide +kernel
  have onLoop : mixedStart.ExtendsOnLoop := ⟨1, 0, parents.2, .single (.inr uses)⟩
  refine ⟨?_, ⟨["A", "B", "A"], _, rfl⟩, not_raises_of_ok rfl, ?_⟩
  · rintro ⟨id, cycle⟩
    obtain ⟨child, -, last⟩ := Relation.TransGen.tail'_iff.1 cycle
    obtain ⟨parent, first, -⟩ := Relation.TransGen.head'_iff.1 cycle
    -- the only parent is `A`, and `A` extends no class
    have only : ∀ k p, mixedStart.parentOf? k = some p → p = 0 := by
      rintro (_ | _ | k) p extended
      · exact absurd (parents.1.symm.trans extended) (by simp)
      · exact (Option.some.inj (parents.2.symm.trans extended)).symm
      · exact nomatch extended
    rw [only child id last] at first
    exact absurd (parents.1.symm.trans first) (by simp)
  · exact (raises_iff assembled typed).2.2.1.2 onLoop

end Model
end AmbientDecl
