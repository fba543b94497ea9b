/- # Links without cycles

A resolved class is linked to resolved classes only, and to itself at no distance: the links of a
resolved class lead to classes that were resolved before it (`Settled`).  So the walk to the
ancestors of a resolved class ends at a class without a parent; it meets no class twice, and it has
room for them all (`Settled.lineage`).

This holds of every model that is reached from an assembled one by resolving classes, whether the
calls end well or not, and a document of which declarations are generated has resolved classes
only (`links_acyclic`).
-/

import AmbientDecl.Model.Inheritance
import AmbientDecl.Proofs.Model.Contract
import AmbientDecl.Proofs.Model.Run

namespace AmbientDecl
namespace Model

variable {m m₀ : Model} {id : ClassId}

/-- The ancestors of a class from its parent on, up to a class without a parent. -/
inductive Lineage (m : Model) : ClassId → List ClassId → Prop where
  | root {id : ClassId} (none : (m.classAt id).parent? = none) : Lineage m id []
  | child {id parent : ClassId} {ancestors : List ClassId}
      (some : (m.classAt id).parent? = some parent) (rest : Lineage m parent ancestors) :
      Lineage m id (parent :: ancestors)

/-- The walk to the ancestors of a settled class ends at a class without a parent, as long as the
classes seen and the room left outnumber the classes. -/
theorem Settled.lineage_ancestors (settled : m.Settled id) (room : Nat) {seen : List ClassId}
    (nodup : seen.Nodup) (registered : ∀ k ∈ seen, k < m.classes.length)
    (below : ∀ k ∈ seen, Relation.ReflTransGen m.HasLink k id)
    (space : m.classes.length < seen.length + room) :
    m.Lineage id (m.ancestors room seen id) := by
  induction room generalizing id seen with
  | zero =>
    have subset : seen ⊆ List.range m.classes.length := fun k mem =>
      List.mem_range.2 (registered k mem)
    have bound : seen.length ≤ m.classes.length := by
      simpa using nodup.length_le_of_subset subset
    omega
  | succ room ih =>
    unfold ancestors
    cases child : (m.classAt id).parent? with
    | none => exact .root child
    | some parent =>
      have link : m.HasLink id parent := .inl child
      have settled' := settled.link link
      have fresh : parent ∉ seen := by
        intro mem
        exact settled'.not_transGen (Relation.TransGen.tail' (below parent mem) link)
      have unseen : seen.contains parent = false := by simpa using fresh
      dsimp only
      rw [unseen, if_neg Bool.false_ne_true]
      refine .child child (ih settled' (List.nodup_cons.2 ⟨fresh, nodup⟩) ?_ ?_ ?_)
      · exact List.forall_mem_cons.2 ⟨settled'.resolved.lt, registered⟩
      · exact List.forall_mem_cons.2 ⟨.refl, fun k mem => (below k mem).tail link⟩
      · rw [List.length_cons]
        omega

/-- **The list of the ancestors of a settled class is never cut short.** -/
theorem Settled.lineage (settled : m.Settled id) :
    m.Lineage id (m.ancestors m.classes.length [id] id) := by
  refine settled.lineage_ancestors _ (List.pairwise_singleton _ id) ?_ ?_ ?_
  · exact List.forall_mem_singleton.2 settled.resolved.lt
  · exact List.forall_mem_singleton.2 .refl
  · rw [List.length_singleton]
    omega

/-- What is known of the links of a class. -/
structure SoundlyLinked (m : Model) (id : ClassId) : Prop where
  resolved : m.IsResolved id
  closed : ∀ other, m.HasLink id other → m.IsResolved other
  acyclic : ¬ Relation.TransGen m.HasLink id id
  /-- The members that a class has with those it inherits come from all its ancestors. -/
  inherits : ∃ ancestors, m.Lineage id ancestors ∧ (Build.effectiveMembers id).run m =
    (ancestors.foldlM (Build.inheritFrom id) (m.classAt id).members).run m

theorem Settled.soundlyLinked (settled : m.Settled id) : m.SoundlyLinked id where
  resolved := settled.resolved
  closed _ link := (settled.link link).resolved
  acyclic := settled.not_transGen
  inherits := ⟨_, settled.lineage, rfl⟩

/-- **Links are closed and have no cycles.**  However classes of an assembled model have been
resolved, also by calls that stopped with an error, a resolved class is linked to resolved classes
only, to itself at no distance, and it inherits from all its ancestors up to a class without a
parent.  When declarations have been generated, this holds of all classes. -/
theorem links_acyclic (settings : Settings) (document : Document) :
    (∀ m₀ m : Model, (Build.assemble document).run (empty settings) = .ok () m₀ →
      m₀.Reaches m → ∀ id, m.IsResolved id → m.SoundlyLinked id) ∧
    ∀ (text : String) (m : Model), (Build.generate document).run (empty settings) = .ok text m →
      ∀ id < m.classes.length, m.SoundlyLinked id := by
  constructor
  · intro m₀ m assembled reached id resolved
    have start := (Build.ends_assemble (unlinked_empty settings) document).of_ok assembled
    have consistent := reached.consistent start.consistent
    exact (consistent.settled id resolved).soundlyLinked
  · intro text m generated id registered
    obtain ⟨m₀, -, steady, resolved, -⟩ := (Build.ends_generate settings document).of_ok generated
    exact (steady.consistent.settled id (resolved id registered)).soundlyLinked

/-- The classes `A` and `B` use each other, and `C` extends `A`. -/
def mutualMixins : Document := .ofFields [
  ("classes", .obj [
    ("A", .obj [("uses", .arr [.str "B"])]),
    ("B", .obj [("uses", .arr [.str "A"])]),
    ("C", .obj [("extends", .str "A")])])]

/-- The model of the mutual mixins before any class is resolved. -/
def mutualStart : Model := Build.after (Build.assemble mutualMixins) (empty .blank)

/-- The model after declarations have been generated. -/
def mutualEnd : Model := Build.after (Build.generate mutualMixins) (empty .blank)

/-- Of two classes that use each other one link is left. -/
theorem links_mutualMixins :
    (Build.after (Build.resolve 0) mutualStart).SoundlyLinked 1 ∧
      mutualEnd.SoundlyLinked 2 ∧ mutualEnd.HasLink 2 0 ∧ mutualEnd.HasLink 0 1 ∧
      ¬ mutualEnd.HasLink 1 0 := by
  have assembled : (Build.assemble mutualMixins).run (empty .blank) = .ok () mutualStart :=
    Build.run_of_succeeds (by decide +kernel)
  have registered : 0 < mutualStart.classes.length := by decide +kernel
  have reached : mutualStart.Reaches (Build.after (Build.resolve 0) mutualStart) :=
    .resolve .start registered
  have resolved : (Build.after (Build.resolve 0) mutualStart).IsResolved 1 := by decide +kernel
  obtain ⟨text, generated⟩ : ∃ text, (Build.generate mutualMixins).run (empty .blank) =
      .ok text mutualEnd := Build.exists_of_succeeds (by decide +kernel)
  have registered₂ : 2 < mutualEnd.classes.length := by decide +kernel
  obtain ⟨anywhere, throughout⟩ := links_acyclic .blank mutualMixins
  exact ⟨anywhere _ _ assembled reached 1 resolved,
    throughout text mutualEnd generated 2 registered₂,
    .inl (by decide +kernel), .inr (by decide +kernel), by
      rintro (parent | mixin)
      · exact absurd parent (by decide +kernel)
      · exact absurd mixin (by decide +kernel)⟩

end Model
end AmbientDecl
