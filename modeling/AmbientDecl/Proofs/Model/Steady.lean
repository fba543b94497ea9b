/- # The stack of classes that are being resolved

The classes that are being resolved are those on the stack.  Each one names the next one, and no
class is on it twice, so it never holds more classes than there are (`Steady`).  Hence a class that
is reached again while it is being resolved closes a loop of names, and the error says which one
(`Loop`); apart from that only a lookup, a value of the wrong type or a member that cannot be
copied stops a class from being resolved (`ends_resolveWithin_steady`).

A run is **clean** while no call in it has failed.  In a clean run the classes whose linking has not
begun are as they were at the start, and the link that closes a loop is one from a class to the
class that it extends.
-/

import AmbientDecl.Proofs.Model.Assembled
import Mathlib.Data.List.Chain

namespace AmbientDecl
namespace Model

variable {m m' m₀ : Model} {clean : Prop} {stack : List ClassId} {own id other : ClassId}

/-- Along a chain every element reaches the last one. -/
theorem reaches_last {R : ClassId → ClassId → Prop} (chain : (stack ++ [id]).IsChain R)
    (mem : other ∈ stack ++ [id]) : Relation.ReflTransGen R other id := by
  obtain ⟨before, rest, split⟩ := List.append_of_mem mem
  rw [split] at chain
  have way := List.relationReflTransGen_of_exists_isChain (other :: rest) chain.right_of_append
    (by simp)
  have last : (other :: rest).getLast (by simp) = id := by
    have same := congrArg List.getLast? split
    rw [List.getLast?_concat, List.getLast?_append_of_ne_nil _ (by simp),
      List.getLast?_eq_some_getLast (by simp)] at same
    exact (Option.some.inj same).symm
  rwa [last] at way

/-- A class was as in `m₀` when its linking began, and the mixins that were being resolved lead
to it by their names. -/
def runOrigin (m₀ : Model) (clean : Prop) : Origin := fun id start busy =>
  (clean → start = { m₀.classAt id with progress := .resolving }) ∧
    ∀ other ∈ m₀.mixinsOf id, busy other → Relation.ReflTransGen m₀.Names other id

/-- What holds between two steps of a run from `m₀`, while the classes of `stack` are being
resolved. -/
structure Steady (m₀ : Model) (clean : Prop) (stack : List ClassId) (m : Model) : Prop where
  consistent : Consistent (m₀.runOrigin clean) m
  outline : m.outline = m₀.outline
  resolving : ∀ k, m.IsResolving k ↔ k ∈ stack
  nodup : stack.Nodup
  registered : ∀ k ∈ stack, k < m₀.classes.length
  chain : stack.IsChain m₀.Names
  fresh : clean → ∀ k, m.IsUnresolved k → m.classAt k = m₀.classAt k
  closed : clean → ∀ k, m.IsResolved k → ∀ other, m₀.Names k other → ¬ m.IsUnresolved other

/-- A way along names that leads back to its start, and the error that shows it. -/
inductive Loop (m₀ : Model) (clean : Prop) : BuildError → Prop where
  | intro {first : ClassId} {rest : List ClassId} (nodup : (first :: rest).Nodup)
      (chain : (first :: rest ++ [first]).IsChain m₀.Names)
      (closing : clean → ∀ last, (first :: rest).getLast? = some last → m₀.Extends last first) :
      Loop m₀ clean (.cycle ((first :: rest ++ [first]).map m₀.fullName))

/-- What can stop a run: a loop, or what stops the linking of some class. -/
def Explains (m₀ : Model) (clean : Prop) (error : BuildError) : Prop :=
  m₀.Loop clean error ∨ ∃ id, m₀.Stops id error

theorem Consistent.mono {origin origin' : Origin} (h : Consistent origin m)
    (weaker : ∀ id start busy, origin id start busy → origin' id start busy) :
    Consistent origin' m where
  sound := h.sound
  parent := h.parent
  mixins := h.mixins
  settled := h.settled
  linked id resolved := by
    obtain ⟨start, busy, begun, linked⟩ := h.linked id resolved
    exact ⟨start, busy, weaker id start busy begun, linked⟩

theorem Linked.names_cases {start : Class} {busy : ClassId → Bool} (h : m.Linked start busy id)
    (names : m.Names id other) :
    m.HasLink id other ∨ (other ∈ m.mixinsOf id ∧ busy other = true) := by
  rcases names with extended | used
  · exact .inl (.inl (h.parent.trans extended))
  · by_cases being : busy other = true
    · exact .inr ⟨used, being⟩
    · refine .inl (.inr ?_)
      rw [h.implemented, TypeRef.linked_mem_foldl_addLink]
      exact .inr (List.mem_filter.2 ⟨used, by simpa using being⟩)

/-- Linking a class further leaves the progress of all classes as it was. -/
theorem Changes.progress_eq (h : m.Changes own m') (k : ClassId) :
    (m'.classAt k).progress = (m.classAt k).progress := by
  by_cases ne : k = own
  · rw [ne, h.progress]
  · rw [h.others k ne]

namespace Steady

/-- Before anything is resolved the stack is empty. -/
theorem of_unlinked (h : m₀.Unlinked) : Steady m₀ clean [] m₀ where
  consistent := h.consistent
  outline := rfl
  resolving k := by
    have idle : ¬ m₀.IsResolving k := fun being => being.not_isUnresolved (h.unresolved k)
    exact ⟨fun being => absurd being idle, fun mem => absurd mem List.not_mem_nil⟩
  nodup := List.nodup_nil
  registered k mem := absurd mem List.not_mem_nil
  chain := List.isChain_nil
  fresh _ k _ := rfl
  closed _ k resolved := absurd (h.unresolved k) resolved.not_isUnresolved

theorem weaken (h : Steady m₀ clean stack m) : Steady m₀ False stack m where
  consistent := h.consistent.mono fun _ _ _ begun => ⟨False.elim, begun.2⟩
  outline := h.outline
  resolving := h.resolving
  nodup := h.nodup
  registered := h.registered
  chain := h.chain
  fresh := False.elim
  closed := False.elim

/-- Linking a class on the stack further keeps the stack as it is. -/
theorem changes (h : Steady m₀ clean stack m) (changes : m.Changes own m') (mem : own ∈ stack) :
    Steady m₀ clean stack m' where
  consistent := h.consistent.changes changes fun done =>
    done.not_isResolving ((h.resolving own).2 mem)
  outline := changes.outline.trans h.outline
  resolving k := by
    rw [IsResolving, changes.progress_eq]
    exact h.resolving k
  nodup := h.nodup
  registered := h.registered
  chain := h.chain
  fresh first k new := by
    rw [IsUnresolved, changes.progress_eq] at new
    have ne : k ≠ own := by
      rintro rfl
      exact ((h.resolving k).2 mem).not_isUnresolved new
    rw [changes.others k ne]
    exact h.fresh first k new
  closed first k resolved other names := by
    rw [IsResolved, changes.progress_eq] at resolved
    rw [IsUnresolved, changes.progress_eq]
    exact h.closed first k resolved other names

/-- A class whose linking begins goes on the stack. -/
theorem push (h : Steady m₀ clean stack m) (new : m.IsUnresolved id)
    (registered : id < m.classes.length) (chain : (stack ++ [id]).IsChain m₀.Names)
    (enters : SetsProgress id .resolving m m') : Steady m₀ clean (stack ++ [id]) m' := by
  have self := enters.isResolving
  refine ⟨?_, enters.outline.trans h.outline, enters.isResolving_push h.resolving,
    new.nodup_push h.resolving h.nodup, fun k mem => ?_, chain,
    fun first k new' => ?_, fun first k resolved other names unresolved => ?_⟩
  · exact h.consistent.setProgress (fun done => done.not_isUnresolved new) enters (by decide)
  · rcases List.mem_append.1 mem with mem | mem
    · exact h.registered k mem
    · rw [List.mem_singleton.1 mem, ← length_classes_of_outline_eq h.outline]
      exact registered
  · have ne : k ≠ id := fun same => self.not_isUnresolved (same ▸ new')
    rw [IsUnresolved, enters.others k ne] at new'
    rw [enters.others k ne]
    exact h.fresh first k new'
  · have ne : k ≠ id := fun same => (same ▸ resolved : m'.IsResolved id).not_isResolving self
    have ne' : other ≠ id := fun same => self.not_isUnresolved (same ▸ unresolved)
    rw [IsResolved, enters.others k ne] at resolved
    rw [IsUnresolved, enters.others other ne'] at unresolved
    exact h.closed first k resolved other names unresolved

/-- A class that is linked leaves the stack as a resolved one. -/
theorem pop (h : Steady m₀ clean (stack ++ [id]) m) (leaves : SetsProgress id .resolved m m')
    {start : Class} {busy : ClassId → Bool} (begun : m₀.runOrigin clean id start busy)
    (linked : m.Linked start busy id) (links : ∀ k, m.HasLink id k → m.IsResolved k)
    (closed : ∀ k, m₀.Names id k → ¬ m.IsUnresolved k) : Steady m₀ clean stack m' := by
  have self := leaves.isResolved
  have unfinished : ¬ m.IsResolved id := fun done =>
    done.not_isResolving ((h.resolving id).2 (by simp))
  refine ⟨?_, leaves.outline.trans h.outline,
    leaves.isResolving_pop h.resolving h.nodup (by decide), ?_, ?_, ?_, ?_, ?_⟩
  · exact h.consistent.finish unfinished leaves begun linked links
  · exact (List.nodup_append.1 h.nodup).1
  · exact fun k mem => h.registered k (List.mem_append_left _ mem)
  · exact h.chain.left_of_append
  · intro first k new
    have ne : k ≠ id := fun same => self.not_isUnresolved (same ▸ new)
    rw [IsUnresolved, leaves.others k ne] at new
    rw [leaves.others k ne]
    exact h.fresh first k new
  · intro first k resolved other names unresolved
    have ne' : other ≠ id := fun same => self.not_isUnresolved (same ▸ unresolved)
    rw [IsUnresolved, leaves.others other ne'] at unresolved
    by_cases ne : k = id
    · exact closed other (ne ▸ names) unresolved
    · rw [IsResolved, leaves.others k ne] at resolved
      exact h.closed first k resolved other names unresolved

/-- A class whose linking fails leaves the stack as a new one. -/
theorem drop (h : Steady m₀ False (stack ++ [id]) m) (leaves : SetsProgress id .unresolved m m') :
    Steady m₀ False stack m' where
  consistent := by
    have unfinished : ¬ m.IsResolved id := fun done =>
      done.not_isResolving ((h.resolving id).2 (by simp))
    exact h.consistent.setProgress unfinished leaves (by decide)
  outline := leaves.outline.trans h.outline
  resolving := leaves.isResolving_pop h.resolving h.nodup (by decide)
  nodup := (List.nodup_append.1 h.nodup).1
  registered k mem := h.registered k (List.mem_append_left _ mem)
  chain := h.chain.left_of_append
  fresh := False.elim
  closed := False.elim

/-- The stack never holds more classes than there are. -/
theorem length_le (h : Steady m₀ clean stack m) : stack.length ≤ m₀.classes.length := by
  have subset : stack ⊆ List.range m₀.classes.length := fun k mem =>
    List.mem_range.2 (h.registered k mem)
  simpa using h.nodup.length_le_of_subset subset

end Steady
end Model
end AmbientDecl
