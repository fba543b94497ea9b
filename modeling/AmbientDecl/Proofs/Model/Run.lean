/- # Runs

Resolving a class in a model with a steady stack ends with a steady stack, and a class that is
reached again while it is being resolved closes a loop (`ends_resolveWithin_steady`).  The room that
is left for the recursion is never used up: the stack holds no class twice.

A class that was new before is extended by no class that is resolved afterwards: a class is only
resolved after the class that it extends.
-/

import AmbientDecl.Generation
import AmbientDecl.Proofs.Model.Steady

namespace AmbientDecl
namespace Build

open Model

variable {m m₀ : Model} {clean : Prop} {stack : List ClassId} {id : ClassId}

/-- What an error leaves: a stack as before, unless a value has the wrong type, and a reason. -/
structure FailsOn (m₀ : Model) (clean : Prop) (stack : List ClassId) (error : BuildError)
    (m : Model) : Prop where
  outline : m.outline = m₀.outline
  steady : error.isFinding = true → Steady m₀ False stack m
  explained : m₀.Explains clean error

/-- A class that is reached while it is on the stack closes a loop. -/
theorem ends_throwCycle_steady {done : Unit → Model → Prop} (steady : Steady m₀ clean stack m)
    (resolving : m.IsResolving id) (chain : (stack ++ [id]).IsChain m₀.Names)
    (closing : clean → ∀ last, stack.getLast? = some last → m₀.Extends last id) :
    Ends (throwCycle stack id) m done (FailsOn m₀ clean stack) := by
  obtain ⟨before, rest, rfl, off⟩ := List.eq_append_cons_of_mem ((steady.resolving id).1 resolving)
  have dropped : (before ++ id :: rest).dropWhile (· ≠ id) = id :: rest := by
    rw [List.dropWhile_append_of_pos, List.dropWhile_cons_of_neg (by simp)]
    intro k mem
    exact decide_eq_true fun same => off (same ▸ mem)
  have shown : (id :: rest).map m.fullName ++ [m.fullName id] =
      (id :: rest ++ [id]).map m₀.fullName := by
    have names : m.fullName = m₀.fullName := funext (fullName_of_outline_eq steady.outline)
    rw [names, List.map_append, List.map_singleton]
  unfold throwCycle
  rw [ends_bind, ends_get, dropped]
  refine ⟨steady.outline, fun _ => steady.weaken, .inl ?_⟩
  rw [shown]
  refine .intro (List.nodup_append.1 steady.nodup).2.1 ?_ fun first last found => ?_
  · rw [List.append_assoc] at chain
    exact chain.right_of_append
  · refine closing first last ?_
    rw [List.getLast?_append_of_ne_nil _ (by simp), found]

/-- Linking a class that is on top of the stack keeps the stack. -/
theorem steady_linkRule {enter : ClassId → Build Unit} {start : Class} (unlinked : m₀.Unlinked)
    (rule : ∀ m k, Steady m₀ clean (stack ++ [id]) m → k < m.classes.length →
      (stack ++ [id] ++ [k]).IsChain m₀.Names →
      (clean → m.IsResolving k → ∀ last, (stack ++ [id]).getLast? = some last →
        m₀.Extends last k) → Ends (enter k) m
        (fun _ m' => Steady m₀ clean (stack ++ [id]) m' ∧ m.Advances m' ∧ m.NoneEntered m' ∧
          m'.IsResolved k)
        (FailsOn m₀ clean (stack ++ [id])))
    (same : clean → start.implemented = (m₀.classAt id).implemented)
    (named : ∀ k, .linked k ∈ start.implemented → k ∈ m₀.mixinsOf id) :
    LinkRule id start enter (Steady m₀ clean (stack ++ [id]))
      (FailsOn m₀ clean (stack ++ [id])) := by
  have step : ∀ m' k, Steady m₀ clean (stack ++ [id]) m' → m₀.Names id k →
      (clean → m'.IsResolving k → m₀.Extends id k) → Ends (enter k) m'
        (fun _ m'' => Steady m₀ clean (stack ++ [id]) m'' ∧ m'.Advances m'' ∧
          m'.NoneEntered m'' ∧ m''.IsResolved k)
        (FailsOn m₀ clean (stack ++ [id])) := by
    intro m' k steady' names closing
    refine rule m' k steady' ?_ ?_ fun first being last found => ?_
    · rw [length_classes_of_outline_eq steady'.outline]
      exact names.lt
    · refine List.isChain_append.2 ⟨steady'.chain, List.isChain_singleton k, ?_⟩
      intro last mem first mem'
      rw [List.getLast?_concat, Option.mem_some_iff] at mem
      rw [List.head?_cons, Option.mem_some_iff] at mem'
      rwa [← mem, ← mem']
    · rw [List.getLast?_concat] at found
      exact Option.some.inj found ▸ closing first being
  refine ⟨fun m' steady' => steady'.consistent.sound, fun m' m'' steady' changes => ?_, ?_, ?_, ?_⟩
  · exact steady'.changes changes (by simp)
  · intro m' error steady' stops
    exact ⟨steady'.outline, fun _ => steady'.weaken,
      .inr ⟨id, stops.of_outline_eq steady'.outline.symm⟩⟩
  · intro m' k steady' _ extended
    have extended₀ : m₀.Extends id k := by
      rwa [Extends, ← parentOf?_of_outline_eq steady'.outline]
    exact step m' k steady' (.inl extended₀) fun _ _ => extended₀
  · intro m' k steady' _ linked
    rcases linked with old | ⟨used, idle⟩
    · refine step m' k steady' (.inr (named k old)) fun first _ => ?_
      rw [same first] at old
      exact absurd old (unlinked.named id k)
    · rw [mixinsOf_of_outline_eq steady'.outline] at used
      exact step m' k steady' (.inr used) fun _ being => absurd being idle

/-- All that a linked class names is resolved, or it was being resolved. -/
theorem not_isUnresolved_of_linked {start : Class} {busy : ClassId → Bool} {k : ClassId}
    (linked : m.Linked start busy id) (links : ∀ k, m.HasLink id k → m.IsResolved k)
    (being : ∀ k, busy k = true → m.IsResolving k) (names : m.Names id k) :
    ¬ m.IsUnresolved k := by
  rcases linked.names_cases names with link | ⟨-, occupied⟩
  · exact (links k link).not_isUnresolved
  · exact (being k occupied).not_isUnresolved

/-- A class that has just been resolved is extended by no class that is resolved. -/
theorem not_extends_of_leaves {m' : Model} {k : ClassId}
    (steady : Steady m₀ clean (stack ++ [id]) m) (steady' : Steady m₀ clean stack m')
    (leaves : SetsProgress id .resolved m m') (links : ∀ k, m.HasLink id k → m.IsResolved k)
    (resolved : m'.IsResolved k) : ¬ m₀.Extends k id := by
  intro extended
  have unfinished : ¬ m.IsResolved id := fun done =>
    done.not_isResolving ((steady.resolving id).2 (by simp))
  have parent : (m'.classAt k).parent? = some id := by
    obtain ⟨_, _, -, linked⟩ := steady'.consistent.linked k resolved
    rw [linked.parent, parentOf?_of_outline_eq steady'.outline]
    exact extended
  by_cases ne : k = id
  · rw [ne, leaves.self] at parent
    exact unfinished (links id (.inl parent))
  · rw [leaves.others k ne] at parent
    have before := resolved.congr (leaves.others k ne).symm
    exact unfinished ((steady.consistent.settled k before).link (.inl parent)).resolved

/-- **Resolving a class keeps the stack steady.**  When it ends well the class is resolved, and
when it fails a loop of names or a fault explains the error.  A class that was new before is
extended by no class that is resolved then. -/
theorem ends_resolveWithin_steady (unlinked : m₀.Unlinked) (room : Nat)
    (steady : Steady m₀ clean stack m) (registered : id < m.classes.length)
    (space : stack.length + room = m₀.classes.length + 1)
    (chain : (stack ++ [id]).IsChain m₀.Names)
    (closing : clean → m.IsResolving id → ∀ last, stack.getLast? = some last →
      m₀.Extends last id) :
    Ends (resolveWithin room stack id) m
      (fun _ m' => Steady m₀ clean stack m' ∧ m.Advances m' ∧ m.NoneEntered m' ∧
        m'.IsResolved id ∧ (m.IsUnresolved id → ∀ k, m'.IsResolved k → ¬ m₀.Extends k id))
      (FailsOn m₀ clean stack) := by
  induction room generalizing stack id m with
  | zero =>
    have full := steady.length_le
    omega
  | succ room ih =>
    refine ends_reach (fun resolved => ?_) (fun resolving => ?_) fun new => ?_
    · exact ⟨steady, .refl m, .refl m, resolved, fun new => absurd new resolved.not_isUnresolved⟩
    · exact ends_throwCycle_steady steady resolving chain fun first => closing first resolving
    refine ends_resolveNew registered fun m₁ enters => ?_
    have steady₁ := steady.push new registered chain enters
    have resolving₁ := enters.isResolving
    have registered₁ : id < m₁.classes.length := by
      rwa [length_classes_of_outline_eq enters.outline]
    have start : clean → m₁.classAt id = { m₀.classAt id with progress := .resolving } :=
      fun first => by rw [enters.self, steady.fresh first id new]
    have rule : LinkRule id (m₁.classAt id) (resolveWithin room (stack ++ [id]))
        (Steady m₀ clean (stack ++ [id])) (FailsOn m₀ clean (stack ++ [id])) := by
      refine steady_linkRule unlinked ?_ (fun first => by rw [start first]) fun k linked => ?_
      · intro m' k steady' registered' chain' closing'
        exact (ih steady' registered' (by simp; omega) chain' closing').mono
          (fun _ m'' h => ⟨h.1, h.2.1, h.2.2.1, h.2.2.2.1⟩) fun _ _ h => h
      · rw [← mixinsOf_of_outline_eq steady₁.outline]
        exact steady₁.consistent.mixins id k linked
    refine (ends_link rule registered₁ resolving₁ steady₁ (steady₁.consistent.parent id)).mono ?_ ?_
    · rintro - m₂ ⟨steady₂, passes, linked, links⟩
      refine ⟨?_, fun m₃ leaves => ?_⟩
      · rwa [length_classes_of_outline_eq passes.outline]
      have begun : m₀.runOrigin clean id (m₁.classAt id) fun k => decide (m₁.IsResolving k) :=
        ⟨start, fun other _ being =>
          reaches_last chain ((steady₁.resolving other).1 (of_decide_eq_true being))⟩
      have closed : ∀ k, m₀.Names id k → ¬ m₂.IsUnresolved k := by
        intro k names
        rw [← names_of_outline_eq steady₂.outline] at names
        refine not_isUnresolved_of_linked linked links (fun k being => ?_) names
        exact passes.isResolving_iff.2 (of_decide_eq_true being)
      have steady₃ := steady₂.pop leaves begun linked links closed
      refine ⟨steady₃, ?_, fun k being => ?_, ?_, fun _ k resolved => ?_⟩
      · exact ((enters.beside.trans passes.toAdvancesBeside).trans leaves.beside).advances new
      · exact (steady.resolving k).2 ((steady₃.resolving k).1 being)
      · exact leaves.isResolved
      · exact not_extends_of_leaves steady₂ steady₃ leaves links resolved
    · rintro error m₂ ⟨outline, steady₂, explained⟩
      refine ⟨?_, fun fault => ⟨outline, fun finding => ?_, explained⟩,
        fun finding m₃ leaves => ⟨leaves.outline.trans outline, fun _ => ?_, explained⟩⟩
      · rwa [length_classes_of_outline_eq (outline.trans steady₁.outline.symm)]
      · rw [fault] at finding
        cases finding
      · exact (steady₂ finding).drop leaves

/-- Resolving a class from outside, while no class is being resolved. -/
theorem ends_resolve_steady (unlinked : m₀.Unlinked) (steady : Steady m₀ clean [] m)
    (registered : id < m.classes.length) :
    Ends (resolve id) m
      (fun _ m' => Steady m₀ clean [] m' ∧ m.Advances m' ∧ m'.IsResolved id ∧
        (m.IsUnresolved id → ∀ k, m'.IsResolved k → ¬ m₀.Extends k id))
      (FailsOn m₀ clean []) := by
  unfold resolve
  rw [ends_bind, ends_get]
  have space : ([] : List ClassId).length + (m.classes.length + 1) = m₀.classes.length + 1 := by
    rw [length_classes_of_outline_eq steady.outline, List.length_nil, Nat.zero_add]
  refine (ends_resolveWithin_steady unlinked _ steady registered space (List.isChain_singleton id)
    ?_).mono ?_ fun _ _ h => h
  · intro _ being
    exact absurd ((steady.resolving id).1 being) List.not_mem_nil
  · exact fun _ m' h => ⟨h.1, h.2.1, h.2.2.2.1, h.2.2.2.2⟩

/-- **Resolving several classes** resolves all of them, or a loop of names or a fault explains the
error. -/
theorem ends_resolveAll_steady (unlinked : m₀.Unlinked) (steady : Steady m₀ clean [] m)
    {ids : List ClassId} (registered : ∀ id ∈ ids, id < m.classes.length) :
    Ends (resolveAll ids) m
      (fun _ m' => Steady m₀ clean [] m' ∧ m.Advances m' ∧ ∀ id ∈ ids, m'.IsResolved id)
      (FailsOn m₀ clean []) := by
  refine (Ends.forM
    (fun rest m' => Steady m₀ clean [] m' ∧ m.Advances m' ∧ ∃ before, before ++ rest = ids ∧
      ∀ id ∈ before, m'.IsResolved id) (FailsOn m₀ clean []) ?_
    ⟨steady, .refl m, [], rfl, fun id mem => absurd mem List.not_mem_nil⟩).mono ?_ fun _ _ h => h
  · rintro id rest m' ⟨steady', advances, before, all, resolved⟩
    have registered' : id < m'.classes.length := by
      rw [length_classes_of_outline_eq advances.outline]
      exact registered id (by simp [← all])
    refine (ends_resolve_steady unlinked steady' registered').mono ?_ fun _ _ h => h
    rintro - m'' ⟨steady'', advances', resolved', -⟩
    refine ⟨steady'', advances.trans advances', before ++ [id], by simp [← all], fun k mem => ?_⟩
    rcases List.mem_append.1 mem with mem | mem
    · exact advances'.isResolved (resolved k mem)
    · exact List.mem_singleton.1 mem ▸ resolved'
  · rintro - m' ⟨steady', advances, before, all, resolved⟩
    rw [List.append_nil] at all
    exact ⟨steady', advances, all ▸ resolved⟩

/-- **Generating declarations** resolves all classes of the assembled document, and the text that it
ends with is rendered from the model that it leaves. -/
theorem ends_generate (settings : Settings) (document : Document) :
    Ends (generate document) (empty settings)
      (fun text m => ∃ m₀, (assemble document).run (empty settings) = .ok () m₀ ∧
        Steady m₀ False [] m ∧ (∀ id < m.classes.length, m.IsResolved id) ∧
        Output.render m = .ok text)
      fun _ _ => True := by
  unfold generate
  rw [ends_bind]
  refine ((ends_assemble (unlinked_empty settings) document).and
    (ends_of (fun _ _ run => run) fun _ _ run => run)).mono (fun _ m₀ ⟨unlinked, run⟩ => ?_)
    fun _ _ _ => trivial
  rw [ends_bind, ends_get, ends_bind]
  have steady : Steady m₀ False [] m₀ := .of_unlinked unlinked
  refine (ends_resolveAll_steady unlinked steady fun id mem => ?_).mono
    (fun _ m ⟨steady', advances, resolved⟩ => ?_) fun _ _ _ => trivial
  · exact List.mem_range.1 mem
  rw [ends_bind, ends_get, ends_ofReading]
  refine ⟨fun text rendered => ⟨m₀, run, steady', fun id registered => ?_, rendered⟩,
    fun _ _ => trivial⟩
  rw [length_classes_of_outline_eq advances.outline] at registered
  exact resolved id (List.mem_range.2 registered)

end Build
end AmbientDecl
