/- # The fates of used classes

Every entry in the list of used classes of a class has one of four fates: it leads to no class, it
is dropped because the class to which it leads is being resolved, it links that class, or an earlier
entry has linked it already.  The first two are reported, each time, and the others are not.

When a call for all classes has ended well, this accounts for all that a class is linked to and for
all reports of links (`resolveAll_fates`).  Which entries are dropped depends on the way on which
the class was reached: an entry is dropped only if it leads back to the class by names.
-/

import AmbientDecl.Proofs.Model.Cycles
import AmbientDecl.Proofs.Model.Meaning
import AmbientDecl.Proofs.Model.Tally

namespace AmbientDecl

/-- What becomes of an entry in the list of used classes. -/
inductive MixinFate where
  /-- No class has the name. -/
  | missing (name : String)
  /-- The class was being resolved. -/
  | dropped (id : ClassId)
  /-- An earlier entry has linked the class. -/
  | repeated (id : ClassId)
  /-- The class is linked. -/
  | linked (id : ClassId)
  deriving DecidableEq

namespace MixinFate

/-- The class that an entry links. -/
def added? : MixinFate → Option ClassId
  | linked id => some id
  | _ => none

/-- What is reported of an entry of the class `owner`. -/
def report? (m : Model) (owner : ClassId) : MixinFate → Option Diagnostic
  | missing name => some (m.unresolvedMixin owner name)
  | dropped id => some (m.cyclicMixin owner id)
  | repeated _ => none
  | linked _ => none

/-- A fate is that of an entry: it tells whether the entry leads to a class, and to which one. -/
def Tells (m : Model) (name : String) : MixinFate → Prop
  | missing text => text = name ∧ m.found? name = none
  | dropped id => m.found? name = some id
  | repeated id => m.found? name = some id
  | linked id => m.found? name = some id

end MixinFate

namespace Model

open Build MixinFate

variable {m m₀ : Model} {id k : ClassId} {ids linked : List ClassId} {names : List String}

/-- The fate of an entry of the class `id` when the classes `linked` are linked by earlier ones. -/
def fateOf (m : Model) (id : ClassId) (linked : List ClassId) (name : String) : MixinFate :=
  match m.found? name with
  | none => .missing name
  | some k =>
    if k ∈ linked then .repeated k
    else if m.Implements id k then .linked k
    else .dropped k

/-- The fates of entries one after another. -/
def fatesAfter (m : Model) (id : ClassId) : List ClassId → List String → List MixinFate
  | _, [] => []
  | linked, name :: rest =>
    m.fateOf id linked name ::
      m.fatesAfter id (linked ++ (m.fateOf id linked name).added?.toList) rest

/-- The fates of all entries in the list of used classes of a class. -/
def mixinFates (m : Model) (id : ClassId) : List MixinFate :=
  m.fatesAfter id [] (m.usedNames id)

/-- The classes that a class is linked to by its list of used classes. -/
def addedBy (m : Model) (id : ClassId) : List ClassId := (m.mixinFates id).filterMap added?

/-- The four fates, and when an entry has them. -/
theorem fateOf_cases (m : Model) (id : ClassId) (linked : List ClassId) (name : String) :
    (m.found? name = none ∧ m.fateOf id linked name = .missing name) ∨
    ∃ k, m.found? name = some k ∧
      ((k ∈ linked ∧ m.fateOf id linked name = .repeated k) ∨
        (k ∉ linked ∧ m.Implements id k ∧ m.fateOf id linked name = .linked k) ∨
        (k ∉ linked ∧ ¬ m.Implements id k ∧ m.fateOf id linked name = .dropped k)) := by
  cases found : m.found? name with
  | none => exact .inl ⟨rfl, by simp only [fateOf, found]⟩
  | some k =>
    refine .inr ⟨k, rfl, ?_⟩
    by_cases old : k ∈ linked
    · exact .inl ⟨old, by simp only [fateOf, found, if_pos old]⟩
    by_cases link : m.Implements id k
    · exact .inr (.inl ⟨old, link, by simp only [fateOf, found, if_neg old, if_pos link]⟩)
    · exact .inr (.inr ⟨old, link, by simp only [fateOf, found, if_neg old, if_neg link]⟩)

theorem forall₂_fatesAfter (m : Model) (id : ClassId) (linked : List ClassId)
    (names : List String) : List.Forall₂ (Tells m) names (m.fatesAfter id linked names) := by
  induction names generalizing linked with
  | nil => exact .nil
  | cons name rest ih =>
    refine .cons ?_ (ih _)
    obtain ⟨found, fate⟩ | ⟨k, found, ⟨-, fate⟩ | ⟨-, -, fate⟩ | ⟨-, -, fate⟩⟩ :=
      m.fateOf_cases id linked name
    · rw [fate]
      exact ⟨rfl, found⟩
    all_goals
      rw [fate]
      exact found

/-- What is reported of entries does not depend on which of them repeat earlier ones. -/
theorem filterMap_report?_fatesAfter (links : ∀ k ∈ linked, m.Implements id k) :
    (m.fatesAfter id linked names).filterMap (report? m id) =
      names.filterMap (m.mixinReport? (fun k => !decide (m.Implements id k)) id) := by
  induction names generalizing linked with
  | nil => rfl
  | cons name rest ih =>
    have one : report? m id (m.fateOf id linked name) =
          m.mixinReport? (fun k => !decide (m.Implements id k)) id name ∧
        ∀ k ∈ linked ++ (m.fateOf id linked name).added?.toList, m.Implements id k := by
      obtain ⟨found, fate⟩ | ⟨k, found, ⟨old, fate⟩ | ⟨-, link, fate⟩ | ⟨-, unlinked, fate⟩⟩ :=
        m.fateOf_cases id linked name <;> rw [fate]
      · exact ⟨by simp only [mixinReport?, found, report?], by simpa [added?] using links⟩
      · have link := links k old
        exact ⟨by simp [mixinReport?, found, report?, link], by simpa [added?] using links⟩
      · refine ⟨by simp [mixinReport?, found, report?, link], fun l mem => ?_⟩
        rcases List.mem_append.1 mem with mem | mem
        · exact links l mem
        · exact List.mem_singleton.1 mem ▸ link
      · exact ⟨by simp [mixinReport?, found, report?, unlinked], by simpa [added?] using links⟩
    rw [fatesAfter, List.filterMap_cons, List.filterMap_cons, one.1, ih one.2]

/-- The links that entries add are those of the fates that link, in their order. -/
theorem foldl_addLink_fatesAfter (m : Model) (id : ClassId) {refs : List TypeRef}
    (named : ∀ k, .linked k ∉ refs) (linked : List ClassId) (names : List String) :
    ((names.filterMap m.found?).filter fun k => decide (m.Implements id k)).foldl TypeRef.addLink
        (refs ++ linked.map .linked) =
      refs ++ (linked ++ (m.fatesAfter id linked names).filterMap added?).map .linked := by
  induction names generalizing linked with
  | nil => simp [fatesAfter]
  | cons name rest ih =>
    have there : ∀ k, .linked k ∈ refs ++ linked.map TypeRef.linked ↔ k ∈ linked := fun k => by
      simp [named k]
    rw [fatesAfter, List.filterMap_cons, List.filterMap_cons]
    obtain ⟨found, fate⟩ | ⟨k, found, ⟨old, fate⟩ | ⟨new, link, fate⟩ | ⟨-, unlinked, fate⟩⟩ :=
      m.fateOf_cases id linked name <;> rw [fate, found] <;> dsimp only [added?]
    · simpa using ih linked
    · rw [List.filter_cons]
      split
      · rw [List.foldl_cons, TypeRef.addLink, if_pos (by simpa using (there k).2 old)]
        simpa using ih linked
      · simpa using ih linked
    · have fresh : ¬ (refs ++ linked.map TypeRef.linked).contains (.linked k) = true := by
        rw [List.contains_iff_mem]
        exact fun mem => new ((there k).1 mem)
      rw [List.filter_cons, if_pos (decide_eq_true link), List.foldl_cons, TypeRef.addLink,
        if_neg fresh]
      simpa using ih (linked ++ [k])
    · rw [List.filter_cons, if_neg (by simpa using unlinked)]
      simpa using ih linked

theorem nodup_fatesAfter (nodup : linked.Nodup) (names : List String) :
    (linked ++ (m.fatesAfter id linked names).filterMap added?).Nodup := by
  induction names generalizing linked with
  | nil => simpa [fatesAfter] using nodup
  | cons name rest ih =>
    rw [fatesAfter, List.filterMap_cons]
    obtain ⟨-, fate⟩ | ⟨k, -, ⟨-, fate⟩ | ⟨new, -, fate⟩ | ⟨-, -, fate⟩⟩ :=
      m.fateOf_cases id linked name <;> rw [fate] <;> dsimp only [added?]
    · simpa using ih nodup
    · simpa using ih nodup
    · have longer : (linked ++ [k]).Nodup := by
        rw [List.nodup_append]
        refine ⟨nodup, List.pairwise_singleton _ k, ?_⟩
        rintro l mem _ mem' rfl
        exact new (List.mem_singleton.1 mem' ▸ mem)
      simpa using ih longer
    · simpa using ih nodup

/-- A repeated class is linked by an earlier entry. -/
theorem linked_mem_of_repeated {before after : List MixinFate}
    (split : m.fatesAfter id linked names = before ++ .repeated k :: after) :
    k ∈ linked ∨ .linked k ∈ before := by
  induction names generalizing linked before with
  | nil => simp [fatesAfter] at split
  | cons name rest ih =>
    rw [fatesAfter] at split
    cases before with
    | nil =>
      have first := (List.cons.inj split).1
      obtain ⟨-, fate⟩ | ⟨l, -, ⟨old, fate⟩ | ⟨-, -, fate⟩ | ⟨-, -, fate⟩⟩ :=
        m.fateOf_cases id linked name <;> rw [fate] at first <;> cases first
      exact .inl old
    | cons fate before =>
      obtain ⟨rfl, others⟩ := List.cons.inj split
      rcases ih others with old | mem
      · rcases List.mem_append.1 old with old | new
        · exact .inl old
        · refine .inr (List.mem_cons.2 (.inl ?_))
          obtain ⟨-, fate⟩ | ⟨l, -, ⟨-, fate⟩ | ⟨-, -, fate⟩ | ⟨-, -, fate⟩⟩ :=
            m.fateOf_cases id linked name <;> rw [fate] at new ⊢ <;> simp [added?] at new
          rw [new]
      · exact .inr (List.mem_cons_of_mem _ mem)

/-- A dropped class is one that is used and not linked. -/
theorem mem_of_dropped (dropped : .dropped k ∈ m.fatesAfter id linked names) :
    k ∈ names.filterMap m.found? ∧ ¬ m.Implements id k := by
  induction names generalizing linked with
  | nil => simp [fatesAfter] at dropped
  | cons name rest ih =>
    rw [fatesAfter, List.mem_cons] at dropped
    rcases dropped with here | later
    · obtain ⟨-, fate⟩ | ⟨l, found, ⟨-, fate⟩ | ⟨-, -, fate⟩ | ⟨-, unlinked, fate⟩⟩ :=
        m.fateOf_cases id linked name <;> rw [fate] at here <;> cases here
      exact ⟨List.mem_filterMap.2 ⟨name, List.mem_cons_self, found⟩, unlinked⟩
    · obtain ⟨used, unlinked⟩ := ih later
      obtain ⟨name', mem, found⟩ := List.mem_filterMap.1 used
      exact ⟨List.mem_filterMap.2 ⟨name', List.mem_cons_of_mem _ mem, found⟩, unlinked⟩

/-- The fates of the entries of a class `id` of `m₀` account for what `m` has made of it. -/
structure FatesAccount (m₀ m : Model) (id : ClassId) : Prop where
  /-- Every entry has one fate. -/
  entries : List.Forall₂ (Tells m₀) (m₀.usedNames id) (m.mixinFates id)
  /-- Before, the class implements only types that the settings name. -/
  named : ∀ ref ∈ (m₀.classAt id).implemented, ∃ text, ref = .named text
  implemented : (m.classAt id).implemented =
    (m₀.classAt id).implemented ++ (m.addedBy id).map .linked
  distinct : (m.addedBy id).Nodup
  other : id ∉ m.addedBy id
  repeated : ∀ k before after, m.mixinFates id = before ++ .repeated k :: after →
    .linked k ∈ before
  dropped : ∀ k, .dropped k ∈ m.mixinFates id → Relation.ReflTransGen m₀.Names k id

/-- The fates of a resolved class account for its links. -/
theorem Steady.fatesAccount (h : Steady m₀ True [] m) (unlinked : m₀.Unlinked)
    (resolved : m.IsResolved id) : m₀.FatesAccount m id := by
  obtain ⟨start, busy, ⟨begun, back⟩, linked⟩ := h.consistent.linked id resolved
  obtain rfl := begun trivial
  have none : ∀ k, .linked k ∉ (m₀.classAt id).implemented := unlinked.named id
  have kept : ∀ k ∈ m.mixinsOf id, m.Implements id k ↔ busy k = false := by
    intro k used
    rw [Implements, linked.implemented, TypeRef.linked_mem_foldl_addLink, or_iff_right (none k),
      List.mem_filter, and_iff_right used, Bool.not_eq_true']
  have idle : ((m.mixinsOf id).filter fun k => !busy k) =
      (m.mixinsOf id).filter fun k => decide (m.Implements id k) := by
    refine List.filter_congr fun k used => ?_
    cases being : busy k with
    | false => rw [decide_eq_true ((kept k used).2 being), Bool.not_false]
    | true =>
      have unlinked : ¬ m.Implements id k := fun link => by
        rw [(kept k used).1 link] at being
        cases being
      rw [decide_eq_false unlinked, Bool.not_true]
  have implemented := linked.implemented
  rw [idle] at implemented
  have links := m.foldl_addLink_fatesAfter id none [] (m.usedNames id)
  rw [List.map_nil, List.append_nil, List.nil_append] at links
  have added : (m.classAt id).implemented =
      (m₀.classAt id).implemented ++ (m.addedBy id).map .linked := implemented.trans links
  have entries := m.forall₂_fatesAfter id [] (m.usedNames id)
  refine ⟨?_, fun ref mem => ?_, added, ?_, fun mem => ?_, fun k before after split => ?_,
    fun k dropped => ?_⟩
  · rw [← usedNames_of_outline_eq h.outline]
    refine entries.imp fun name fate tells => ?_
    cases fate <;> simpa only [Tells, found?_of_outline_eq h.outline] using tells
  · cases ref with
    | named text => exact ⟨text, rfl⟩
    | linked other => exact absurd mem (none other)
  · exact nodup_fatesAfter List.nodup_nil (m.usedNames id)
  · have link : m.HasLink id id := by
      refine .inr ?_
      rw [added]
      exact List.mem_append_right _ (List.mem_map.2 ⟨id, mem, rfl⟩)
    exact (h.consistent.settled id resolved).not_transGen (.single link)
  · exact (linked_mem_of_repeated split).resolve_left List.not_mem_nil
  · obtain ⟨used, unlinked⟩ := mem_of_dropped dropped
    have being : busy k = true := by
      rw [← Bool.not_eq_false]
      exact fun idle => unlinked ((kept k used).2 idle)
    refine back k ?_ being
    rw [← mixinsOf_of_outline_eq h.outline]
    exact used

/-- **No entry in a list of used classes is lost.**  When a call for all classes of an assembled
document has ended well, in whatever order and with whatever repeats they are listed,

* the reports of links are those of the classes, each class once: the one for a parent that is not
  found, and one for each entry of its list that leads to no class or is dropped;
* a class implements what it implemented before, which are types known by their text, and after
  them the classes that its entries link, each once and never the class itself, in the order in
  which they are first mentioned; and
* an entry is dropped only if the class to which it leads is the class itself or leads back to it by
  extending and using classes. -/
theorem resolveAll_fates {settings : Settings} {document : Document}
    (assembled : (assemble document).run (empty settings) = .ok () m₀)
    (listed : ∀ id, id ∈ ids ↔ id < m₀.classes.length)
    (run : (resolveAll ids).run m₀ = .ok () m) :
    (∃ order : List ClassId, order.Perm m₀.classIds ∧ m.linkReports = order.flatMap fun id =>
      (m.parentReport? id).toList ++ (m.mixinFates id).filterMap (report? m id)) ∧
    ∀ id, id < m₀.classes.length → m₀.FatesAccount m id := by
  have unlinked := (ends_assemble (unlinked_empty settings) document).of_ok assembled
  have registered : ∀ id ∈ ids, id < m₀.classes.length := fun id => (listed id).1
  have start : Steady m₀ True [] m₀ := .of_unlinked unlinked
  obtain ⟨steady, -, resolved⟩ :=
    (ends_resolveAll_steady unlinked start registered).of_ok run
  have done : ∀ id, id < m₀.classes.length → m.IsResolved id := fun id lt =>
    resolved id ((listed id).2 lt)
  refine ⟨?_, fun id lt => steady.fatesAccount unlinked (done id lt)⟩
  have fresh : m₀.Fresh := fun k _ other => unlinked.named k other
  obtain ⟨order, tallies⟩ := (ends_resolveAll_tallies fresh registered).of_ok run
  refine ⟨order, ?_, ?_⟩
  · refine (List.perm_ext_iff_of_nodup tallies.nodup List.nodup_range).2 fun id => ?_
    rw [List.mem_range]
    refine ⟨fun mem => ?_, fun lt => ?_⟩
    · rw [← length_classes_of_outline_eq tallies.outline]
      exact (tallies.entered id mem).2.lt
    · by_contra off
      have before := (done id lt).congr (tallies.kept id off).symm
      exact before.not_isUnresolved (unlinked.unresolved id)
  · have silent : m₀.linkReports = [] := (mute_assemble document (empty settings)).of_ok assembled
    rw [tallies.told, silent, List.nil_append]
    refine List.flatMap_congr fun id _ => ?_
    rw [reportsOf, mixinFates, filterMap_report?_fatesAfter fun k mem => absurd mem
      List.not_mem_nil]

/-- `A` uses `B` twice, itself and a class that is missing, and `B` extends a class that is missing
and uses `A`. -/
def tangledMixins : Document := .ofFields [
  ("classes", .obj [
    ("A", .obj [("uses", .arr [.str "B", .str "A", .str "B", .str "Gone"])]),
    ("B", .obj [("extends", .str "Lost"), ("uses", .arr [.str "A"])])])]

/-- The model for the tangled mixins before any class is resolved. -/
def tangledStart : Model := after (assemble tangledMixins) (empty .blank)

/-- The model after a call for all classes. -/
def tangledEnd : Model := after (resolveAll [0, 1, 0]) tangledStart

/-- All four fates come in one list. -/
theorem fates_tangledMixins :
    tangledStart.FatesAccount tangledEnd 0 ∧
    tangledEnd.mixinFates 0 = [.linked 1, .dropped 0, .repeated 1, .missing "Gone"] ∧
    tangledEnd.mixinFates 1 = [.dropped 0] ∧ tangledEnd.linkReports.length = 4 := by
  have assembled : (assemble tangledMixins).run (empty .blank) = .ok () tangledStart :=
    run_of_succeeds (by decide +kernel)
  have length : tangledStart.classes.length = 2 := by decide +kernel
  have listed : ∀ id : Nat, id ∈ [0, 1, 0] ↔ id < tangledStart.classes.length := by
    intro id
    rw [length]
    simp only [List.mem_cons, List.not_mem_nil, or_false]
    omega
  have run : (resolveAll [0, 1, 0]).run tangledStart = .ok () tangledEnd :=
    run_of_succeeds (by decide +kernel)
  have fates := (resolveAll_fates assembled listed run).2 0 (by rw [length]; decide)
  exact ⟨fates, by decide +kernel, by decide +kernel, by decide +kernel⟩

end Model
end AmbientDecl
