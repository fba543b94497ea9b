/- # What resolving means

When no class reaches itself by the names of its record, resolving the classes of a model has one
meaning, whatever the order: every class is linked to the class that it extends and to the classes
that it uses, and it has the members that it declares, by the members that those have in the end
(`Means`).  Since links lead to settled classes, there is only one model with that meaning
(`Means.unique`), so all orders give the same classes (`resolveAll_means`).
-/

import AmbientDecl.Proofs.Model.Cycles
import AmbientDecl.Proofs.Model.Declaring

namespace AmbientDecl

/-- Adding links one after another adds each of them once, in the order in which they first come. -/
theorem TypeRef.foldl_addLink (ids : List ClassId) (refs : List TypeRef) :
    ids.foldl addLink refs =
      refs ++ (ids.filter fun id => !refs.contains (.linked id)).eraseDups.map .linked := by
  induction ids generalizing refs with
  | nil => simp
  | cons id rest ih =>
    rw [List.foldl_cons, ih]
    by_cases there : refs.contains (.linked id) = true
    · rw [addLink, if_pos there, List.filter_cons, if_neg (by simpa using there)]
    · have later : (rest.filter fun k => !(refs ++ [TypeRef.linked id]).contains (.linked k)) =
          (rest.filter fun k => !refs.contains (.linked k)).filter fun k => !k == id := by
        rw [List.filter_filter]
        refine List.filter_congr fun k _ => ?_
        by_cases same : k = id
        · simp [same]
        · simp [same]
      rw [addLink, if_neg there, List.filter_cons, if_pos (by simpa using there),
        List.eraseDups_cons, List.map_cons, later, List.append_assoc]
      rfl

/-- So it does to references that are all names. -/
theorem TypeRef.foldl_addLink_named (ids : List ClassId) {refs : List TypeRef}
    (named : ∀ ref ∈ refs, ∃ text, ref = .named text) :
    ids.foldl addLink refs = refs ++ ids.eraseDups.map .linked := by
  have all_new : ids.filter (fun id => !refs.contains (.linked id)) = ids := by
    refine List.filter_eq_self.2 fun id _ => ?_
    have absent : .linked id ∉ refs := fun mem => nomatch named _ mem
    simpa using absent
  rw [foldl_addLink, all_new]

/-- The classes that are linked after references that are all names. -/
theorem TypeRef.filterMap_target?_append (ids : List ClassId) {refs : List TypeRef}
    (named : ∀ ref ∈ refs, ∃ text, ref = .named text) :
    (refs ++ ids.map linked).filterMap target? = ids := by
  have none : refs.filterMap target? = [] := by
    refine List.filterMap_eq_nil_iff.2 fun ref mem => ?_
    obtain ⟨text, rfl⟩ := named ref mem
    rfl
  rw [List.filterMap_append, none, List.nil_append, List.filterMap_map]
  exact List.filterMap_some

/-- A class is known by its outline and what linking changes. -/
theorem Class.eq_of_outline_eq {c d : Class} (outline : c.outline = d.outline)
    (parent : c.parent? = d.parent?) (implemented : c.implemented = d.implemented)
    (members : c.members = d.members) (progress : c.progress = d.progress)
    (isNamespace : c.isNamespace = d.isNamespace) : c = d := by
  cases c
  cases d
  simp_all [Class.outline]

namespace Model

open Build

variable {m m' m₀ : Model} {id : ClassId} {ids : List ClassId}

theorem declared_of_outline_eq (h : m'.outline = m.outline) : m'.declared = m.declared := by
  funext id own parent? mixins
  simp only [declared, entered, copies, copyFor_of_outline_eq h]

/-- What resolving has made of the class `id` of `m₀`. -/
structure Means (m₀ m : Model) (id : ClassId) : Prop where
  resolved : m.IsResolved id
  parent : (m.classAt id).parent? = m₀.parentOf? id
  /-- Before, the class implements only types that the settings name. -/
  named : ∀ ref ∈ (m₀.classAt id).implemented, ∃ text, ref = .named text
  implemented : (m.classAt id).implemented =
    (m₀.classAt id).implemented ++ (m₀.mixinsOf id).eraseDups.map .linked
  members : m₀.declared id (m₀.classAt id).members
    ((m₀.parentOf? id).map fun p => (m.classAt p).members)
    ((m₀.mixinsOf id).eraseDups.map fun k => (m.classAt k).members) = .ok (m.classAt id).members
  isNamespace : (m.classAt id).isNamespace =
    m₀.tree.contains (Forest.path (m₀.classAt id).fullName)

/-- **A resolved class means what it declares** where no class reaches itself. -/
theorem Steady.means (h : Steady m₀ True [] m) (unlinked : m₀.Unlinked)
    (acyclic : ∀ id, ¬ Relation.TransGen m₀.Names id id) (resolved : m.IsResolved id) :
    m₀.Means m id := by
  obtain ⟨start, busy, ⟨begun, back⟩, linked⟩ := h.consistent.linked id resolved
  obtain rfl := begun trivial
  have named : ∀ ref ∈ (m₀.classAt id).implemented, ∃ text, ref = .named text := by
    intro ref mem
    cases ref with
    | named text => exact ⟨text, rfl⟩
    | linked other => exact absurd mem (unlinked.named id other)
  have idle : ((m.mixinsOf id).filter fun mixin => !busy mixin) = m₀.mixinsOf id := by
    rw [mixinsOf_of_outline_eq h.outline]
    refine List.filter_eq_self.2 fun mixin used => ?_
    by_contra being
    exact acyclic id (.head' (.inr used) (back mixin used (by simpa using being)))
  have implemented := linked.implemented
  rw [idle, TypeRef.foldl_addLink_named _ named] at implemented
  have targets : (m.classAt id).implemented.filterMap TypeRef.target? =
      (m₀.mixinsOf id).eraseDups := by
    rw [implemented, TypeRef.filterMap_target?_append _ named]
  have declares := linked.declared_eq (unlinked.sound.nodup id) h.consistent.sound.nodup
  rw [targets, parentOf?_of_outline_eq h.outline, declared_of_outline_eq h.outline] at declares
  refine ⟨resolved, ?_, named, implemented, declares, ?_⟩
  · rw [linked.parent, parentOf?_of_outline_eq h.outline]
  · rw [linked.isNamespace, tree_of_outline_eq h.outline]
    have name := fullName_of_outline_eq h.outline id
    rw [fullName, fullName] at name
    rw [name]

/-- **There is one model with the meaning.** -/
theorem Means.unique (h : ∀ id, m.IsResolved id → m₀.Means m id)
    (h' : ∀ id, m.IsResolved id → m₀.Means m' id) (outline : m.outline = m₀.outline)
    (outline' : m'.outline = m₀.outline) (settled : m.Settled id) :
    m'.classAt id = m.classAt id := by
  induction settled with
  | intro id resolved links ih =>
    have means := h id resolved
    have means' := h' id resolved
    have parent : ∀ p, m₀.parentOf? id = some p → m'.classAt p = m.classAt p := fun p found =>
      ih p (.inl (means.parent.trans found))
    have mixin : ∀ k ∈ (m₀.mixinsOf id).eraseDups, m'.classAt k = m.classAt k := fun k mem =>
      ih k (.inr (by
        rw [means.implemented]
        exact List.mem_append_right _ (List.mem_map.2 ⟨k, mem, rfl⟩)))
    have parents : ((m₀.parentOf? id).map fun p => (m'.classAt p).members) =
        (m₀.parentOf? id).map fun p => (m.classAt p).members :=
      Option.map_congr fun p mem => by rw [parent p mem]
    have mixins : ((m₀.mixinsOf id).eraseDups.map fun k => (m'.classAt k).members) =
        (m₀.mixinsOf id).eraseDups.map fun k => (m.classAt k).members :=
      List.map_congr_left fun k mem => by rw [mixin k mem]
    have members := means'.members
    rw [parents, mixins, means.members] at members
    refine Class.eq_of_outline_eq ?_ ?_ ?_ (Except.ok.inj members).symm ?_ ?_
    · exact class_outline_of_outline_eq (outline'.trans outline.symm) id
    · rw [means'.parent, means.parent]
    · rw [means'.implemented, means.implemented]
    · exact means'.resolved.trans means.resolved.symm
    · rw [means'.isNamespace, means.isNamespace]

/-- **Resolving has one meaning, in any order.**  Take a document with well-typed records in which
no class reaches itself by the names of its record, and any list of all of its classes, with or
without repeats.  Resolving the list raises nothing, every class is resolved and means what it
declares, and any other such list gives the same classes. -/
theorem resolveAll_means {settings : Settings} {document : Document}
    (assembled : (assemble document).run (empty settings) = .ok () m₀) (typed : m₀.WellTyped)
    (acyclic : ∀ id, ¬ Relation.TransGen m₀.Names id id)
    (listed : ∀ id, id ∈ ids ↔ id < m₀.classes.length) :
    ∃ m, (resolveAll ids).run m₀ = .ok () m ∧
      (∀ id, id < m₀.classes.length → m₀.Means m id) ∧
      ∀ ids' : List ClassId, (∀ id, id ∈ ids' ↔ id < m₀.classes.length) →
        ∃ m', (resolveAll ids').run m₀ = .ok () m' ∧ m'.classes = m.classes := by
  have unlinked := (ends_assemble (unlinked_empty settings) document).of_ok assembled
  have runs : ∀ ids : List ClassId, (∀ id, id ∈ ids ↔ id < m₀.classes.length) →
      ∃ m, (resolveAll ids).run m₀ = .ok () m ∧ Steady m₀ True [] m ∧
        ∀ id, id < m₀.classes.length → m.IsResolved id := by
    intro ids listed
    have registered := fun id => (listed id).1
    have ends := ends_resolveAll_typed unlinked typed registered
    rcases raises_or_ok unlinked typed registered with ⟨chain, m, run⟩ | ⟨m, run⟩
    · obtain ⟨-, id, parent, extended, back⟩ := (ends.of_error run).extendsOnLoop
      exact absurd (.head' (.inl extended) back) (acyclic id)
    · obtain ⟨steady, resolved⟩ := ends.of_ok run
      exact ⟨m, run, steady, fun id lt => resolved id ((listed id).2 lt)⟩
  obtain ⟨m, run, steady, resolved⟩ := runs ids listed
  refine ⟨m, run, fun id lt => steady.means unlinked acyclic (resolved id lt), ?_⟩
  intro ids' listed'
  obtain ⟨m', run', steady', resolved'⟩ := runs ids' listed'
  refine ⟨m', run', ?_⟩
  have length : m'.classes.length = m.classes.length :=
    length_classes_of_outline_eq (steady'.outline.trans steady.outline.symm)
  have all : ∀ id, m.IsResolved id → id < m₀.classes.length := fun id done => by
    rw [← length_classes_of_outline_eq steady.outline]
    exact done.lt
  refine List.ext_getElem length fun id lt' lt => ?_
  have lt₀ : id < m₀.classes.length := by
    rwa [← length_classes_of_outline_eq steady.outline]
  have same := Means.unique (fun id done => steady.means unlinked acyclic done)
    (fun id done => steady'.means unlinked acyclic (resolved' id (all id done)))
    steady.outline steady'.outline (steady.consistent.settled id (resolved id lt₀))
  simpa [classAt, List.getD_eq_getElem?_getD, lt, lt'] using same

/-- `A` extends `P` and uses `B` and `C`, which both use `D`. -/
def diamond : Document := .ofFields [
  ("classes", .obj [
    ("A", .obj [("extends", .str "P"), ("uses", .arr [.str "B", .str "C", .str "B"])]),
    ("P", .obj []),
    ("B", .obj [("uses", .arr [.str "D"])]),
    ("C", .obj [("uses", .arr [.str "D"])]),
    ("D", .obj [])]),
  ("classitems", .arr [
    .obj [("class", .str "A"), ("name", .str "size"), ("itemtype", .str "property"),
      ("access", .str "private")],
    .obj [("class", .str "P"), ("name", .str "create"), ("itemtype", .str "method"),
      ("static", .bool true)],
    .obj [("class", .str "C"), ("name", .str "isOpen"), ("itemtype", .str "property")],
    .obj [("class", .str "D"), ("name", .str "size"), ("itemtype", .str "property")]])]

/-- The model for the diamond before any class is resolved. -/
def diamondStart : Model := after (assemble diamond) (empty .blank)

/-- The model for the diamond after all classes are resolved, some of them twice. -/
def diamondEnd : Model := after (resolveAll [3, 0, 4, 0, 2, 1, 3]) diamondStart

theorem diamondStart_length : diamondStart.classes.length = 5 := by decide +kernel

/-- In the diamond every class names only classes that are registered after it. -/
theorem diamondStart_acyclic (id : ClassId) : ¬ Relation.TransGen diamondStart.Names id id := by
  have forward : ((List.range 5).all fun a => (diamondStart.parentOf? a).all (a < ·) &&
      (diamondStart.mixinsOf a).all (a < ·)) = true := by
    decide +kernel
  have step : ∀ a b, diamondStart.Names a b → a < b := by
    intro a b names
    have registered : a ∈ List.range 5 :=
      List.mem_range.2 (diamondStart_length ▸ names.source_lt)
    obtain ⟨parent, mixins⟩ := Bool.and_eq_true_iff.1 (List.all_eq_true.1 forward a registered)
    rcases names with extended | used
    · exact of_decide_eq_true (Option.all_eq_true _ _ |>.1 parent b extended)
    · exact of_decide_eq_true (List.all_eq_true.1 mixins b used)
  have way : ∀ a b, Relation.TransGen diamondStart.Names a b → a < b := by
    intro a b way
    induction way with
    | single names => exact step _ _ names
    | tail _ names ih => exact Nat.lt_trans ih (step _ _ names)
  exact fun cycle => Nat.lt_irrefl id (way id id cycle)

/-- In the diamond `A` comes to hold three members, and its private one becomes public. -/
theorem means_diamond : diamondStart.Means diamondEnd 0 ∧
    Entries.keys (diamondEnd.classAt 0).members = ["size", "static:create", "isOpen"] ∧
      ¬ diamondStart.Offers 0 "size" ∧ diamondEnd.Offers 0 "size" := by
  have assembled : (assemble diamond).run (empty .blank) = .ok () diamondStart :=
    run_of_succeeds (by decide +kernel)
  have typed : diamondStart.WellTyped := ⟨by decide +kernel, by decide +kernel⟩
  have listed : ∀ id : Nat, id ∈ [3, 0, 4, 0, 2, 1, 3] ↔ id < diamondStart.classes.length := by
    intro id
    rw [diamondStart_length]
    simp only [List.mem_cons, List.not_mem_nil, or_false]
    omega
  obtain ⟨m, run, means, -⟩ := resolveAll_means assembled typed diamondStart_acyclic listed
  have same : m = diamondEnd := by rw [diamondEnd, after, run]
  have first : 0 < diamondStart.classes.length := by
    rw [diamondStart_length]
    decide
  exact ⟨same ▸ means 0 first, by decide +kernel, by decide +kernel, by decide +kernel⟩

end Model
end AmbientDecl
