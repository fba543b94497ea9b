/- # A class that is linked

What linking makes of one class, as far as the classes it is linked to are done (`Linked`): the
parent is the class that it extends, the mixins are those that it uses and that were not being
resolved themselves, and the members are those of the computation of
`AmbientDecl.Proofs.Model.Merge` for the members of the parent and of the mixins.

`Passes` is what holds between two models on the way through the linking of a class, and `Stops`
lists what can stop it.
-/

import AmbientDecl.Proofs.Model.Merge

namespace AmbientDecl

/-- The references with a link to a class, which is added once. -/
def TypeRef.addLink (refs : List TypeRef) (id : ClassId) : List TypeRef :=
  if refs.contains (.linked id) then refs else refs ++ [.linked id]

theorem TypeRef.linked_mem_foldl_addLink {k : ClassId} {ids : List ClassId}
    {refs : List TypeRef} : .linked k ∈ ids.foldl addLink refs ↔ .linked k ∈ refs ∨ k ∈ ids := by
  induction ids generalizing refs with
  | nil => simp
  | cons id rest ih =>
    have step : .linked k ∈ addLink refs id ↔ .linked k ∈ refs ∨ k = id := by
      unfold addLink
      split
      · rename_i h
        have there : TypeRef.linked id ∈ refs := by simpa using h
        exact ⟨.inl, fun h => h.elim (fun h => h) fun h => h ▸ there⟩
      · simp
    rw [List.foldl_cons, ih, step, or_assoc, List.mem_cons]

theorem TypeRef.mem_filterMap_target? {id : ClassId} {refs : List TypeRef} :
    id ∈ refs.filterMap target? ↔ .linked id ∈ refs := by
  rw [List.mem_filterMap]
  constructor
  · rintro ⟨ref, mem, target⟩
    cases ref with
    | named text => cases target
    | linked k => exact Option.some.inj target ▸ mem
  · exact fun mem => ⟨_, mem, rfl⟩

namespace Model

variable {m m' m'' : Model} {own id k : ClassId}

/-- Members of a class after the factory of its parent is declared again. -/
def parentMembers (m : Model) (id : ClassId) (own : Members) :
    Option ClassId → Except BuildError Members
  | none => .ok own
  | some parent => m.withFactory id own (m.classAt parent).members

/-- Members of a class after the members of several mixins are merged into them. -/
def mixinMembers (m : Model) (id : ClassId) (own : Members) (mixins : List ClassId) :
    Except BuildError Members :=
  mixins.foldlM (fun members mixin => m.merge id members (m.classAt mixin).members) own

/-- The report that a mixin is dropped because it is being resolved. -/
def cyclicMixin (m : Model) (id mixin : ClassId) : Diagnostic :=
  ⟨Diagnostic.cyclicMixin, "Used class is still being resolved; klass=" ++ m.fullName id ++
    " mixin=" ++ m.fullName mixin, m.fullName id⟩

/-- What linking has made of the class `id`, which was `start` before, while the classes that are
`busy` were being resolved. -/
structure Linked (m : Model) (start : Class) (busy : ClassId → Bool) (id : ClassId) : Prop where
  parent : (m.classAt id).parent? = m.parentOf? id
  implemented : (m.classAt id).implemented =
    ((m.mixinsOf id).filter fun mixin => !busy mixin).foldl TypeRef.addLink start.implemented
  members : ∃ members, m.parentMembers id start.members (m.parentOf? id) = .ok members ∧
    m.mixinMembers id members ((m.classAt id).implemented.filterMap TypeRef.target?) =
      .ok (m.classAt id).members
  isNamespace : (m.classAt id).isNamespace =
    m.tree.contains (Forest.path (m.classAt id).fullName)
  reported : ∀ mixin ∈ m.mixinsOf id, busy mixin → m.cyclicMixin id mixin ∈ m.diagnostics

/-- What can stop the linking of a class, apart from the way to another class. -/
inductive Stops (m : Model) (id : ClassId) : BuildError → Prop where
  | lookup {name : String} {fault : ShapeFault} (h : m.find? name = .error fault) :
      Stops m id (.shape fault)
  | uses (registered : id < m.classes.length) (h : (m.classAt id).record.usedNames? = none) :
      Stops m id (.shape .unfit)
  | copy {member : Member} {error : BuildError} (buildable : Buildable m.settings member.item)
      (h : m.copyFor id member = .error error) : Stops m id error

theorem Stops.of_outline_eq {error : BuildError} (h : m.Stops id error)
    (same : m'.outline = m.outline) : m'.Stops id error := by
  cases h with
  | lookup h => exact .lookup ((find?_of_outline_eq same _).trans h)
  | uses registered h =>
    refine .uses ?_ (by rwa [record_of_outline_eq same])
    rwa [length_classes_of_outline_eq same]
  | copy buildable h =>
    refine .copy (settings_of_outline_eq same ▸ buildable) ?_
    rwa [copyFor_of_outline_eq same]

/-- A step on the way through the linking of the class `own` that ended well. -/
structure Passes (own : ClassId) (m m' : Model) : Prop extends AdvancesBeside own m m' where
  noneEntered : m.NoneEntered m'
  resolving : m'.IsResolving own

theorem Changes.passes (h : m.Changes own m') (resolving : m.IsResolving own) :
    m.Passes own m' :=
  { h.beside with noneEntered := h.noneEntered, resolving := h.progress.trans resolving }

theorem Advances.passes (h : m.Advances m') (noneEntered : m.NoneEntered m')
    (resolving : m.IsResolving own) : m.Passes own m' :=
  { h.beside own with
    noneEntered, resolving := resolving.congr (h.begun own resolving.not_isUnresolved) }

theorem Passes.trans (h : m.Passes own m') (h' : m'.Passes own m'') : m.Passes own m'' :=
  { h.toAdvancesBeside.trans h'.toAdvancesBeside with
    noneEntered := h.noneEntered.trans h'.noneEntered, resolving := h'.resolving }

/-- On the way through the linking of a class the same classes are being resolved. -/
theorem Passes.isResolving_iff (h : m.Passes own m') : m'.IsResolving id ↔ m.IsResolving id := by
  refine ⟨h.noneEntered id, fun before => ?_⟩
  by_cases ne : id = own
  · exact ne ▸ h.resolving
  · exact before.congr (h.begun id ne before.not_isUnresolved)

theorem Passes.classAt_eq (h : m.Passes own m') (resolving : m.IsResolving own)
    (resolved : m.IsResolved id) : m'.classAt id = m.classAt id :=
  h.toAdvancesBeside.classAt_eq (fun done => done.not_isResolving resolving) resolved

theorem parentMembers_congr (same : m'.outline = m.outline) {own : Members}
    {parent? : Option ClassId} (parent : ∀ p, parent? = some p → m'.classAt p = m.classAt p) :
    m'.parentMembers id own parent? = m.parentMembers id own parent? := by
  cases parent? with
  | none => rfl
  | some p => rw [parentMembers, parentMembers, parent p rfl, withFactory_of_outline_eq same]

theorem mixinMembers_congr (same : m'.outline = m.outline) {own : Members} {mixins : List ClassId}
    (mixin : ∀ k ∈ mixins, m'.classAt k = m.classAt k) :
    m'.mixinMembers id own mixins = m.mixinMembers id own mixins := by
  induction mixins generalizing own with
  | nil => rfl
  | cons k rest ih =>
    have ih' : ∀ members, m'.mixinMembers id members rest = m.mixinMembers id members rest :=
      fun members => ih fun l mem => mixin l (List.mem_cons_of_mem _ mem)
    simp only [mixinMembers, List.foldlM_cons, mixin k List.mem_cons_self,
      merge_of_outline_eq same] at ih' ⊢
    simp only [ih']

end Model

end AmbientDecl
