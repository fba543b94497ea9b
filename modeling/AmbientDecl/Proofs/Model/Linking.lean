/- # Linking one class

Linking notes whether a class is a namespace, links it to its parent and to its mixins and brings
in their members.  It keeps what a `LinkRule` keeps, and it makes a linked class of the class
(`ends_link`).
-/

import AmbientDecl.Proofs.Model.LinkMixins

namespace AmbientDecl
namespace Build

open Model

variable {id : ClassId} {start : Class} {enter : ClassId → Build Unit} {Pre : Model → Prop}
  {Fail : BuildError → Model → Prop} {m : Model}

/-- What linking a class to its mixins and merging their members makes of it. -/
def LinksRest (id : ClassId) (m m' : Model) : Prop :=
  m.Passes id m' ∧ ∃ implemented members,
    implemented = ((m.mixinsOf id).filter fun mixin => !decide (m.IsResolving mixin)).foldl
      TypeRef.addLink (m.classAt id).implemented ∧
    m'.mixinMembers id (m.classAt id).members (implemented.filterMap TypeRef.target?) =
      .ok members ∧
    m'.classAt id = { m.classAt id with implemented, members } ∧
    (∀ k, .linked k ∈ implemented → m'.IsResolved k) ∧
    ∀ mixin ∈ m.mixinsOf id, m.IsResolving mixin → m.cyclicMixin id mixin ∈ m'.diagnostics

/-- Linking a class to its mixins and merging their members. -/
theorem ends_linkRest (rule : LinkRule id start enter Pre Fail)
    (registered : id < m.classes.length) (resolving : m.IsResolving id) (pre : Pre m)
    (implemented : (m.classAt id).implemented = start.implemented) {names? : Option (List String)}
    (used : (m.classAt id).record.usedNames? = names?) :
    Ends (do
        (← orFault .unfit names?).forM (linkMixin id)
        (((← get).classAt id).implemented.filterMap TypeRef.target?).forM fun mixin =>
          mergeMixin id mixin enter) m
      (fun _ m' => Pre m' ∧ LinksRest id m m') Fail := by
  rw [ends_bind, ends_orFault]
  refine ⟨fun names some => ?_, fun none => rule.stops m _ pre (.uses registered (used.trans none))⟩
  have names_eq : names = m.usedNames id := by
    rw [usedNames, used, some]
    rfl
  rw [ends_bind, names_eq]
  refine (ends_linkMixins rule registered resolving pre).mono ?_ fun _ _ h => h
  rintro - m₁ ⟨pre₁, changes, own, reported⟩
  have passes := changes.passes resolving
  have registered₁ : id < m₁.classes.length := by
    rwa [length_classes_of_outline_eq changes.outline]
  rw [ends_bind, ends_get]
  have linked : ∀ k ∈ (m₁.classAt id).implemented.filterMap TypeRef.target?,
      .linked k ∈ start.implemented ∨ k ∈ m₁.mixinsOf id ∧ ¬ m₁.IsResolving k := by
    intro k mem
    rw [TypeRef.mem_filterMap_target?, own, TypeRef.linked_mem_foldl_addLink, List.mem_filter]
      at mem
    rw [mixinsOf_of_outline_eq changes.outline, passes.isResolving_iff, ← implemented]
    exact mem.imp_right fun link => ⟨link.1, by simpa using link.2⟩
  refine (ends_mergeMixins rule registered₁ passes.resolving pre₁ linked).mono ?_ fun _ _ h => h
  rintro - m₂ ⟨pre₂, passes₂, resolved, members, merged, own₂⟩
  rw [own] at merged own₂ resolved
  refine ⟨pre₂, passes.trans passes₂, _, members, rfl, merged, own₂, fun k mem => ?_, ?_⟩
  · exact resolved k (TypeRef.mem_filterMap_target?.2 mem)
  · intro mixin mem being
    exact (List.IsPrefix.filterMap _ passes₂.log).subset (reported mixin mem being)

/-- Before a class is linked to others, it is noted whether it is a namespace. -/
def Flags (id : ClassId) (m m' : Model) : Prop :=
  m.Changes id m' ∧ m'.classAt id = { m.classAt id with
    isNamespace := m.tree.contains (Forest.path (m.classAt id).fullName) }

theorem flags_modifyClass (registered : id < m.classes.length) :
    Flags id m (m.modifyClass id fun c =>
      { c with isNamespace := m.tree.contains (Forest.path c.fullName) }) := by
  refine ⟨?_, classAt_modifyClass_self registered _⟩
  exact changes_modifyClass registered (fun _ => rfl) (fun _ => rfl) (.inl rfl) (fun _ => .inl)
    (sound_modifyClass registered (fun _ => rfl) fun _ => rfl)

/-- Linking a class to its parent and then to its mixins makes a linked class of it. -/
theorem linked_of_parts {m₁ m₂ m₃ : Model} (flags : Flags id m m₁) (resolving : m.IsResolving id)
    (parent : LinksParent id m₁ m₂) (rest : LinksRest id m₂ m₃) :
    m.Passes id m₃ ∧ m₃.Linked (m.classAt id) (fun k => decide (m.IsResolving k)) id ∧
      ∀ k, m₃.HasLink id k → m₃.IsResolved k := by
  obtain ⟨changes, own₁⟩ := flags
  obtain ⟨passes₂, parents, members, factory, own₂⟩ := parent
  obtain ⟨passes₃, implemented, members₃, list, merged, own₃, mixins, reported⟩ := rest
  have passes₁ := changes.passes resolving
  have before := passes₁.trans passes₂
  have all := before.trans passes₃
  have parentOf : m₁.parentOf? id = m₃.parentOf? id := by
    rw [parentOf?_of_outline_eq all.outline, parentOf?_of_outline_eq passes₁.outline]
  have parent_same : ∀ p, m₁.Extends id p → m₃.classAt p = m₂.classAt p := fun p found =>
    passes₃.classAt_eq passes₂.resolving (parents p found)
  have linked : m₃.Linked (m.classAt id) (fun k => decide (m.IsResolving k)) id := by
    refine ⟨?_, ?_, ⟨members, ?_, ?_⟩, ?_, fun mixin mem being => ?_⟩
    · rw [own₃, own₂, parentOf]
    · have implemented₂ : (m₂.classAt id).implemented = (m.classAt id).implemented := by
        rw [own₂, own₁]
      rw [own₃, mixinsOf_of_outline_eq all.outline]
      rw [mixinsOf_of_outline_eq before.outline, implemented₂] at list
      simp only [before.isResolving_iff] at list
      exact list
    · rw [← parentOf, parentMembers_congr passes₃.outline parent_same]
      rw [own₁] at factory
      exact factory
    · rw [own₂] at merged
      rw [own₃]
      exact merged
    · rw [tree_of_outline_eq all.outline, own₃, own₂, own₁]
    · rw [mixinsOf_of_outline_eq all.outline] at mem
      rw [mixinsOf_of_outline_eq before.outline] at reported
      have there := reported mixin mem (before.isResolving_iff.2 (of_decide_eq_true being))
      rwa [cyclicMixin, ← fullName_of_outline_eq passes₃.outline,
        ← fullName_of_outline_eq passes₃.outline] at there
  refine ⟨all, linked, fun k link => ?_⟩
  rcases link with link | link
  · rw [linked.parent, ← parentOf] at link
    exact (parents k link).congr (parent_same k link)
  · rw [own₃] at link
    exact mixins k link

/-- **Linking a class.**  It keeps what the rule keeps, it leaves alone all classes whose linking
had begun, and all classes that the class is linked to are resolved then. -/
theorem ends_link (rule : LinkRule id (m.classAt id) enter Pre Fail)
    (registered : id < m.classes.length) (resolving : m.IsResolving id) (pre : Pre m)
    (orphan : (m.classAt id).parent? = none ∨ (m.classAt id).parent? = m.parentOf? id) :
    Ends (link id enter) m
      (fun _ m' => Pre m' ∧ m.Passes id m' ∧
        m'.Linked (m.classAt id) (fun k => decide (m.IsResolving k)) id ∧
        ∀ k, m'.HasLink id k → m'.IsResolved k) Fail := by
  unfold link
  rw [ends_bind, ends_get]
  dsimp only
  rw [ends_bind, ends_modifyClass]
  have flags := flags_modifyClass registered
  generalize m.modifyClass id _ = m₁ at flags ⊢
  have outline := flags.1.outline
  have passes₁ := flags.1.passes resolving
  have pre₁ := rule.own _ _ pre flags.1
  have registered₁ : id < m₁.classes.length := by rwa [length_classes_of_outline_eq outline]
  have orphan₁ : (m₁.classAt id).parent? = none ∨ (m₁.classAt id).parent? = m₁.parentOf? id := by
    rwa [parentOf?_of_outline_eq outline, flags.2]
  -- both ways to the parent go on with the mixins
  have rest : ∀ m₂, Pre m₂ → LinksParent id m₁ m₂ → Ends (do
        (← orFault .unfit (m.classAt id).record.usedNames?).forM (linkMixin id)
        (((← get).classAt id).implemented.filterMap TypeRef.target?).forM fun mixin =>
          mergeMixin id mixin enter) m₂
      (fun _ m' => Pre m' ∧ m.Passes id m' ∧
        m'.Linked (m.classAt id) (fun k => decide (m.IsResolving k)) id ∧
        ∀ k, m'.HasLink id k → m'.IsResolved k) Fail := by
    intro m₂ pre₂ parent
    have passes₂ := passes₁.trans parent.1
    have registered₂ : id < m₂.classes.length := by
      rwa [length_classes_of_outline_eq passes₂.outline]
    have implemented₂ : (m₂.classAt id).implemented = (m.classAt id).implemented := by
      obtain ⟨-, -, members, -, own₂⟩ := parent
      rw [own₂, flags.2]
    have used : (m₂.classAt id).record.usedNames? = (m.classAt id).record.usedNames? := by
      rw [record_of_outline_eq passes₂.outline]
    refine (ends_linkRest rule registered₂ passes₂.resolving pre₂ implemented₂ used).mono ?_
      fun _ _ h => h
    exact fun _ m₃ h => ⟨h.1, linked_of_parts flags resolving parent h.2⟩
  split
  · rename_i name named
    rw [ends_bind]
    have named₁ : (m₁.classAt id).record.parentName? = some name := by rw [flags.2, named]
    exact (ends_linkParent rule registered₁ passes₁.resolving pre₁ named₁ orphan₁).mono
      (fun _ m₂ h => rest m₂ h.1 h.2) fun _ _ h => h
  · rename_i unnamed
    refine rest m₁ pre₁ (linksParent_of_none (Reports.refl m₁) passes₁.resolving orphan₁ ?_)
    rw [parentOf?, flags.2, unnamed]
    rfl

end Build
end AmbientDecl
