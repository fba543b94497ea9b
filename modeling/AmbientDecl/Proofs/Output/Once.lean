/- # Every class is rendered once

The file of a run that ends well consists of the lines of nested statements.  Where the full name of
every class is the dotted path of its slot, every class has its place in them
(`rendered_once`).  The members of a class that documents a namespace are declared in the block of
that namespace, and the class has no block of its own.  Every other class has one block, in the
block of the namespace that it stands in, and its members are declared there.

Two tests decide about the place of a class: whether a namespace has its full name, and whether the
block of a namespace finds it under the name of that namespace.  They agree because both names
come to the path of the slot (`Placed.isPlainNamespace_iff`).
-/

import AmbientDecl.Proofs.Output.Levels

namespace AmbientDecl
namespace Output

open Signature

variable {m : Model} {id : ClassId} {layout : Layout} {statements : List Statement}

/-- What is known of a model that is rendered. -/
structure Placed (m : Model) : Prop where
  sound : m.Sound
  housed : m.Housed
  isNamespace : ∀ id < m.classes.length,
    (m.classAt id).isNamespace = m.tree.contains (m.classAt id).slot.path

/-- The members of a class stand in a block of a namespace when the class is no true class and a
namespace has the path of its slot. -/
theorem Placed.isPlainNamespace_iff (placed : Placed m) (registered : id < m.classes.length) :
    (m.classAt id).isPlainNamespace = true ↔
      (m.classAt id).isTrueClass = false ∧ m.tree.contains (m.classAt id).slot.path := by
  rw [Class.isPlainNamespace, placed.isNamespace id registered, Bool.and_eq_true,
    Bool.not_eq_true', and_comm]

/-- Those of some heads that open the block of one class. -/
def headsOf (id : ClassId) (heads : List (Place × ClassHead)) : List (Place × ClassHead) :=
  heads.filter fun entry => entry.2.id == id

theorem headsOf_level (level : Level) : headsOf id level.heads =
    (level.classes.filter fun block => block.id == id).map fun block =>
      (⟨level.path, none⟩, block.head) := by
  rw [headsOf, Level.heads, List.filter_map]
  rfl

theorem headsOf_layout : headsOf id (classHeads layout.statements) =
    layout.around (fun _ => []) fun level => headsOf id level.heads := by
  rw [headsOf, classHeads_layout, Layout.filter_around]
  rfl

theorem textsOf_layout : textsOf id (placedTexts layout.statements) =
    layout.around (fun level => textsOf id level.outerTexts)
      fun level => textsOf id level.classTexts := by
  rw [textsOf, placedTexts_layout, Layout.filter_around]
  rfl

/-- The members of a class that documents a namespace are declared in the block of the namespace,
and the class has no block. -/
structure InNamespace (m : Model) (statements : List Statement) (id : ClassId) : Prop where
  heads : headsOf id (classHeads statements) = []
  texts : ∃ texts, Renders m id wordInNamespace texts ∧
    textsOf id (placedTexts statements) = textsAt ⟨Forest.path (m.fullName id), none⟩ texts

/-- A class has one block, in the block of the namespace that it stands in, and its members are
declared in it. -/
structure InBlock (m : Model) (statements : List Statement) (id : ClassId) (header : String) :
    Prop where
  made : classHeader m (m.classAt id) = .ok header
  heads : headsOf id (classHeads statements) =
    [(⟨(m.classAt id).slot.home, none⟩, ⟨id, DocComment.ofClass? (m.classAt id), header⟩)]
  texts : ∃ texts, Renders m id wordInClass texts ∧
    textsOf id (placedTexts statements) = textsAt ⟨(m.classAt id).slot.home, some id⟩ texts

/-- Everything has one place in the statements, and nothing else is in them. -/
structure Complete (m : Model) (statements : List Statement) : Prop where
  nested : Nested statements
  namespaces : namespacePaths statements = m.tree.preorder []
  nodup : (namespacePaths statements).Nodup
  contains_iff : ∀ path, path ∈ namespacePaths statements ↔ path ≠ [] ∧ m.tree.contains path
  heads : ∀ entry ∈ classHeads statements, entry.2.id < m.classes.length
  texts : ∀ entry ∈ placedTexts statements, entry.2.owner < m.classes.length ∧ ∃ member,
    (entry.2.key, member) ∈ (m.classAt entry.2.owner).members ∧ member.isPrivate = false
  keys : ∀ id, (Entries.keys (m.classAt id).members).Nodup
  documented : ∀ id < m.classes.length, (m.classAt id).isTrueClass = false →
    m.tree.contains (Forest.path (m.fullName id)) → InNamespace m statements id
  others : ∀ id < m.classes.length, ¬ ((m.classAt id).isTrueClass = false ∧
    m.tree.contains (Forest.path (m.fullName id))) → ∃ header, InBlock m statements id header

/-- A layout of a model. -/
structure Laid (m : Model) (layout : Layout) : Prop extends Placed m where
  shape : layout.namespaces.shape = m.tree
  fills : ∀ level ∈ layout.levels, Fills m level

namespace Laid

theorem nodup_paths (laid : Laid m layout) : (layout.levels.map Level.path).Nodup := by
  rw [paths_layout laid.shape]
  exact laid.housed.distinct.nodup_paths

/-- The blocks are those of the namespaces of the tree. -/
theorem exists_level_iff (laid : Laid m layout) {path : List String} :
    (∃ level ∈ layout.levels, level.path = path) ↔ m.tree.contains path := by
  rw [← List.mem_map, paths_layout laid.shape, laid.housed.distinct.mem_paths_iff]

/-- **The place of a class that documents a namespace.** -/
theorem inNamespace (laid : Laid m layout) (registered : id < m.classes.length)
    (plain : (m.classAt id).isPlainNamespace = true)
    (dotted : Forest.path (m.fullName id) = (m.classAt id).slot.path) :
    InNamespace m layout.statements id := by
  obtain ⟨noClass, there⟩ := (laid.isPlainNamespace_iff registered).1 plain
  obtain ⟨level, mem, path⟩ := laid.exists_level_iff.2 there
  have nothing : ∀ other ∈ layout.levels,
      (other.classes.filter fun block => block.id == id) = [] ∧ textsOf id other.classTexts = [] :=
    fun other mem => (laid.fills other mem).classes_elsewhere laid.sound fun _ => plain
  obtain ⟨texts, outer⟩ := (laid.fills level mem).members_of_documented laid.sound laid.housed
    registered path.symm noClass
  have renders := renders_of_memberTexts laid.sound texts
  rw [keyword_of_isPlainNamespace plain] at renders
  refine ⟨?_, level.members, renders, ?_⟩
  · refine headsOf_layout.trans (List.eq_nil_iff_forall_not_mem.2 fun entry inside => ?_)
    obtain ⟨other, mem', inside | inside⟩ := Layout.mem_around_iff.1 inside
    · cases inside
    · rw [headsOf_level, (nothing other mem').1] at inside
      cases inside
  · rw [textsOf_layout, Layout.around_eq_of_nodup laid.nodup_paths mem fun other mem' ne =>
      ⟨(laid.fills other mem').members_elsewhere laid.sound laid.housed
        fun same => absurd (same.symm.trans path.symm) ne, (nothing other mem').2⟩]
    rw [outer, (nothing level mem).2, List.append_nil, Level.outerTexts, path, dotted]

/-- **The place of any other class.** -/
theorem inBlock (laid : Laid m layout) (registered : id < m.classes.length)
    (other : (m.classAt id).isPlainNamespace = false) :
    ∃ header, InBlock m layout.statements id header := by
  obtain ⟨level, mem, path⟩ := laid.exists_level_iff.2
    (laid.housed.home _ (Model.slot_mem_slots registered))
  obtain ⟨block, made, blocks, inner⟩ :=
    (laid.fills level mem).classes_of_home laid.sound registered path.symm other
  obtain ⟨same, header, comment, texts⟩ := classBlock_eq_ok made
  have renders := renders_of_memberTexts laid.sound texts
  rw [keyword_of_not_isPlainNamespace other] at renders
  -- a namespace with the path of the slot is documented by the class only if it is no true class
  have outer : ∀ level ∈ layout.levels, textsOf id level.outerTexts = [] := by
    intro level mem
    refine (laid.fills level mem).members_elsewhere laid.sound laid.housed fun same => ?_
    refine Bool.of_not_eq_false fun noClass => ?_
    have there := laid.exists_level_iff.1 ⟨level, mem, same.symm⟩
    rw [(laid.isPlainNamespace_iff registered).2 ⟨noClass, there⟩] at other
    cases other
  have away : ∀ level' ∈ layout.levels, level'.path ≠ level.path →
      (level'.classes.filter fun block => block.id == id) = [] ∧
        textsOf id level'.classTexts = [] :=
    fun level' mem' ne => (laid.fills level' mem').classes_elsewhere laid.sound
      fun home => absurd (home.symm.trans path.symm) ne
  refine ⟨block.header, header, ?_, block.members, renders, ?_⟩
  · rw [headsOf_layout, Layout.around_eq_of_nodup laid.nodup_paths mem fun level' mem' ne =>
      ⟨rfl, by rw [headsOf_level, (away level' mem' ne).1, List.map_nil]⟩]
    rw [headsOf_level, blocks, path, ← comment, ← same]
    rfl
  · rw [textsOf_layout, Layout.around_eq_of_nodup laid.nodup_paths mem fun level' mem' ne =>
      ⟨outer level' mem', (away level' mem' ne).2⟩]
    rw [outer level mem, inner, List.nil_append, path]

/-- The class of a block is registered. -/
theorem lt_of_mem_classHeads (laid : Laid m layout) {entry : Place × ClassHead}
    (mem : entry ∈ classHeads layout.statements) : entry.2.id < m.classes.length := by
  rw [classHeads_layout] at mem
  obtain ⟨level, there, inside | inside⟩ := Layout.mem_around_iff.1 mem
  · cases inside
  · obtain ⟨block, inLevel, rfl⟩ := List.mem_map.1 inside
    obtain ⟨-, -, ids⟩ := (laid.fills level there).classes_made
    exact ((ids block.id).1 (List.mem_map_of_mem inLevel)).1

/-- A text is made for a class that is registered. -/
theorem exists_of_mem_placedTexts (laid : Laid m layout) {entry : Place × MemberText}
    (mem : entry ∈ placedTexts layout.statements) : ∃ id texts, id < m.classes.length ∧
      Output.memberTexts m id = .ok texts ∧ entry.2 ∈ texts := by
  rw [placedTexts_layout] at mem
  obtain ⟨level, there, outer | inner⟩ := Layout.mem_around_iff.1 mem
  · have fills := laid.fills level there
    obtain ⟨text, written, rfl⟩ := List.mem_map.1 outer
    rcases fills.members_cases laid.housed with ⟨none, -⟩ | ⟨id, registered, -, -, texts⟩
    · rw [none] at written
      exact absurd written List.not_mem_nil
    · exact ⟨id, level.members, registered, texts, written⟩
  · obtain ⟨block, inside, inBlock⟩ := List.mem_flatMap.1 inner
    obtain ⟨text, written, rfl⟩ := List.mem_map.1 inBlock
    obtain ⟨-, made, ids⟩ := (laid.fills level there).classes_made
    obtain ⟨-, -, -, texts⟩ := classBlock_eq_ok (made block inside)
    have registered := ((ids block.id).1 (List.mem_map_of_mem inside)).1
    exact ⟨block.id, block.members, registered, texts, written⟩

/-- No text is made for a private member. -/
theorem exists_public (laid : Laid m layout) {entry : Place × MemberText}
    (mem : entry ∈ placedTexts layout.statements) : entry.2.owner < m.classes.length ∧ ∃ member,
      (entry.2.key, member) ∈ (m.classAt entry.2.owner).members ∧ member.isPrivate = false := by
  obtain ⟨id, texts, registered, made, mem⟩ := laid.exists_of_mem_placedTexts mem
  have renders := renders_of_memberTexts laid.sound made
  obtain ⟨⟨key, member⟩, there, stands⟩ := exists_mem_of_forall₂ renders mem
  obtain ⟨there, shown⟩ := List.mem_filter.1 there
  rw [stands.owner, stands.key]
  exact ⟨registered, member, there, Bool.not_eq_true' _ ▸ shown⟩

/-- Every namespace but the root has one block, in the block of the namespace above it. -/
theorem namespaces (laid : Laid m layout) :
    namespacePaths layout.statements = m.tree.preorder [] := by
  rw [namespacePaths_layout, laid.shape]

/-- **The statements of a layout are complete** when the names of classes show where they stand. -/
theorem complete (laid : Laid m layout)
    (dotted : ∀ id < m.classes.length, Forest.path (m.fullName id) = (m.classAt id).slot.path) :
    Complete m layout.statements where
  nested := layout.nested_statements
  namespaces := laid.namespaces
  nodup := laid.namespaces ▸ laid.housed.distinct.nodup_preorder
  contains_iff path := by
    have fresh := (List.nodup_cons.1 laid.housed.distinct.nodup_paths).1
    rw [laid.namespaces, ← laid.housed.distinct.mem_paths_iff, List.mem_cons]
    exact ⟨fun mem => ⟨fun root => fresh (root ▸ mem), .inr mem⟩,
      fun both => both.2.resolve_left both.1⟩
  heads _ mem := laid.lt_of_mem_classHeads mem
  texts _ mem := laid.exists_public mem
  keys := laid.sound.nodup
  documented id registered plain there := by
    rw [dotted id registered] at there
    have isPlain := (laid.isPlainNamespace_iff registered).2 ⟨plain, there⟩
    exact laid.inNamespace registered isPlain (dotted id registered)
  others id registered other := by
    rw [dotted id registered, ← laid.isPlainNamespace_iff registered] at other
    exact laid.inBlock registered (Bool.eq_false_iff.2 other)

end Laid

/-- The namespace `A` is documented as a class, and the class `A.B` shares its name with a
namespace. -/
def sharedNames : Document := .ofFields [
  ("classes", .obj [("A", .obj []), ("A.B", .obj [("extends", .str "A.C")]), ("A.C", .obj []),
    ("A.B.D", .obj [])]),
  ("classitems", .arr [
    .obj [("class", .str "A"), ("name", .str "make"), ("itemtype", .str "method")],
    .obj [("class", .str "A"), ("name", .str "cache"), ("itemtype", .str "property"),
      ("access", .str "private")],
    .obj [("class", .str "A.B"), ("name", .str "size"), ("itemtype", .str "property"),
      ("static", .bool true)]])]

/-- The model from which the shared names are rendered. -/
def sharedEnd : Model := Build.after (Build.generate sharedNames) (Model.empty .blank)

end Output
end AmbientDecl
