/- # The blocks of a layout

A layout is looked at as the list of its blocks, each with its path: the names of the namespaces
from the outermost block to this one (`Layout.levels`).  The top of the file has the empty path.
What is found in the statements of a layout is found in its blocks, in the order of the file
(`filterMap_layout`).  The blocks stand in each other as the namespaces of the tree do
(`shape_of_layout`), and every block is filled with the classes of its namespace and the members of
the class that documents it (`Fills`).

When the model is housed, a class has texts in two blocks at most: in the one of its namespace as
a class (`Fills.classes_of_home`), and in the one of the namespace of its own name as documentation
(`Fills.members_of_documented`).
-/

import AmbientDecl.Proofs.Model.Housed
import AmbientDecl.Proofs.Output.Lines
import AmbientDecl.Proofs.Output.Texts

namespace AmbientDecl

section Keys

variable {α β γ : Type} {xs : List α} {x : α} {key : α → β}

/-- Where no key comes twice, the elements before and after an element have other keys. -/
theorem exists_append_of_nodup (nodup : (xs.map key).Nodup) (mem : x ∈ xs) :
    ∃ before after, xs = before ++ x :: after ∧ (∀ y ∈ before, key y ≠ key x) ∧
      ∀ y ∈ after, key y ≠ key x := by
  obtain ⟨before, after, rfl⟩ := List.append_of_mem mem
  rw [List.map_append, List.map_cons, List.nodup_append, List.nodup_cons] at nodup
  obtain ⟨-, ⟨fresh, -⟩, apart⟩ := nodup
  refine ⟨before, after, rfl, fun y mem => ?_, fun y mem same => ?_⟩
  · exact apart (key y) (List.mem_map_of_mem mem) (key x) List.mem_cons_self
  · exact fresh (same ▸ List.mem_map_of_mem mem)

/-- Of lists for the elements the one for `x` is left, if those for other keys are empty. -/
theorem flatMap_eq_of_nodup {f : α → List γ} (nodup : (xs.map key).Nodup) (mem : x ∈ xs)
    (others : ∀ y ∈ xs, key y ≠ key x → f y = []) : xs.flatMap f = f x := by
  obtain ⟨before, after, rfl, ne, ne'⟩ := exists_append_of_nodup nodup mem
  have nothing : before.flatMap f = [] := List.flatMap_eq_nil_iff.2 fun y mem =>
    others y (List.mem_append_left _ mem) (ne y mem)
  have nothing' : after.flatMap f = [] := List.flatMap_eq_nil_iff.2 fun y mem =>
    others y (List.mem_append_right _ (List.mem_cons_of_mem x mem)) (ne' y mem)
  rw [List.flatMap_append, List.flatMap_cons, nothing, nothing', List.nil_append, List.append_nil]

/-- One element has the key of `x`. -/
theorem filter_eq_of_nodup [BEq β] [LawfulBEq β] (nodup : (xs.map key).Nodup) (mem : x ∈ xs) :
    (xs.filter fun y => key y == key x) = [x] := by
  obtain ⟨before, after, rfl, ne, ne'⟩ := exists_append_of_nodup nodup mem
  have nothing : ∀ {ys : List α}, (∀ y ∈ ys, key y ≠ key x) →
      (ys.filter fun y => key y == key x) = [] := fun other =>
    List.filter_eq_nil_iff.2 fun y mem same => other y mem (beq_iff_eq.1 same)
  simp only [List.filter_append, List.filter_cons, beq_self_eq_true, if_true, nothing ne,
    nothing ne', List.nil_append]

end Keys

namespace Output

/-- The tree of the names of blocks. -/
def NamespaceBlocks.shape : NamespaceBlocks → Forest
  | nil => .nil
  | block name _ inner _ rest => .node name inner.shape rest.shape

/-- The block of a namespace or the top of the file, without the blocks of the namespaces in
it. -/
structure Level where
  path : List String
  members : List MemberText
  classes : List ClassBlock

/-- Blocks of namespaces in the block with a path, each followed by those in it. -/
def NamespaceBlocks.levels (above : List String) : NamespaceBlocks → List Level
  | nil => []
  | block name members inner classes rest =>
    ⟨above ++ [name], members, classes⟩ :: inner.levels (above ++ [name]) ++ rest.levels above

/-- The top of the file, followed by the blocks of all namespaces. -/
def Layout.levels (layout : Layout) : List Level :=
  ⟨[], [], layout.classes⟩ :: layout.namespaces.levels []

/-- What opens the blocks of classes in a block, each with its place. -/
def Level.heads (level : Level) : List (Place × ClassHead) :=
  level.classes.map fun block => (⟨level.path, none⟩, block.head)

/-- Texts that stand at one place. -/
def textsAt (place : Place) (texts : List MemberText) : List (Place × MemberText) :=
  texts.map fun text => (place, text)

/-- Those of some texts that are for the members of one class. -/
def textsOf (id : ClassId) (texts : List (Place × MemberText)) : List (Place × MemberText) :=
  texts.filter fun entry => entry.2.owner == id

/-- The texts in a block outside of the blocks of classes. -/
def Level.outerTexts (level : Level) : List (Place × MemberText) :=
  textsAt ⟨level.path, none⟩ level.members

/-- The texts in the blocks of classes in a block. -/
def Level.classTexts (level : Level) : List (Place × MemberText) :=
  level.classes.flatMap fun block => textsAt ⟨level.path, some block.id⟩ block.members

/-- Lists for blocks of namespaces in the order of the file: for each block what stands before the
blocks of the namespaces in it, then those, and then what stands after them. -/
def NamespaceBlocks.around {α : Type} (before after : Level → List α) (above : List String) :
    NamespaceBlocks → List α
  | nil => []
  | block name members inner classes rest =>
    before ⟨above ++ [name], members, classes⟩ ++
      inner.around before after (above ++ [name]) ++
      after ⟨above ++ [name], members, classes⟩ ++ rest.around before after above

/-- Lists for the top of the file and the blocks of all namespaces, in the order of the file. -/
def Layout.around {α : Type} (before after : Level → List α) (layout : Layout) : List α :=
  before ⟨[], [], layout.classes⟩ ++ layout.namespaces.around before after [] ++
    after ⟨[], [], layout.classes⟩

theorem paths_levels (blocks : NamespaceBlocks) (above : List String) :
    (blocks.levels above).map Level.path = blocks.shape.preorder above := by
  induction blocks generalizing above with
  | nil => rfl
  | block name members inner classes rest ihInner ihRest =>
    rw [NamespaceBlocks.levels, List.map_append, List.map_cons, ihInner, ihRest]
    rfl

/-! ## Statements by their blocks -/

section Around

variable {α : Type} {before after : Level → List α} {above : List String}
  {blocks : NamespaceBlocks} {layout : Layout} {level : Level} {x : α}

theorem NamespaceBlocks.mem_around_iff : x ∈ blocks.around before after above ↔
    ∃ level ∈ blocks.levels above, x ∈ before level ∨ x ∈ after level := by
  induction blocks generalizing above with
  | nil => simp [around, levels]
  | block name members inner classes rest ihInner ihRest =>
    rw [around, levels]
    simp only [List.mem_append, List.cons_append, List.exists_mem_cons_iff, ihInner, ihRest]
    simp only [or_and_right, exists_or]
    exact (or_congr_left or_right_comm).trans or_assoc

theorem Layout.mem_around_iff : x ∈ layout.around before after ↔
    ∃ level ∈ layout.levels, x ∈ before level ∨ x ∈ after level := by
  rw [around, levels, List.exists_mem_cons_iff, List.mem_append, List.mem_append,
    NamespaceBlocks.mem_around_iff, or_right_comm]

theorem NamespaceBlocks.filter_around (p : α → Bool) :
    (blocks.around before after above).filter p =
      blocks.around (fun level => (before level).filter p) (fun level => (after level).filter p)
        above := by
  induction blocks generalizing above with
  | nil => rfl
  | block name members inner classes rest ihInner ihRest =>
    simp only [around, List.filter_append, ihInner, ihRest]

theorem Layout.filter_around (p : α → Bool) : (layout.around before after).filter p =
    layout.around (fun level => (before level).filter p) (fun level => (after level).filter p) := by
  simp only [around, List.filter_append, NamespaceBlocks.filter_around]

theorem NamespaceBlocks.around_eq_nil
    (none : ∀ level ∈ blocks.levels above, before level = [] ∧ after level = []) :
    blocks.around before after above = [] := by
  refine List.eq_nil_iff_forall_not_mem.2 fun x mem => ?_
  obtain ⟨level, inside, mem | mem⟩ := mem_around_iff.1 mem
  · simp [(none level inside).1] at mem
  · simp [(none level inside).2] at mem

/-- Of the lists for blocks those of one block are left, if those of other blocks are empty. -/
theorem NamespaceBlocks.around_eq_of_nodup (nodup : ((blocks.levels above).map Level.path).Nodup)
    (mem : level ∈ blocks.levels above) (others : ∀ other ∈ blocks.levels above,
      other.path ≠ level.path → before other = [] ∧ after other = []) :
    blocks.around before after above = before level ++ after level := by
  induction blocks generalizing above with
  | nil => cases mem
  | block name members inner classes rest ihInner ihRest =>
    rw [levels, List.cons_append] at nodup mem others
    rw [List.map_cons, List.map_append, List.nodup_cons, List.nodup_append, List.mem_append,
      not_or] at nodup
    obtain ⟨⟨freshInner, freshRest⟩, nodupInner, nodupRest, apart⟩ := nodup
    obtain ⟨here, others⟩ := List.forall_mem_cons.1 others
    obtain ⟨inside, beside⟩ := List.forall_mem_append.1 others
    rw [around]
    rcases List.mem_cons.1 mem with rfl | mem
    · rw [around_eq_nil fun other there => inside other there fun same =>
          freshInner (same ▸ List.mem_map_of_mem there),
        around_eq_nil fun other there => beside other there fun same =>
          freshRest (same ▸ List.mem_map_of_mem there), List.append_nil, List.append_nil]
    · rcases List.mem_append.1 mem with mem | mem
      · obtain ⟨none, none'⟩ := here fun same => freshInner (same ▸ List.mem_map_of_mem mem)
        rw [none, none', ihInner nodupInner mem inside,
          around_eq_nil fun other there => beside other there fun same =>
            apart _ (List.mem_map_of_mem mem) _ (List.mem_map_of_mem there) same.symm,
          List.nil_append, List.append_nil, List.append_nil]
      · obtain ⟨none, none'⟩ := here fun same => freshRest (same ▸ List.mem_map_of_mem mem)
        rw [none, none', ihRest nodupRest mem beside,
          around_eq_nil fun other there => inside other there fun same =>
            apart _ (List.mem_map_of_mem there) _ (List.mem_map_of_mem mem) same]
        rfl

/-- The same for the top of the file and the blocks of all namespaces. -/
theorem Layout.around_eq_of_nodup (nodup : (layout.levels.map Level.path).Nodup)
    (mem : level ∈ layout.levels) (others : ∀ other ∈ layout.levels,
      other.path ≠ level.path → before other = [] ∧ after other = []) :
    layout.around before after = before level ++ after level := by
  rw [levels] at nodup mem others
  rw [List.map_cons, List.nodup_cons] at nodup
  obtain ⟨fresh, nodup⟩ := nodup
  obtain ⟨top, inside⟩ := List.forall_mem_cons.1 others
  rw [around]
  rcases List.mem_cons.1 mem with rfl | mem
  · rw [NamespaceBlocks.around_eq_nil fun other there => inside other there fun same =>
      fresh (same ▸ List.mem_map_of_mem there), List.append_nil]
  · obtain ⟨none, none'⟩ := top fun same => fresh (same ▸ List.mem_map_of_mem mem)
    rw [none, none', NamespaceBlocks.around_eq_of_nodup nodup mem inside, List.nil_append,
      List.append_nil]

end Around

section Statements

variable {α : Type} (f : Place × Statement → Option α) (path : List String)

theorem filterMap_members (place : Place) (texts : List MemberText) :
    (texts.map fun text => (place, Statement.member text)).filterMap f =
      texts.filterMap fun text => f (place, .member text) :=
  List.filterMap_map

/-- What is found in the block of a class. -/
def foundIn (block : ClassBlock) : List α :=
  (f (⟨path, none⟩, .openClass block.head)).toList ++
    block.members.filterMap fun text => f (⟨path, some block.id⟩, .member text)

/-- What is found in the block of a namespace above the blocks in it. -/
def foundAbove (level : Level) : List α :=
  (f (⟨level.path.dropLast, none⟩, .openNamespace (level.path.getLastD ""))).toList ++
    level.members.filterMap fun text => f (⟨level.path, none⟩, .member text)

variable (closes : ∀ place, f (place, .close) = none)

include closes

theorem filterMap_block (block : ClassBlock) :
    (placed ⟨path, none⟩ block.statements).filterMap f = foundIn f path block := by
  rw [placed_block, List.cons_append, List.filterMap_cons, List.filterMap_append,
    filterMap_members, List.filterMap_cons_none (closes _), List.filterMap_nil, List.append_nil,
    foundIn]
  cases f (⟨path, none⟩, .openClass block.head) <;> rfl

/-- **What is found in the blocks of namespaces** is found at the start of a block, in the blocks of
the namespaces in it or in those of its classes. -/
theorem filterMap_namespaces (blocks : NamespaceBlocks) (above : List String) :
    (placed ⟨above, none⟩ blocks.statements).filterMap f =
      blocks.around (foundAbove f) (fun level => level.classes.flatMap (foundIn f level.path))
        above := by
  induction blocks generalizing above with
  | nil => rfl
  | block name members inner classes rest ihInner ihRest =>
    have blocksFound : (classes.flatMap fun block =>
        placed ⟨above ++ [name], none⟩ block.statements).filterMap f =
          classes.flatMap (foundIn f (above ++ [name])) := by
      rw [List.filterMap_flatMap]
      exact List.flatMap_congr fun block _ => filterMap_block f _ closes block
    rw [placed_namespaces, NamespaceBlocks.around, ← ihInner, ← ihRest]
    simp only [List.cons_append, List.append_assoc]
    rw [List.filterMap_cons, List.filterMap_append, List.filterMap_append, List.filterMap_append,
      List.filterMap_cons_none (closes _), filterMap_members, blocksFound]
    simp only [foundAbove, List.dropLast_concat, List.getLastD_concat]
    cases f (⟨above, none⟩, .openNamespace name) <;> rfl

/-- The same for a layout: the top of the file is a block that nothing opens. -/
theorem filterMap_layout (layout : Layout) :
    (placed .top layout.statements).filterMap f =
      layout.namespaces.around (foundAbove f)
        (fun level => level.classes.flatMap (foundIn f level.path)) [] ++
      layout.classes.flatMap (foundIn f []) := by
  rw [Layout.statements, placed_append, Place.top, foldl_after_namespaces, placed_blocks,
    List.filterMap_append, filterMap_namespaces f closes, List.filterMap_flatMap]
  refine congrArg _ (List.flatMap_congr fun block _ => ?_)
  exact filterMap_block f _ closes block

end Statements

theorem foundIn_text (path : List String) :
    foundIn declaredText? path = fun block => textsAt ⟨path, some block.id⟩ block.members := by
  funext block
  exact congrFun List.filterMap_eq_map block.members

theorem foundAbove_text : foundAbove declaredText? = Level.outerTexts := by
  funext level
  exact congrFun List.filterMap_eq_map level.members

theorem foundIn_head (path : List String) :
    foundIn openedHead? path = fun block => [(⟨path, none⟩, block.head)] := by
  funext block
  simp [foundIn, openedHead?]

theorem foundAbove_head : foundAbove openedHead? = fun _ => [] := by
  funext level
  simp [foundAbove, openedHead?]

theorem foundIn_path (path : List String) : foundIn openedPath? path = fun _ => [] := by
  funext block
  simp [foundIn, openedPath?]

theorem foundAbove_path : foundAbove openedPath? =
    fun level => [level.path.dropLast ++ [level.path.getLastD ""]] := by
  funext level
  simp [foundAbove, openedPath?]

/-- The texts of a layout stand in the blocks of its levels. -/
theorem placedTexts_layout (layout : Layout) :
    placedTexts layout.statements = layout.around Level.outerTexts Level.classTexts := by
  rw [placedTexts, filterMap_layout _ fun _ => rfl]
  simp only [foundIn_text, foundAbove_text]
  rfl

/-- So do the blocks of its classes. -/
theorem classHeads_layout (layout : Layout) :
    classHeads layout.statements = layout.around (fun _ => []) Level.heads := by
  rw [classHeads, filterMap_layout _ fun _ => rfl]
  simp only [foundIn_head, foundAbove_head, ← List.map_eq_flatMap]
  rfl

theorem around_paths (blocks : NamespaceBlocks) (above : List String) :
    blocks.around (fun level => [level.path.dropLast ++ [level.path.getLastD ""]])
      (fun _ => []) above = blocks.shape.preorder above := by
  induction blocks generalizing above with
  | nil => rfl
  | block name members inner classes rest ihInner ihRest =>
    rw [NamespaceBlocks.around, ihInner, ihRest]
    simp [NamespaceBlocks.shape, Forest.preorder]

/-- The blocks of namespaces stand in each other as their names do. -/
theorem namespacePaths_layout (layout : Layout) :
    namespacePaths layout.statements = layout.namespaces.shape.preorder [] := by
  have none : ∀ blocks : List ClassBlock,
      blocks.flatMap (fun _ => ([] : List (List String))) = [] :=
    fun _ => List.flatMap_eq_nil_iff.2 fun _ _ => rfl
  rw [namespacePaths, filterMap_layout _ fun _ => rfl, ← around_paths]
  simp only [foundIn_path, foundAbove_path, none, List.append_nil]

variable {m : Model} {id k : ClassId} {level : Level} {layout : Layout}

/-- Texts that are all for the members of one class. -/
theorem textsOf_textsAt {texts : List MemberText} (own : ∀ text ∈ texts, text.owner = k)
    (place : Place) :
    textsOf id (textsAt place texts) = if k = id then textsAt place texts else [] := by
  unfold textsOf textsAt
  split
  · rename_i same
    refine List.filter_eq_self.2 (List.forall_mem_map.2 fun text mem => ?_)
    exact beq_iff_eq.2 (same ▸ own text mem)
  · rename_i other
    refine List.filter_eq_nil_iff.2 (List.forall_mem_map.2 fun text mem same => other ?_)
    exact own text mem ▸ beq_iff_eq.1 same

/-- A block is filled from a model. -/
structure Fills (m : Model) (level : Level) : Prop where
  classes : Output.classBlocks m level.path = .ok level.classes
  members : level.path = [] ∧ level.members = [] ∨ ∃ above name, level.path = above ++ [name] ∧
    documentedTexts m above name = .ok level.members

theorem fills_of_namespaceBlocks {forest : Forest} {above : List String}
    {blocks : NamespaceBlocks} (h : namespaceBlocks m above forest = .ok blocks) :
    blocks.shape = forest ∧ ∀ level ∈ blocks.levels above, Fills m level := by
  induction forest generalizing above blocks with
  | nil =>
    obtain rfl := Except.ok.inj h
    exact ⟨rfl, fun level mem => absurd mem List.not_mem_nil⟩
  | node name children siblings ihChildren ihSiblings =>
    unfold namespaceBlocks at h
    obtain ⟨members, documented, h⟩ := bind_eq_ok.1 h
    obtain ⟨inner, below, h⟩ := bind_eq_ok.1 h
    obtain ⟨classes, here, h⟩ := bind_eq_ok.1 h
    obtain ⟨rest, after, same⟩ := bind_eq_ok.1 h
    obtain rfl := Except.ok.inj same
    obtain ⟨shape, fills⟩ := ihChildren below
    obtain ⟨shape', fills'⟩ := ihSiblings after
    refine ⟨by rw [NamespaceBlocks.shape, shape, shape'], ?_⟩
    rw [NamespaceBlocks.levels, List.cons_append, List.forall_mem_cons, List.forall_mem_append]
    exact ⟨⟨here, .inr ⟨above, name, rfl, documented⟩⟩, fills, fills'⟩

/-- **The blocks of a layout** stand in each other as the namespaces of the tree, and they are
filled from the model. -/
theorem shape_of_layout (h : Output.layout m = .ok layout) :
    layout.namespaces.shape = m.tree ∧ ∀ level ∈ layout.levels, Fills m level := by
  unfold Output.layout at h
  obtain ⟨namespaces, blocks, h⟩ := bind_eq_ok.1 h
  obtain ⟨classes, top, same⟩ := bind_eq_ok.1 h
  obtain rfl := Except.ok.inj same
  obtain ⟨shape, fills⟩ := fills_of_namespaceBlocks blocks
  exact ⟨shape, List.forall_mem_cons.2 ⟨⟨top, .inl ⟨rfl, rfl⟩⟩, fills⟩⟩

theorem exportName_of_layout (h : Output.layout m = .ok layout) :
    layout.exportName = m.settings.exportName := by
  unfold Output.layout at h
  obtain ⟨namespaces, -, h⟩ := bind_eq_ok.1 h
  obtain ⟨classes, -, same⟩ := bind_eq_ok.1 h
  rw [← Except.ok.inj same]

theorem paths_layout (shape : layout.namespaces.shape = m.tree) :
    layout.levels.map Level.path = [] :: m.tree.preorder [] := by
  rw [Layout.levels, List.map_cons, paths_levels, shape]

/-- What the block of a class holds. -/
theorem classBlock_eq_ok {block : ClassBlock} (h : classBlock m id = .ok block) :
    block.id = id ∧ classHeader m (m.classAt id) = .ok block.header ∧
      block.comment? = DocComment.ofClass? (m.classAt id) ∧
      Output.memberTexts m id = .ok block.members := by
  unfold classBlock at h
  obtain ⟨header, head, h⟩ := bind_eq_ok.1 h
  obtain ⟨members, texts, same⟩ := bind_eq_ok.1 h
  obtain rfl := Except.ok.inj same
  exact ⟨rfl, head, rfl, texts⟩

/-- A class has a block in the block of its namespace unless it documents a namespace. -/
theorem mem_blockIds_iff {path : List String} :
    id ∈ ((classIdsIn m path).filter fun id => !(m.classAt id).isPlainNamespace) ↔
      id < m.classes.length ∧ (m.classAt id).slot.home = path ∧
        (m.classAt id).isPlainNamespace = false := by
  simp only [classIdsIn, Model.classIds, List.mem_filter, List.mem_range, beq_iff_eq,
    Bool.not_eq_true', and_assoc]

namespace Fills

/-- The blocks of classes in a block are made from the model, and none is there twice. -/
theorem classes_made (h : Fills m level) :
    (level.classes.map ClassBlock.id).Nodup ∧
      (∀ block ∈ level.classes, classBlock m block.id = .ok block) ∧
      ∀ k, k ∈ level.classes.map ClassBlock.id ↔ k < m.classes.length ∧
        (m.classAt k).slot.home = level.path ∧ (m.classAt k).isPlainNamespace = false := by
  have pointwise := mapM_eq_ok_iff.1 h.classes
  have ids : level.classes.map ClassBlock.id =
      (classIdsIn m level.path).filter fun id => !(m.classAt id).isPlainNamespace := by
    have same : List.Forall₂ Eq ((classIdsIn m level.path).filter fun id =>
        !(m.classAt id).isPlainNamespace) (level.classes.map ClassBlock.id) :=
      List.forall₂_map_right_iff.2
        (pointwise.imp fun id block made => (classBlock_eq_ok made).1.symm)
    exact (List.forall₂_eq_eq_eq ▸ same).symm
  refine ⟨ids ▸ (List.nodup_range.filter _).filter _, fun block mem => ?_, fun k => ?_⟩
  · obtain ⟨id, -, made⟩ := exists_mem_of_forall₂ pointwise mem
    exact (classBlock_eq_ok made).1 ▸ made
  · rw [ids, mem_blockIds_iff]

/-- The texts of a class in the block of a class. -/
theorem textsOf_block (fills : Fills m level) (sound : m.Sound) {block : ClassBlock}
    (mem : block ∈ level.classes) (place : Place) :
    textsOf id (textsAt place block.members) =
      if block.id = id then textsAt place block.members else [] := by
  obtain ⟨-, made, -⟩ := fills.classes_made
  obtain ⟨-, -, -, texts⟩ := classBlock_eq_ok (made block mem)
  exact textsOf_textsAt (renders_of_memberTexts sound texts).owner place

/-- **The block of its namespace** has the block of a class, and the texts of the class are in
it. -/
theorem classes_of_home (fills : Fills m level) (sound : m.Sound)
    (registered : id < m.classes.length) (home : (m.classAt id).slot.home = level.path)
    (plain : (m.classAt id).isPlainNamespace = false) :
    ∃ block, classBlock m id = .ok block ∧
      (level.classes.filter fun block => block.id == id) = [block] ∧
      textsOf id level.classTexts = textsAt ⟨level.path, some id⟩ block.members := by
  obtain ⟨nodup, made, ids⟩ := fills.classes_made
  obtain ⟨block, mem, rfl⟩ := List.mem_map.1 ((ids id).2 ⟨registered, home, plain⟩)
  refine ⟨block, made block mem, filter_eq_of_nodup nodup mem, ?_⟩
  rw [textsOf, Level.classTexts, List.filter_flatMap]
  refine (flatMap_eq_of_nodup nodup mem fun other mem' ne => ?_).trans ?_
  · exact (fills.textsOf_block sound mem' _).trans (if_neg ne)
  · exact (fills.textsOf_block sound mem _).trans (if_pos rfl)

/-- Any other block has nothing of the block of a class. -/
theorem classes_elsewhere (fills : Fills m level) (sound : m.Sound)
    (other : (m.classAt id).slot.home = level.path → (m.classAt id).isPlainNamespace = true) :
    (level.classes.filter fun block => block.id == id) = [] ∧
      textsOf id level.classTexts = [] := by
  obtain ⟨-, -, ids⟩ := fills.classes_made
  have others : ∀ block ∈ level.classes, block.id ≠ id := by
    rintro block mem rfl
    obtain ⟨-, home, plain⟩ := (ids block.id).1 (List.mem_map_of_mem mem)
    rw [other home] at plain
    cases plain
  refine ⟨List.filter_eq_nil_iff.2 fun block mem same => others block mem (beq_iff_eq.1 same), ?_⟩
  rw [textsOf, Level.classTexts, List.filter_flatMap]
  refine List.flatMap_eq_nil_iff.2 fun block mem => ?_
  exact (fills.textsOf_block sound mem _).trans (if_neg (others block mem))

/-- The members in the block of a namespace are those of the class that documents it. -/
theorem members_cases (fills : Fills m level) (housed : m.Housed) :
    (level.members = [] ∧ ∀ id < m.classes.length, (m.classAt id).slot.path = level.path →
      (m.classAt id).isTrueClass = true) ∨
    ∃ id < m.classes.length, (m.classAt id).slot.path = level.path ∧
      (m.classAt id).isTrueClass = false ∧ Output.memberTexts m id = .ok level.members := by
  rcases fills.members with ⟨root, none⟩ | ⟨above, name, path, documented⟩
  · refine .inl ⟨none, fun id _ same => ?_⟩
    rw [root, Slot.path] at same
    simp at same
  · have slots : ∀ slot : Slot, slot.path = level.path ↔ slot = ⟨above, name⟩ := fun slot => by
      rw [path, ← Slot.path_inj]
      rfl
    simp only [slots]
    unfold documentedTexts at documented
    split at documented
    · rename_i free
      refine .inl ⟨(Except.ok.inj documented).symm, fun id registered same => ?_⟩
      rw [housed.inSlot?_eq_some_iff.2 ⟨registered, same⟩] at free
      cases free
    · rename_i id found
      obtain ⟨registered, same⟩ := housed.inSlot?_eq_some_iff.1 found
      split at documented
      · rename_i isTrue
        refine .inl ⟨(Except.ok.inj documented).symm, fun k registered' same' => ?_⟩
        rwa [housed.eq_of_slot_eq registered registered' (same'.trans same.symm)]
      · rename_i plain
        exact .inr ⟨id, registered, same, Bool.eq_false_iff.2 plain, documented⟩

/-- **The block of a namespace that a class documents** has the texts of the class. -/
theorem members_of_documented (fills : Fills m level) (sound : m.Sound) (housed : m.Housed)
    (registered : id < m.classes.length) (same : (m.classAt id).slot.path = level.path)
    (plain : (m.classAt id).isTrueClass = false) :
    Output.memberTexts m id = .ok level.members ∧
      textsOf id level.outerTexts = level.outerTexts := by
  rcases fills.members_cases housed with ⟨-, all⟩ | ⟨k, registered', same', -, texts⟩
  · rw [all id registered same] at plain
    cases plain
  · obtain rfl := housed.eq_of_slot_eq registered registered'
      (Slot.path_inj.1 (same'.trans same.symm))
    refine ⟨texts, ?_⟩
    rw [Level.outerTexts, textsOf_textsAt (renders_of_memberTexts sound texts).owner, if_pos rfl]

/-- Any other block has texts of a class in blocks of classes only. -/
theorem members_elsewhere (fills : Fills m level) (sound : m.Sound) (housed : m.Housed)
    (other : (m.classAt id).slot.path = level.path → (m.classAt id).isTrueClass = true) :
    textsOf id level.outerTexts = [] := by
  unfold Level.outerTexts
  rcases fills.members_cases housed with ⟨none, -⟩ | ⟨k, -, same, plain, texts⟩
  · rw [none]
    rfl
  · rw [textsOf_textsAt (renders_of_memberTexts sound texts).owner, if_neg]
    rintro rfl
    rw [other same] at plain
    cases plain

end Fills
end Output
end AmbientDecl
