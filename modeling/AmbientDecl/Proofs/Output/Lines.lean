/- # The lines of the file as statements

The lines of the declaration file are the lines of statements, one after the other: a statement
opens the block of a namespace or of a class, declares a member or closes the block that was opened
last.  Where a statement stands follows from the statements before it, and so does how deep its
lines are indented (`Place.after`, `linesAt`).

The lines of a layout are those of its statements (`Layout.print_eq`), and the statements are
nested: blocks of classes hold members only, members stand in blocks, and every block is closed
(`Layout.nested_statements`).
-/

import AmbientDecl.Output.Layout
import AmbientDecl.Proofs.Output.Comments

namespace AmbientDecl
namespace Output

open DocComment (spaces)

/-! ## Statements and places -/

/-- What opens the block of a class. -/
structure ClassHead where
  id : ClassId
  comment? : Option String
  header : String

/-- A statement of the declaration file. -/
inductive Statement where
  /-- Opens the block of a namespace. -/
  | openNamespace (name : String)
  /-- Opens the block of a class. -/
  | openClass (head : ClassHead)
  /-- Declares a member. -/
  | member (text : MemberText)
  /-- Closes the block that was opened last. -/
  | close

/-- Where a statement stands: in the block of a namespace, or in that of a class in it. -/
structure Place where
  path : List String
  class? : Option ClassId

namespace Place

/-- The top of the file. -/
def top : Place := ⟨[], none⟩

/-- The number of blocks that are open. -/
def depth (place : Place) : Nat :=
  place.path.length + if place.class?.isSome then 1 else 0

/-- Whether a statement may stand at a place: a block in no block of a class, and a member or the
end of a block where a block is open. -/
def allows (place : Place) : Statement → Bool
  | .openNamespace _ | .openClass _ => place.class?.isNone
  | .member _ | .close => place.depth != 0

/-- The place after a statement. -/
def after (place : Place) : Statement → Place
  | .openNamespace name => ⟨place.path ++ [name], none⟩
  | .openClass head => ⟨place.path, some head.id⟩
  | .member _ => place
  | .close => if place.class?.isSome then ⟨place.path, none⟩ else ⟨place.path.dropLast, none⟩

/-- The indentation of what stands at a place. -/
def indentation (place : Place) : String := spaces (2 * place.depth)

/-- The word before a block that is opened at a place. -/
def declareWord (place : Place) : String := if place.depth = 0 then "declare " else ""

end Place

/-- The lines of a statement that stands at a place. -/
def Statement.lines (place : Place) : Statement → List String
  | openNamespace name =>
    [place.indentation ++ place.declareWord ++ "namespace " ++ name ++ " \x7b"]
  | openClass head =>
    head.comment?.toList.flatMap (DocComment.indent place.indentation) ++
      [place.indentation ++ place.declareWord ++ head.header ++ " \x7b"]
  | member text =>
    text.comment?.toList.flatMap (DocComment.indent place.indentation) ++
      text.declarations.map fun declaration => place.indentation ++ declaration ++ ";"
  | close => [(place.after close).indentation ++ "\x7d"]

/-- The lines of statements from a place on. -/
def linesAt (place : Place) : List Statement → List String
  | [] => []
  | statement :: rest => statement.lines place ++ linesAt (place.after statement) rest

/-- Statements from a place on, each with the place where it stands. -/
def placed (place : Place) : List Statement → List (Place × Statement)
  | [] => []
  | statement :: rest => (place, statement) :: placed (place.after statement) rest

/-- The text of a file of statements, with the line for what it exports at its end. -/
def fileText (statements : List Statement) (exportName : String) : String :=
  "\n".intercalate (linesAt .top statements ++ ["export default " ++ exportName ++ ";"]) ++ "\n"

/-- Every statement may stand where it does, and no block is left open. -/
structure Nested (statements : List Statement) : Prop where
  allowed : ∀ entry ∈ placed .top statements, entry.1.allows entry.2 = true
  closed : statements.foldl Place.after .top = .top

/-- The path of the namespace whose block a statement opens. -/
def openedPath? : Place × Statement → Option (List String)
  | (place, .openNamespace name) => some (place.path ++ [name])
  | _ => none

/-- What opens the block of a class, with the place where it stands. -/
def openedHead? : Place × Statement → Option (Place × ClassHead)
  | (place, .openClass head) => some (place, head)
  | _ => none

/-- The text for a member, with the place where it stands. -/
def declaredText? : Place × Statement → Option (Place × MemberText)
  | (place, .member text) => some (place, text)
  | _ => none

/-- The paths of the namespaces whose blocks are opened. -/
def namespacePaths (statements : List Statement) : List (List String) :=
  (placed .top statements).filterMap openedPath?

/-- What opens the blocks of classes, each with its place. -/
def classHeads (statements : List Statement) : List (Place × ClassHead) :=
  (placed .top statements).filterMap openedHead?

/-- The texts for members, each with its place. -/
def placedTexts (statements : List Statement) : List (Place × MemberText) :=
  (placed .top statements).filterMap declaredText?

theorem linesAt_append (place : Place) (before more : List Statement) :
    linesAt place (before ++ more) =
      linesAt place before ++ linesAt (before.foldl Place.after place) more := by
  induction before generalizing place with
  | nil => rfl
  | cons statement before ih =>
    rw [List.cons_append, linesAt, linesAt, ih, List.append_assoc, List.foldl_cons]

theorem placed_append (place : Place) (before more : List Statement) :
    placed place (before ++ more) =
      placed place before ++ placed (before.foldl Place.after place) more := by
  induction before generalizing place with
  | nil => rfl
  | cons statement before ih =>
    rw [List.cons_append, placed, placed, ih, List.cons_append, List.foldl_cons]

/-! ## The statements of a layout -/

/-- What opens the block of a class. -/
def ClassBlock.head (block : ClassBlock) : ClassHead := ⟨block.id, block.comment?, block.header⟩

/-- The statements of the block of a class. -/
def ClassBlock.statements (block : ClassBlock) : List Statement :=
  .openClass block.head :: block.members.map .member ++ [.close]

/-- The statements of the blocks of namespaces. -/
def NamespaceBlocks.statements : NamespaceBlocks → List Statement
  | nil => []
  | block name members inner classes rest =>
    .openNamespace name :: members.map .member ++ inner.statements ++
      classes.flatMap ClassBlock.statements ++ .close :: rest.statements

/-- The statements of a layout. -/
def Layout.statements (layout : Layout) : List Statement :=
  layout.namespaces.statements ++ layout.classes.flatMap ClassBlock.statements

/-! ## Lines -/

theorem commentLines_eq (indentation : String) (comment? : Option String) :
    commentLines indentation comment? =
      comment?.toList.flatMap (DocComment.indent indentation) := by
  cases comment? with
  | none => rfl
  | some comment => exact (List.flatMap_singleton ..).symm

theorem deeper_spaces (n : Nat) : deeper (spaces n) = spaces (n + 2) := by
  rw [deeper, spaces, spaces, List.replicate_add, String.ofList_append]
  rfl

theorem declareWord_spaces (place : Place) :
    Output.declareWord place.indentation = place.declareWord := by
  have same : place.indentation = "" ↔ place.depth = 0 := by
    rw [← String.toList_inj, Place.indentation, spaces, String.toList_ofList]
    simp only [String.toList_empty, List.replicate_eq_nil_iff]
    omega
  rw [Output.declareWord, Place.declareWord]
  simp only [same]

variable (above path : List String) (name : String) (id : ClassId)

theorem indentation_class :
    (⟨path, some id⟩ : Place).indentation = deeper (⟨path, none⟩ : Place).indentation :=
  (deeper_spaces (2 * path.length)).symm

theorem indentation_namespace : (⟨above ++ [name], none⟩ : Place).indentation =
    deeper (⟨above, none⟩ : Place).indentation := by
  rw [Place.indentation, Place.indentation, deeper_spaces]
  simp [Place.depth, Nat.mul_add]

/-- The end of the block of a namespace leads back to the block that it is in. -/
theorem after_close :
    (⟨above ++ [name], none⟩ : Place).after .close = ⟨above, none⟩ := by
  simp [Place.after]

/-- A member leaves the place as it is. -/
theorem foldl_after_members (place : Place) (texts : List MemberText) :
    (texts.map Statement.member).foldl Place.after place = place := by
  induction texts with
  | nil => rfl
  | cons text texts ih => exact ih

theorem linesAt_members (place : Place) (texts : List MemberText) :
    linesAt place (texts.map .member) = texts.flatMap (MemberText.lines place.indentation) := by
  induction texts with
  | nil => rfl
  | cons text texts ih =>
    rw [List.map_cons, linesAt, Place.after, ih, List.flatMap_cons, MemberText.lines,
      commentLines_eq]
    rfl

/-- The block of a class leads back to the place where it stands. -/
theorem foldl_after_block (block : ClassBlock) :
    block.statements.foldl Place.after ⟨path, none⟩ = ⟨path, none⟩ := by
  rw [ClassBlock.statements, List.cons_append, List.foldl_cons, List.foldl_append,
    foldl_after_members]
  rfl

theorem linesAt_block (block : ClassBlock) :
    linesAt ⟨path, none⟩ block.statements =
      block.lines (⟨path, none⟩ : Place).indentation := by
  rw [ClassBlock.statements, List.cons_append, linesAt, Place.after, linesAt_append,
    linesAt_members, foldl_after_members, ClassBlock.lines, declareWord_spaces, commentLines_eq,
    indentation_class]
  simp [linesAt, Statement.lines, Place.after, ClassBlock.head]

theorem foldl_after_blocks (blocks : List ClassBlock) :
    (blocks.flatMap ClassBlock.statements).foldl Place.after ⟨path, none⟩ = ⟨path, none⟩ := by
  induction blocks with
  | nil => rfl
  | cons block blocks ih => rw [List.flatMap_cons, List.foldl_append, foldl_after_block, ih]

theorem linesAt_blocks (blocks : List ClassBlock) :
    linesAt ⟨path, none⟩ (blocks.flatMap ClassBlock.statements) =
      blocks.flatMap (ClassBlock.lines (⟨path, none⟩ : Place).indentation) := by
  induction blocks with
  | nil => rfl
  | cons block blocks ih =>
    rw [List.flatMap_cons, linesAt_append, linesAt_block, foldl_after_block, ih, List.flatMap_cons]

/-- So do the blocks of namespaces. -/
theorem foldl_after_namespaces (blocks : NamespaceBlocks) :
    blocks.statements.foldl Place.after ⟨above, none⟩ = ⟨above, none⟩ := by
  induction blocks generalizing above with
  | nil => rfl
  | block name members inner classes rest ihInner ihRest =>
    rw [NamespaceBlocks.statements]
    simp only [List.foldl_cons, List.foldl_append]
    rw [Place.after, foldl_after_members, ihInner, foldl_after_blocks, after_close, ihRest]

/-- **The lines of the blocks of namespaces** are those of their statements. -/
theorem linesAt_namespaces (blocks : NamespaceBlocks) :
    linesAt ⟨above, none⟩ blocks.statements =
      blocks.lines (⟨above, none⟩ : Place).indentation := by
  induction blocks generalizing above with
  | nil => rfl
  | block name members inner classes rest ihInner ihRest =>
    rw [NamespaceBlocks.statements, NamespaceBlocks.lines, declareWord_spaces]
    simp only [List.cons_append, List.append_assoc]
    rw [linesAt, Place.after, linesAt_append, linesAt_members, foldl_after_members, linesAt_append,
      ihInner, foldl_after_namespaces, linesAt_append, linesAt_blocks, foldl_after_blocks, linesAt,
      after_close, ihRest, indentation_namespace]
    simp only [Statement.lines, after_close, List.cons_append, List.nil_append]

/-- **The text of a layout** is that of its statements. -/
theorem Layout.print_eq (layout : Layout) :
    layout.print = fileText layout.statements layout.exportName := by
  have lines : linesAt .top layout.statements =
      layout.namespaces.lines "" ++ layout.classes.flatMap (ClassBlock.lines "") := by
    rw [Layout.statements, linesAt_append, Place.top, linesAt_namespaces, foldl_after_namespaces,
      linesAt_blocks]
    rfl
  rw [Layout.print, fileText, lines]

/-! ## Places -/

theorem placed_members (place : Place) (texts : List MemberText) :
    placed place (texts.map .member) = texts.map fun text => (place, .member text) := by
  induction texts with
  | nil => rfl
  | cons text texts ih => exact congrArg (List.cons _) ih

theorem placed_block (block : ClassBlock) :
    placed ⟨path, none⟩ block.statements =
      (⟨path, none⟩, .openClass block.head) ::
        block.members.map (fun text => (⟨path, some block.id⟩, .member text)) ++
        [(⟨path, some block.id⟩, .close)] := by
  rw [ClassBlock.statements, List.cons_append, placed, Place.after, placed_append, placed_members,
    foldl_after_members]
  rfl

theorem placed_blocks (blocks : List ClassBlock) :
    placed ⟨path, none⟩ (blocks.flatMap ClassBlock.statements) =
      blocks.flatMap fun block => placed ⟨path, none⟩ block.statements := by
  induction blocks with
  | nil => rfl
  | cons block blocks ih =>
    rw [List.flatMap_cons, placed_append, foldl_after_block, ih, List.flatMap_cons]

theorem placed_namespaces (members : List MemberText) (inner rest : NamespaceBlocks)
    (classes : List ClassBlock) :
    placed ⟨above, none⟩ (NamespaceBlocks.block name members inner classes rest).statements =
      (⟨above, none⟩, .openNamespace name) ::
        members.map (fun text => (⟨above ++ [name], none⟩, .member text)) ++
        placed ⟨above ++ [name], none⟩ inner.statements ++
        (classes.flatMap fun block => placed ⟨above ++ [name], none⟩ block.statements) ++
        (⟨above ++ [name], none⟩, .close) :: placed ⟨above, none⟩ rest.statements := by
  rw [NamespaceBlocks.statements]
  simp only [List.cons_append, List.append_assoc]
  rw [placed, Place.after, placed_append, placed_members, foldl_after_members, placed_append,
    foldl_after_namespaces, placed_append, placed_blocks, foldl_after_blocks, placed,
    after_close]

theorem allows_block {block : ClassBlock} {entry : Place × Statement}
    (mem : entry ∈ placed ⟨path, none⟩ block.statements) : entry.1.allows entry.2 = true := by
  rw [placed_block] at mem
  simp only [List.cons_append, List.mem_cons, List.mem_append, List.mem_map, List.not_mem_nil,
    or_false] at mem
  obtain rfl | ⟨text, -, rfl⟩ | rfl := mem
  · rfl
  · simp [Place.allows, Place.depth]
  · simp [Place.allows, Place.depth]

theorem allows_namespaces {blocks : NamespaceBlocks} {entry : Place × Statement}
    (mem : entry ∈ placed ⟨above, none⟩ blocks.statements) : entry.1.allows entry.2 = true := by
  induction blocks generalizing above with
  | nil => cases mem
  | block name members inner classes rest ihInner ihRest =>
    rw [placed_namespaces] at mem
    simp only [List.cons_append, List.mem_cons, List.mem_append, List.mem_map, List.mem_flatMap]
      at mem
    obtain rfl | ((⟨text, -, rfl⟩ | inside) | ⟨block, -, inClass⟩) | rfl | after := mem
    · rfl
    · simp [Place.allows, Place.depth]
    · exact ihInner _ inside
    · exact allows_block _ inClass
    · simp [Place.allows, Place.depth]
    · exact ihRest _ after

/-- **The statements of a layout are nested.** -/
theorem Layout.nested_statements (layout : Layout) : Nested layout.statements where
  allowed entry mem := by
    rw [Layout.statements, placed_append, Place.top, foldl_after_namespaces, placed_blocks] at mem
    rcases List.mem_append.1 mem with mem | mem
    · exact allows_namespaces _ mem
    · obtain ⟨block, -, mem⟩ := List.mem_flatMap.1 mem
      exact allows_block _ mem
  closed := by
    rw [Layout.statements, List.foldl_append, Place.top, foldl_after_namespaces,
      foldl_after_blocks]

end Output
end AmbientDecl
