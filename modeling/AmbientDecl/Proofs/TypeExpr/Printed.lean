/- # Types are read back as they are printed

A type is printed with parentheses around all that needs them and around any part that does not, and
with blanks inside of brackets and around commas and bars (`Prints`).  Whatever is printed for a
well-formed type spells it (`Prints.spelled`), so reading undoes printing.  As all that is read is
well formed and every well-formed type can be printed, the well-formed types are those that are read
(`read_printed`).
-/

import AmbientDecl.Proofs.TypeExpr.Readable
import AmbientDecl.Proofs.TypeExpr.Spells

namespace AmbientDecl
namespace TypeExpr

open Token

variable {cs ds left right : List Char} {e : TypeExpr} {es : List TypeExpr}

/-- What is printed: a type, or a row of types with a mark between them. -/
inductive Part where
  | type (e : TypeExpr)
  | row (mark : Char) (es : List TypeExpr)

/-- The texts that a part is printed as. -/
inductive Prints : Part → List Char → Prop where
  | name (n : String) : Prints (.type (name n)) n.toList
  | generic (base : String) {args : List TypeExpr} {cs left right : List Char}
      (row : Prints (.row ',' args) cs) (before : Blanks true left) (after : Blanks true right) :
      Prints (.type (generic base args)) (base.toList ++ bracketed '<' '>' left cs right)
  | union {branches : List TypeExpr} {cs left right : List Char}
      (row : Prints (.row '|' branches) cs) (before : Blanks true left)
      (after : Blanks true right) :
      Prints (.type (union branches)) (bracketed '(' ')' left cs right)
  | array {element : TypeExpr} {cs left right : List Char} (inside : Prints (.type element) cs)
      (before : Blanks true left) (after : Blanks true right) :
      Prints (.type (array element)) (bracketed '(' ')' left cs right ++ ['[', ']'])
  | ahead {inner : TypeExpr} {cs left right : List Char} (inside : Prints (.type inner) cs)
      (before : Blanks true left) (after : Blanks true right) :
      Prints (.type (variadic inner)) (['.', '.', '.'] ++ bracketed '(' ')' left cs right)
  | behind {inner : TypeExpr} {cs left right : List Char} (inside : Prints (.type inner) cs)
      (before : Blanks true left) (after : Blanks true right) :
      Prints (.type (variadic inner)) (bracketed '(' ')' left cs right ++ ['.', '.', '.'])
  /-- Parentheses around any part. -/
  | paren {e : TypeExpr} {cs left right : List Char} (inside : Prints (.type e) cs)
      (before : Blanks true left) (after : Blanks true right) :
      Prints (.type e) (bracketed '(' ')' left cs right)
  | single {mark : Char} {e : TypeExpr} {cs : List Char} (only : Prints (.type e) cs) :
      Prints (.row mark [e]) cs
  | more {mark : Char} {es : List TypeExpr} {e : TypeExpr} {cs left right ds : List Char}
      (row : Prints (.row mark es) cs) (before : Blanks true left) (after : Blanks true right)
      (last : Prints (.type e) ds) :
      Prints (.row mark (es ++ [e])) (joinedBy mark cs left right ds)

/-- The types of a part are well formed. -/
def Part.WellFormed : Part → Prop
  | type e => e.WellFormed
  | row _ es => ∀ e ∈ es, e.WellFormed

/-- The text spells a branch, or a union or arguments by the mark between them. -/
def Part.Spelled : Part → List Char → Prop
  | type e, cs => Spells cs (.branch e)
  | row mark es, cs =>
    (mark = '|' → Spells cs (.union true es)) ∧ (mark = ',' → Spells cs (.arguments es))

/-- A union of several branches stands for itself. -/
theorem ofBranches_of_several (several : 2 ≤ es.length) : ofBranches es = union es := by
  match es with
  | [_] => simp at several
  | _ :: _ :: _ => rfl

/-- **What is printed spells the part.** -/
theorem Prints.spelled {part : Part} (h : Prints part cs) (wellFormed : part.WellFormed) :
    part.Spelled cs := by
  induction h with
  | name n =>
    cases wellFormed with
    | name pattern undotted => exact (Spells.name (isName_iff.2 ⟨pattern, undotted⟩)).mono .plain
  | generic base _ before after ih =>
    cases wellFormed with
    | generic pattern undotted some each =>
      have isName := isName_iff.2 ⟨pattern, undotted⟩
      exact (Spells.generic isName ((ih each).2 rfl) before after).mono .plain
  | union _ before after ih =>
    cases wellFormed with
    | union several each =>
      have operand := ((ih each).1 rfl).paren before after
      rw [ofBranches_of_several several] at operand
      exact operand.mono .plain
  | array _ before after ih =>
    cases wellFormed with
    | array wellFormed =>
      exact ((ih wellFormed).single.paren before after).array.mono .plain
  | ahead _ before after ih =>
    cases wellFormed with
    | variadic wellFormed => exact ((ih wellFormed).single.paren before after).ahead
  | behind _ before after ih =>
    cases wellFormed with
    | variadic wellFormed => exact (ih wellFormed).single.behind before after
  | paren _ before after ih => exact ((ih wellFormed).single.paren before after).mono .plain
  | single _ ih =>
    have branch := ih (wellFormed _ (by simp))
    exact ⟨fun _ => branch.single, fun _ => branch.single.argument⟩
  | more _ before after _ ih ih' =>
    obtain ⟨union, arguments⟩ := ih fun e mem => wellFormed e (by simp [mem])
    have branch := ih' (wellFormed _ (by simp))
    refine ⟨?_, ?_⟩
    · rintro rfl
      exact (union rfl).bar branch.single before after
    · rintro rfl
      exact (arguments rfl).comma branch.single before after

theorem getLast?_bracketed (opening closing : Char) (left cs right : List Char) :
    (bracketed opening closing left cs right).getLast? = some closing := by
  rw [bracketed, ← List.cons_append, List.getLast?_concat]

/-- What is printed for a type does not end with a blank. -/
theorem Prints.ends (h : Prints (.type e) cs) (wellFormed : e.WellFormed) :
    ∀ c ∈ cs.getLast?, Text.isBlank c = false := by
  intro c last
  cases h with
  | name n =>
    cases wellFormed with
    | name pattern => exact pattern.unbroken nofun c (List.mem_of_getLast? last)
  | _ =>
    -- the last character is a closing bracket or a dot
    simp only [List.getLast?_append, getLast?_bracketed] at last
    cases last
    rfl

/-- **What is printed for a well-formed type is read as this type.** -/
theorem Prints.read {text : String} (h : Prints (.type e) text.toList)
    (wellFormed : e.WellFormed) : read text = .ok e := by
  have spelled : Spells text.toList (.branch e) := h.spelled wellFormed
  have start : ∀ c ∈ text.toList.head?, Text.isBlank c = false := by
    simpa using spelled.start .nil
  have union : Spells text.toList (.union false [e]) := spelled.single
  exact (union.readsWhole (Text.trim_eq_self start (h.ends wellFormed))).read

/-- A row of types that can be printed can be printed. -/
theorem exists_prints_row (mark : Char) (some : es ≠ [])
    (each : ∀ e ∈ es, ∃ cs, Prints (.type e) cs) : ∃ cs, Prints (.row mark es) cs := by
  induction es using List.reverseRecOn with
  | nil => exact absurd rfl some
  | append_singleton es e ih =>
    obtain ⟨each, last⟩ := List.forall_mem_append.1 each
    obtain ⟨ds, last⟩ := last e List.mem_cons_self
    by_cases only : es = []
    · subst only
      exact ⟨ds, .single last⟩
    · obtain ⟨cs, row⟩ := ih only each
      exact ⟨_, .more row (.nil true) (.nil true) last⟩

/-- Every well-formed type can be printed. -/
theorem WellFormed.exists_prints (h : e.WellFormed) : ∃ cs, Prints (.type e) cs := by
  induction h with
  | name => exact ⟨_, .name _⟩
  | generic _ _ some _ ih =>
    obtain ⟨cs, row⟩ := exists_prints_row ',' some ih
    exact ⟨_, .generic _ row (.nil true) (.nil true)⟩
  | union several _ ih =>
    have some := List.ne_nil_of_length_pos (Nat.lt_of_lt_of_le Nat.zero_lt_two several)
    obtain ⟨cs, row⟩ := exists_prints_row '|' some ih
    exact ⟨_, .union row (.nil true) (.nil true)⟩
  | array _ ih =>
    obtain ⟨cs, inside⟩ := ih
    exact ⟨_, .array inside (.nil true) (.nil true)⟩
  | variadic _ ih =>
    obtain ⟨cs, inside⟩ := ih
    exact ⟨_, .behind inside (.nil true) (.nil true)⟩

/-- **Reading undoes printing, and reaches exactly the well-formed types.**  What a text is read as
is well formed.  A well-formed type can be printed, and however it is printed, the text is read as
the type. -/
theorem read_printed :
    (∀ text e, read text = .ok e → e.WellFormed) ∧
      ∀ e : TypeExpr, e.WellFormed →
        (∃ text : String, Prints (.type e) text.toList) ∧
          ∀ text : String, Prints (.type e) text.toList → read text = .ok e := by
  refine ⟨fun _ _ => wellFormed_of_read, fun e wellFormed => ⟨?_, fun _ h => h.read wellFormed⟩⟩
  obtain ⟨cs, printed⟩ := wellFormed.exists_prints
  exact ⟨String.ofList cs, by rwa [String.toList_ofList]⟩

/-- A type with blanks inside of brackets, parentheses that it does not need, and ellipses at either
side. -/
theorem read_printed_map :
    read "( Map<* , (...(A.b))[]>|((K?)...))" = .ok (union [generic "Map" [name "*",
      array (variadic (name "A.b"))], variadic (name "K?")]) := by
  have plain : read "Map<*,(...A.b)[]>|K?..." = .ok (union [generic "Map" [name "*",
    array (variadic (name "A.b"))], variadic (name "K?")]) := by rfl
  have none : Blanks true [] := .nil true
  have one : Blanks true [' '] := by simp [Blanks, Text.isBlank]
  have element : Prints (.type (array (variadic (name "A.b")))) _ :=
    .array (.ahead (.name "A.b") none none) none none
  have arguments : Prints (.row ',' ([name "*"] ++ [array (variadic (name "A.b"))])) _ :=
    .more (.single (.name "*")) one one element
  have last : Prints (.type (variadic (name "K?"))) _ :=
    .paren (.behind (.name "K?") none none) none none
  have branches : Prints (.row '|' ([generic "Map" _] ++ [variadic (name "K?")])) _ :=
    .more (.single (.generic "Map" arguments none none)) none none last
  have printed := Prints.union branches one none
  exact (read_printed.2 _ (read_printed.1 _ _ plain)).2 _ printed

end TypeExpr
end AmbientDecl
