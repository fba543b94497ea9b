/- # The text of a type is read back

The text of a lowered type is put together without blanks.  It is a row of operands with bars
between them, and these spell its normal branches (`Readable.spelling`).  So it is read as the
normal form, to its end (`Spelling.readsWhole`).
-/

import AmbientDecl.Proofs.TypeExpr.Brackets
import AmbientDecl.Proofs.TypeExpr.Normal
import AmbientDecl.Proofs.TypeExpr.Spells

namespace AmbientDecl
namespace TypeExpr

open Token TypeText

variable {cs ds : List Char} {e : TypeExpr} {es fs : List TypeExpr}

/-- No character of a name is a bracket or a bar. -/
theorem markOf_of_isName {c : Char} (h : IsName cs) (mem : c ∈ cs) : markOf c = .plain := by
  have outside : ('|' :: (openers ++ closers)).all
      (fun d => !isNameChar d && d != '?' && d != '*') = true := by decide
  have notMark : c ∉ '|' :: (openers ++ closers) := fun mark => by
    have apart := List.all_eq_true.1 outside c mark
    rcases h.chars c mem with char | rfl | rfl
    · simp [char] at apart
    · exact absurd apart (by decide)
    · exact absurd apart (by decide)
  simp only [List.mem_cons, List.mem_append, not_or] at notMark
  rw [markOf, if_neg notMark.2.1, if_neg notMark.2.2, if_neg notMark.1]

/-- The text is an operand, and no bar in it stands outside of all brackets. -/
structure SpellsOperand (cs : List Char) (e : TypeExpr) : Prop where
  spells : Spells cs (.operand e)
  closed : Closed cs
  unbroken : ∀ c ∈ cs, Text.isBlank c = false

/-- The text is a row of operands with bars between them. -/
inductive Spelling : List Char → List TypeExpr → Prop where
  | operand {cs : List Char} {e : TypeExpr} (operand : SpellsOperand cs e) : Spelling cs [e]
  | bar {cs ds : List Char} {es fs : List TypeExpr} (before : Spelling cs es)
      (after : Spelling ds fs) : Spelling (cs ++ '|' :: ds) (es ++ fs)

namespace Spelling

theorem ne_nil (h : Spelling cs es) : es ≠ [] := by
  induction h with
  | operand => exact List.cons_ne_nil _ _
  | bar _ _ ih => simp [ih]

/-- One operand alone has no bar. -/
theorem single (h : Spelling cs [e]) : SpellsOperand cs e := by
  generalize same : [e] = es at h
  cases h with
  | operand operand =>
    cases same
    exact operand
  | bar before after =>
    have lengths := congrArg List.length same
    have some := List.length_pos_of_ne_nil before.ne_nil
    have some' := List.length_pos_of_ne_nil after.ne_nil
    rw [List.length_append, List.length_singleton] at lengths
    omega

theorem union (h : Spelling cs es) (free : Bool) : Spells cs (.union free es) := by
  induction h with
  | operand operand => exact operand.spells.mono fun h => .single (.plain h)
  | bar _ _ before after =>
    simpa [joinedBy] using before.bar after (Blanks.nil free) (Blanks.nil free)

theorem unbroken (h : Spelling cs es) : ∀ c ∈ cs, Text.isBlank c = false := by
  induction h with
  | operand operand => exact operand.unbroken
  | bar _ _ before after =>
    exact List.forall_mem_append.2 ⟨before, List.forall_mem_cons.2 ⟨rfl, after⟩⟩

theorem enclosed (h : Spelling cs es) : Enclosed cs := by
  induction h with
  | operand operand => exact operand.closed.enclosed
  | bar _ _ before after => exact before.append (Enclosed.bar.append after)

/-- The bars outside all brackets stand between the operands. -/
theorem parts_append (h : Spelling cs es) (rest : List Char) :
    parts 0 (cs ++ rest) + 1 = es.length + parts 0 rest := by
  induction h generalizing rest with
  | operand operand =>
    rw [operand.closed 0 rest (Int.le_refl 0), List.length_singleton, Nat.add_comm]
  | @bar cs ds es fs _ _ before after =>
    have first := before ('|' :: (ds ++ rest))
    have second := after rest
    rw [parts_bar] at first
    rw [List.append_assoc, List.cons_append, List.length_append]
    omega

theorem length_branches {text : String} (h : Spelling text.toList es) :
    (branches text).length = es.length := by
  have whole := h.parts_append []
  rw [List.append_nil, parts_nil] at whole
  rw [TypeText.length_branches]
  omega

end Spelling

namespace SpellsOperand

theorem name {n : String} (h : IsName n.toList) : SpellsOperand n.toList (name n) where
  spells := .name h
  closed := .of_plain fun _ => markOf_of_isName h
  unbroken := (isName_iff.1 h).1.unbroken nofun

theorem generic {base : String} (isName : IsName base.toList) (h : Spelling cs es) :
    SpellsOperand (base.toList ++ '<' :: (cs ++ ['>'])) (generic base [ofBranches es]) where
  spells := by
    simpa [bracketed] using
      Spells.generic isName (h.union true).argument (Blanks.nil true) (Blanks.nil true)
  closed := (name isName).closed.append (h.enclosed.closed rfl rfl)
  unbroken :=
    List.forall_mem_append.2 ⟨(name isName).unbroken,
      List.forall_mem_cons.2
        ⟨rfl, List.forall_mem_append.2 ⟨h.unbroken, List.forall_mem_singleton.2 rfl⟩⟩⟩

theorem array (h : SpellsOperand cs e) : SpellsOperand (cs ++ ['[', ']']) (array e) where
  spells := h.spells.array
  closed := h.closed.append (Closed.nil.enclosed.closed rfl rfl)
  unbroken :=
    List.forall_mem_append.2
      ⟨h.unbroken, List.forall_mem_cons.2 ⟨rfl, List.forall_mem_singleton.2 rfl⟩⟩

theorem paren (h : Spelling cs es) : SpellsOperand ('(' :: (cs ++ [')'])) (ofBranches es) where
  spells := by simpa [bracketed] using (h.union true).paren (Blanks.nil true) (Blanks.nil true)
  closed := h.enclosed.closed rfl rfl
  unbroken :=
    List.forall_mem_cons.2
      ⟨rfl, List.forall_mem_append.2 ⟨h.unbroken, List.forall_mem_singleton.2 rfl⟩⟩

end SpellsOperand

/-- The texts of several types with bars between them spell all their branches. -/
theorem spelling_intercalate (some : es ≠ [])
    (each : ∀ e ∈ es, Spelling (render e).toList (normalBranches e)) :
    Spelling ("|".intercalate (es.map render)).toList (es.flatMap normalBranches) := by
  induction es with
  | nil => exact absurd rfl some
  | cons e rest ih =>
    obtain ⟨first, each⟩ := List.forall_mem_cons.1 each
    cases rest with
    | nil => simpa using first
    | cons e' rest =>
      have longer := first.bar (ih (List.cons_ne_nil _ _) each)
      simpa using longer

/-- **The text of a lowered type spells the branches of its normal form.** -/
theorem Readable.spelling (h : e.Readable) : Spelling (render e).toList (normalBranches e) := by
  induction h with
  | name isName => exact .operand (.name isName)
  | @generic base args isName some each ih =>
    have arguments := spelling_intercalate some ih
    have whole := Spelling.operand (.generic isName arguments)
    rw [normalBranches, normalBranchesAll_eq_flatMap, render, renderAll_eq_map]
    simpa using whole
  | union some each ih =>
    rw [normalBranches, normalBranchesAll_eq_flatMap, render, renderAll_eq_map]
    exact spelling_intercalate some ih
  | @array element _ ih =>
    rw [normalBranches, render, ih.length_branches]
    split
    next several =>
      have whole := Spelling.operand (SpellsOperand.paren ih).array
      simpa using whole
    next one =>
      -- one branch is an operand and needs no parentheses
      have some := List.length_pos_of_ne_nil ih.ne_nil
      have length : (normalBranches element).length = 1 := by omega
      obtain ⟨e, single⟩ := List.length_eq_one_iff.1 length
      rw [single] at ih ⊢
      simpa [ofBranches] using Spelling.operand ih.single.array
  | variadic _ ih => exact ih

/-- **A text that spells branches is read as their union, to its end.** -/
theorem Spelling.readsWhole {text : String} (h : Spelling text.toList es) :
    ReadsWhole text (ofBranches es) :=
  (h.union false).readsWhole (Text.trim_of_unbroken h.unbroken)

namespace Readable

variable {e' : TypeExpr}

/-- The text of a lowered type is read as the normal form. -/
theorem readsWhole_render (h : e.Readable) : ReadsWhole (render e) (normal e) :=
  h.spelling.readsWhole

/-- **Types have one text exactly if they have one normal form.** -/
theorem render_eq_iff (h : e.Readable) (h' : e'.Readable) :
    render e = render e' ↔ normal e = normal e' := by
  constructor
  · intro same
    have again := h.readsWhole_render.read
    rw [same, h'.readsWhole_render.read] at again
    exact (Except.ok.inj again).symm
  · intro same
    rw [← h.render_normal, same, h'.render_normal]

/-- A normal form is its own. -/
theorem normal_normal (h : e.Readable) : normal (normal e) = normal e :=
  ((readable_of_read h.readsWhole_render.read).render_eq_iff h).1 h.render_normal

end Readable

end TypeExpr
end AmbientDecl
