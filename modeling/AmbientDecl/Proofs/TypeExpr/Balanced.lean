/- # Balanced texts and their branches

The **level** of a text is the number of the brackets that open in it less that of those that close.
A text is **balanced** when no start of it has a level below zero and the whole has the level zero.
In brackets, a text starts at another depth and may close more than it opens (`Settles`); this is
what the inductions over a text carry.

* Balanced texts one after the other are balanced, and so is a balanced text in brackets
  (`Settles.append`, `IsBalanced.bracketed`).
* A bar between balanced texts parts them, so the branches of the whole are those of the texts
  (`branches_intercalate`).
* A branch of a text is the only branch of itself (`branches_of_mem`), and a branch of a balanced
  text is balanced (`IsBalanced.of_mem`).
* What holds no bar belongs to the last branch of a text that it is put after
  (`parts_append_of_barless`), so two brackets apply to the whole of a text that is one branch.
-/

import AmbientDecl.Proofs.TypeExpr.Brackets

namespace AmbientDecl
namespace TypeText

variable {cs ds : List Char} {depth depth' : Int} {c opening closing : Char}

/-- The brackets that open less those that close. -/
def level (cs : List Char) : Int := cs.countP (· ∈ openers) - cs.countP (· ∈ closers)

/-- From a depth on, the running count of the brackets never goes below zero and ends at zero. -/
structure Settles (depth : Int) (cs : List Char) : Prop where
  nonneg : ∀ start, start <+: cs → 0 ≤ depth + level start
  settled : depth + level cs = 0

/-- The running count of the brackets never goes below zero and ends at zero. -/
def IsBalanced (text : String) : Prop := Settles 0 text.toList

/-- The text holds no bracket and no bar. -/
def Plain (text : String) : Prop := ∀ c ∈ text.toList, markOf c = .plain

@[simp] theorem level_nil : level [] = 0 := rfl

/-- A character moves the level as it moves the depth. -/
theorem level_cons (c : Char) (cs : List Char) :
    level (c :: cs) = (markOf c).depthAfter (level cs) := by
  have apart : c ∈ openers → c ∉ closers := by
    have each : ∀ c ∈ openers, c ∉ closers := by simp [openers, closers]
    exact each c
  unfold level markOf
  by_cases opens : c ∈ openers
  · simp only [opens, apart opens, List.countP_cons, decide_true, decide_false, if_true,
      Bool.false_eq_true, if_false, Mark.depthAfter]
    omega
  · by_cases closes : c ∈ closers
    · simp only [opens, closes, List.countP_cons, decide_true, decide_false, if_true,
        Bool.false_eq_true, if_false, Mark.depthAfter]
      omega
    · simp only [opens, closes, List.countP_cons, decide_false, Bool.false_eq_true, if_false,
        Nat.add_zero]
      split <;> rfl

theorem depthAfter_add (mark : Mark) (depth depth' : Int) :
    mark.depthAfter (depth + depth') = mark.depthAfter depth + depth' := by
  cases mark <;> simp only [Mark.depthAfter] <;> omega

@[simp] theorem settles_nil : Settles depth [] ↔ depth = 0 := by
  constructor
  · intro h
    simpa using h.settled
  · rintro rfl
    refine ⟨fun start lead => ?_, rfl⟩
    simp [List.prefix_nil.1 lead]

/-- A text settles when the depth is not below zero and the rest settles from the next depth on. -/
theorem settles_cons :
    Settles depth (c :: cs) ↔ 0 ≤ depth ∧ Settles ((markOf c).depthAfter depth) cs := by
  have moved (start : List Char) :
      depth + level (c :: start) = (markOf c).depthAfter depth + level start := by
    rw [level_cons, Int.add_comm depth, ← depthAfter_add, Int.add_comm, depthAfter_add]
  constructor
  · intro h
    refine ⟨by simpa using h.nonneg [] List.nil_prefix, fun start lead => ?_, ?_⟩
    · rw [← moved]
      exact h.nonneg _ (List.cons_prefix_cons.2 ⟨rfl, lead⟩)
    · rw [← moved]
      exact h.settled
  · rintro ⟨nonneg, h⟩
    refine ⟨fun start lead => ?_, (moved cs).trans h.settled⟩
    rcases List.prefix_cons_iff.1 lead with rfl | ⟨rest, rfl, below⟩
    · simpa using nonneg
    · rw [moved]
      exact h.nonneg rest below

instance decidableSettles : (depth : Int) → (cs : List Char) → Decidable (Settles depth cs)
  | _, [] => decidable_of_iff _ settles_nil.symm
  | depth, c :: cs =>
    have := decidableSettles ((markOf c).depthAfter depth) cs
    decidable_of_iff _ settles_cons.symm

instance (text : String) : Decidable (IsBalanced text) :=
  inferInstanceAs (Decidable (Settles 0 text.toList))

instance (text : String) : Decidable (Plain text) :=
  List.decidableBAll (fun c => markOf c = .plain) text.toList

namespace Settles

/-- A text may be followed by another one, which starts at a depth that was not used. -/
theorem append (h : Settles depth cs) (h' : Settles depth' ds) :
    Settles (depth + depth') (cs ++ ds) := by
  have nonneg' : 0 ≤ depth' := by simpa using h'.nonneg [] List.nil_prefix
  induction cs generalizing depth with
  | nil =>
    obtain rfl := settles_nil.1 h
    simpa using h'
  | cons c cs ih =>
    obtain ⟨nonneg, rest⟩ := settles_cons.1 h
    refine settles_cons.2 ⟨Int.add_nonneg nonneg nonneg', ?_⟩
    rw [depthAfter_add]
    exact ih rest

/-- A text without brackets settles where it starts. -/
theorem of_plain (h : ∀ c ∈ cs, markOf c = .plain) : Settles 0 cs := by
  induction cs with
  | nil => exact settles_nil.2 rfl
  | cons c cs ih =>
    obtain ⟨plain, each⟩ := List.forall_mem_cons.1 h
    rw [settles_cons, plain]
    exact ⟨Int.le_refl 0, ih each⟩

/-- The bracket that closes settles from the depth one on. -/
theorem closes (h : markOf closing = .closing) : Settles 1 [closing] := by
  rw [settles_cons, h]
  exact ⟨by decide, settles_nil.2 rfl⟩

/-- What settles in brackets settles with them. -/
theorem bracketed (h : Settles 0 cs) (opens : markOf opening = .opening)
    (closes : markOf closing = .closing) : Settles 0 (opening :: (cs ++ [closing])) := by
  rw [settles_cons, opens]
  exact ⟨Int.le_refl 0, h.append (.closes closes)⟩

theorem bar : Settles 0 ['|'] := by decide

/-- More brackets around a text leave no bar of it outside. -/
theorem parts_append (h : Settles depth cs) (inside : 0 < depth') (rest : List Char) :
    parts (depth + depth') (cs ++ rest) = parts depth' rest := by
  induction cs generalizing depth with
  | nil =>
    rw [settles_nil.1 h, Int.zero_add, List.nil_append]
  | cons c cs ih =>
    obtain ⟨nonneg, below⟩ := settles_cons.1 h
    rw [List.cons_append, parts_cons (.inr (by omega)), depthAfter_add, ih below]

/-- A bar outside of all brackets ends a branch. -/
theorem split_bar (h : Settles depth cs) (ds : List Char) :
    split markOf depth (cs ++ '|' :: ds) = split markOf depth cs ++ split markOf 0 ds := by
  induction cs generalizing depth with
  | nil =>
    obtain rfl := settles_nil.1 h
    have bar : markOf '|' = .bar := by decide
    simp [split, bar]
  | cons c cs ih =>
    obtain ⟨-, rest⟩ := settles_cons.1 h
    rw [List.cons_append, split, split]
    split
    next parting =>
      obtain ⟨bar, rfl⟩ := parting
      have rest : Settles 0 cs := by simpa [bar, Mark.depthAfter] using rest
      rw [ih rest, List.cons_append]
    next =>
      obtain ⟨first, others, same⟩ := List.exists_cons_of_ne_nil (split_ne_nil markOf _ cs)
      rw [ih rest, same, List.cons_append, List.modifyHead_cons, List.modifyHead_cons,
        List.cons_append]

/-- The parts between the bars outside of all brackets: the first one settles from the depth on, and
the others are balanced. -/
theorem of_split (h : Settles depth cs) {first : List Char} {others : List (List Char)}
    (same : split markOf depth cs = first :: others) :
    Settles depth first ∧ ∀ part ∈ others, Settles 0 part := by
  induction cs generalizing depth first others with
  | nil =>
    cases same
    exact ⟨h, fun _ mem => absurd mem List.not_mem_nil⟩
  | cons c cs ih =>
    obtain ⟨nonneg, rest⟩ := settles_cons.1 h
    obtain ⟨first', others', same'⟩ := List.exists_cons_of_ne_nil (split_ne_nil markOf
      ((markOf c).depthAfter depth) cs)
    obtain ⟨head, each⟩ := ih rest same'
    rw [split] at same
    split at same
    next parting =>
      obtain ⟨bar, rfl⟩ := parting
      simp only [bar, Mark.depthAfter] at same' head
      rw [same'] at same
      cases same
      exact ⟨settles_nil.2 rfl, List.forall_mem_cons.2 ⟨head, each⟩⟩
    next =>
      rw [same'] at same
      cases same
      exact ⟨settles_cons.2 ⟨nonneg, head⟩, each⟩

end Settles

/-- Parts are parted no further: the first one from the same depth on, the others from outside of
all brackets on. -/
theorem split_of_split {α : Type} {mark : α → Mark} {xs first : List α} {others : List (List α)}
    (same : split mark depth xs = first :: others) :
    split mark depth first = [first] ∧ ∀ part ∈ others, split mark 0 part = [part] := by
  induction xs generalizing depth first others with
  | nil =>
    cases same
    exact ⟨rfl, fun _ mem => absurd mem List.not_mem_nil⟩
  | cons x xs ih =>
    obtain ⟨first', others', same'⟩ := List.exists_cons_of_ne_nil (split_ne_nil mark
      ((mark x).depthAfter depth) xs)
    obtain ⟨head, each⟩ := ih same'
    rw [split] at same
    split at same
    next parting =>
      obtain ⟨bar, rfl⟩ := parting
      simp only [bar, Mark.depthAfter] at same' head
      rw [same'] at same
      cases same
      exact ⟨rfl, List.forall_mem_cons.2 ⟨head, each⟩⟩
    next inside =>
      rw [same'] at same
      cases same
      refine ⟨?_, each⟩
      rw [split, if_neg inside, head, List.modifyHead_cons]

/-- What holds no bar belongs to the last part. -/
theorem parts_append_of_barless (barless : ∀ c ∈ ds, markOf c ≠ .bar) :
    parts depth (cs ++ ds) = parts depth cs := by
  induction cs generalizing depth with
  | nil =>
    induction ds generalizing depth with
    | nil => rfl
    | cons d ds ih =>
      obtain ⟨first, each⟩ := List.forall_mem_cons.1 barless
      rw [List.nil_append] at ih ⊢
      rw [parts_cons (.inl first), ih each]
      rfl
  | cons c cs ih =>
    by_cases parting : markOf c = .bar ∧ depth = 0
    · rw [List.cons_append, parts, parts, split, split, if_pos parting, if_pos parting,
        List.length_cons, List.length_cons, ← parts, ← parts, ih]
    · rw [List.cons_append, parts, parts, split, split, if_neg parting, if_neg parting,
        List.length_modifyHead, List.length_modifyHead, ← parts, ← parts, ih]

section Branches

variable {text branch : String} {texts : List String}

theorem branches_ne_nil (text : String) : branches text ≠ [] := by
  simpa [branches] using split_ne_nil markOf 0 text.toList

/-- The branches and the bars between them are the text. -/
theorem intercalate_branches (text : String) : "|".intercalate (branches text) = text := by
  have isBar : ∀ c, markOf c = .bar → c = '|' := by
    intro c bar
    unfold markOf at bar
    split at bar
    · cases bar
    split at bar
    · cases bar
    split at bar
    · assumption
    · cases bar
  have whole := intercalate_split markOf '|' isBar 0 text.toList
  rw [← String.toList_inj, String.toList_intercalate, branches, List.map_map]
  simpa [Function.comp_def] using whole

/-- A text with one branch is that branch. -/
theorem branches_eq_self_iff : branches text = [text] ↔ parts 0 text.toList = 1 := by
  rw [← length_branches]
  constructor
  · intro h
    rw [h, List.length_singleton]
  · intro one
    obtain ⟨only, same⟩ := List.length_eq_one_iff.1 one
    have whole := intercalate_branches text
    rw [same, String.intercalate_singleton] at whole
    rw [same, whole]

/-- **A branch is the only branch of itself.** -/
theorem branches_of_mem (mem : branch ∈ branches text) : branches branch = [branch] := by
  obtain ⟨part, within, rfl⟩ := List.mem_map.1 mem
  obtain ⟨first, others, same⟩ := List.exists_cons_of_ne_nil (split_ne_nil markOf 0 text.toList)
  obtain ⟨head, each⟩ := split_of_split same
  have single : split markOf 0 part = [part] := by
    rw [same] at within
    rcases List.mem_cons.1 within with rfl | within
    · exact head
    · exact each part within
  rw [branches, String.toList_ofList, single, List.map_singleton]

/-- **A branch of a balanced text is balanced.** -/
theorem IsBalanced.of_mem (h : IsBalanced text) (mem : branch ∈ branches text) :
    IsBalanced branch := by
  obtain ⟨part, within, rfl⟩ := List.mem_map.1 mem
  obtain ⟨first, others, same⟩ := List.exists_cons_of_ne_nil (split_ne_nil markOf 0 text.toList)
  obtain ⟨head, each⟩ := h.of_split same
  rw [IsBalanced, String.toList_ofList]
  rw [same] at within
  rcases List.mem_cons.1 within with rfl | within
  · exact head
  · exact each part within

/-- A text in which no bar stands outside of all brackets is one branch. -/
theorem branches_of_closed (h : Closed text.toList) : branches text = [text] := by
  rw [branches_eq_self_iff]
  simpa using h 0 [] (Int.le_refl 0)

/-- Two brackets after a text apply to the whole of it when it is one branch. -/
theorem branches_brackets_iff :
    branches (text ++ "[]") = [text ++ "[]"] ↔ branches text = [text] := by
  have barless : ∀ c ∈ ['[', ']'], markOf c ≠ .bar := by simp [markOf, openers, closers]
  have same : parts 0 (text.toList ++ ['[', ']']) = parts 0 text.toList :=
    parts_append_of_barless barless
  rw [branches_eq_self_iff, branches_eq_self_iff, ← same]
  simp

/-- Two brackets after a balanced text leave it balanced. -/
theorem IsBalanced.brackets (h : IsBalanced text) : IsBalanced (text ++ "[]") := by
  have last : Settles 0 ['[', ']'] := by decide
  rw [IsBalanced, String.toList_append]
  exact Settles.append h last

/-- In brackets a balanced text parts nothing. -/
theorem IsBalanced.enclosed (h : IsBalanced text) : Enclosed text.toList := by
  intro depth rest inside
  simpa using Settles.parts_append h inside rest

/-- A balanced text that stands in brackets after a plain one is balanced, and one branch. -/
theorem IsBalanced.bracketed (h : IsBalanced text) {before whole : String} (plain : Plain before)
    (same : whole.toList = before.toList ++ opening :: (text.toList ++ [closing]))
    (opens : markOf opening = .opening) (closes : markOf closing = .closing) :
    IsBalanced whole ∧ branches whole = [whole] := by
  constructor
  · rw [IsBalanced, same]
    exact (Settles.of_plain plain).append (Settles.bracketed h opens closes)
  · refine branches_of_closed ?_
    rw [same]
    exact (Closed.of_plain plain).append (h.enclosed.closed opens closes)

/-- **A bar between balanced texts parts them.** -/
theorem branches_intercalate (some : texts ≠ []) (balanced : ∀ text ∈ texts, IsBalanced text) :
    IsBalanced ("|".intercalate texts) ∧
      branches ("|".intercalate texts) = texts.flatMap branches := by
  induction texts with
  | nil => exact absurd rfl some
  | cons text rest ih =>
    obtain ⟨first, each⟩ := List.forall_mem_cons.1 balanced
    cases rest with
    | nil => simpa using first
    | cons next rest =>
      obtain ⟨settles, parted⟩ := ih (List.cons_ne_nil _ _) each
      have spelled : ("|".intercalate (text :: next :: rest)).toList =
          text.toList ++ '|' :: ("|".intercalate (next :: rest)).toList := by
        simp [String.intercalate_cons_cons]
      constructor
      · rw [IsBalanced, spelled]
        exact Settles.append first (Settles.bar.append settles)
      · rw [List.flatMap_cons, ← parted, branches, spelled, Settles.split_bar first,
          List.map_append]
        rfl

end Branches

end TypeText
end AmbientDecl
