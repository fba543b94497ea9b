/- # What stands around a type

The prose behind a type does not change how it is read (`read_append`): it starts with a blank, and
no token of the type reaches into a blank.  Braces around a type are left out when they are closed
on the line where they are opened (`WrittenType.interior?_eq_some_iff`), so a type in braces is
written as the type alone (`WrittenType.ofText_braced`).  Braces and blanks hold no ellipsis either
(`hasEllipsis_braced`), so the ellipses of a type are found in its text as it stands
(`WrittenType.hasEllipsis_of_ofText`).
-/

import AmbientDecl.Proofs.TypeExpr.Ellipsis
import AmbientDecl.TypeExpr.Written

namespace AmbientDecl

namespace TypeExpr

open Token

variable {text more : String} {e : TypeExpr} {ts us : List Token}

/-- Prose goes on with anything. -/
theorem Prose.append (h : Prose ts) (h' : Prose us) : Prose (ts ++ us) := by
  cases ts with
  | nil => exact h'
  | cons token ts => exact h

theorem BeginsWith.append (h : BeginsWith ts e) (prose : Prose us) : BeginsWith (ts ++ us) e := by
  obtain ⟨es, tokens, bar, rest, derives, same, dangling, prose', rfl⟩ := h
  exact ⟨es, tokens, bar, rest ++ us, derives, same, dangling, prose'.append prose, by simp⟩

/-- A text that starts with a blank is prose. -/
theorem prose_scan {cs : List Char} (start : ∀ c ∈ cs.head?, Text.isBlank c = true)
    (position : Nat) : Prose (scan position 0 cs) := by
  cases cs with
  | nil => exact nofun
  | cons c cs =>
    rintro token first
    rw [scan_cons, lexeme_of_isBlank (start c rfl)] at first
    cases first
    rfl

/-- A text that is read has something in it. -/
theorem trim_ne_nil_of_read (h : read text = .ok e) : Text.trim text.toList ≠ [] := by
  intro empty
  rw [read_eq_ok_iff, strippedTokens, empty] at h
  cases h

/-- **The prose behind a type does not change how it is read.** -/
theorem read_append (h : read text = .ok e)
    (start : ∀ c ∈ more.toList.head?, Text.isBlank c = true) : read (text ++ more) = .ok e := by
  have some := trim_ne_nil_of_read h
  have trimmed := Text.trim_trim text.toList
  have ends := Text.trimEnd_eq_self_iff.1 (Text.trimEnd_trim text.toList)
  rw [read_eq_ok_iff, ofTokens_eq_ok_iff, strippedTokens, tokens, String.toList_ofList] at h ⊢
  obtain ⟨before, after, same, blanks, blanks'⟩ := Text.exists_trim text.toList
  generalize Text.trim text.toList = inner at h some trimmed ends same
  -- the blanks at the end of the text belong to the prose
  have start' : ∀ c ∈ (Text.trimEnd (after ++ more.toList)).head?, Text.isBlank c = true := by
    intro c first
    obtain ⟨rest, prose⟩ := Text.trimEnd_prefix (after ++ more.toList)
    have first' : c ∈ (after ++ more.toList).head? := by
      rw [← prose, List.head?_append, Option.mem_def.1 first]
      rfl
    cases after with
    | nil => exact start c first'
    | cons d after => exact blanks' c (List.mem_of_mem_head? first')
  have whole : Text.trim (text ++ more).toList = inner ++ Text.trimEnd (after ++ more.toList) := by
    rw [String.toList_append, same, List.append_assoc, List.append_assoc,
      Text.trim_blanks_append blanks, Text.trim_append trimmed some]
  rw [whole, scan_append (.before_blank ends start')]
  exact h.append (prose_scan start' _)

/-- Braces hold no ellipsis. -/
theorem hasEllipsis_braced (text : String) :
    Token.hasEllipsis ("\x7b" ++ text ++ "\x7d") = Token.hasEllipsis text := by
  have whole : ("\x7b" ++ text ++ "\x7d").toList = '\x7b' :: (text.toList ++ ['\x7d']) := by simp
  have closing : kinds ['\x7d'] = [.other] := rfl
  rw [Bool.eq_iff_iff, Token.hasEllipsis_iff, Token.hasEllipsis_iff, whole, kinds_braced, closing]
  simp

end TypeExpr

namespace WrittenType

open TypeExpr Token

variable {text : String} {e : TypeExpr} {cs inside : List Char}

/-- A closing brace ends no line. -/
theorem takeWhile_line (line : '\n' ∉ inside) (rest : List Char) :
    (inside ++ '\x7d' :: rest).takeWhile (· ≠ '\n') =
      inside ++ '\x7d' :: rest.takeWhile (· ≠ '\n') := by
  have inLine : ∀ c ∈ inside, decide (c ≠ '\n') = true := fun c mem =>
    decide_eq_true fun same => line (same ▸ mem)
  rw [List.takeWhile_append_of_pos inLine, List.takeWhile_cons_of_pos (by decide)]

/-- What stands in braces at the start of a text: it goes as far as the last closing brace of the
line, and there is something in it. -/
theorem interior?_eq_some_iff : interior? cs = some inside ↔
    ∃ rest, cs = '\x7b' :: (inside ++ '\x7d' :: rest) ∧ inside ≠ [] ∧ '\n' ∉ inside ∧
      '\x7d' ∉ rest.takeWhile (· ≠ '\n') := by
  constructor
  · intro h
    unfold interior? at h
    split at h
    next cs =>
      split at h
      next => cases h
      next some =>
        obtain ⟨after, same, none⟩ := Text.beforeLast?_eq_some_iff.1 h
        have whole : cs.takeWhile (· ≠ '\n') ++ cs.dropWhile (· ≠ '\n') = cs :=
          List.takeWhile_append_dropWhile
        have line : '\n' ∉ inside := fun mem => by
          have inLine : '\n' ∈ cs.takeWhile (· ≠ '\n') := by
            rw [same]
            exact List.mem_append_left _ mem
          exact absurd (List.mem_takeWhile_imp inLine) (by decide)
        rw [same, List.append_assoc, List.cons_append] at whole
        rw [← whole, takeWhile_line line, List.append_cancel_left_eq, List.cons_inj_right] at same
        exact ⟨_, by rw [whole], fun empty => some (by rw [h, empty]), line, by rwa [same]⟩
    next => cases h
  · rintro ⟨rest, rfl, some, line, none⟩
    have before := Text.beforeLast?_eq_some_iff.2 ⟨_, takeWhile_line line rest, none⟩
    obtain ⟨c, inside, rfl⟩ := List.exists_cons_of_ne_nil some
    rw [interior?, before]

/-- A text that starts with braces is trimmed behind them. -/
theorem trim_braced (cs more : List Char) :
    Text.trim ('\x7b' :: (cs ++ '\x7d' :: more)) =
      '\x7b' :: (cs ++ '\x7d' :: Text.trimEnd more) := by
  have braces : Text.trim ('\x7b' :: cs ++ ['\x7d']) = '\x7b' :: cs ++ ['\x7d'] := by
    refine Text.trim_eq_self (fun c first => ?_) fun c last => ?_
    · cases first
      rfl
    · rw [List.getLast?_concat] at last
      cases last
      rfl
  have some : '\x7b' :: cs ++ ['\x7d'] ≠ [] := List.cons_ne_nil _ _
  simpa using Text.trim_append braces some more

/-- Trimming closes no brace. -/
theorem unclosed_trimEnd (unclosed : '\x7d' ∉ cs.takeWhile (· ≠ '\n')) :
    '\x7d' ∉ (Text.trimEnd cs).takeWhile (· ≠ '\n') := by
  intro mem
  obtain ⟨blanks, same⟩ := Text.trimEnd_prefix cs
  rw [← same, List.takeWhile_append] at unclosed
  split at unclosed
  · exact unclosed (List.mem_append_left _ (List.takeWhile_subset _ mem))
  · exact unclosed mem

/-- **A type in braces is written as the type alone,** with prose behind the braces that does not
close a brace on the same line. -/
theorem ofText_braced {more : String} (h : read text = .ok e) (line : '\n' ∉ text.toList)
    (unclosed : '\x7d' ∉ more.toList.takeWhile (· ≠ '\n')) :
    ofText ("\x7b" ++ text ++ "\x7d" ++ more) = .expression e := by
  have whole : ("\x7b" ++ text ++ "\x7d" ++ more).toList =
      '\x7b' :: (text.toList ++ '\x7d' :: more.toList) := by simp
  have some : text.toList ≠ [] := fun empty => trim_ne_nil_of_read h (by rw [empty]; rfl)
  have found := interior?_eq_some_iff.2 ⟨_, rfl, some, line, unclosed_trimEnd unclosed⟩
  rw [ofText, ofTrimmed, whole, trim_braced, if_neg (List.cons_ne_nil _ _), found]
  simp only [read_trim, h]

/-- **A text that is written through a type with a variadic type in it holds an ellipsis.** -/
theorem hasEllipsis_of_ofText (h : ofText text = .expression e) (variadic : e.hasVariadic = true) :
    Token.hasEllipsis text = true := by
  have ofRead : ∀ {inner : List Char}, read (String.ofList (Text.trim inner)) = .ok e →
      .ellipsis ∈ kinds inner := by
    intro inner accepted
    obtain ⟨rest, leaves⟩ := beginsWith_iff_exists_leaves.1
      (ofTokens_eq_ok_iff.1 (read_eq_ok_iff.1 accepted))
    have marked := hasEllipsis_strippedTokens.1 (leaves.hasEllipsis_iff.2 (.inl variadic))
    rwa [Token.hasEllipsis_iff, String.toList_ofList, ellipsis_mem_kinds_trim] at marked
  rw [Token.hasEllipsis_iff, ← ellipsis_mem_kinds_trim]
  unfold ofText ofTrimmed at h
  split at h
  next => cases h
  next =>
    split at h
    next inside found =>
      dsimp only at h
      split at h
      next accepted =>
        cases h
        obtain ⟨rest, braced, -⟩ := interior?_eq_some_iff.1 found
        rw [braced, kinds_braced]
        simp [ofRead accepted]
      next => cases h
    next =>
      split at h
      next accepted =>
        cases h
        rw [ellipsis_mem_kinds_trim]
        exact ofRead accepted
      next => cases h

end WrittenType
end AmbientDecl
