/- # The first paragraph of a description

The lines of a description are read with plain line ends and without the blanks around the text.
Its first paragraph ends before the first blank line (`firstParagraph`).  The abbreviation looks for
two line feeds in a row, so it keeps the lines before the first empty one (`abbreviate_eq`): a text
that is trimmed neither starts nor ends with an empty line, and between two of its lines the two
line feeds stand just where an empty line does (`beforeEmptyLine_unlines`).

A line of blanks is not empty until it is trimmed, so it does not end what is kept.  It is printed
as an empty line, with the paragraph behind it.  Where the lines before the first empty one hold no
line of blanks, and nowhere else, the abbreviation is the first paragraph
(`abbreviate_firstParagraph_iff`).
-/

import AmbientDecl.Dotted
import AmbientDecl.Proofs.Blank
import AmbientDecl.Proofs.Output.Comments

namespace AmbientDecl
namespace Text

variable {cs line : List Char}

/-- A line is kept whole, whatever follows it. -/
theorem beforeEmptyLine_append (feedless : '\n' ∉ line) (cs : List Char) :
    beforeEmptyLine (line ++ cs) = line ++ beforeEmptyLine cs := by
  induction line with
  | nil => rfl
  | cons c line ih =>
    rw [List.mem_cons, not_or] at feedless
    obtain ⟨other, feedless⟩ := feedless
    rw [List.cons_append, beforeEmptyLine, ih feedless, List.cons_append]
    rintro - rfl
    exact absurd rfl other

theorem beforeEmptyLine_feed (other : cs.head? ≠ some '\n') :
    beforeEmptyLine ('\n' :: cs) = '\n' :: beforeEmptyLine cs := by
  rw [beforeEmptyLine]
  rintro rest - rfl
  exact other rfl

theorem head?_plainLineEnds (start : cs.head? ≠ some '\r') :
    (plainLineEnds cs).head? = cs.head? := by
  fun_cases plainLineEnds cs with
  | case1 => rfl
  | case2 rest => exact absurd rfl start
  | case3 c rest => rfl

theorem getLast?_plainLineEnds (cs : List Char) : (plainLineEnds cs).getLast? = cs.getLast? := by
  fun_induction plainLineEnds cs with
  | case1 => rfl
  | case2 rest ih => simp [List.getLast?_cons, ih]
  | case3 c rest _ ih => simp [List.getLast?_cons, ih]

/-- Line ends are made plain piece by piece, if no piece ends within one. -/
theorem plainLineEnds_append (ends : cs.getLast? ≠ some '\r') (more : List Char) :
    plainLineEnds (cs ++ more) = plainLineEnds cs ++ plainLineEnds more := by
  fun_induction plainLineEnds cs with
  | case1 => rfl
  | case2 rest ih =>
    have ends' : rest.getLast? ≠ some '\r' := fun last =>
      ends (by simp [List.getLast?_cons, last])
    rw [List.cons_append, List.cons_append, plainLineEnds, ih ends', List.cons_append]
  | case3 c rest whole ih =>
    -- The character starts no line end, neither with what follows it nor with the next piece.
    have step : plainLineEnds (c :: (rest ++ more)) = c :: plainLineEnds (rest ++ more) := by
      rw [plainLineEnds]
      rintro others rfl same
      cases rest with
      | nil => exact ends rfl
      | cons d rest => exact whole rest rfl (by rw [(List.cons.inj same).1])
    have ends' : rest.getLast? ≠ some '\r' := fun last =>
      ends (by simp [List.getLast?_cons, last])
    rw [List.cons_append, step, ih ends', List.cons_append]

/-- A trimmed text neither starts nor ends with a blank. -/
theorem ends_of_trimmed (trimmed : trim cs = cs) :
    (∀ c ∈ cs.head?, isBlank c = false) ∧ ∀ c ∈ cs.getLast?, isBlank c = false :=
  ⟨trimStart_eq_self_iff.1 (trimmed ▸ trimStart_trim cs),
    trimEnd_eq_self_iff.1 (trimmed ▸ trimEnd_trim cs)⟩

/-- A trimmed text is trimmed when its line ends are plain. -/
theorem trim_plainLineEnds (trimmed : trim cs = cs) :
    trim (plainLineEnds cs) = plainLineEnds cs := by
  obtain ⟨start, ends⟩ := ends_of_trimmed trimmed
  have first : cs.head? ≠ some '\r' := fun blank => absurd (start _ blank) (by decide)
  rw [← head?_plainLineEnds first] at start
  rw [← getLast?_plainLineEnds] at ends
  exact trim_eq_self start ends

/-- A text is trimmed to nothing just when it holds blanks only. -/
theorem trim_eq_nil_iff : trim cs = [] ↔ ∀ c ∈ cs, isBlank c = true := by
  constructor
  · intro nothing c mem
    obtain ⟨before, after, same, blanks, blanks'⟩ := exists_trim cs
    rw [same, nothing, List.append_nil] at mem
    exact (List.mem_append.1 mem).elim (blanks c) (blanks' c)
  · intro blanks
    have trimmed := trim_blanks_append blanks []
    rw [List.append_nil] at trimmed
    exact trimmed

end Text

namespace DocComment

variable {cs : List Char} {ls more : List (List Char)}

/-- The lines of a text with plain line ends, without the blanks around it. -/
def textLines (text : String) : List (List Char) :=
  lines (Text.trim (Text.plainLineEnds text.toList))

/-- Whether a line holds more than blanks. -/
def isFilled (line : List Char) : Bool := line.any fun c => !Text.isBlank c

/-- The lines of the first paragraph: those before the first blank line. -/
def firstParagraph (text : String) : List (List Char) := (textLines text).takeWhile isFilled

/-- The lines before the first empty line. -/
def keptLines (text : String) : List (List Char) := (textLines text).takeWhile (· ≠ [])

/-- Lines as they are continued inside a comment, each without the blanks around it. -/
def continueLines (ls : List (List Char)) : String :=
  String.ofList (List.intercalate ('\n' :: lineStart) (ls.map Text.trim))

/-! ## Lines of a text -/

theorem intercalate_append {sep : List Char} (some : ls ≠ []) (some' : more ≠ []) :
    List.intercalate sep (ls ++ more) =
      List.intercalate sep ls ++ sep ++ List.intercalate sep more := by
  induction ls with
  | nil => exact absurd rfl some
  | cons line rest ih =>
    by_cases last : rest = []
    · rw [last, List.singleton_append, List.intercalate_cons_of_ne_nil some',
        List.intercalate_singleton]
    · have longer : rest ++ more ≠ [] := by simp [last]
      rw [List.cons_append, List.intercalate_cons_of_ne_nil longer, ih last,
        List.intercalate_cons_of_ne_nil last]
      simp

theorem unlines_lines (cs : List Char) : unlines (lines cs) = cs := List.intercalate_splitOn '\n'

theorem feedless_lines (cs : List Char) : ∀ line ∈ lines cs, '\n' ∉ line :=
  fun _ mem => Dotted.not_mem_piece mem

/-- The first line is empty only where a line feed comes first. -/
theorem head?_lines (nonempty : cs ≠ []) (start : cs.head? ≠ some '\n') :
    (lines cs).head? ≠ some [] := by
  obtain ⟨c, rest, rfl⟩ := List.exists_cons_of_ne_nil nonempty
  have plain : c ≠ '\n' := fun feed => start (congrArg some feed)
  obtain ⟨first, others, same⟩ := List.exists_cons_of_ne_nil (lines_ne_nil rest)
  rw [lines_cons, if_neg plain, same]
  simp

/-- The last line is empty only where a line feed comes last. -/
theorem getLast?_lines (nonempty : cs ≠ []) (ends : cs.getLast? ≠ some '\n') :
    (lines cs).getLast? ≠ some [] := by
  intro empty
  obtain ⟨before, same⟩ := List.getLast?_eq_some_iff.1 empty
  have whole : unlines (before ++ [[]]) = cs := same ▸ unlines_lines cs
  by_cases first : before = []
  · rw [first] at whole
    exact nonempty whole.symm
  · rw [unlines, intercalate_append first (List.cons_ne_nil _ _)] at whole
    rw [← whole] at ends
    simp at ends

/-- A line feed comes first only where the first line is empty. -/
theorem head?_unlines (feedless : ∀ line ∈ ls, '\n' ∉ line) (start : ls.head? ≠ some []) :
    (unlines ls).head? ≠ some '\n' := by
  cases ls with
  | nil => simp [unlines]
  | cons line rest =>
    have filled : line ≠ [] := fun empty => start (congrArg some empty)
    obtain ⟨c, others, rfl⟩ := List.exists_cons_of_ne_nil filled
    have plain : c ≠ '\n' := fun feed =>
      feedless _ List.mem_cons_self (feed ▸ List.mem_cons_self)
    cases rest <;> simpa [unlines] using plain

/-- **Two line feeds in a row stand where a line is empty,** unless it is the first or the last
one. -/
theorem beforeEmptyLine_unlines (feedless : ∀ line ∈ ls, '\n' ∉ line)
    (start : ls.head? ≠ some []) (ends : ls.getLast? ≠ some []) :
    Text.beforeEmptyLine (unlines ls) = unlines (ls.takeWhile (· ≠ [])) := by
  induction ls with
  | nil => rfl
  | cons line rest ih =>
    obtain ⟨plain, feedless⟩ := List.forall_mem_cons.1 feedless
    have filled : line ≠ [] := fun empty => start (congrArg some empty)
    rw [List.takeWhile_cons_of_pos (by simpa using filled)]
    cases rest with
    | nil =>
      have whole := Text.beforeEmptyLine_append plain []
      simpa [unlines, Text.beforeEmptyLine] using whole
    | cons next rest =>
      have joined : unlines (line :: next :: rest) = line ++ '\n' :: unlines (next :: rest) := by
        simp [unlines]
      rw [joined, Text.beforeEmptyLine_append plain]
      by_cases empty : next = []
      · -- The empty line is not the last one, so a second line feed follows.
        have others : rest ≠ [] := by
          rintro rfl
          exact ends (congrArg some empty)
        have feed : unlines (next :: rest) = '\n' :: unlines rest := by
          rw [unlines, List.intercalate_cons_of_ne_nil others, empty]
          rfl
        rw [feed, Text.beforeEmptyLine, List.takeWhile_cons_of_neg (by simpa using empty)]
        simp [unlines]
      · have start' : (next :: rest).head? ≠ some [] := fun first =>
          empty (Option.some.inj first)
        have ends' : (next :: rest).getLast? ≠ some [] := by simpa using ends
        rw [Text.beforeEmptyLine_feed (head?_unlines feedless start'), ih feedless start' ends',
          List.takeWhile_cons_of_pos (by simpa using empty)]
        simp [unlines]

/-! ## Lines of a description -/

variable {text : String}

theorem isFilled_eq_false_iff {line : List Char} : isFilled line = false ↔ Text.trim line = [] := by
  simp [isFilled, Text.trim_eq_nil_iff]

/-- **The lines before two line feeds in a row** are those before the first empty line. -/
theorem lines_beforeEmptyLine (trimmed : Text.trim cs = cs) (nonempty : cs ≠ []) :
    lines (Text.beforeEmptyLine cs) = (lines cs).takeWhile (· ≠ []) := by
  obtain ⟨filled, filled'⟩ := Text.ends_of_trimmed trimmed
  have start : cs.head? ≠ some '\n' := fun first => absurd (filled _ first) (by decide)
  have ends : cs.getLast? ≠ some '\n' := fun last => absurd (filled' _ last) (by decide)
  have first := head?_lines nonempty start
  have kept := beforeEmptyLine_unlines (feedless_lines cs) first (getLast?_lines nonempty ends)
  have some : (lines cs).takeWhile (· ≠ []) ≠ [] := by
    obtain ⟨line, others, same⟩ := List.exists_cons_of_ne_nil (lines_ne_nil cs)
    rw [same] at first ⊢
    rw [List.takeWhile_cons_of_pos (by simpa using first)]
    exact List.cons_ne_nil _ _
  rw [unlines_lines] at kept
  rw [kept]
  exact List.splitOn_intercalate '\n' (fun line mem =>
    feedless_lines cs line ((List.takeWhile_prefix _).subset mem)) some

/-- The abbreviation keeps the lines before the first empty one. -/
theorem abbreviate_eq (text : String) : abbreviate text = continueLines (keptLines text) := by
  unfold abbreviate keptLines textLines
  generalize same : Text.trim (Text.plainLineEnds text.toList) = cs
  by_cases nonempty : cs = []
  · rw [nonempty]
    rfl
  · have trimmed : Text.trim cs = cs := same ▸ Text.trim_trim _
    dsimp only
    rw [lines_beforeEmptyLine trimmed nonempty]
    rfl

/-- The first paragraph starts what is kept. -/
theorem takeWhile_keptLines (text : String) :
    (keptLines text).takeWhile isFilled = firstParagraph text := by
  rw [keptLines, firstParagraph, List.takeWhile_takeWhile]
  congr 1
  funext line
  cases line with
  | nil => rfl
  | cons c rest => simp

/-- A description that is not blank has a first paragraph. -/
theorem firstParagraph_ne_nil (kept : keptLines text ≠ []) : firstParagraph text ≠ [] := by
  unfold keptLines textLines at kept
  unfold firstParagraph textLines
  generalize same : Text.trim (Text.plainLineEnds text.toList) = cs at kept
  cases cs with
  | nil => exact absurd rfl kept
  | cons c rest =>
    have trimmed : Text.trim (c :: rest) = c :: rest := same ▸ Text.trim_trim _
    have filled := (Text.ends_of_trimmed trimmed).1 c rfl
    have plain : c ≠ '\n' := by
      rintro rfl
      exact absurd filled (by decide)
    obtain ⟨first, others, split⟩ := List.exists_cons_of_ne_nil (lines_ne_nil rest)
    rw [lines_cons, if_neg plain, split, List.modifyHead_cons,
      List.takeWhile_cons_of_pos (by simp [isFilled, filled])]
    exact List.cons_ne_nil _ _

/-- More lines are continued to another text. -/
theorem continueLines_append_eq_iff (nonempty : ls ≠ []) :
    continueLines (ls ++ more) = continueLines ls ↔ more = [] := by
  constructor
  · intro same
    by_contra longer
    have lengths := congrArg String.length same
    rw [continueLines, continueLines, List.map_append,
      intercalate_append (by simpa using nonempty) (by simpa using longer)] at lengths
    simp at lengths
  · rintro rfl
    rw [List.append_nil]

/-- What is kept behind the first paragraph starts with a line of blanks. -/
theorem exists_rest (text : String) :
    ∃ rest, keptLines text = firstParagraph text ++ rest ∧
      ∀ line ∈ rest.head?, line ≠ [] ∧ Text.trim line = [] := by
  refine ⟨(keptLines text).dropWhile isFilled, ?_, fun line first => ⟨?_, ?_⟩⟩
  · rw [← takeWhile_keptLines, List.takeWhile_append_dropWhile]
  · have mem : line ∈ keptLines text :=
      (List.dropWhile_suffix _).subset (List.mem_of_mem_head? first)
    simpa using List.mem_takeWhile_imp mem
  · have blank := List.head?_dropWhile_not isFilled (keptLines text)
    rw [Option.mem_def.1 first] at blank
    exact isFilled_eq_false_iff.1 blank

/-- An empty line with what stands behind it is trimmed to nothing, or starts with it still. -/
theorem trimEnd_feeds (cs : List Char) : Text.trimEnd ('\n' :: '\n' :: cs) = [] ∨
    ∃ more, Text.trimEnd ('\n' :: '\n' :: cs) = '\n' :: '\n' :: more := by
  have start := Text.trimEnd_prefix ('\n' :: '\n' :: cs)
  rcases List.prefix_cons_iff.1 start with nothing | ⟨left, one, start⟩
  · exact .inl nothing
  rcases List.prefix_cons_iff.1 start with rfl | ⟨more, rfl, -⟩
  · -- A single line feed is a blank at the end.
    have again : Text.trimEnd (Text.trimEnd ('\n' :: '\n' :: cs)) = _ :=
      List.rdropWhile_idempotent _ _
    have last := Text.trimEnd_eq_self_iff.1 again '\n' (congrArg List.getLast? one)
    exact absurd last (by decide)
  · exact .inr ⟨more, one⟩

/-- What stands behind an empty line is left out. -/
theorem keptLines_append (trimmed : Text.trim text.toList = text.toList) (nonempty : text ≠ "")
    (more : String) : keptLines (text ++ "\n\n" ++ more) = keptLines text := by
  have last : text.toList.getLast? ≠ some '\r' := fun last =>
    absurd ((Text.ends_of_trimmed trimmed).2 _ last) (by decide)
  have plain := Text.trim_plainLineEnds trimmed
  have some : Text.plainLineEnds text.toList ≠ [] := fun empty => by
    have none := Text.getLast?_plainLineEnds text.toList
    rw [empty, List.getLast?_nil, eq_comm, List.getLast?_eq_none_iff] at none
    exact nonempty (String.toList_eq_nil_iff.1 none)
  have behind : (text ++ "\n\n" ++ more).toList = text.toList ++ '\n' :: '\n' :: more.toList := by
    simp
  have feeds : Text.plainLineEnds ('\n' :: '\n' :: more.toList) =
      '\n' :: '\n' :: Text.plainLineEnds more.toList := rfl
  unfold keptLines textLines
  rw [behind, Text.plainLineEnds_append last, Text.trim_append plain some, plain, feeds]
  obtain nothing | ⟨left, starts⟩ := trimEnd_feeds (Text.plainLineEnds more.toList)
  · rw [nothing, List.append_nil]
  · rw [starts]
    have split : lines (Text.plainLineEnds text.toList ++ '\n' :: '\n' :: left) =
        lines (Text.plainLineEnds text.toList) ++ [] :: lines left := by
      rw [lines, List.splitOn_append_cons_self]
      rfl
    rw [split, List.takeWhile_append, List.takeWhile_cons_of_neg (by simp), List.append_nil]
    split
    · rename_i all
      exact ((List.takeWhile_prefix _).eq_of_length all).symm
    · rfl

/-- **What is kept of a description.**  The abbreviation is made of the lines before the first empty
one, each without the blanks around it.  They are the first paragraph, and behind it nothing, or a
line of blanks and what follows it.

* The abbreviation is the first paragraph just where no line of blanks stands before the first empty
  line, and just there no line is printed empty.
* What follows a description after an empty line is never printed. -/
theorem abbreviate_firstParagraph_iff (text : String) :
    abbreviate text = continueLines (keptLines text) ∧
      (∃ rest, keptLines text = firstParagraph text ++ rest ∧
        ∀ line ∈ rest.head?, line ≠ [] ∧ Text.trim line = []) ∧
      (abbreviate text = continueLines (firstParagraph text) ↔
        ∀ line ∈ keptLines text, isFilled line = true) ∧
      ([] ∉ (keptLines text).map Text.trim ↔ ∀ line ∈ keptLines text, isFilled line = true) ∧
      ∀ more, Text.trim text.toList = text.toList → text ≠ "" →
        abbreviate (text ++ "\n\n" ++ more) = abbreviate text := by
  have kept := abbreviate_eq text
  obtain ⟨rest, same, starts⟩ := exists_rest text
  refine ⟨kept, ⟨rest, same, starts⟩, ?_, ?_, fun more trimmed nonempty => ?_⟩
  · rw [kept, ← List.takeWhile_eq_self_iff, takeWhile_keptLines]
    by_cases blank : keptLines text = []
    · have none : firstParagraph text = [] := (List.append_eq_nil_iff.1 (same ▸ blank)).1
      simp [blank, none]
    · rw [same, continueLines_append_eq_iff (firstParagraph_ne_nil blank),
        List.self_eq_append_right]
  · simp only [List.mem_map, not_exists, not_and]
    refine forall₂_congr fun line _ => ?_
    rw [← isFilled_eq_false_iff, Bool.not_eq_false]
  · rw [abbreviate_eq, keptLines_append trimmed nonempty, kept]

/-- Two paragraphs with a line of blanks between them are both printed, and a third one behind an
empty line is not. -/
theorem abbreviate_blankLine :
    abbreviate "One.\n \nTwo." = "One.\n * \n * Two." ∧
      continueLines (firstParagraph "One.\n \nTwo.") = "One." ∧
      abbreviate "One.\n \nTwo." ≠ continueLines (firstParagraph "One.\n \nTwo.") ∧
      abbreviate "One.\n \nTwo.\n\nThree." = "One.\n * \n * Two." := by
  obtain ⟨kept, -, whole, -, behind⟩ := abbreviate_firstParagraph_iff "One.\n \nTwo."
  have printed : abbreviate "One.\n \nTwo." = "One.\n * \n * Two." :=
    kept.trans (by decide +kernel)
  refine ⟨printed, by decide +kernel, mt whole.1 (by decide +kernel), ?_⟩
  exact (behind "Three." (by decide +kernel) (by decide)).trans printed

end DocComment
end AmbientDecl
