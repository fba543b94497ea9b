/- # Where a text can be cut

No token holds two characters one directly after the other unless they join (`Joins`): two blanks, a
character of a name and what may follow it in a name, or the two brackets of an array.  So where the
last character of a text and the first one after it do not join, the tokens are those of the two
parts (`scan_append`), and what the second part is does not matter for those of the first.  Blanks,
braces and everything that is not blank next to a blank are such places.
-/

import AmbientDecl.Proofs.Blank
import AmbientDecl.Proofs.TypeExpr.Tiling

namespace AmbientDecl
namespace Token

variable {a b c : Char} {cs ds rest : List Char}

/-- A token can hold one character directly before the other. -/
def Joins (a b : Char) : Prop :=
  (Text.isBlank a = true ∧ Text.isBlank b = true) ∨
    (isNameChar a = true ∧ (isNameChar b = true ∨ b = '?')) ∨ (a = '[' ∧ b = ']')

/-- The last character of a text does not join the first one of the rest. -/
def Apart (cs rest : List Char) : Prop := ∀ a ∈ cs.getLast?, ∀ b ∈ rest.head?, ¬ Joins a b

/-- The end of a text is the end of what is left of it. -/
theorem Apart.of_append (h : Apart (ds ++ cs) rest) : Apart cs rest := by
  intro a last
  refine h a ?_
  rw [List.getLast?_append, Option.mem_def.1 last]
  rfl

/-- No blank follows a blank. -/
theorem Apart.blank (h : Apart cs rest) : ∀ a ∈ cs.getLast?, Text.isBlank a = true →
    ∀ b ∈ rest.head?, Text.isBlank b = false := by
  intro a last blank b first
  by_contra blank'
  exact h a last b first (.inl ⟨blank, by simpa using blank'⟩)

/-- What follows a name stops it. -/
theorem Apart.stops (h : Apart cs rest) : ∀ a ∈ cs.getLast?, isNameChar a = true → Stops rest := by
  intro a last inName b first
  have apart := h a last b first
  simp only [Joins, not_or, not_and, Bool.not_eq_true] at apart
  exact apart.2.1 inName

/-- A run is not continued past a place where nothing joins. -/
theorem takeWhile_append_of_apart {p : Char → Bool} (start : p c = true)
    (ends : ∀ a ∈ (c :: cs).getLast?, p a = true → ∀ b ∈ rest.head?, p b = false) :
    (cs ++ rest).takeWhile p = cs.takeWhile p := by
  rw [List.takeWhile_append]
  split
  next all =>
    have run := List.takeWhile_eq_self_iff.1 ((List.takeWhile_prefix p).eq_of_length all)
    have whole : ∀ a ∈ c :: cs, p a = true := List.forall_mem_cons.2 ⟨start, run⟩
    have last := List.getLast?_eq_some_getLast (List.cons_ne_nil c cs)
    have past := ends _ last (whole _ (List.getLast_mem _))
    have nothing : rest.takeWhile p = [] := by
      cases rest with
      | nil => rfl
      | cons b rest => simp [past b rfl]
    rw [nothing, List.append_nil, List.takeWhile_eq_self_iff.2 run]
  next => rfl

/-- What is left after a run goes on as it did. -/
theorem dropWhile_append_of_takeWhile {p : Char → Bool}
    (run : (cs ++ rest).takeWhile p = cs.takeWhile p) :
    (cs ++ rest).dropWhile p = cs.dropWhile p ++ rest := by
  have same : cs.takeWhile p ++ (cs ++ rest).dropWhile p =
      cs.takeWhile p ++ (cs.dropWhile p ++ rest) := by
    calc cs.takeWhile p ++ (cs ++ rest).dropWhile p
        = cs ++ rest := by rw [← run, List.takeWhile_append_dropWhile]
      _ = cs.takeWhile p ++ (cs.dropWhile p ++ rest) := by
        rw [← List.append_assoc, List.takeWhile_append_dropWhile]
  exact List.append_cancel_left same

/-- The name at the start of a text does not reach into what does not join. -/
theorem nameLexeme_append_of_apart (start : isNameStart c = true) (h : Apart (c :: cs) rest) :
    nameLexeme (c :: (cs ++ rest)) = nameLexeme (c :: cs) := by
  have inName := isNameChar_of_isNameStart start
  have run : (cs ++ rest).takeWhile isNameChar = cs.takeWhile isNameChar :=
    takeWhile_append_of_apart inName fun a last run b first => (h.stops a last run b first).1
  have asked : (cs.dropWhile isNameChar ++ rest).head? = some '?' ↔
      (cs.dropWhile isNameChar).head? = some '?' := by
    cases left : cs.dropWhile isNameChar with
    | cons d ds => rfl
    | nil =>
      -- the whole text is a run, so a question mark after it would join
      have all : ∀ a ∈ c :: cs, isNameChar a = true :=
        List.forall_mem_cons.2 ⟨inName, List.dropWhile_eq_nil_iff.1 left⟩
      have last := List.getLast?_eq_some_getLast (List.cons_ne_nil c cs)
      have stops := h.stops _ last (all _ (List.getLast_mem _))
      exact ⟨fun asked => absurd rfl (stops '?' asked).2, nofun⟩
  simp only [nameLexeme, List.takeWhile_cons_of_pos inName, List.dropWhile_cons_of_pos inName, run,
    dropWhile_append_of_takeWhile run, asked]

/-- An ellipsis does not reach into what does not join. -/
theorem dots_append (h : Apart ('.' :: cs) rest) :
    ['.', '.'].isPrefixOf (cs ++ rest) = ['.', '.'].isPrefixOf cs := by
  have noDot : ('.' :: cs).getLast? = some '.' → ∀ ds, ¬ '.' :: ds <+: rest := by
    rintro last ds ⟨more, rfl⟩
    exact h '.' last '.' rfl (.inr (.inl ⟨rfl, .inl rfl⟩))
  rw [Bool.eq_iff_iff, List.isPrefixOf_iff_prefix, List.isPrefixOf_iff_prefix]
  match cs with
  | [] => simpa using noDot rfl ['.']
  | [x] =>
    by_cases dot : '.' = x
    · subst dot
      simpa using noDot rfl []
    · simp [dot]
  | x :: y :: cs => simp

/-- The mark of an array does not reach into what does not join. -/
theorem bracket_append (h : Apart ('[' :: cs) rest) :
    (cs ++ rest).head? = some ']' ↔ cs.head? = some ']' := by
  cases cs with
  | nil =>
    have noBracket : rest.head? ≠ some ']' := fun first =>
      h '[' rfl ']' first (.inr (.inr ⟨rfl, rfl⟩))
    simpa using noBracket
  | cons x cs => rfl

/-- **No lexeme reaches into what does not join.** -/
theorem lexeme_append (h : Apart (c :: cs) rest) : lexeme c (cs ++ rest) = lexeme c cs := by
  by_cases blank : Text.isBlank c = true
  · rw [lexeme_of_isBlank blank, lexeme_of_isBlank blank, takeWhile_append_of_apart blank h.blank]
  by_cases start : isNameStart c = true
  · rw [lexeme_of_isNameStart start, lexeme_of_isNameStart start,
      nameLexeme_append_of_apart start h]
  have dots : c = '.' ∧ ['.', '.'].isPrefixOf (cs ++ rest) = true ↔
      c = '.' ∧ ['.', '.'].isPrefixOf cs = true := by
    refine and_congr_right fun dot => ?_
    subst dot
    rw [dots_append h]
  have pair : c = '[' ∧ (cs ++ rest).head? = some ']' ↔ c = '[' ∧ cs.head? = some ']' := by
    refine and_congr_right fun bracket => ?_
    subst bracket
    exact bracket_append h
  simp only [lexeme, if_neg blank, if_neg start, dots, pair]

/-- **A text is scanned in parts where nothing joins.** -/
theorem scan_append (h : Apart cs rest) (position : Nat) :
    scan position 0 (cs ++ rest) = scan position 0 cs ++ scan (position + cs.length) 0 rest := by
  induction cs using lexeme_induction generalizing position with
  | nil => rfl
  | cons c ds tail first ih =>
    have kind := lexeme_append h
    rw [List.append_assoc] at kind
    have first' : (lexeme c (ds ++ (tail ++ rest))).2 = c :: ds := by rw [kind, first]
    have whole : Apart (c :: ds ++ tail) rest := h
    have later := ih whole.of_append (position + (c :: ds).length)
    rw [List.cons_append, List.append_assoc, scan_lexeme first', scan_lexeme first, kind, later,
      List.cons_append, Nat.add_assoc, ← List.length_append]
    rfl

/-- Nothing but a blank joins a blank after it. -/
theorem not_joins_blank (notBlank : Text.isBlank a = false) (blank : Text.isBlank b = true) :
    ¬ Joins a b := by
  rintro (⟨blank', -⟩ | ⟨-, inName | rfl⟩ | ⟨-, rfl⟩)
  · rw [notBlank] at blank'
    cases blank'
  · rw [isBlank_of_isNameChar inName] at blank
    cases blank
  · cases blank
  · cases blank

/-- A blank joins nothing but a blank after it. -/
theorem not_blank_joins (blank : Text.isBlank a = true) (notBlank : Text.isBlank b = false) :
    ¬ Joins a b := by
  rintro (⟨-, blank'⟩ | ⟨inName, -⟩ | ⟨rfl, -⟩)
  · rw [notBlank] at blank'
    cases blank'
  · rw [isBlank_of_isNameChar inName] at blank
    cases blank
  · cases blank

/-- Blanks and what follows them when it does not start with a blank. -/
theorem Apart.after_blanks (blanks : ∀ c ∈ cs, Text.isBlank c = true)
    (start : ∀ c ∈ rest.head?, Text.isBlank c = false) : Apart cs rest := fun a last b first =>
  not_blank_joins (blanks a (List.mem_of_getLast? last)) (start b first)

/-- What does not end with a blank and the blank that follows it. -/
theorem Apart.before_blank (ends : ∀ c ∈ cs.getLast?, Text.isBlank c = false)
    (blank : ∀ c ∈ rest.head?, Text.isBlank c = true) : Apart cs rest := fun a last b first =>
  not_joins_blank (ends a last) (blank b first)

/-- Nothing joins a brace. -/
theorem Apart.before_brace (cs rest : List Char) : Apart cs ('\x7d' :: rest) := by
  rintro a - b ⟨⟩ (⟨-, blank⟩ | ⟨-, inName | brace⟩ | ⟨-, brace⟩)
  · cases blank
  · cases inName
  · cases brace
  · cases brace

theorem Apart.after_brace (rest : List Char) : Apart ['\x7b'] rest := by
  rintro a ⟨⟩ b - (⟨blank, -⟩ | ⟨inName, -⟩ | ⟨brace, -⟩)
  · cases blank
  · cases inName
  · cases brace

/-- The kinds of the tokens of a text, in their order. -/
def kinds (cs : List Char) : List TokenKind := (scan 0 0 cs).map kind

theorem map_kind_scan (position : Nat) (cs : List Char) :
    (scan position 0 cs).map kind = kinds cs := by
  have same := scan_add 0 position 0 cs
  rw [Nat.zero_add] at same
  rw [same, List.map_map, kinds]
  rfl

theorem kinds_append (h : Apart cs rest) : kinds (cs ++ rest) = kinds cs ++ kinds rest := by
  rw [kinds, scan_append h, List.map_append, map_kind_scan, map_kind_scan]

theorem hasEllipsis_iff {text : String} :
    hasEllipsis text = true ↔ .ellipsis ∈ kinds text.toList := by
  simp [hasEllipsis, tokens, kinds]

/-- A run of blanks is one token. -/
theorem scan_blanks (some : cs ≠ []) (blanks : ∀ c ∈ cs, Text.isBlank c = true) (position : Nat) :
    scan position 0 cs = [⟨.blank, String.ofList cs, position⟩] := by
  obtain ⟨c, cs, rfl⟩ := List.exists_cons_of_ne_nil some
  obtain ⟨blank, blanks⟩ := List.forall_mem_cons.1 blanks
  have run : lexeme c (cs ++ []) = (.blank, c :: cs) := by
    rw [List.append_nil, lexeme_of_isBlank blank, List.takeWhile_eq_self_iff.2 blanks]
  have scanned := Scans.lexeme run position
  simpa [Scans, scan] using scanned

theorem kinds_blanks (blanks : ∀ c ∈ cs, Text.isBlank c = true) :
    ∀ kind ∈ kinds cs, kind = .blank := by
  by_cases some : cs = []
  · subst some
    nofun
  · rw [kinds, scan_blanks some blanks]
    exact List.forall_mem_singleton.2 rfl

/-- Blanks hold no ellipsis. -/
theorem ellipsis_notMem_kinds (blanks : ∀ c ∈ cs, Text.isBlank c = true) :
    .ellipsis ∉ kinds cs := fun mem => absurd (kinds_blanks blanks _ mem) nofun

/-- Blanks around a text hold no ellipsis. -/
theorem ellipsis_mem_kinds_trim (cs : List Char) :
    .ellipsis ∈ kinds (Text.trim cs) ↔ .ellipsis ∈ kinds cs := by
  obtain ⟨before, after, same, blanks, blanks'⟩ := Text.exists_trim cs
  have start := Text.trimStart_eq_self_iff.1 (Text.trimStart_trim cs)
  have ends := Text.trimEnd_eq_self_iff.1 (Text.trimEnd_trim cs)
  generalize Text.trim cs = inner at same start ends
  subst same
  cases inner with
  | nil =>
    have all : ∀ c ∈ before ++ [] ++ after, Text.isBlank c = true := by
      simpa using List.forall_mem_append.2 ⟨blanks, blanks'⟩
    exact iff_of_false nofun (ellipsis_notMem_kinds all)
  | cons c inner =>
    have right : Apart (before ++ c :: inner) after := by
      refine .before_blank (fun a last => ends a ?_) fun b first =>
        blanks' b (List.mem_of_mem_head? first)
      rwa [List.getLast?_append_of_ne_nil _ (List.cons_ne_nil c inner)] at last
    have left : Apart before (c :: inner) := .after_blanks blanks start
    have none := ellipsis_notMem_kinds blanks
    have none' := ellipsis_notMem_kinds blanks'
    rw [kinds_append right, kinds_append left]
    simp [none, none']

/-- A text in braces, and what follows it, are scanned apart. -/
theorem kinds_braced (cs rest : List Char) :
    kinds ('\x7b' :: (cs ++ '\x7d' :: rest)) = .other :: (kinds cs ++ kinds ('\x7d' :: rest)) := by
  rw [← List.singleton_append, kinds_append (.after_brace _), kinds_append (.before_brace cs rest)]
  rfl

end Token
end AmbientDecl
