/- # The scanner tiles its text

What the tokens of a text are, said without the scanner.  Each kind of token but `other` has a
pattern (`Pattern`).  A token is the longest text of its pattern that the rest of the text starts
with, and a name is this without its trailing dots; where no pattern has such a text, a single
character is an `other` token (`Cuts`).

The scanner cuts off one lexeme after the other, so what is proved of a text by cutting off its
first lexeme holds of every text (`lexeme_induction`).  The tokens from any boundary on are those of
the rest of the text, moved (`scan_split`, `scan_add`), and so all that has to be known is what the
first lexeme of a text is (`cuts_lexeme`).
-/

import AmbientDecl.Proofs.TypeExpr.Lexing
import Mathlib.Data.List.Chain

namespace AmbientDecl
namespace Token

/-- The characters `A-Z`, `a-z`, `_` and `$`. -/
def NameStart (c : Char) : Prop :=
  ('A' ≤ c ∧ c ≤ 'Z') ∨ ('a' ≤ c ∧ c ≤ 'z') ∨ c = '_' ∨ c = '$'

/-- The characters that a name starts with, the digits `0-9` and the dot. -/
def NameChar (c : Char) : Prop := NameStart c ∨ ('0' ≤ c ∧ c ≤ '9') ∨ c = '.'

/-- The texts that the pattern of a kind stands for.  A name may end in dots here. -/
inductive Pattern : TokenKind → List Char → Prop where
  | blank {cs : List Char} (some : cs ≠ []) (blanks : ∀ c ∈ cs, Text.isBlank c = true) :
      Pattern .blank cs
  | ellipsis : Pattern .ellipsis ['.', '.', '.']
  | array : Pattern .array ['[', ']']
  | star : Pattern .name ['*']
  | name {c : Char} {cs : List Char} (start : NameStart c) (chars : ∀ x ∈ cs, NameChar x) :
      Pattern .name (c :: cs)
  | asked {c : Char} {cs : List Char} (start : NameStart c) (chars : ∀ x ∈ cs, NameChar x) :
      Pattern .name (c :: (cs ++ ['?']))
  | less : Pattern .less ['<']
  | greater : Pattern .greater ['>']
  | comma : Pattern .comma [',']
  | bar : Pattern .bar ['|']
  | openParen : Pattern .openParen ['(']
  | closeParen : Pattern .closeParen [')']

/-- The text starts with `whole`, and with no longer text of the pattern. -/
structure Longest (kind : TokenKind) (text whole : List Char) : Prop where
  pattern : Pattern kind whole
  starts : whole <+: text
  longest : ∀ other, Pattern kind other → other <+: text → other.length ≤ whole.length

/-- What is cut off a text as a token of a kind. -/
inductive Cuts (text : List Char) : TokenKind → List Char → Prop where
  | mark {kind : TokenKind} {whole : List Char} (notName : kind ≠ .name)
      (longest : Longest kind text whole) : Cuts text kind whole
  | name {whole : List Char} (longest : Longest .name text whole) :
      Cuts text .name (dropTrailingDots whole)
  | other {c : Char} (starts : [c] <+: text)
      (none : ∀ kind whole, Pattern kind whole → ¬ whole <+: text) : Cuts text .other [c]

/-- The text that tokens make up. -/
def joined (ts : List Token) : String := String.ofList (ts.flatMap fun token => token.text.toList)

/-- The token `distance` characters further on. -/
def moved (distance : Nat) (token : Token) : Token :=
  { token with position := token.position + distance }

section
variable {c : Char} {cs ds rest whole : List Char} {kind : TokenKind} {position : Nat}
  {before after : List Token} {token next : Token}

theorem isAlpha_iff : c.isAlpha = true ↔ ('A' ≤ c ∧ c ≤ 'Z') ∨ ('a' ≤ c ∧ c ≤ 'z') := by
  delta Char.isAlpha Char.isUpper Char.isLower
  simp only [Bool.or_eq_true, Bool.and_eq_true, decide_eq_true_eq]
  rfl

theorem isDigit_iff : c.isDigit = true ↔ '0' ≤ c ∧ c ≤ '9' := by
  simp only [Char.isDigit, Bool.and_eq_true, decide_eq_true_eq]
  rfl

theorem isNameStart_iff : isNameStart c = true ↔ NameStart c := by
  simp only [isNameStart, NameStart, Bool.or_eq_true, decide_eq_true_eq, isAlpha_iff, or_assoc]

theorem isNameChar_iff : isNameChar c = true ↔ NameChar c := by
  simp only [isNameChar, NameChar, NameStart, Char.isAlphanum, Bool.or_eq_true, decide_eq_true_eq,
    isAlpha_iff, isDigit_iff]
  tauto

theorem dropTrailingDots_eq_self_iff : dropTrailingDots cs = cs ↔ cs.getLast? ≠ some '.' := by
  rw [dropTrailingDots_eq_rdropWhile, List.rdropWhile_eq_self_iff]
  cases cs with
  | nil => simp
  | cons c cs => simp [List.getLast?_eq_some_getLast (List.cons_ne_nil c cs)]

/-- A name has no trailing dots. -/
theorem getLast?_dropTrailingDots (cs : List Char) :
    (dropTrailingDots cs).getLast? ≠ some '.' :=
  dropTrailingDots_eq_self_iff.1 (List.rdropWhile_idempotent _ _)

/-- The names are the texts of their pattern that do not end in a dot. -/
theorem isName_iff : IsName cs ↔ Pattern .name cs ∧ cs.getLast? ≠ some '.' := by
  constructor
  · intro h
    cases h with
    | star => exact ⟨.star, by decide⟩
    | plain start chars last =>
      exact ⟨.name (isNameStart_iff.1 start) fun x mem => isNameChar_iff.1 (chars x mem),
        dropTrailingDots_eq_self_iff.1 last⟩
    | asked start chars =>
      refine ⟨.asked (isNameStart_iff.1 start) fun x mem => isNameChar_iff.1 (chars x mem), ?_⟩
      rw [← List.cons_append, List.getLast?_concat]
      decide
  · rintro ⟨pattern, last⟩
    cases pattern with
    | star => exact .star
    | name start chars =>
      exact .plain (isNameStart_iff.2 start) (fun x mem => isNameChar_iff.2 (chars x mem))
        (dropTrailingDots_eq_self_iff.2 last)
    | asked start chars =>
      exact .asked (isNameStart_iff.2 start) fun x mem => isNameChar_iff.2 (chars x mem)

/-! ### The first lexeme -/

/-- A run that is not continued ends before what follows it. -/
theorem prefix_of_run {p : Char → Bool} (run : ∀ c ∈ ds, p c = true)
    (ends : ∀ c ∈ rest.head?, p c = false) (starts : ds <+: cs ++ rest) : ds <+: cs := by
  have initial : cs <+: cs ++ rest := List.prefix_append _ _
  rcases Nat.le_total ds.length cs.length with shorter | longer
  · exact List.prefix_of_prefix_length_le starts initial shorter
  · obtain ⟨more, rfl⟩ := List.prefix_of_prefix_length_le initial starts longer
    cases more with
    | nil => simp
    | cons c more =>
      obtain ⟨last, rfl⟩ := (List.prefix_append_right_inj cs).1 starts
      have inRun := run c (by simp)
      rw [ends c rfl] at inRun
      cases inRun

/-- Two runs with the same end are the same: what ends the one follows the other. -/
theorem eq_of_run_ends {p : Char → Bool} (run : ∀ c ∈ ds, p c = true)
    (run' : ∀ c ∈ cs, p c = true) (ends : ∀ c ∈ rest.head?, p c = false) (stop : p c = false)
    (starts : ds ++ [c] <+: cs ++ rest) : ds = cs ∧ rest.head? = some c := by
  obtain ⟨more, rfl⟩ := prefix_of_run run ends ((List.prefix_append _ _).trans starts)
  rw [List.append_assoc, List.prefix_append_right_inj] at starts
  obtain ⟨last, same⟩ := starts
  cases more with
  | nil =>
    rw [List.nil_append] at same
    rw [← same, List.append_nil]
    exact ⟨rfl, rfl⟩
  | cons x more =>
    obtain rfl : c = x := (List.cons.inj same).1
    rw [run' c (by simp)] at stop
    cases stop

/-- A mark that is the only text of its pattern is the longest one. -/
theorem Longest.of_only (pattern : Pattern kind whole)
    (only : ∀ other, Pattern kind other → other = whole) (rest : List Char) :
    Longest kind (whole ++ rest) whole where
  pattern := pattern
  starts := List.prefix_append _ _
  longest other same _ := by rw [only other same]

/-- A run of blanks that no blank follows is the longest one. -/
theorem Longest.blank (some : cs ≠ []) (blanks : ∀ c ∈ cs, Text.isBlank c = true)
    (ends : ∀ c ∈ rest.head?, Text.isBlank c = false) : Longest .blank (cs ++ rest) cs where
  pattern := .blank some blanks
  starts := List.prefix_append _ _
  longest other pattern starts := by
    cases pattern with
    | blank _ run => exact (prefix_of_run run ends starts).length_le

/-- A run of characters of a name takes one question mark after it. -/
theorem Longest.name (start : NameStart c) (chars : ∀ x ∈ cs, NameChar x)
    (ends : ∀ x ∈ rest.head?, isNameChar x = false) :
    Longest .name (c :: cs ++ rest)
      (if rest.head? = some '?' then c :: cs ++ ['?'] else c :: cs) where
  pattern := by
    split
    · exact .asked start chars
    · exact .name start chars
  starts := by
    split
    next asked =>
      obtain ⟨rest, rfl⟩ := List.head?_eq_some_iff.1 asked
      exact (List.prefix_append_right_inj _).2 (List.prefix_append ['?'] rest)
    next => exact List.prefix_append _ _
  longest other pattern starts := by
    have least : (c :: cs).length ≤
        (if rest.head? = some '?' then c :: cs ++ ['?'] else c :: cs).length := by
      split <;> simp
    have run : ∀ {d : Char} {ds : List Char}, NameStart d → (∀ x ∈ ds, NameChar x) →
        ∀ x ∈ d :: ds, isNameChar x = true := fun start chars =>
      List.forall_mem_cons.2
        ⟨isNameChar_iff.2 (.inl start), fun x mem => isNameChar_iff.2 (chars x mem)⟩
    cases pattern with
    | star => exact Nat.le_trans (by simp) least
    | name start' chars' =>
      exact Nat.le_trans (prefix_of_run (run start' chars') ends starts).length_le least
    | asked start' chars' =>
      -- the question mark is no character of a name, so it stands behind the run
      rw [← List.cons_append] at starts ⊢
      obtain ⟨same, asked⟩ :=
        eq_of_run_ends (run start' chars') (run start chars) ends (by decide) starts
      rw [if_pos asked, same]

theorem lexeme_of_isBlank (h : Text.isBlank c = true) (cs : List Char) :
    lexeme c cs = (.blank, c :: cs.takeWhile Text.isBlank) := by
  rw [lexeme, if_pos h]

/-- What is left of a text after its longest run does not start with a character of the run. -/
theorem head?_dropWhile_eq_false (p : Char → Bool) (cs : List Char) :
    ∀ c ∈ (cs.dropWhile p).head?, p c = false := by
  intro c first
  have stop := List.head?_dropWhile_not p cs
  rwa [Option.mem_def.1 first] at stop

/-- The blanks at the start of a text. -/
theorem cuts_blank (h : Text.isBlank c = true) (cs : List Char) :
    Cuts (c :: cs) .blank (c :: cs.takeWhile Text.isBlank) := by
  have blanks : ∀ x ∈ c :: cs.takeWhile Text.isBlank, Text.isBlank x = true :=
    List.forall_mem_cons.2 ⟨h, fun _ => List.mem_takeWhile_imp⟩
  have longest := Longest.blank (List.cons_ne_nil _ _) blanks
    (head?_dropWhile_eq_false Text.isBlank cs)
  rw [List.cons_append, List.takeWhile_append_dropWhile] at longest
  exact .mark (by decide) longest

/-- The name at the start of a text. -/
theorem cuts_name (h : isNameStart c = true) (cs : List Char) :
    Cuts (c :: cs) .name (nameLexeme (c :: cs)) := by
  have chars : ∀ x ∈ cs.takeWhile isNameChar, isNameChar x = true := fun _ => List.mem_takeWhile_imp
  have ends := head?_dropWhile_eq_false isNameChar cs
  have longest := Longest.name (isNameStart_iff.1 h)
    (fun x mem => isNameChar_iff.1 (chars x mem)) ends
  have run : ∀ x ∈ c :: cs.takeWhile isNameChar, isNameChar x = true :=
    List.forall_mem_cons.2 ⟨isNameChar_of_isNameStart h, chars⟩
  have cut := nameLexeme_append run ends
  rw [List.cons_append, List.takeWhile_append_dropWhile] at longest cut
  rw [cut]
  split at longest
  next asked =>
    have last : dropTrailingDots (c :: cs.takeWhile isNameChar ++ ['?']) = _ :=
      dropTrailingDots_eq_self_iff.2 (by rw [List.getLast?_concat]; decide)
    rw [if_pos asked, ← last]
    exact .name longest
  next unasked =>
    rw [if_neg unasked]
    exact .name longest

/-- Where a text of a pattern stands, the scanner finds a lexeme of this kind. -/
theorem kind_lexeme (pattern : Pattern kind whole) (starts : whole <+: c :: cs) :
    (lexeme c cs).1 = kind := by
  obtain ⟨rest, same⟩ := starts
  cases pattern with
  | blank some blanks =>
    obtain ⟨d, ds, rfl⟩ := List.exists_cons_of_ne_nil some
    cases same
    rw [lexeme_of_isBlank (blanks c List.mem_cons_self)]
  | name start =>
    cases same
    rw [lexeme_of_isNameStart (isNameStart_iff.2 start)]
  | asked start =>
    cases same
    rw [lexeme_of_isNameStart (isNameStart_iff.2 start)]
  | _ =>
    cases same
    rfl

/-- A star is a name of its own. -/
theorem cuts_star (cs : List Char) : Cuts ('*' :: cs) .name ['*'] := by
  have only : ∀ other, Pattern .name other → other <+: '*' :: cs → other.length ≤ 1 := by
    have notStart : ¬ NameStart '*' := fun start => absurd (isNameStart_iff.2 start) (by decide)
    intro other pattern starts
    cases pattern with
    | star => rfl
    | name start =>
      obtain rfl := (List.cons_prefix_cons.1 starts).1
      exact absurd start notStart
    | asked start =>
      obtain rfl := (List.cons_prefix_cons.1 starts).1
      exact absurd start notStart
  exact .name ⟨.star, List.prefix_append ['*'] cs, only⟩

/-- **The scanner cuts off what its patterns say.** -/
theorem cuts_lexeme (c : Char) (cs : List Char) :
    Cuts (c :: cs) (lexeme c cs).1 (lexeme c cs).2 := by
  have single : ∀ {kind}, kind ≠ .name → Pattern kind [c] →
      (∀ other, Pattern kind other → other = [c]) → Cuts (c :: cs) kind [c] :=
    fun notName pattern only => .mark notName (.of_only pattern only cs)
  fun_cases lexeme c cs with
  | case1 blank => exact cuts_blank blank cs
  | case2 _ start => exact cuts_name start cs
  | case3 _ _ dots =>
    obtain ⟨rfl, dots⟩ := dots
    obtain ⟨rest, rfl⟩ := List.isPrefixOf_iff_prefix.1 dots
    exact .mark nofun (.of_only .ellipsis (by rintro _ ⟨⟩; rfl) rest)
  | case4 _ _ _ pair =>
    obtain ⟨rfl, pair⟩ := pair
    obtain ⟨rest, rfl⟩ := List.head?_eq_some_iff.1 pair
    exact .mark nofun (.of_only .array (by rintro _ ⟨⟩; rfl) rest)
  | case5 _ _ _ _ star =>
    subst star
    exact cuts_star cs
  | case6 =>
    subst_vars
    exact single nofun .less (by rintro _ ⟨⟩; rfl)
  | case7 =>
    subst_vars
    exact single nofun .greater (by rintro _ ⟨⟩; rfl)
  | case8 =>
    subst_vars
    exact single nofun .comma (by rintro _ ⟨⟩; rfl)
  | case9 =>
    subst_vars
    exact single nofun .bar (by rintro _ ⟨⟩; rfl)
  | case10 =>
    subst_vars
    exact single nofun .openParen (by rintro _ ⟨⟩; rfl)
  | case11 =>
    subst_vars
    exact single nofun .closeParen (by rintro _ ⟨⟩; rfl)
  | case12 =>
    have other : (lexeme c cs).1 = .other := by grind [lexeme]
    refine .other (List.prefix_append [c] cs) fun kind whole pattern starts => ?_
    obtain rfl : TokenKind.other = kind := other.symm.trans (kind_lexeme pattern starts)
    cases pattern

/-! ### All lexemes -/

theorem Cuts.starts (h : Cuts cs kind ds) : ds <+: cs := by
  cases h with
  | mark _ longest => exact longest.starts
  | name longest => exact (List.rdropWhile_prefix _ _).trans longest.starts
  | other starts => exact starts

theorem Cuts.ne_nil (h : Cuts cs kind ds) : ds ≠ [] := by
  cases h with
  | mark _ longest =>
    cases longest.pattern with
    | blank some => exact some
    | _ => exact List.cons_ne_nil _ _
  | name longest =>
    -- the first character of a name is no dot
    have notDot : ¬ NameStart '.' := fun start => absurd (isNameStart_iff.2 start) (by decide)
    intro empty
    have dots := List.rdropWhile_eq_nil_iff.1 empty
    cases longest.pattern with
    | star => exact absurd (dots '*' List.mem_cons_self) (by decide)
    | name start =>
      obtain rfl := of_decide_eq_true (dots _ List.mem_cons_self)
      exact notDot start
    | asked start =>
      obtain rfl := of_decide_eq_true (dots _ List.mem_cons_self)
      exact notDot start
  | other => exact List.cons_ne_nil _ _

/-- The lexeme at the start of a text is the first part of it. -/
theorem exists_lexeme (c : Char) (cs : List Char) :
    ∃ ds rest, cs = ds ++ rest ∧ (lexeme c cs).2 = c :: ds := by
  have cut := cuts_lexeme c cs
  obtain ⟨d, ds, first⟩ := List.exists_cons_of_ne_nil cut.ne_nil
  obtain ⟨rest, same⟩ := cut.starts
  rw [first] at same
  cases same
  exact ⟨ds, rest, rfl, first⟩

/-- **Cutting off the first lexeme leads to every text.** -/
@[elab_as_elim]
theorem lexeme_induction {motive : List Char → Prop} (nil : motive [])
    (cons : ∀ c ds rest, (lexeme c (ds ++ rest)).2 = c :: ds → motive rest →
      motive (c :: (ds ++ rest))) (cs : List Char) : motive cs := by
  induction length : cs.length using Nat.strong_induction_on generalizing cs with
  | _ n ih =>
    cases cs with
    | nil => exact nil
    | cons c cs =>
      obtain ⟨ds, rest, rfl, first⟩ := exists_lexeme c cs
      refine cons c ds rest first (ih rest.length ?_ rest rfl)
      rw [← length, List.length_cons, List.length_append]
      omega

/-- The scanner goes on after the first lexeme. -/
theorem scan_lexeme (first : (lexeme c (ds ++ rest)).2 = c :: ds) (position : Nat) :
    scan position 0 (c :: (ds ++ rest)) =
      ⟨(lexeme c (ds ++ rest)).1, String.ofList (c :: ds), position⟩ ::
        scan (position + (c :: ds).length) 0 rest :=
  Scans.lexeme (Prod.ext rfl first) position

/-- What is scanned from a later position is moved. -/
theorem scan_add (position distance skip : Nat) (cs : List Char) :
    scan (position + distance) skip cs = (scan position skip cs).map (moved distance) := by
  induction cs generalizing position skip with
  | nil => rfl
  | cons c cs ih =>
    have later := ih (position + 1)
    rw [Nat.add_right_comm] at later
    cases skip with
    | succ skip => exact later skip
    | zero => rw [scan_cons, scan_cons, later, List.map_cons, moved]

@[simp] theorem joined_nil : joined [] = "" := rfl

@[simp] theorem joined_cons (token : Token) (ts : List Token) :
    joined (token :: ts) = token.text ++ joined ts := by
  simp [joined, String.ofList_append]

@[simp] theorem joined_append (ts us : List Token) :
    joined (ts ++ us) = joined ts ++ joined us := by
  simp [joined, String.ofList_append]

/-- **The tokens make up the text.** -/
theorem joined_scan (position : Nat) (cs : List Char) :
    (joined (scan position 0 cs)).toList = cs := by
  induction cs using lexeme_induction generalizing position with
  | nil => rfl
  | cons c ds rest first ih => simp [scan_lexeme first, ih]

/-- **The tokens after a boundary are those of the rest of the text.** -/
theorem scan_split (h : scan position 0 cs = before ++ after) :
    after = scan (position + (joined before).length) 0 (joined after).toList := by
  induction before generalizing position cs with
  | nil =>
    rw [List.nil_append] at h
    rw [← h, joined_scan, joined_nil]
    rfl
  | cons token before ih =>
    cases cs with
    | nil => cases h
    | cons c cs =>
      obtain ⟨ds, rest, rfl, first⟩ := exists_lexeme c cs
      rw [scan_lexeme first] at h
      obtain ⟨rfl, tail⟩ := List.cons.inj h
      have later := ih tail
      rwa [joined_cons, String.length_append, String.length_ofList, ← Nat.add_assoc]

/-- Only a run of blanks has blanks. -/
theorem Pattern.unbroken (h : Pattern kind whole) (notBlank : kind ≠ .blank) :
    ∀ x ∈ whole, Text.isBlank x = false := by
  have char : ∀ {x}, NameChar x → Text.isBlank x = false := fun inName =>
    isBlank_of_isNameChar (isNameChar_iff.2 inName)
  cases h with
  | blank => exact absurd rfl notBlank
  | name start chars =>
    exact List.forall_mem_cons.2 ⟨char (.inl start), fun x mem => char (chars x mem)⟩
  | asked start chars =>
    exact List.forall_mem_cons.2 ⟨char (.inl start),
      List.forall_mem_append.2
        ⟨fun x mem => char (chars x mem), List.forall_mem_singleton.2 rfl⟩⟩
  | _ => simp [Text.isBlank]

/-- Blanks stand in tokens of their own only. -/
theorem Cuts.blank_of_mem (h : Cuts cs kind ds) (mem : c ∈ ds) (blank : Text.isBlank c = true) :
    kind = .blank := by
  by_contra notBlank
  have broken : Text.isBlank c ≠ false := by simp [blank]
  cases h with
  | mark _ longest => exact broken (longest.pattern.unbroken notBlank c mem)
  | name longest =>
    exact broken (longest.pattern.unbroken notBlank c ((List.rdropWhile_prefix _ _).subset mem))
  | other starts none =>
    obtain rfl := List.mem_singleton.1 mem
    exact none .blank [c] (.blank (List.cons_ne_nil _ _) (by simpa using blank)) starts

theorem Cuts.blanks (h : Cuts cs .blank ds) : ∀ x ∈ ds, Text.isBlank x = true := by
  obtain ⟨-, longest⟩ := h
  obtain ⟨-, blanks⟩ := longest.pattern
  exact blanks

/-- No blank follows a run of blanks that is cut off. -/
theorem Cuts.blank_ends (h : Cuts (ds ++ rest) .blank ds) :
    ∀ x ∈ rest.head?, Text.isBlank x = false := by
  intro x first
  obtain ⟨rest, rfl⟩ := List.head?_eq_some_iff.1 first
  by_contra blank
  have longer : Pattern .blank (ds ++ [x]) := .blank (by simp)
    (List.forall_mem_append.2 ⟨h.blanks, List.forall_mem_singleton.2 (by simpa using blank)⟩)
  obtain ⟨-, longest⟩ := h
  have bound := longest.longest _ longer (by simp)
  rw [List.length_append, List.length_singleton] at bound
  omega

/-- What is known of a token that stands between others in the tokens of a text. -/
structure Tile (before : List Token) (token : Token) (after : List Token) : Prop where
  nonempty : token.text ≠ ""
  /-- A position counts the characters before the token. -/
  position : token.position = (joined before).length
  /-- The token is the longest text of its pattern in the rest of the text, less trailing dots. -/
  cuts : Cuts (joined (token :: after)).toList token.kind token.text.toList
  undotted : token.kind = .name → token.text.toList.getLast? ≠ some '.'
  /-- A run of blanks is not the second part of a longer one. -/
  starts : token.kind = .blank → ∀ c ∈ (joined before).toList.getLast?, Text.isBlank c = false
  /-- A run of blanks is not the first part of a longer one. -/
  ends : token.kind = .blank → ∀ c ∈ (joined after).toList.head?, Text.isBlank c = false

/-- The token after a boundary is cut off what is left of the text. -/
theorem cuts_of_split (h : scan position 0 cs = before ++ token :: after) :
    token.position = position + (joined before).length ∧
      Cuts (joined (token :: after)).toList token.kind token.text.toList := by
  have tail := scan_split h
  cases same : (joined (token :: after)).toList with
  | nil =>
    rw [same] at tail
    cases tail
  | cons c cs =>
    have cut := cuts_lexeme c cs
    rw [same, scan_cons] at tail
    obtain ⟨rfl, -⟩ := List.cons.inj tail
    exact ⟨rfl, by rwa [String.toList_ofList]⟩

theorem Cuts.getLast?_name (h : Cuts cs .name ds) : ds.getLast? ≠ some '.' := by
  cases h with
  | mark notName => exact absurd rfl notName
  | name => exact getLast?_dropTrailingDots _

theorem toList_joined_cons (token : Token) (ts : List Token) :
    (joined (token :: ts)).toList = token.text.toList ++ (joined ts).toList := by
  rw [joined_cons, String.toList_append]

/-- No run of blanks follows another one. -/
theorem not_blanks_of_split (h : scan position 0 cs = before ++ token :: next :: after) :
    ¬ (token.kind = .blank ∧ next.kind = .blank) := by
  rintro ⟨kind, kind'⟩
  have cuts := (cuts_of_split h).2
  rw [kind, toList_joined_cons] at cuts
  have later : scan position 0 cs = (before ++ [token]) ++ next :: after := by simpa using h
  have cuts' := (cuts_of_split later).2
  rw [kind'] at cuts'
  obtain ⟨c, cs, first⟩ := List.exists_cons_of_ne_nil cuts'.ne_nil
  have blank := cuts'.blanks c (by simp [first])
  rw [cuts.blank_ends c (by simp [first])] at blank
  cases blank

/-- No run of blanks follows a blank. -/
theorem not_blank_before (h : scan position 0 cs = before ++ token :: after)
    (kind : token.kind = .blank) :
    ∀ c ∈ (joined before).toList.getLast?, Text.isBlank c = false := by
  intro c last
  by_contra blank
  rcases List.eq_nil_or_concat before with rfl | ⟨before, previous, rfl⟩
  · cases last
  · rw [List.concat_eq_append, List.append_assoc] at h
    have cuts := (cuts_of_split h).2
    have inLast : c ∈ previous.text.toList.getLast? := by
      have last' : c ∈ ((joined before).toList ++ previous.text.toList).getLast? := by
        simpa using last
      rwa [List.getLast?_append_of_ne_nil _ cuts.ne_nil] at last'
    have kind' := cuts.blank_of_mem (List.mem_of_getLast? inLast) (by simpa using blank)
    exact not_blanks_of_split h ⟨kind', kind⟩

/-- **Each token is where it belongs.** -/
theorem tile_of_split {text : String} (h : tokens text = before ++ token :: after) :
    Tile before token after := by
  obtain ⟨position, cuts⟩ := cuts_of_split h
  have nonempty : token.text ≠ "" := by simpa using cuts.ne_nil
  refine ⟨nonempty, by simpa using position, cuts, fun kind => ?_, not_blank_before h,
    fun kind => ?_⟩
  · rw [kind] at cuts
    exact cuts.getLast?_name
  · rw [kind, toList_joined_cons] at cuts
    exact cuts.blank_ends

/-- **The tokens tile their text.**  Joined, they are the text; each one of them is where it belongs
and is cut off as its pattern says; no two runs of blanks follow each other; and the tokens from any
boundary on are those of the rest of the text alone, moved to their places. -/
theorem tokens_tile (text : String) :
    joined (tokens text) = text ∧
      (∀ before token after, tokens text = before ++ token :: after → Tile before token after) ∧
      (tokens text).IsChain (fun token next => ¬ (token.kind = .blank ∧ next.kind = .blank)) ∧
      ∀ before after, tokens text = before ++ after →
        after = (tokens (joined after)).map (moved (joined before).length) := by
  refine ⟨?_, fun _ _ _ => tile_of_split, ?_, fun before after split => ?_⟩
  · rw [← String.toList_inj, tokens, joined_scan]
  · exact List.isChain_iff_forall_rel_of_append_cons_cons.2 fun _ _ _ _ => not_blanks_of_split
  · have rest := scan_split split
    rwa [scan_add] at rest

/-- A question mark keeps the dots before it in the name; the dots behind are an ellipsis and what
is left over of them. -/
theorem tokens_tile_dots :
    tokens "Id.?.... é" = [⟨.name, "Id.?", 0⟩, ⟨.ellipsis, "...", 4⟩, ⟨.other, ".", 7⟩,
        ⟨.blank, " ", 8⟩, ⟨.other, "é", 9⟩] ∧
      Tile [⟨.name, "Id.?", 0⟩] ⟨.ellipsis, "...", 4⟩
        [⟨.other, ".", 7⟩, ⟨.blank, " ", 8⟩, ⟨.other, "é", 9⟩] ∧
      tokens ".... é" = [⟨.ellipsis, "...", 0⟩, ⟨.other, ".", 3⟩, ⟨.blank, " ", 4⟩,
        ⟨.other, "é", 5⟩] := by
  have scanned : tokens "Id.?.... é" = [⟨.name, "Id.?", 0⟩] ++ ⟨.ellipsis, "...", 4⟩ ::
      [⟨.other, ".", 7⟩, ⟨.blank, " ", 8⟩, ⟨.other, "é", 9⟩] := by rfl
  exact ⟨scanned, (tokens_tile "Id.?.... é").2.1 _ _ _ scanned, by rfl⟩

end
end Token
end AmbientDecl
