/- # Names and marks in a text

What the scanner makes of a text that starts with a name or a mark.  A mark ends with its last
character.  A name ends where what follows it stops a name (`Stops`): neither a character of a name
nor a question mark may come next.  The names are the texts that the scanner takes for one
(`isName_of_scan`), and each of them is taken for one again wherever it stands before something
that stops it (`exists_scans_name`).
-/

import AmbientDecl.TypeExpr.Token
import Mathlib.Data.List.DropRight

namespace AmbientDecl
namespace Token

variable {c : Char} {cs rest : List Char} {kind : TokenKind} {position : Nat}

/-- The texts of names. -/
inductive IsName : List Char → Prop where
  | star : IsName ['*']
  | plain {c : Char} {cs : List Char} (start : isNameStart c = true)
      (chars : ∀ x ∈ cs, isNameChar x = true) (last : dropTrailingDots (c :: cs) = c :: cs) :
      IsName (c :: cs)
  | asked {c : Char} {cs : List Char} (start : isNameStart c = true)
      (chars : ∀ x ∈ cs, isNameChar x = true) : IsName (c :: (cs ++ ['?']))

/-- A text that no name before it goes on with. -/
def Stops (text : List Char) : Prop :=
  ∀ c ∈ text.head?, isNameChar c = false ∧ c ≠ '?'

theorem isNameChar_of_isNameStart (h : isNameStart c = true) : isNameChar c = true := by
  simp only [isNameStart, isNameChar, Char.isAlphanum, Bool.or_eq_true] at h ⊢
  tauto

/-- The characters of a name. -/
theorem IsName.chars (h : IsName cs) : ∀ x ∈ cs, isNameChar x = true ∨ x = '?' ∨ x = '*' := by
  cases h with
  | star => simp
  | plain start chars =>
    simp only [List.forall_mem_cons]
    exact ⟨.inl (isNameChar_of_isNameStart start), fun x mem => .inl (chars x mem)⟩
  | asked start chars =>
    simp only [List.forall_mem_cons, List.forall_mem_append]
    exact ⟨.inl (isNameChar_of_isNameStart start), fun x mem => .inl (chars x mem), by simp⟩

theorem Stops.nil : Stops [] := nofun

theorem Stops.cons (h : isNameChar c = false ∧ c ≠ '?') (cs : List Char) : Stops (c :: cs) :=
  fun _ same => Option.some.inj same ▸ h

/-- The trailing dots are the longest trailing run of dots. -/
theorem dropTrailingDots_eq_rdropWhile (cs : List Char) :
    dropTrailingDots cs = cs.rdropWhile (· = '.') := rfl

theorem toNat_of_isAlphanum (h : c.isAlphanum = true) : 48 ≤ c.toNat ∧ c.toNat ≤ 122 := by
  delta Char.isAlphanum Char.isAlpha Char.isUpper Char.isLower Char.isDigit at h
  simp only [Bool.or_eq_true, Bool.and_eq_true, decide_eq_true_eq, UInt32.le_iff_toNat_le,
    ge_iff_le] at h
  change ((65 ≤ c.toNat ∧ c.toNat ≤ 90) ∨ (97 ≤ c.toNat ∧ c.toNat ≤ 122)) ∨
    (48 ≤ c.toNat ∧ c.toNat ≤ 57) at h
  omega

/-- No character of a name is a blank. -/
theorem isBlank_of_isNameChar (h : isNameChar c = true) : Text.isBlank c = false := by
  simp only [isNameChar, Bool.or_eq_true, decide_eq_true_eq] at h
  rcases h with ((alphanum | rfl) | rfl) | rfl
  · have bounds := toNat_of_isAlphanum alphanum
    simp only [Text.isBlank, Bool.or_eq_false_iff, Bool.and_eq_false_iff, decide_eq_false_iff_not,
      beq_eq_false_iff_ne]
    omega
  all_goals rfl

/-- The name at the start of a text is a name. -/
theorem isName_nameLexeme (h : isNameStart c = true) : IsName (nameLexeme (c :: cs)) := by
  have start := isNameChar_of_isNameStart h
  have chars : ∀ x ∈ cs.takeWhile isNameChar, isNameChar x = true := fun _ => List.mem_takeWhile_imp
  rw [nameLexeme, List.takeWhile_cons_of_pos start, dropTrailingDots_eq_rdropWhile]
  split
  next => exact .asked h chars
  next =>
    -- a name does not start with a dot, so its first character is left
    have notDot : ¬ decide (c = '.') = true := fun dot => by
      rw [of_decide_eq_true dot] at h
      exact absurd h (by decide)
    have initial := List.rdropWhile_prefix (· = '.') (c :: cs.takeWhile isNameChar)
    cases same : (c :: cs.takeWhile isNameChar).rdropWhile (· = '.') with
    | nil => exact absurd (List.rdropWhile_eq_nil_iff.1 same c List.mem_cons_self) notDot
    | cons d ds =>
      rw [same] at initial
      obtain ⟨rfl, shorter⟩ := List.cons_prefix_cons.1 initial
      refine .plain h (fun x mem => chars x (shorter.subset mem)) ?_
      rw [← same, dropTrailingDots_eq_rdropWhile]
      exact List.rdropWhile_idempotent _ _

theorem lexeme_of_isNameStart (h : isNameStart c = true) (cs : List Char) :
    lexeme c cs = (.name, nameLexeme (c :: cs)) := by
  have notBlank : ¬ Text.isBlank c = true := by
    simp [isBlank_of_isNameChar (isNameChar_of_isNameStart h)]
  rw [lexeme, if_neg notBlank, if_pos h]

/-- What the scanner takes for a name is one. -/
theorem isName_of_lexeme (h : (lexeme c cs).1 = .name) : IsName (lexeme c cs).2 := by
  by_cases start : isNameStart c = true
  · rw [lexeme_of_isNameStart start]
    exact isName_nameLexeme start
  by_cases star : c = '*'
  · subst star
    exact .star
  · grind [lexeme]

theorem scan_cons (position : Nat) (c : Char) (cs : List Char) :
    scan position 0 (c :: cs)
      = ⟨(lexeme c cs).1, String.ofList (lexeme c cs).2, position⟩ ::
        scan (position + 1) ((lexeme c cs).2.length - 1) cs :=
  -- A plain `rfl` would also be tried without unfolding `lexeme`, which takes long.
  (rfl)

/-- The names among the tokens of a text. -/
theorem isName_of_scan {skip : Nat} {token : Token} (mem : token ∈ scan position skip cs)
    (h : token.kind = .name) : IsName token.text.toList := by
  induction cs generalizing position skip with
  | nil => exact absurd mem List.not_mem_nil
  | cons c cs ih =>
    cases skip with
    | succ skip => exact ih mem
    | zero =>
      rw [scan_cons] at mem
      rcases List.mem_cons.1 mem with first | mem
      · subst first
        simpa only [String.toList_ofList] using isName_of_lexeme h
      · exact ih mem

/-- The scanner cuts `cs` off the text `cs ++ rest` as the tokens `ts`; the rest starts at
`last`. -/
def Scans (position : Nat) (cs rest : List Char) (ts : List Token) (last : Nat) : Prop :=
  scan position 0 (cs ++ rest) = ts ++ scan last 0 rest

theorem Scans.append {middle last : Nat} {ds : List Char} {ts us : List Token}
    (h : Scans position cs (ds ++ rest) ts middle) (h' : Scans middle ds rest us last) :
    Scans position (cs ++ ds) rest (ts ++ us) last := by
  unfold Scans at h h' ⊢
  rw [List.append_assoc, h, h', List.append_assoc]

/-- A lexeme that ends before the rest of a text is a token. -/
theorem Scans.lexeme (h : lexeme c (cs ++ rest) = (kind, c :: cs)) (position : Nat) :
    Scans position (c :: cs) rest [⟨kind, String.ofList (c :: cs), position⟩]
      (position + (c :: cs).length) := by
  rw [Scans, List.cons_append, scan_cons, h, List.length_cons, Nat.add_sub_cancel,
    scan_skip _ _ _ (by simp), List.drop_left, Nat.add_assoc, Nat.add_comm 1,
    List.singleton_append]

/-- A mark of one character is a token. -/
theorem exists_scans_mark (c : Char) (rest : List Char) (h : lexeme c rest = (kind, [c]))
    (position : Nat) :
    ∃ token : Token, token.kind = kind ∧ Scans position [c] rest [token] (position + 1) :=
  ⟨⟨kind, String.ofList [c], position⟩, rfl, .lexeme h position⟩

/-- The name at the start of a text that goes on with something else. -/
theorem nameLexeme_append (chars : ∀ x ∈ cs, isNameChar x = true)
    (ends : ∀ x ∈ rest.head?, isNameChar x = false) :
    nameLexeme (cs ++ rest)
      = if rest.head? = some '?' then cs ++ ['?'] else dropTrailingDots cs := by
  have past : rest.takeWhile isNameChar = [] ∧ rest.dropWhile isNameChar = rest := by
    cases rest with
    | nil => exact ⟨rfl, rfl⟩
    | cons d ds => simp [ends d rfl]
  rw [nameLexeme, List.takeWhile_append_of_pos chars, List.dropWhile_append_of_pos chars, past.1,
    past.2, List.append_nil]

/-- What is scanned at the start of a name is all of it, where something stops it. -/
theorem IsName.lexeme (h : IsName (c :: cs)) (stops : Stops rest) :
    lexeme c (cs ++ rest) = (.name, c :: cs) := by
  cases h with
  | star => rfl
  | plain start chars last =>
    have all : ∀ x ∈ c :: cs, isNameChar x = true :=
      List.forall_mem_cons.2 ⟨isNameChar_of_isNameStart start, chars⟩
    have unasked : rest.head? ≠ some '?' := fun asked => (stops _ asked).2 rfl
    rw [lexeme_of_isNameStart start, ← List.cons_append,
      nameLexeme_append all fun x mem => (stops x mem).1, if_neg unasked, last]
  | @asked _ cs start chars =>
    have all : ∀ x ∈ c :: cs, isNameChar x = true :=
      List.forall_mem_cons.2 ⟨isNameChar_of_isNameStart start, chars⟩
    have ends : ∀ x ∈ ('?' :: rest).head?, isNameChar x = false := by simp [isNameChar]
    rw [lexeme_of_isNameStart start, List.append_assoc, ← List.cons_append,
      List.singleton_append, nameLexeme_append all ends, List.head?_cons, if_pos rfl,
      List.cons_append]

/-- A name is scanned again where something stops it. -/
theorem exists_scans_name {n : String} (h : IsName n.toList) (stops : Stops rest)
    (position : Nat) :
    ∃ token last, token.kind = .name ∧ token.text = n ∧
      Scans position n.toList rest [token] last := by
  cases same : n.toList with
  | nil => exact absurd (same ▸ h) nofun
  | cons c cs =>
    have first := (same ▸ h).lexeme stops
    have text : String.ofList (c :: cs) = n := by rw [← same, String.ofList_toList]
    exact ⟨_, _, rfl, text, .lexeme first position⟩

end Token
end AmbientDecl
