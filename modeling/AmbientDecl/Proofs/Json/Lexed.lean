/- # The tokens of a written text

The one-line text of a value is scanned as the tokens that the value is spelled with
(`Json.scan_oneLine`), whatever follows it, if that starts with a mark: only there does a word end.

* A word is a value if it is one of the three literals or the digits of an integer, perhaps after a
  minus sign (`Json.ofWord_int`).
* Between quotes every character is read back from what it is written as (`Json.scan_writtenChar`):
  itself, a two-character escape, one unit in hexadecimal digits, or two units of a surrogate pair.
-/

import AmbientDecl.Json.Reader
import AmbientDecl.Json.Written

namespace AmbientDecl
namespace Json

open Token

variable {c : Char} {cs rest word read : List Char} {done : List Token} {n : Nat}

/-- A text that is empty or starts with a mark. -/
def AtMark (rest : List Char) : Prop :=
  rest = [] ∨ ∃ c cs, ∃ mark, rest = c :: cs ∧ ofMark? c = some mark

theorem AtMark.cons {mark : Token} (h : ofMark? c = some mark) (cs : List Char) :
    AtMark (c :: cs) :=
  .inr ⟨c, cs, mark, rfl, h⟩

/-- Whether a character can stand in a word. -/
def isWordChar (c : Char) : Bool :=
  !isSpace c && c != '\x22' && (ofMark? c).isNone

/-- The characters that are tokens by themselves. -/
def markChars : List Char :=
  ['[', ']', '\x7b', '\x7d', ',', ':']

theorem ofMark?_of_notMem (other : c ∉ markChars) : ofMark? c = none := by
  simp only [markChars, List.mem_cons, List.not_mem_nil, or_false, not_or] at other
  simp [ofMark?, other]

theorem not_isSpace_of_mark {mark : Token} (h : ofMark? c = some mark) :
    isSpace c = false ∧ c ≠ '\x22' := by
  have others : (markChars.all fun c => !isSpace c && c != '\x22') = true := by decide
  have mem : c ∈ markChars := by
    refine Classical.not_not.1 fun other => ?_
    rw [ofMark?_of_notMem other] at h
    cases h
  simpa using List.all_eq_true.1 others c mem

theorem step_word {limit? : Option Nat} (h : isWordChar c = true) (read : List Char) :
    step limit? (.word read) c = some (.word (c :: read), []) := by
  simp only [isWordChar, Bool.and_eq_true, Bool.not_eq_true', Option.isNone_iff_eq_none] at h
  simp [step, h.1.1, h.2]

theorem step_between {limit? : Option Nat} (h : isWordChar c = true) :
    step limit? .between c = some (.word [c], []) := by
  simp only [isWordChar, Bool.and_eq_true, Bool.not_eq_true', bne_iff_ne,
    Option.isNone_iff_eq_none] at h
  simp [step, h.1.1, h.1.2, h.2]

theorem scan_step {limit? : Option Nat} {mode next : Mode} {tokens : List Token}
    (h : step limit? mode c = some (next, tokens)) :
    scan limit? mode done (c :: rest) = scan limit? next (tokens ++ done) rest := by
  rw [scan, h]

/-- A mark is a token, and the scan goes on after it. -/
theorem scan_mark {limit? : Option Nat} {mark : Token} (h : ofMark? c = some mark) :
    scan limit? .between done (c :: rest) = scan limit? .between (mark :: done) rest := by
  obtain ⟨noSpace, noQuote⟩ := not_isSpace_of_mark h
  simp [scan, step, noSpace, noQuote, h]

theorem scan_space {limit? : Option Nat} :
    scan limit? .between done (' ' :: rest) = scan limit? .between done rest := rfl

/-- A word ends before a mark. -/
theorem scan_word {limit? : Option Nat} (chars : word.all isWordChar = true)
    (ends : AtMark rest) :
    scan limit? (.word read) done (word ++ rest) =
      scan limit? .between (ofWord limit? (read.reverse ++ word) :: done) rest := by
  induction word generalizing read with
  | nil =>
    rw [List.nil_append, List.append_nil]
    rcases ends with rfl | ⟨c, cs, mark, rfl, h⟩
    · rfl
    · obtain ⟨noSpace, -⟩ := not_isSpace_of_mark h
      rw [scan_mark h]
      simp [scan, step, noSpace, h]
  | cons c word ih =>
    obtain ⟨first, chars⟩ := Bool.and_eq_true_iff.1 (List.all_cons.symm.trans chars)
    rw [List.cons_append, scan_step (step_word first read), List.nil_append, ih chars,
      List.reverse_cons, List.append_assoc]
    rfl

/-- A word is scanned as one token. -/
theorem scan_between_word {limit? : Option Nat} (chars : word.all isWordChar = true)
    (some : word ≠ []) (ends : AtMark rest) :
    scan limit? .between done (word ++ rest) =
      scan limit? .between (ofWord limit? word :: done) rest := by
  obtain ⟨c, word, rfl⟩ := List.exists_cons_of_ne_nil some
  obtain ⟨first, chars⟩ := Bool.and_eq_true_iff.1 (List.all_cons.symm.trans chars)
  rw [List.cons_append, scan_step (step_between first), List.nil_append, scan_word chars ends]
  rfl

/-! Integers -/

theorem ne_of_isDigit {d : Char} (h : c.isDigit = true) (other : d.isDigit = false) : c ≠ d := by
  rintro rfl
  rw [h] at other
  cases other

theorem isWordChar_of_isDigit (h : c.isDigit = true) : isWordChar c = true := by
  have space : isSpace c = false := by
    simp [isSpace, ne_of_isDigit h (d := ' ') rfl, ne_of_isDigit h (d := '\t') rfl,
      ne_of_isDigit h (d := '\n') rfl, ne_of_isDigit h (d := '\r') rfl]
  have mark : ofMark? c = none := by
    have others : (markChars.any Char.isDigit) = false := by decide
    exact ofMark?_of_notMem fun mem => absurd h (List.any_eq_false.1 others c mem)
  simp [isWordChar, space, mark, ne_of_isDigit h (d := '\x22') rfl]

theorem all_isDigit_toDigits (n : Nat) : (Nat.toDigits 10 n).all Char.isDigit = true :=
  List.all_eq_true.2 fun _ mem => Nat.isDigit_of_mem_toDigits (by decide) (by decide) mem

/-- A number does not start with a zero. -/
theorem head?_toDigits (positive : 0 < n) : (Nat.toDigits 10 n).head? ≠ some '0' := by
  induction n using Nat.strongRecOn with
  | ind n ih =>
    rcases Nat.lt_or_ge n 10 with small | large
    · have digits : ∀ n < 10, 0 < n → [n.digitChar].head? ≠ some '0' := by decide
      rw [Nat.toDigits_of_lt_base small]
      exact digits n small positive
    · have fewer := ih (n / 10) (by omega) (by omega)
      obtain ⟨first, others, split⟩ :=
        List.exists_cons_of_ne_nil (Nat.toDigits_ne_nil (n := n / 10) (b := 10))
      rw [Nat.toDigits_of_base_le (by decide) large, split]
      rwa [split] at fewer

/-- The digits of a number are read as the number. -/
theorem number?_toDigits (n : Nat) : number? (Nat.toDigits 10 n) = some n := by
  have leading : ¬ ((Nat.toDigits 10 n).length > 1 ∧ (Nat.toDigits 10 n).head? = some '0') := by
    rintro ⟨long, zero⟩
    rcases Nat.eq_zero_or_pos n with rfl | positive
    · exact absurd long (by decide)
    · exact head?_toDigits positive zero
  have value : (Nat.toDigits 10 n).foldl (fun n c => 10 * n + (c.toNat - 48)) 0 = n :=
    Nat.ofDigitChars_toDigits (by decide) (by decide)
  simp [number?, all_isDigit_toDigits, leading, value, Nat.toDigits_ne_nil]

theorem ofUnsigned_toDigits (sign : Nat → Int) (n : Nat) :
    ofUnsigned none sign (Nat.toDigits 10 n) = .value (.int (sign n)) := by
  rw [ofUnsigned, number?_toDigits]
  rfl

/-- An integer is written as the digits of a number, after a minus sign if it is negative. -/
theorem toList_toString (n : Int) : (toString n).toList =
    if n < 0 then '-' :: Nat.toDigits 10 n.natAbs else Nat.toDigits 10 n.natAbs := by
  cases n with
  | ofNat n =>
    rw [if_neg (Int.not_lt.2 (Int.natCast_nonneg n) : ¬ Int.ofNat n < 0)]
    exact Nat.toList_repr
  | negSucc n =>
    rw [if_pos (Int.negSucc_lt_zero n)]
    exact (String.toList_append ..).trans (congrArg ('-' :: ·) Nat.toList_repr)

/-- A word is no literal if it starts in another way than the literals. -/
theorem ofWord_of_start (other : c ∉ ['n', 't', 'f', 'N']) (limit? : Option Nat) (cs : List Char) :
    ofWord limit? (c :: cs) = if c = '-' then ofUnsigned limit? (fun n => -n) cs
      else ofUnsigned limit? (fun n => n) (c :: cs) := by
  simp only [List.mem_cons, List.not_mem_nil, or_false, not_or] at other
  have noLiteral : ∀ {first : Char} {word : List Char}, word.head? = some first → c ≠ first →
      c :: cs ≠ word := by
    rintro first _ starts ne rfl
    exact ne (Option.some.inj starts)
  unfold ofWord
  rw [if_neg (noLiteral (by decide) other.1), if_neg (noLiteral (by decide) other.2.1),
    if_neg (noLiteral (by decide) other.2.2.1), if_neg (noLiteral (by decide) other.2.2.2)]
  split
  · rename_i minus
    obtain ⟨rfl, rfl⟩ := List.cons.inj minus
    rfl
  · rename_i noMinus
    exact (if_neg fun minus => noMinus cs (by rw [minus])).symm

theorem ofWord_int (n : Int) : ofWord none (toString n).toList = .value (.int n) := by
  rw [toList_toString]
  split
  · rename_i negative
    have read := ofUnsigned_toDigits (fun n => -n) n.natAbs
    rw [show -(n.natAbs : Int) = n by omega] at read
    rwa [ofWord_of_start (by decide), if_pos rfl]
  · rename_i positive
    have read := ofUnsigned_toDigits (fun n => n) n.natAbs
    rw [show (n.natAbs : Int) = n by omega] at read
    obtain ⟨first, others, split⟩ :=
      List.exists_cons_of_ne_nil (Nat.toDigits_ne_nil (n := n.natAbs) (b := 10))
    have digit : first.isDigit = true :=
      List.all_eq_true.1 (all_isDigit_toDigits n.natAbs) first (by simp [split])
    have others : (['n', 't', 'f', 'N'].any Char.isDigit) = false := by decide
    rw [split] at read ⊢
    rwa [ofWord_of_start fun mem => List.any_eq_false.1 others first mem digit,
      if_neg (ne_of_isDigit digit rfl)]

theorem all_isWordChar_int (n : Int) : (toString n).toList.all isWordChar = true := by
  have digits : (Nat.toDigits 10 n.natAbs).all isWordChar = true := by
    refine List.all_eq_true.2 fun c mem => isWordChar_of_isDigit ?_
    exact List.all_eq_true.1 (all_isDigit_toDigits n.natAbs) c mem
  rw [toList_toString]
  split
  · rw [List.all_cons, digits]
    rfl
  · exact digits

/-! Texts -/

theorem hexValue?_hexDigit (h : n < 16) : hexValue? (Text.hexDigit n) = some n := by
  revert n
  decide

theorem scan_digit {limit? high? : Option Nat} {digits unit : Nat} (small : n < 16)
    (more : digits < 3) :
    scan limit? (.unit read high? digits unit) done (Text.hexDigit n :: rest) =
      scan limit? (.unit read high? (digits + 1) (16 * unit + n)) done rest := by
  have next : step limit? (.unit read high? digits unit) (Text.hexDigit n) =
      some (.unit read high? (digits + 1) (16 * unit + n), []) := by
    simp only [step, hexValue?_hexDigit small, bind, Option.bind_some, if_pos more, pure]
  exact scan_step next

/-- The digits of a unit are read as the unit. -/
theorem scan_unit {limit? high? : Option Nat} {next : Mode} (small : n < 0x10000)
    (h : afterUnit read high? n = next) :
    scan limit? (.unit read high? 0 0) done (Text.hexDigits 4 n ++ rest) =
      scan limit? next done rest := by
  have digits : Text.hexDigits 4 n = [Text.hexDigit (n / 16 / 16 / 16 % 16),
      Text.hexDigit (n / 16 / 16 % 16), Text.hexDigit (n / 16 % 16), Text.hexDigit (n % 16)] := rfl
  have all : 16 * (16 * (16 * (16 * 0 + n / 16 / 16 / 16 % 16) + n / 16 / 16 % 16) +
      n / 16 % 16) + n % 16 = n := by omega
  have last : step limit? (.unit read high? 3 (16 * (16 * (16 * 0 + n / 16 / 16 / 16 % 16) +
      n / 16 / 16 % 16) + n / 16 % 16)) (Text.hexDigit (n % 16)) = some (next, []) := by
    simp only [step, hexValue?_hexDigit (Nat.mod_lt n (by decide)), bind, Option.bind_some,
      Nat.lt_irrefl, if_false, all, h, pure]
  rw [digits, List.cons_append, scan_digit (Nat.mod_lt _ (by decide)) (by decide),
    List.cons_append, scan_digit (Nat.mod_lt _ (by decide)) (by decide), List.cons_append,
    scan_digit (Nat.mod_lt _ (by decide)) (by decide), List.cons_append]
  exact scan_step last

/-- A unit that is written out is read back. -/
theorem scan_escapedUnit {limit? : Option Nat} {next : Mode} (small : n < 0x10000)
    (h : afterUnit read none n = next) :
    scan limit? (.text read) done ('\\' :: 'u' :: Text.hexDigits 4 n ++ rest) =
      scan limit? next done rest :=
  scan_unit small h

/-- So are two units that are the halves of a surrogate pair. -/
theorem scan_escapedPair {limit? : Option Nat} {next : Mode} {high low : Nat}
    (small : high < 0x10000) (h : afterUnit read none high = .pair read high)
    (small' : low < 0x10000) (h' : afterUnit read (some high) low = next) :
    scan limit? (.text read) done
        ([high, low].flatMap (fun unit => '\\' :: 'u' :: Text.hexDigits 4 unit) ++ rest) =
      scan limit? next done rest := by
  have second : scan limit? (.pair read high) done ('\\' :: 'u' :: Text.hexDigits 4 low ++ rest) =
      scan limit? next done rest := scan_unit small' h'
  rw [List.flatMap_cons, List.flatMap_singleton, List.append_assoc, scan_escapedUnit small h,
    second]

/-- The characters with a two-character escape, each with its second character. -/
def shortEscapes : List (Char × Char) :=
  [('\x22', '\x22'), ('\\', '\\'), ('\n', 'n'), ('\r', 'r'), ('\t', 't'), ('\x08', 'b'),
    ('\x0c', 'f')]

/-- What a character is written as: a two-character escape, itself or its units. -/
theorem writtenChar_cases (c : Char) :
    (∃ e, writtenChar c = ['\\', e] ∧ e ≠ 'u' ∧ ofEscape? e = some c) ∨
    (writtenChar c = [c] ∧ c ≠ '\x22' ∧ c ≠ '\\' ∧ 0x20 ≤ c.toNat) ∨
    writtenChar c = (utf16Units c).flatMap fun unit => '\\' :: 'u' :: Text.hexDigits 4 unit := by
  have escaped : (shortEscapes.all fun entry => writtenChar entry.1 == ['\\', entry.2] &&
      entry.2 != 'u' && ofEscape? entry.2 == some entry.1) = true := by decide
  by_cases short : ∃ e, (c, e) ∈ shortEscapes
  · obtain ⟨e, mem⟩ := short
    exact .inl ⟨e, by simpa [and_assoc] using List.all_eq_true.1 escaped _ mem⟩
  · simp only [shortEscapes, List.mem_cons, Prod.mk.injEq, List.not_mem_nil, or_false, exists_or,
      exists_and_left, exists_eq, and_true, not_or] at short
    obtain ⟨noQuote, noBackslash, lineFeed, carriageReturn, tab, backspace, formFeed⟩ := short
    rw [writtenChar, if_neg noQuote, if_neg noBackslash, if_neg lineFeed, if_neg carriageReturn,
      if_neg tab, if_neg backspace, if_neg formFeed]
    split
    · rename_i plain
      exact .inr (.inl ⟨rfl, noQuote, noBackslash, plain.1⟩)
    · exact .inr (.inr rfl)

/-- A character is read back from its units. -/
theorem scan_units {limit? : Option Nat} (c : Char) :
    scan limit? (.text read) done ((utf16Units c).flatMap
        (fun unit => '\\' :: 'u' :: Text.hexDigits 4 unit) ++ rest) =
      scan limit? (.text (c :: read)) done rest := by
  have valid : c.toNat < 0xD800 ∨ 0xDFFF < c.toNat ∧ c.toNat < 0x110000 := c.valid
  unfold utf16Units
  dsimp only
  split
  · -- One unit, which is no half of a surrogate pair.
    rename_i small
    have next : afterUnit read none c.toNat = .text (c :: read) := by
      have noHigh : ¬ (0xD800 ≤ c.toNat ∧ c.toNat ≤ 0xDBFF) := by omega
      have noLow : ¬ (0xDC00 ≤ c.toNat ∧ c.toNat ≤ 0xDFFF) := by omega
      simp [afterUnit, noHigh, noLow]
    rw [List.flatMap_singleton]
    exact scan_escapedUnit small next
  · -- The two halves of a surrogate pair.
    rename_i large
    obtain ⟨n, code, bound⟩ : ∃ n, c.toNat = 0x10000 + n ∧ n < 0x100000 :=
      ⟨c.toNat - 0x10000, by omega, by omega⟩
    have isHigh : 0xD800 ≤ 0xD800 + n / 0x400 ∧ 0xD800 + n / 0x400 ≤ 0xDBFF := by omega
    have isLow : 0xDC00 ≤ 0xDC00 + n % 0x400 ∧ 0xDC00 + n % 0x400 ≤ 0xDFFF := by omega
    have next : afterUnit read none (0xD800 + n / 0x400) =
        .pair read (0xD800 + n / 0x400) := by
      simp only [afterUnit, isHigh, decide_true, Bool.and_self, if_true]
    have whole : 0x10000 + (0xD800 + n / 0x400 - 0xD800) * 0x400 +
        (0xDC00 + n % 0x400 - 0xDC00) = c.toNat := by omega
    have next' : afterUnit read (some (0xD800 + n / 0x400)) (0xDC00 + n % 0x400) =
        .text (c :: read) := by
      simp only [afterUnit, isLow, decide_true, Bool.and_self, if_true, whole, Char.ofNat_toNat]
    rw [show c.toNat - 0x10000 = n by omega]
    exact scan_escapedPair (by omega) next (by omega) next'

/-- **A character is read back** from what it is written as between quotes. -/
theorem scan_writtenChar {limit? : Option Nat} (c : Char) :
    scan limit? (.text read) done (writtenChar c ++ rest) =
      scan limit? (.text (c :: read)) done rest := by
  obtain ⟨e, written, noUnit, escape⟩ | ⟨written, noQuote, noBackslash, plain⟩ | written :=
    writtenChar_cases c
  · have opens : step limit? (.text read) '\\' = some (.escape read, []) := rfl
    have next : step limit? (.escape read) e = some (.text (c :: read), []) := by
      simp [step, noUnit, escape]
    rw [written, List.cons_append, scan_step opens]
    exact scan_step next
  · have next : step limit? (.text read) c = some (.text (c :: read), []) := by
      simp [step, noQuote, noBackslash, Nat.not_lt.2 plain]
    rw [written]
    exact scan_step next
  · rw [written]
    exact scan_units c

end Json
end AmbientDecl
