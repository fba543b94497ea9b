/- # Texts that spell a phrase

A text **spells** a phrase when it is scanned to tokens of the phrase wherever something that stops
a name comes after it (`Spells`).  No phrase starts with a blank, so a text that spells one does not
either (`Spells.start`), and the blanks before it are a gap of their own (`exists_scans_gap`).
Texts that spell are put together as the phrases are, with blanks where they are free: in brackets
(`Spells.exists_scans_bracketed`) and with a mark between them (`Spells.exists_scans_joined`).  A
text that spells a union outside of all brackets is read as this union (`Spells.readsWhole`).
-/

import AmbientDecl.Proofs.TypeExpr.Boundary
import AmbientDecl.Proofs.TypeExpr.Reading

namespace AmbientDecl
namespace TypeExpr

open Token

variable {c opening closing : Char} {cs ds left right rest : List Char} {e : TypeExpr}
  {es fs args : List TypeExpr} {free : Bool} {phrase phrase' : Phrase} {kind kind' : TokenKind}

/-- Before anything that stops a name, the text is scanned to tokens of the phrase. -/
def Spells (cs : List Char) (phrase : Phrase) : Prop :=
  ∀ position rest, Stops rest →
    ∃ ts last, Scans position cs rest ts last ∧ Derives phrase ts

/-- The text is read as the expression, and nothing of it is left over. -/
structure ReadsWhole (text : String) (e : TypeExpr) : Prop where
  read : TypeExpr.read text = .ok e
  whole : ∃ es, Derives (.union false es) (tokens text) ∧ ofBranches es = e

/-- Blanks of a text, where they are free. -/
def Blanks (free : Bool) (cs : List Char) : Prop :=
  ∀ c ∈ cs, free = true ∧ Text.isBlank c = true

/-- A text in brackets, with blanks directly inside of them. -/
def bracketed (opening closing : Char) (left cs right : List Char) : List Char :=
  opening :: (left ++ (cs ++ right) ++ [closing])

/-- Two texts with a mark and blanks between them. -/
def joinedBy (mark : Char) (cs left right ds : List Char) : List Char :=
  cs ++ left ++ mark :: (right ++ ds)

/-- A character that is a token by itself, whatever follows it, and ends a name before it. -/
structure IsMark (c : Char) (kind : TokenKind) : Prop where
  lexeme (rest : List Char) : Token.lexeme c rest = (kind, [c])
  outside : isNameChar c = false ∧ c ≠ '?'
  notBlank : Text.isBlank c = false

theorem isMark_bar : IsMark '|' .bar := ⟨fun _ => rfl, by decide, rfl⟩

theorem isMark_comma : IsMark ',' .comma := ⟨fun _ => rfl, by decide, rfl⟩

theorem isMark_less : IsMark '<' .less := ⟨fun _ => rfl, by decide, rfl⟩

theorem isMark_greater : IsMark '>' .greater := ⟨fun _ => rfl, by decide, rfl⟩

theorem isMark_openParen : IsMark '(' .openParen := ⟨fun _ => rfl, by decide, rfl⟩

theorem isMark_closeParen : IsMark ')' .closeParen := ⟨fun _ => rfl, by decide, rfl⟩

theorem IsMark.scans (h : IsMark c kind) (position : Nat) (rest : List Char) :
    ∃ token : Token, token.kind = kind ∧ Scans position [c] rest [token] (position + 1) :=
  exists_scans_mark c rest (h.lexeme rest) position

/-- A mark starts no run of blanks. -/
theorem IsMark.start (h : IsMark c kind) (cs : List Char) :
    ∀ d ∈ ([c] ++ cs).head?, Text.isBlank d = false := by
  rintro d ⟨⟩
  exact h.notBlank

theorem Blanks.nil (free : Bool) : Blanks free [] := fun _ mem => absurd mem List.not_mem_nil

/-- Blanks before something that stops a name stop it too. -/
theorem Blanks.stops (h : Blanks free cs) (stops : Stops rest) : Stops (cs ++ rest) := by
  cases cs with
  | nil => exact stops
  | cons c cs =>
    have blank := (h c List.mem_cons_self).2
    refine .cons ⟨?_, ?_⟩ _
    · by_contra inName
      rw [isBlank_of_isNameChar (by simpa using inName)] at blank
      cases blank
    · rintro rfl
      cases blank

/-- Blanks are a gap before anything that is not blank. -/
theorem exists_scans_gap (h : Blanks free cs)
    (start : ∀ c ∈ rest.head?, Text.isBlank c = false) (position : Nat) :
    ∃ gap last, Scans position cs rest gap last ∧ Gap free gap := by
  cases cs with
  | nil => exact ⟨[], position, rfl, .nil free⟩
  | cons c cs =>
    have blanks : ∀ d ∈ c :: cs, Text.isBlank d = true := fun d mem => (h d mem).2
    obtain rfl := (h c List.mem_cons_self).1
    have parts := scan_append (.after_blanks blanks start) position
    rw [scan_blanks (List.cons_ne_nil c cs) blanks] at parts
    exact ⟨_, _, parts, .blank rfl⟩

/-- The first token of a phrase is no blank. -/
theorem Derives.exists_first {ts : List Token} (h : Derives phrase ts) :
    ∃ token us, ts = token :: us ∧ token.kind ≠ .blank := by
  have first : ∀ {token : Token} {kind} (us : List Token), token.kind = kind → kind ≠ .blank →
      ∃ token' us', token :: us = token' :: us' ∧ token'.kind ≠ .blank :=
    fun us same notBlank => ⟨_, us, rfl, same ▸ notBlank⟩
  have longer : ∀ {ts} (us : List Token), (∃ token vs, ts = token :: vs ∧ token.kind ≠ .blank) →
      ∃ token vs, ts ++ us = token :: vs ∧ token.kind ≠ .blank := by
    rintro _ us ⟨token, vs, rfl, kind⟩
    exact ⟨token, vs ++ us, rfl, kind⟩
  induction h with
  | single _ ih => exact ih
  | bar _ _ _ _ _ ih => exact longer _ (longer _ ih)
  | argument _ _ ih => exact longer _ ih
  | comma _ _ _ _ _ ih => exact longer _ ih
  | plain _ ih => exact ih
  | ahead kind => exact first _ kind nofun
  | behind _ _ ih => exact longer _ ih
  | atom _ ih => exact ih
  | array _ _ ih => exact longer _ ih
  | name kind => exact first _ kind nofun
  | generic kind => exact first _ kind nofun
  | paren opens => exact first _ opens nofun

/-- Arguments take in the blanks behind them. -/
theorem Derives.arguments_gap {ts gap : List Token} (h : Derives (.arguments args) ts)
    (blanks : Gap true gap) : Derives (.arguments args) (ts ++ gap) := by
  cases h with
  | argument union right =>
    rw [List.append_assoc]
    exact .argument union (right.append blanks)
  | comma before kind left union right =>
    have longer := Derives.comma before kind left union (right.append blanks)
    simpa using longer

/-- Unions are joined by a bar. -/
theorem Derives.union_append {us ts gap gap' : List Token} {bar : Token}
    (h : Derives (.union free es) us) (left : Gap free gap) (kind : bar.kind = .bar)
    (right : Gap free gap') (h' : Derives (.union free fs) ts) :
    Derives (.union free (es ++ fs)) (us ++ gap ++ bar :: (gap' ++ ts)) := by
  -- by induction on the second union, which grows at its end
  generalize same : Phrase.union free fs = phrase at h'
  induction h' generalizing fs with
  | single branch =>
    cases same
    exact .bar h left kind right branch
  | bar before left' kind' right' branch ih =>
    cases same
    have longer := Derives.bar (ih rfl) left' kind' right' branch
    simpa using longer
  | _ => exact absurd same nofun

namespace Spells

theorem mono (h : Spells cs phrase) (weaker : ∀ {ts}, Derives phrase ts → Derives phrase' ts) :
    Spells cs phrase' := by
  intro position rest stops
  obtain ⟨ts, last, scanned, derives⟩ := h position rest stops
  exact ⟨ts, last, scanned, weaker derives⟩

/-- A text that spells does not start with a blank. -/
theorem start (h : Spells cs phrase) (stops : Stops rest) :
    ∀ c ∈ (cs ++ rest).head?, Text.isBlank c = false := by
  intro c first
  obtain ⟨ts, last, scanned, derives⟩ := h 0 rest stops
  obtain ⟨token, us, rfl, notBlank⟩ := derives.exists_first
  obtain ⟨tail, same⟩ := List.head?_eq_some_iff.1 first
  rw [Scans, same, scan_cons] at scanned
  obtain ⟨rfl, -⟩ := List.cons.inj scanned
  by_contra blank
  rw [lexeme_of_isBlank (by simpa using blank)] at notBlank
  exact notBlank rfl

theorem single (h : Spells cs (.branch e)) : Spells cs (.union free [e]) :=
  h.mono .single

theorem argument (h : Spells cs (.union true es)) : Spells cs (.arguments [ofBranches es]) :=
  h.mono fun union => by simpa using Derives.argument union (Gap.nil true)

/-- **A phrase in brackets.** -/
theorem exists_scans_bracketed (h : Spells cs phrase) (opens : IsMark opening kind)
    (closes : IsMark closing kind') (before : Blanks true left) (after : Blanks true right)
    (position : Nat) (rest : List Char) :
    ∃ first gap ts gap' final last,
      Scans position (bracketed opening closing left cs right) rest
          (first :: (gap ++ (ts ++ gap') ++ [final])) last ∧
        first.kind = kind ∧ Gap true gap ∧ Derives phrase ts ∧ Gap true gap' ∧
          final.kind = kind' := by
  have stops : Stops (right ++ ([closing] ++ rest)) := after.stops (.cons closes.outside _)
  obtain ⟨first, opened, scanned⟩ := opens.scans position _
  obtain ⟨gap, start, scanned₁, free₁⟩ := exists_scans_gap before (h.start stops) (position + 1)
  obtain ⟨ts, next, scanned₂, derives⟩ := h start _ stops
  obtain ⟨gap', ends, scanned₃, free₃⟩ := exists_scans_gap after (closes.start rest) next
  obtain ⟨final, closed, scanned₄⟩ := closes.scans ends rest
  have whole : bracketed opening closing left cs right ++ rest =
      [opening] ++ (left ++ (cs ++ (right ++ ([closing] ++ rest)))) := by simp [bracketed]
  refine ⟨first, gap, ts, gap', final, ends + 1, ?_, opened, free₁, derives, free₃, closed⟩
  unfold Scans at scanned scanned₁ scanned₂ scanned₃ scanned₄ ⊢
  rw [whole, scanned, scanned₁, scanned₂, scanned₃, scanned₄]
  simp

/-- **Two phrases with a mark between them.** -/
theorem exists_scans_joined (h : Spells cs phrase) (h' : Spells ds phrase') (mark : IsMark c kind)
    (before : Blanks free left) (after : Blanks free right) (position : Nat)
    (stops : Stops rest) :
    ∃ us gap token gap' ts last,
      Scans position (joinedBy c cs left right ds) rest (us ++ gap ++ token :: (gap' ++ ts)) last ∧
        Derives phrase us ∧ Gap free gap ∧ token.kind = kind ∧ Gap free gap' ∧
          Derives phrase' ts := by
  have stopped : Stops (left ++ ([c] ++ (right ++ (ds ++ rest)))) :=
    before.stops (.cons mark.outside _)
  obtain ⟨us, start, scanned, derives⟩ := h position _ stopped
  obtain ⟨gap, ends, scanned₁, free₁⟩ := exists_scans_gap before (mark.start _) start
  obtain ⟨token, same, scanned₂⟩ := mark.scans ends _
  obtain ⟨gap', next, scanned₃, free₃⟩ := exists_scans_gap after (h'.start stops) (ends + 1)
  obtain ⟨ts, last, scanned₄, derives'⟩ := h' next rest stops
  have whole : joinedBy c cs left right ds ++ rest =
      cs ++ (left ++ ([c] ++ (right ++ (ds ++ rest)))) := by simp [joinedBy]
  refine ⟨us, gap, token, gap', ts, last, ?_, derives, free₁, same, free₃, derives'⟩
  unfold Scans at scanned scanned₁ scanned₂ scanned₃ scanned₄ ⊢
  rw [whole, scanned, scanned₁, scanned₂, scanned₃, scanned₄]
  simp

theorem name {n : String} (h : IsName n.toList) : Spells n.toList (.operand (name n)) := by
  intro position rest stops
  obtain ⟨token, last, kind, rfl, named⟩ := exists_scans_name h stops position
  exact ⟨_, last, named, .atom (.name kind)⟩

theorem generic {base : String} (isName : IsName base.toList) (h : Spells cs (.arguments args))
    (before : Blanks true left) (after : Blanks true right) :
    Spells (base.toList ++ bracketed '<' '>' left cs right) (.operand (generic base args)) := by
  intro position rest stops
  have stopped : Stops (bracketed '<' '>' left cs right ++ rest) :=
    .cons isMark_less.outside _
  obtain ⟨token, next, kind, rfl, named⟩ := exists_scans_name isName stopped position
  obtain ⟨less, gap, ts, gap', greater, last, scanned, opens, free, derives, free', closes⟩ :=
    h.exists_scans_bracketed isMark_less isMark_greater before after next rest
  exact ⟨_, last, named.append scanned,
    .atom (.generic kind opens free (derives.arguments_gap free') closes)⟩

/-- A union in parentheses is scanned before anything. -/
theorem exists_scans_paren (h : Spells cs (.union true es)) (before : Blanks true left)
    (after : Blanks true right) (position : Nat) (rest : List Char) :
    ∃ ts last, Scans position (bracketed '(' ')' left cs right) rest ts last ∧
      Derives (.operand (ofBranches es)) ts := by
  obtain ⟨first, gap, ts, gap', final, last, scanned, opens, free, derives, free', closes⟩ :=
    h.exists_scans_bracketed isMark_openParen isMark_closeParen before after position rest
  exact ⟨_, last, scanned, .atom (.paren opens free derives free' closes)⟩

theorem paren (h : Spells cs (.union true es)) (before : Blanks true left)
    (after : Blanks true right) :
    Spells (bracketed '(' ')' left cs right) (.operand (ofBranches es)) :=
  fun position rest _ => h.exists_scans_paren before after position rest

theorem array (h : Spells cs (.operand e)) : Spells (cs ++ ['[', ']']) (.operand (array e)) := by
  intro position rest stops
  obtain ⟨us, last, first, operand⟩ := h position ('[' :: ']' :: rest) (.cons (by decide) _)
  have mark : lexeme '[' ([']'] ++ rest) = (.array, ['[', ']']) := rfl
  exact ⟨_, _, first.append (.lexeme mark last), .array operand rfl⟩

theorem ahead (h : Spells cs (.operand e)) :
    Spells (['.', '.', '.'] ++ cs) (.branch (variadic e)) := by
  intro position rest stops
  have mark : lexeme '.' (['.', '.'] ++ (cs ++ rest)) = (.ellipsis, ['.', '.', '.']) := rfl
  obtain ⟨us, last, scanned, operand⟩ := h (position + 3) rest stops
  exact ⟨_, _, (Scans.lexeme mark position).append scanned, .ahead rfl operand⟩

/-- Behind a parenthesis the dots of an ellipsis belong to no name. -/
theorem behind (h : Spells cs (.union true es)) (before : Blanks true left)
    (after : Blanks true right) :
    Spells (bracketed '(' ')' left cs right ++ ['.', '.', '.'])
      (.branch (variadic (ofBranches es))) := by
  intro position rest _
  have mark : lexeme '.' (['.', '.'] ++ rest) = (.ellipsis, ['.', '.', '.']) := rfl
  obtain ⟨us, last, scanned, operand⟩ :=
    h.exists_scans_paren before after position (['.', '.', '.'] ++ rest)
  exact ⟨_, _, scanned.append (.lexeme mark last), .behind operand rfl⟩

theorem bar (h : Spells cs (.union free es)) (h' : Spells ds (.union free fs))
    (before : Blanks free left) (after : Blanks free right) :
    Spells (joinedBy '|' cs left right ds) (.union free (es ++ fs)) := by
  intro position rest stops
  obtain ⟨us, gap, token, gap', ts, last, scanned, derives, free, kind, free', derives'⟩ :=
    h.exists_scans_joined h' isMark_bar before after position stops
  exact ⟨_, last, scanned, derives.union_append free kind free' derives'⟩

theorem comma (h : Spells cs (.arguments args)) (h' : Spells ds (.union true es))
    (before : Blanks true left) (after : Blanks true right) :
    Spells (joinedBy ',' cs left right ds) (.arguments (args ++ [ofBranches es])) := by
  intro position rest stops
  obtain ⟨us, gap, token, gap', ts, last, scanned, derives, free, kind, free', derives'⟩ :=
    h.exists_scans_joined h' isMark_comma before after position stops
  have longer := Derives.comma (derives.arguments_gap free) kind free' derives' (Gap.nil true)
  exact ⟨_, last, scanned, by simpa using longer⟩

/-- **A trimmed text that spells branches is read as their union, to its end.** -/
theorem readsWhole {text : String} (h : Spells text.toList (.union false es))
    (trimmed : Text.trim text.toList = text.toList) : ReadsWhole text (ofBranches es) := by
  obtain ⟨ts, last, scanned, derives⟩ := h 0 [] .nil
  have all : tokens text = ts := by simpa [Scans, scan, tokens] using scanned
  have stripped : strippedTokens text = tokens text := by
    rw [strippedTokens, trimmed, String.ofList_toList]
  have begins : BeginsWith (strippedTokens text) (ofBranches es) :=
    ⟨es, ts, [], [], derives, rfl, .inl rfl, by simp [Prose], by simp [stripped, all]⟩
  exact ⟨read_eq_ok_iff.2 begins.ofTokens, es, all ▸ derives, rfl⟩

end Spells

end TypeExpr
end AmbientDecl
