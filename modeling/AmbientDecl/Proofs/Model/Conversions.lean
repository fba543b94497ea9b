/- # Converting types one after the other

A converter lowers types with a table of aliases and, where there is one, with the model in which
names are looked up.  Between two types it only remembers which unreadable texts it has reported.
So what is written for a type does not depend on the types that came before, and the reports are
known from the texts alone: one for each text that is rejected, at its first coming
(`TypeConverter.run_convertAll`).
-/

import AmbientDecl.Proofs.Blank
import AmbientDecl.Proofs.Keyed
import AmbientDecl.Proofs.Model.Hearing
import AmbientDecl.Proofs.Model.Lowering
import AmbientDecl.Proofs.Model.WellTyped
import AmbientDecl.Proofs.TypeExpr.Reading

namespace AmbientDecl

/-- A text that documentation gives for a type, and the name of the class that it is seen from, if
there is one. -/
structure Mention where
  text : String
  base? : Option String

namespace Mention

/-- The text without the blanks around it. -/
def stripped (a : Mention) : String := String.ofList (Text.trim a.text.toList)

/-- The name of the class, or the empty text. -/
def base (a : Mention) : String := a.base?.getD ""

/-- The syntax error of a text that is not empty, does not start with a pair of braces and does not
start with a type expression. -/
def error? (a : Mention) : Option TypeExpr.SyntaxError :=
  if a.stripped = "" ∨ (WrittenType.interior? a.stripped.toList).isSome then none
  else
    match TypeExpr.read a.stripped with
    | .ok _ => none
    | .error error => some error

/-- Whether the text is rejected. -/
def isRejected (a : Mention) : Bool := a.error?.isSome

/-- What is reported of a text that is rejected. -/
def report? (a : Mention) : Option Diagnostic :=
  a.error?.map fun error =>
    ⟨Diagnostic.unparseableType, "Can't parse type annotation; type=" ++ Text.quoted a.stripped ++
      ", error=" ++ error.message, a.base⟩

/-- The rejected texts, each at its first coming. -/
def firstRejected (as : List Mention) : List Mention :=
  Keyed.firsts stripped (as.filter isRejected)

/-- What is reported of the texts. -/
def reports (as : List Mention) : List Diagnostic := (firstRejected as).filterMap report?

end Mention

/-- What types are lowered with: the aliases of names and, if there is one, the model in which names
are looked up. -/
structure TypeConverter where
  aliases : Json
  namer? : Option Model

namespace TypeConverter

/-- How names are written inside the class named `base`. -/
def naming (c : TypeConverter) (base : String) : TypeExpr.Naming :=
  match c.namer? with
  | none => .plain c.aliases
  | some namer =>
    { alone := fun name => do Settings.aliasOf c.aliases (← namer.referenceWithin base name)
      withArguments := namer.referenceWithin base }

/-- The lowered type for a text. -/
def convert (c : TypeConverter) (a : Mention) : Build Json :=
  Build.lowerWith (c.naming a.base) a.text a.base

/-- The lowered types for texts, one after the other; one that is at fault does not stop the
others. -/
def convertAll (c : TypeConverter) (as : List Mention) : Build (List (Except BuildError Json)) :=
  as.mapM fun a => Build.attempt (c.convert a)

/-- Every table that names are written with leads to texts. -/
structure IsText (c : TypeConverter) : Prop where
  aliases : c.aliases.isTextTable = true
  namespaceAliases : ∀ namer ∈ c.namer?, namer.settings.namespaceAliases.isTextTable = true
  fixedReferences : ∀ namer ∈ c.namer?, namer.settings.fixedReferences.isTextTable = true

end TypeConverter

/-- The converter of a model. -/
def Model.converter (m : Model) : TypeConverter := ⟨m.settings.typeAliases, some m⟩

/-- A model lowers types with its own converter. -/
theorem Build.run_lowerType_eq_convert (text base : String) (m : Model) :
    (lowerType text base).run m = (m.converter.convert ⟨text, some base⟩).run m := rfl

/-- A text starts with a word, which is not empty and goes as far as the first blank. -/
structure FirstWord (word text : String) : Prop where
  some : word ≠ ""
  unbroken : ∀ c ∈ word.toList, Text.isBlank c = false
  splits : ∃ rest, text = word ++ rest ∧ ∀ c ∈ rest.toList.head?, Text.isBlank c = true

/-- A text that does not start with a blank starts with a word. -/
theorem firstWord_of_head {cs : List Char} (some : cs ≠ [])
    (start : ∀ c ∈ cs.head?, Text.isBlank c = false) :
    FirstWord (String.ofList (Text.firstWord cs)) (String.ofList cs) where
  some empty := by
    obtain ⟨c, rest, rfl⟩ := List.exists_cons_of_ne_nil some
    have empty : Text.firstWord (c :: rest) = [] := by
      simpa using congrArg String.toList empty
    simp [Text.firstWord, start c rfl] at empty
  unbroken c mem := by
    rw [String.toList_ofList] at mem
    simpa using List.mem_takeWhile_imp mem
  splits := by
    refine ⟨String.ofList (cs.dropWhile fun c => !Text.isBlank c), ?_, fun c first => ?_⟩
    · rw [← String.ofList_append, Text.firstWord, List.takeWhile_append_dropWhile]
    · have stop := List.head?_dropWhile_not (fun c => !Text.isBlank c) cs
      rw [String.toList_ofList] at first
      rw [Option.mem_def.1 first] at stop
      simpa using stop

namespace Mention

variable {a : Mention} {error : TypeExpr.SyntaxError}

/-- A text is unreadable when it is rejected. -/
theorem ofText_eq_unreadable_iff :
    WrittenType.ofText a.text = .unreadable error ↔ a.error? = some error := by
  unfold WrittenType.ofText WrittenType.ofTrimmed error? stripped
  rw [String.toList_ofList]
  by_cases empty : Text.trim a.text.toList = []
  · simp [empty]
  · rw [if_neg empty]
    cases WrittenType.interior? (Text.trim a.text.toList) with
    | some inside =>
      dsimp only
      cases TypeExpr.read (String.ofList (Text.trim inside)) <;> simp
    | none =>
      dsimp only
      cases TypeExpr.read (String.ofList (Text.trim a.text.toList)) <;> simp [empty]

theorem read_eq_error (h : a.error? = some error) : TypeExpr.read a.stripped = .error error := by
  unfold error? at h
  split at h
  · cases h
  · cases read : TypeExpr.read a.stripped with
    | ok e => simp [read] at h
    | error error' => simpa [read] using h

theorem stripped_ne (h : a.error? = some error) : a.stripped ≠ "" := by
  intro empty
  simp [error?, empty] at h

/-- A syntax error holds the text as it is read. -/
theorem text_eq_stripped (h : a.error? = some error) : error.text = a.stripped := by
  rw [TypeExpr.text_of_read_eq_error (read_eq_error h), stripped, String.toList_ofList,
    Text.trim_trim]

end Mention

section Remembered

variable {m : Model} {a : Mention} {as : List Mention}

namespace Mention

theorem firstRejected_concat_of_none (accepted : a.error? = none) :
    firstRejected (as ++ [a]) = firstRejected as := by
  simp [firstRejected, isRejected, accepted]

/-- One more text that is rejected counts when it is new. -/
theorem firstRejected_concat (rejected : a.error?.isSome = true) :
    firstRejected (as ++ [a]) =
      if a.stripped ∈ (firstRejected as).map stripped then firstRejected as
      else firstRejected as ++ [a] := by
  have last : (as ++ [a]).filter isRejected = as.filter isRejected ++ [a] := by
    simp [isRejected, rejected]
  rw [firstRejected, last, Keyed.firsts_concat, firstRejected]

end Mention

namespace Model

/-- The model after texts have been lowered. -/
def hearAll (m : Model) (as : List Mention) : Model :=
  as.foldl (fun m a => m.hear a.text a.base) m

/-- A text that can be read leaves no trace. -/
theorem hear_of_none (accepted : a.error? = none) : m.hear a.text a.base = m := by
  unfold hear
  split
  next error unreadable =>
    rw [Mention.ofText_eq_unreadable_iff, accepted] at unreadable
    cases unreadable
  next => rfl

theorem hear_of_some {error : TypeExpr.SyntaxError} (rejected : a.error? = some error) :
    m.hear a.text a.base = if a.stripped ∈ m.reported then m
      else { m with
        reported := m.reported ++ [a.stripped]
        log := m.log ++ (a.report?.map .warning).toList } := by
  rw [hear, Mention.ofText_eq_unreadable_iff.2 rejected]
  simp only [refuse, Mention.text_eq_stripped rejected, Mention.report?, rejected]
  rfl

/-- **Each text that is rejected is reported once,** at its first coming. -/
theorem hearAll_eq (fresh : m.reported = []) (as : List Mention) :
    m.hearAll as = { m with
      reported := (Mention.firstRejected as).map Mention.stripped
      log := m.log ++ (Mention.reports as).map .warning } := by
  induction as using List.reverseRecOn with
  | nil =>
    have nothing : Mention.firstRejected [] = [] := rfl
    simp [hearAll, Mention.reports, nothing, ← fresh]
  | append_singleton as a ih =>
    rw [hearAll, List.foldl_concat, ← hearAll, ih]
    unfold Mention.reports
    cases error? : a.error? with
    | none => rw [hear_of_none error?, Mention.firstRejected_concat_of_none error?]
    | some error =>
      rw [hear_of_some error?, Mention.firstRejected_concat (by rw [error?]; rfl)]
      split
      · rfl
      · cases report : a.report? <;> simp [report]

end Model

namespace TypeConverter

variable {c : TypeConverter}

/-- What a text is lowered to. -/
def answer (c : TypeConverter) (a : Mention) : Except BuildError Json :=
  ((WrittenType.ofText a.text).lower (c.naming a.base)).mapError .shape

theorem run_attempt_convert (c : TypeConverter) (a : Mention) (m : Model) :
    (Build.attempt (c.convert a)).run m = .ok (c.answer a) (m.hear a.text a.base) := by
  rw [Build.run_attempt, convert, Build.run_lowerWith_eq, answer]
  cases (WrittenType.ofText a.text).lower (c.naming a.base) <;> rfl

theorem value_convert (c : TypeConverter) (a : Mention) (m : Model) :
    Build.value (c.convert a) m = c.answer a := by
  rw [Build.value, convert, Build.run_lowerWith_eq, answer]
  cases (WrittenType.ofText a.text).lower (c.naming a.base) <;> rfl

/-- **The answers do not depend on what was converted before.** -/
theorem run_convertAll_eq (c : TypeConverter) (as : List Mention) (m : Model) :
    (c.convertAll as).run m = .ok (as.map c.answer) (m.hearAll as) := by
  induction as generalizing m with
  | nil => rfl
  | cons a as ih =>
    have rest := ih (m.hear a.text a.base)
    unfold convertAll at rest ⊢
    rw [List.mapM_cons, EStateM.run_bind, run_attempt_convert]
    dsimp only
    rw [EStateM.run_bind, rest]
    rfl

/-- Names are written as texts. -/
theorem IsText.naming (h : c.IsText) (base : String) : (c.naming base).IsText := by
  cases namer? : c.namer? with
  | none =>
    have plain : c.naming base = .plain c.aliases := by rw [TypeConverter.naming, namer?]
    rw [plain]
    exact ⟨Settings.exists_aliasOf h.aliases, fun name => ⟨name, rfl⟩⟩
  | some namer =>
    -- the names are written as in the model whose aliases are those of the converter
    let like : Model := { namer with settings := { namer.settings with typeAliases := c.aliases } }
    have typed : like.settings.WellTyped :=
      ⟨h.namespaceAliases namer namer?, h.fixedReferences namer namer?, h.aliases⟩
    have same : c.naming base = like.naming base := by
      rw [TypeConverter.naming, namer?]
      rfl
    rw [same]
    exact Model.naming_isText typed base

/-- A text that is rejected is lowered to its first word. -/
theorem answer_of_rejected (rejected : a.isRejected = true) :
    ∃ word, c.answer a = .ok (.str word) ∧ FirstWord word a.stripped := by
  obtain ⟨error, rejected⟩ := Option.isSome_iff_exists.1 rejected
  refine ⟨String.ofList (Text.firstWord (Text.trim a.text.toList)), ?_, ?_⟩
  · rw [answer, Mention.ofText_eq_unreadable_iff.2 rejected, WrittenType.lower,
      Mention.text_eq_stripped rejected, Mention.stripped, String.toList_ofList]
    rfl
  · refine firstWord_of_head (fun empty => Mention.stripped_ne rejected ?_) ?_
    · rw [Mention.stripped, empty]
    · exact Text.trimStart_eq_self_iff.1 (Text.trimStart_trim _)

/-- **Each unreadable type is reported once, and every answer is that of a new converter.**  From a
model in which no type has been reported, the texts are lowered one after the other.

* Each answer is what the text is lowered to in any other model, whatever was reported there.
* The reports are those of the rejected texts, each at its first coming, and nothing else changes.
* An answer is at fault only for the shape of a table; where the tables lead to texts, it is a text.
* A text that is rejected is lowered to its first word. -/
theorem convertAll_reports_once (c : TypeConverter) (as : List Mention)
    (fresh : m.reported = []) :
    (∀ other : Model, (c.convertAll as).run m =
        .ok (as.map fun a => Build.value (c.convert a) other) (m.hearAll as)) ∧
      (m.hearAll as = { m with
        reported := (Mention.firstRejected as).map Mention.stripped
        log := m.log ++ (Mention.reports as).map .warning } ∧
        (m.hearAll as).diagnostics = m.diagnostics ++ Mention.reports as) ∧
      (∀ a ∈ as, ∀ error, Build.value (c.convert a) m = .error error →
        ∃ fault, error = .shape fault) ∧
      (c.IsText → ∀ a ∈ as, ∃ text, Build.value (c.convert a) m = .ok (.str text)) ∧
      ∀ a ∈ as, a.isRejected = true →
        ∃ word, Build.value (c.convert a) m = .ok (.str word) ∧ FirstWord word a.stripped := by
  simp only [value_convert]
  refine ⟨fun _ => run_convertAll_eq c as m, ⟨Model.hearAll_eq fresh as, ?_⟩, ?_, ?_, ?_⟩
  · rw [Model.hearAll_eq fresh, Model.diagnostics, LogEntry.diagnostics_append,
      LogEntry.diagnostics_map_warning, Model.diagnostics]
  · intro a _ error failed
    rw [answer] at failed
    cases lowered : (WrittenType.ofText a.text).lower (c.naming a.base) with
    | ok type =>
      rw [lowered] at failed
      cases failed
    | error fault =>
      rw [lowered] at failed
      exact ⟨fault, (Except.error.inj failed).symm⟩
  · intro isText a _
    obtain ⟨text, lowered⟩ := (WrittenType.ofText a.text).exists_lower (isText.naming a.base)
    exact ⟨text, by rw [answer, lowered]; rfl⟩
  · exact fun a _ => answer_of_rejected

/-- Texts in and out of classes; the rejected one comes twice, with blanks around it and without. -/
def fewTypes : List Mention :=
  [⟨" Id> of a user ", some "App.User"⟩, ⟨"\x7ba: string\x7d", none⟩, ⟨"", none⟩,
    ⟨"Id[]", some "App"⟩, ⟨"Id> of a user", none⟩, ⟨"Id|", some ""⟩, ⟨"|Id", some ""⟩]

theorem fewTypes_reports_once :
    ((TypeConverter.mk (.obj [("Id", .str "number")]) none).convertAll fewTypes).run default =
        .ok [.ok (.str "Id>"), .ok (.str "\x7ba: string\x7d"), .ok (.str "any"),
          .ok (.str "number[]"), .ok (.str "Id>"), .ok (.str "number"), .ok (.str "|Id")]
          (Model.hearAll default fewTypes) ∧
      (Model.hearAll default fewTypes).diagnostics.map Diagnostic.subject = ["App.User", ""] := by
  have fresh : (default : Model).reported = [] := rfl
  have once := convertAll_reports_once (.mk (.obj [("Id", .str "number")]) none) fewTypes fresh
  refine ⟨once.1 default, ?_⟩
  rw [once.2.1.2]
  rfl

end TypeConverter
end Remembered

end AmbientDecl
