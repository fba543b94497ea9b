/- # Well-typed settings

The tables of a configuration lead from texts to texts, if the configuration is well typed.  Then
every look into a table has a text for its result, or finds nothing.
-/

import AmbientDecl.Config.Settings
import AmbientDecl.Proofs.Entries

namespace AmbientDecl

/-- Whether a value is a table that leads to texts; an absent value is the empty table. -/
def Json.isTextTable (table : Json) : Bool :=
  table.table?.any fun members => members.all fun entry => entry.2.text?.isSome

/-- Whether a value is a list of texts; an absent value is the empty list. -/
def Json.isTextList (list : Json) : Bool :=
  list.list?.any fun items => items.all fun item => item.text?.isSome

/-- Whether a value is a table of overrides of classes, each with a list of types if any. -/
def Json.isOverrideTable (table : Json) : Bool :=
  table.table?.any fun members => members.all fun entry =>
    entry.2.table?.any fun fields => (Json.field fields "implements").list?.isSome

theorem Json.text?_eq_some {value : Json} {text : String} (h : value.text? = some text) :
    value = .str text := by
  cases value with
  | str s => rw [Option.some.inj h]
  | null => cases h
  | bool b => cases h
  | int n => cases h
  | arr items => cases h
  | obj members => cases h

namespace Settings

/-- The tables by which names are found and written lead to texts. -/
structure WellTyped (settings : Settings) : Prop where
  namespaceAliases : settings.namespaceAliases.isTextTable = true
  fixedReferences : settings.fixedReferences.isTextTable = true
  typeAliases : settings.typeAliases.isTextTable = true

instance (settings : Settings) : Decidable settings.WellTyped :=
  decidable_of_iff (settings.namespaceAliases.isTextTable ∧ settings.fixedReferences.isTextTable ∧
      settings.typeAliases.isTextTable)
    ⟨fun h => ⟨h.1, h.2.1, h.2.2⟩, fun h => ⟨h.1, h.2, h.3⟩⟩

variable {table : Json}

/-- A table of texts is a list of entries, each with a text. -/
theorem exists_members (h : table.isTextTable = true) : ∃ members, table.table? = some members ∧
    ∀ key value, Entries.get? key members = some value → ∃ text, value = .str text := by
  obtain ⟨members, there, texts⟩ := (Option.any_eq_true _ _).1 h
  refine ⟨members, there, fun key value found => ?_⟩
  have isText := List.all_eq_true.1 texts _ (Entries.mem_of_get? found)
  obtain ⟨text, same⟩ := Option.isSome_iff_exists.1 isText
  exact ⟨text, Json.text?_eq_some same⟩

theorem exists_substitute (h : table.isTextTable = true) (name : String) :
    ∃ text, substitute table name = .ok (.str text) := by
  obtain ⟨members, there, texts⟩ := exists_members h
  simp only [substitute, valueAt?, there, ShapeFault.required_some]
  cases found : Entries.get? name members with
  | none => exact ⟨name, by simp [found, bind, Except.bind, pure, Except.pure]⟩
  | some value =>
    obtain ⟨text, rfl⟩ := texts name value found
    exact ⟨text, by simp [found, bind, Except.bind, pure, Except.pure]⟩

theorem exists_aliasOf (h : table.isTextTable = true) (name : String) :
    ∃ text, aliasOf table (.str name) = .ok (.str text) := by
  obtain ⟨members, there, texts⟩ := exists_members h
  simp only [aliasOf, there, ShapeFault.required_some]
  cases found : Entries.get? name members with
  | none => exact ⟨name, by simp [found, bind, Except.bind, pure, Except.pure]⟩
  | some value =>
    obtain ⟨text, rfl⟩ := texts name value found
    exact ⟨text, by simp [found, bind, Except.bind, pure, Except.pure]⟩

theorem exists_fixedReference? (h : table.isTextTable = true) (name : String) :
    ∃ found : Option String, fixedReference? table name = .ok (found.map .str) := by
  obtain ⟨members, there, texts⟩ := exists_members h
  by_cases present : table.isTruthy = true
  · cases table with
    | obj entries =>
      rw [Json.table?_obj] at there
      obtain rfl := Option.some.inj there
      rw [fixedReference?_obj]
      cases found : Entries.get? name entries with
      | none => exact ⟨none, rfl⟩
      | some value =>
        obtain ⟨text, rfl⟩ := texts name value found
        exact ⟨some text, rfl⟩
    | null => cases present
    | bool b => simp [Json.table?, present] at there
    | int n => simp [Json.table?, present] at there
    | str s => simp [Json.table?, present] at there
    | arr items => simp [Json.table?, present] at there
  · exact ⟨none, by simp [fixedReference?, present]⟩

/-- A list of texts is read without a fault. -/
theorem exists_readList {list : Json} (h : list.isTextList = true) :
    ∃ items, readList list = .ok items ∧ ∀ item ∈ items, ∃ text, item = .str text := by
  obtain ⟨items, there, texts⟩ := (Option.any_eq_true _ _).1 h
  refine ⟨items, by rw [readList, there, ShapeFault.required_some], fun item mem => ?_⟩
  obtain ⟨text, same⟩ := Option.isSome_iff_exists.1 (List.all_eq_true.1 texts item mem)
  exact ⟨text, Json.text?_eq_some same⟩

/-- Whether a name is left out on account of an ignored name. -/
def omits (settings : Settings) (name : String) : Bool :=
  ((readList settings.ignoredNames).toOption.getD []).any (isUnder name)

/-- What can be said of a name that may be left out. -/
theorem omits_eq_of_ignores {settings : Settings} {name : String} {ignored : Bool}
    (h : settings.ignores (.str name) = .ok ignored) : settings.omits name = ignored := by
  rw [ignores] at h
  rw [omits]
  cases read : readList settings.ignoredNames with
  | error fault =>
    rw [read] at h
    cases h
  | ok items =>
    rw [read] at h
    exact Except.ok.inj h

theorem ignores_eq {settings : Settings} (listed : settings.ignoredNames.isTextList = true)
    (name : String) : settings.ignores (.str name) = .ok (settings.omits name) := by
  obtain ⟨items, read, -⟩ := exists_readList listed
  rw [ignores, omits, read]
  rfl

/-- The override of a class is read without a fault. -/
theorem exists_overrideOf {settings : Settings}
    (h : settings.classOverrides.isOverrideTable = true) (fullName : String) :
    ∃ override, settings.overrideOf fullName = .ok override := by
  obtain ⟨members, there, fits⟩ := (Option.any_eq_true _ _).1 h
  have read : valueAt? settings.classOverrides fullName =
      .ok (Entries.get? fullName members) := by
    rw [valueAt?, there]
    rfl
  cases found : Entries.get? fullName members with
  | none =>
    refine ⟨.empty, ?_⟩
    simp [overrideOf, read, found, bind, Except.bind, pure, Except.pure]
  | some override =>
    have fit := List.all_eq_true.1 fits _ (Entries.mem_of_get? found)
    obtain ⟨fields, isTable, lists⟩ := (Option.any_eq_true _ _).1 fit
    obtain ⟨implemented, listed⟩ := Option.isSome_iff_exists.1 lists
    have isTable : override.table? = some fields := isTable
    refine ⟨⟨Json.field fields "generics", implemented.map Json.display⟩, ?_⟩
    simp [overrideOf, read, found, isTable, readList, listed, bind, Except.bind, pure, Except.pure]

/-- Every table and list of the settings has the shape that a run reads. -/
structure FullyTyped (settings : Settings) : Prop extends WellTyped settings where
  ignoredNames : settings.ignoredNames.isTextList = true
  additionalClasses : settings.additionalClasses.isTextList = true
  classOverrides : settings.classOverrides.isOverrideTable = true
  reservedNames : settings.reservedNames.isTextTable = true

end Settings

end AmbientDecl
