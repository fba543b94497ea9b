/- # The outline of a model

Linking the classes of a model changes their parents, their mixins, their members and how far they
have come.  What it leaves alone is the **outline** of the model: the settings, the tree and, of
every class, its slot, its name and its record.

Names are found and written by the outline alone (`find?_outline`, `naming_outline`).  An action
**consults** the outline when its value is the same in all models with one outline, and the model
that it leaves differs in its reports only.
-/

import AmbientDecl.Model.Members
import AmbientDecl.Proofs.Action.Ends

namespace AmbientDecl

/-- A class without what linking changes. -/
def Class.outline (c : Class) : Class :=
  { c with parent? := none, implemented := [], members := [], progress := .unresolved,
           isNamespace := false }

namespace LogEntry

theorem diagnostics_append (log more : List LogEntry) :
    diagnostics (log ++ more) = diagnostics log ++ diagnostics more :=
  List.filterMap_append

theorem diagnostics_map_warning (reports : List Diagnostic) :
    diagnostics (reports.map .warning) = reports := by
  induction reports with
  | nil => rfl
  | cons report rest ih => exact congrArg (report :: ·) ih

end LogEntry

namespace Model

/-- The model without what linking changes and without its reports. -/
def outline (m : Model) : Model :=
  { m with classes := m.classes.map Class.outline, reported := [], log := [] }

variable {m m' m'' : Model}

@[simp] theorem settings_outline : m.outline.settings = m.settings := rfl

@[simp] theorem length_classes_outline : m.outline.classes.length = m.classes.length := by
  simp [outline]

theorem classAt_outline (id : ClassId) : m.outline.classAt id = (m.classAt id).outline := by
  simp only [classAt, outline, List.getD_eq_getElem?_getD, List.getElem?_map]
  cases m.classes[id]? <;> rfl

@[simp] theorem fullName_outline (id : ClassId) : m.outline.fullName id = m.fullName id := by
  rw [fullName, classAt_outline]
  rfl

theorem inSlot?_outline : m.outline.inSlot? = m.inSlot? := by
  funext slot
  simp [inSlot?, outline, List.findIdx?_map, Function.comp_def, Class.outline]

@[simp] theorem find?_outline (name : String) : m.outline.find? name = m.find? name := by
  rw [find?, find?, inSlot?_outline, settings_outline]

@[simp] theorem reference_outline (name base : String) :
    m.outline.reference name base = m.reference name base := by
  have nearby : m.outline.nearby? name base = m.nearby? name base := by
    simp only [nearby?, find?_outline]
  simp only [reference, fullNameOf, nearby, fullName_outline, settings_outline]

/-- The way in which names are written depends on the outline alone. -/
@[simp] theorem naming_outline (base : String) : m.outline.naming base = m.naming base := by
  simp only [naming, referenceWithin, reference_outline, settings_outline]

theorem find?_of_outline_eq (h : m'.outline = m.outline) (name : String) :
    m'.find? name = m.find? name := by
  rw [← find?_outline, h, find?_outline]

theorem fullName_of_outline_eq (h : m'.outline = m.outline) (id : ClassId) :
    m'.fullName id = m.fullName id := by
  rw [← fullName_outline, h, fullName_outline]

theorem length_classes_of_outline_eq (h : m'.outline = m.outline) :
    m'.classes.length = m.classes.length := by
  rw [← length_classes_outline, h, length_classes_outline]

theorem tree_of_outline_eq (h : m'.outline = m.outline) : m'.tree = m.tree := by
  have same := congrArg Model.tree h
  exact same

theorem class_outline_of_outline_eq (h : m'.outline = m.outline) (id : ClassId) :
    (m'.classAt id).outline = (m.classAt id).outline := by
  rw [← classAt_outline, h, classAt_outline]

theorem record_of_outline_eq (h : m'.outline = m.outline) (id : ClassId) :
    (m'.classAt id).record = (m.classAt id).record := by
  have same := congrArg Class.record (class_outline_of_outline_eq h id)
  exact same

/-- The names of members are built with the name of the class, which its slot gives. -/
theorem slot_of_outline_eq (h : m'.outline = m.outline) (id : ClassId) :
    (m'.classAt id).slot = (m.classAt id).slot := by
  have same := congrArg Class.slot (class_outline_of_outline_eq h id)
  exact same

theorem diagnostics_log (m : Model) (entry : LogEntry) :
    ({ m with log := m.log ++ [entry] } : Model).diagnostics =
      m.diagnostics ++ entry.diagnostic?.toList := by
  rw [diagnostics, LogEntry.diagnostics_append, diagnostics, LogEntry.diagnostics,
    LogEntry.diagnostics]
  cases entry <;> rfl

/-- `m'` differs from `m` by further reports only. -/
structure Reports (m m' : Model) : Prop where
  settings : m'.settings = m.settings
  tree : m'.tree = m.tree
  classes : m'.classes = m.classes
  log : m.log <+: m'.log

namespace Reports

theorem refl (m : Model) : m.Reports m := ⟨rfl, rfl, rfl, List.prefix_refl _⟩

theorem trans (h : m.Reports m') (h' : m'.Reports m'') : m.Reports m'' :=
  ⟨h'.settings.trans h.settings, h'.tree.trans h.tree, h'.classes.trans h.classes,
    h.log.trans h'.log⟩

theorem outline (h : m.Reports m') : m'.outline = m.outline := by
  simp [Model.outline, h.settings, h.tree, h.classes]

theorem classAt (h : m.Reports m') (id : ClassId) : m'.classAt id = m.classAt id := by
  simp [Model.classAt, h.classes]

/-- Adding to the log is a report. -/
theorem of_log (m : Model) (entries : List LogEntry) :
    m.Reports { m with log := m.log ++ entries } :=
  ⟨rfl, rfl, rfl, List.prefix_append ..⟩

end Reports

/-- `m'` differs from `m` by reports of unreadable types only. -/
structure ReportsTypes (m m' : Model) : Prop extends m.Reports m' where
  types : ∃ types : List Diagnostic, m'.diagnostics = m.diagnostics ++ types ∧
    ∀ d ∈ types, d.code = Diagnostic.unparseableType

namespace ReportsTypes

theorem refl (m : Model) : m.ReportsTypes m :=
  ⟨.refl m, [], (List.append_nil _).symm, fun _ mem => absurd mem List.not_mem_nil⟩

theorem trans (h : m.ReportsTypes m') (h' : m'.ReportsTypes m'') : m.ReportsTypes m'' := by
  obtain ⟨types, told, unreadable⟩ := h.types
  obtain ⟨types', told', unreadable'⟩ := h'.types
  refine ⟨h.toReports.trans h'.toReports, types ++ types', ?_, ?_⟩
  · rw [told', told, List.append_assoc]
  · exact List.forall_mem_append.2 ⟨unreadable, unreadable'⟩

end ReportsTypes
end Model

namespace Build

variable {α β : Type}

/-- The value of an action in a model, or the error that stops it. -/
def value (action : Build α) (m : Model) : Except BuildError α :=
  match action.run m with
  | .ok value _ => .ok value
  | .error error _ => .error error

section Known

variable {action : Build α} {m : Model} {done : α → Model → Prop}
  {failed : BuildError → Model → Prop} {result : α} {error : BuildError}

/-- An action whose value is known ends with it. -/
theorem Ends.known_ok (h : Ends action m done failed) (known : value action m = .ok result) :
    Ends action m (fun value m' => value = result ∧ done value m') fun _ _ => False := by
  refine ends_of (fun value m' run => ⟨?_, h.of_ok run⟩) fun error m' run => ?_
  · rw [Build.value, run] at known
    exact Except.ok.inj known
  · rw [Build.value, run] at known
    cases known

/-- An action whose error is known ends with it. -/
theorem Ends.known_error (h : Ends action m done failed) (known : value action m = .error error) :
    Ends action m (fun _ _ => False) fun error' m' => error' = error ∧ failed error' m' := by
  refine ends_of (fun value m' run => ?_) fun error m' run => ⟨?_, h.of_error run⟩
  · rw [Build.value, run] at known
    cases known
  · rw [Build.value, run] at known
    exact Except.error.inj known

/-- The run of an action whose error is known. -/
theorem run_of_value_error (known : value action m = .error error) :
    action.run m = .error error (after action m) := by
  unfold value at known
  unfold after
  split at known
  · cases known
  · rename_i run
    rw [run, Except.error.inj known]

end Known

/-- An action whose value depends on the outline alone and that changes nothing but the reports. -/
structure Consults (action : Build α) : Prop where
  value_outline : ∀ m : Model, value action m.outline = value action m
  reports : ∀ m : Model, Ends action m (fun _ m' => m.Reports m') fun _ m' => m.Reports m'

namespace Consults

/-- Models with one outline give an action one value. -/
theorem value_eq {action : Build α} (h : Consults action) {m m' : Model}
    (same : m'.outline = m.outline) : value action m' = value action m := by
  rw [← h.value_outline m', same, h.value_outline]

/-- How an action that consults the outline ends. -/
theorem ends {action : Build α} (h : Consults action) (m : Model) :
    Ends action m (fun result m' => value action m = .ok result ∧ m.Reports m')
      fun error m' => value action m = .error error ∧ m.Reports m' := by
  refine ends_of (fun result m' run => ⟨?_, (h.reports m).of_ok run⟩)
    fun error m' run => ⟨?_, (h.reports m).of_error run⟩ <;>
  · rw [value, run]

theorem pure (result : α) : Consults (pure result : Build α) :=
  ⟨fun _ => rfl, fun m => .refl m⟩

theorem throw (error : BuildError) : Consults (throw error : Build α) :=
  ⟨fun _ => rfl, fun m => .refl m⟩

theorem value_bind {action : Build β} {next : β → Build α} (h : Consults action)
    (h' : ∀ result, Consults (next result)) (m : Model) :
    value (action >>= next) m = value action m >>= fun result => value (next result) m := by
  have reports := h.reports m
  unfold Ends at reports
  rw [value, EStateM.run_bind, value]
  cases run : action.run m with
  | ok result m' =>
    rw [run] at reports
    exact (h' result).value_eq reports.outline
  | error error m' => rfl

theorem bind {action : Build β} {next : β → Build α} (h : Consults action)
    (h' : ∀ result, Consults (next result)) : Consults (action >>= next) where
  value_outline m := by
    rw [value_bind h h', value_bind h h', h.value_outline]
    simp only [(h' _).value_outline]
  reports m := by
    rw [ends_bind]
    refine (h.reports m).mono (fun result m' first => ?_) fun _ _ first => first
    exact ((h' result).reports m').mono (fun _ _ => first.trans) fun _ _ => first.trans

/-- An action may look at the model, if the outline tells it the same. -/
theorem getting {next : Model → Build α} (h : ∀ m, Consults (next m))
    (same : ∀ m : Model, next m.outline = next m) : Consults (get >>= next) where
  value_outline m := by
    change value (next m.outline) m.outline = value (next m) m
    rw [same, (h m).value_outline]
  reports m := by
    rw [ends_bind, ends_get]
    exact (h m).reports m

end Consults

/-- Reporting an unreadable type never fails. -/
theorem ends_reportUnreadable (error : TypeExpr.SyntaxError) (subject : String) (m : Model) :
    Ends (reportUnreadable error subject) m (fun _ m' => m.ReportsTypes m') fun _ _ => False := by
  unfold reportUnreadable
  rw [ends_bind, ends_get]
  split
  · exact .refl m
  · rw [ends_bind, ends_set, ends_warn]
    exact ⟨⟨rfl, rfl, rfl, List.prefix_append ..⟩, _, LogEntry.diagnostics_append m.log _,
      List.forall_mem_singleton.2 rfl⟩

theorem reportUnreadable_consults (error : TypeExpr.SyntaxError) (subject : String) :
    Consults (reportUnreadable error subject) := by
  have value_eq : ∀ m : Model, value (reportUnreadable error subject) m = .ok () := by
    intro m
    obtain ⟨_, _, run, _⟩ := (ends_reportUnreadable error subject m).exists_ok
    rw [value, run]
  exact ⟨fun m => by rw [value_eq, value_eq],
    fun m => (ends_reportUnreadable error subject m).mono (fun _ _ h => h.toReports)
      fun _ _ h => h.elim⟩

end Build
end AmbientDecl
