/- # Which namespaces there are

Registering a class under a name creates the namespaces on the way to its slot, and nothing else
creates one.  So the namespaces after a run are those on the ways to the slots of the names that it
registered (`Build.ends_assemble_opened`).

Two tests look for the namespace that a class documents.  The class is flagged when a namespace has
its full name, and its members are written where the namespace that owns the class has a child with
its simple name (`Model.HasChild`).  The first test goes by the name of the record, the second one
by the slot, to which the key of the record and the aliases lead.  Where both come to one path they
agree; elsewhere each of them has its own answer (`Build.flag_agrees_iff`).
-/

import AmbientDecl.Proofs.Config.WellTyped
import AmbientDecl.Proofs.Model.Housed

namespace AmbientDecl

namespace Document

/-- The names under which a run registers classes. -/
def registeredNames (document : Document) (settings : Settings) : List String :=
  ((document.classes?.getD []).map (·.1)).filter (fun name => !settings.omits name) ++
    ((Settings.readList settings.additionalClasses).toOption.getD []).filterMap Json.text?

end Document

namespace Settings

/-- A path on the way to the slot of one of the names. -/
def Opens (settings : Settings) (names : List String) (path : List String) : Prop :=
  path = [] ∨ ∃ name ∈ names, ∃ slot, settings.slotOf name = .ok slot ∧ path <+: slot.home

end Settings

namespace Model

variable {m m' : Model} {settings : Settings} {names : List String}

/-- The namespaces are those on the ways to the slots of the names. -/
structure Opened (settings : Settings) (names : List String) (m : Model) : Prop where
  settled : m.settings = settings
  contains_iff : ∀ path, m.tree.contains path = true ↔ settings.Opens names path

namespace Opened

theorem empty (settings : Settings) : Opened settings [] (Model.empty settings) where
  settled := rfl
  contains_iff path := by simp [Model.empty, Forest.contains_nil, Settings.Opens]

theorem congr (h : Opened settings names m) (same : m'.settings = m.settings)
    (tree : m'.tree = m.tree) : Opened settings names m' where
  settled := same.trans h.settled
  contains_iff := by
    rw [tree]
    exact h.contains_iff

theorem of_outline_eq (h : Opened settings names m) (same : m'.outline = m.outline) :
    Opened settings names m' :=
  h.congr (settings_of_outline_eq same) (tree_of_outline_eq same)

/-- The way to one more slot is created. -/
theorem insert (h : Opened settings names m) {name : String} {slot : Slot}
    (read : settings.slotOf name = .ok slot) (same : m'.settings = m.settings)
    (tree : m'.tree = m.tree.insert slot.home) : Opened settings (names ++ [name]) m' where
  settled := same.trans h.settled
  contains_iff path := by
    have only : (∃ slot, settings.slotOf name = .ok slot ∧ path <+: slot.home) ↔
        path <+: slot.home := by
      rw [read]
      exact ⟨fun ⟨_, same, lead⟩ => Except.ok.inj same ▸ lead, fun lead => ⟨slot, rfl, lead⟩⟩
    rw [tree, Forest.contains_insert, Bool.or_eq_true, List.isPrefixOf_iff_prefix,
      h.contains_iff, Settings.Opens, Settings.Opens, or_assoc]
    simp only [List.mem_append, List.mem_singleton, or_and_right, exists_or, exists_eq_left, only]

end Opened

end Model

namespace Build

open Model

variable {m : Model} {settings : Settings} {names : List String}

/-- Registering a class under a name opens the way to its slot. -/
theorem ends_register_opened (h : Opened settings names m) (name : String)
    (record? : Option ClassRecord) :
    Ends (register name record?) m (fun _ m' => Opened settings (names ++ [name]) m')
      fun _ _ => True := by
  unfold register
  rw [ends_bind, ends_get]
  dsimp only
  rw [h.settled, ends_bind, ends_ofReading]
  refine ⟨fun slot read => ?_, fun _ _ => trivial⟩
  rw [ends_bind, ends_modify, ends_bind, ends_get]
  split
  · rw [ends_bind, ends_warn, ends_pure]
    exact h.insert read rfl rfl
  rw [ends_bind, ends_orFault]
  refine ⟨fun record _ => ?_, fun _ => trivial⟩
  rw [ends_bind, ends_ofReading]
  refine ⟨fun override _ => ?_, fun _ _ => trivial⟩
  unfold addClass
  rw [ends_bind, ends_bind, ends_get, ends_bind, ends_set, ends_pure, ends_bind, ends_ofReading]
  refine ⟨fun owner _ => ?_, fun _ _ => trivial⟩
  rw [ends_bind, ends_note, ends_pure]
  exact h.insert read rfl rfl

/-- The classes of a document open the ways to their slots, unless they are left out. -/
theorem ends_registerEntries_opened (h : Opened settings names m)
    (classes : List (String × Option ClassRecord)) :
    Ends (classes.forM registerEntry) m (fun _ m' => Opened settings
      (names ++ (classes.map (·.1)).filter fun name => !settings.omits name) m')
      fun _ _ => True := by
  refine (Ends.forM (fun rest m' => ∃ before, before ++ rest = classes ∧ Opened settings
    (names ++ (before.map (·.1)).filter fun name => !settings.omits name) m') (fun _ _ => True) ?_
    ⟨[], rfl, by simpa using h⟩).mono ?_ fun _ _ _ => trivial
  · rintro entry rest m' ⟨before, all, opened⟩
    unfold registerEntry
    rw [ends_bind, ends_get, opened.settled, ends_bind, ends_ofReading]
    refine ⟨fun ignored read => ?_, fun _ _ => trivial⟩
    have omits := Settings.omits_eq_of_ignores read
    split
    · rename_i left
      refine ⟨before ++ [entry], by simp [← all], ?_⟩
      simpa [omits, left] using opened
    · rename_i kept
      rw [ends_discard]
      refine (ends_register_opened opened entry.1 entry.2).mono ?_ fun _ _ _ => trivial
      intro _ m'' opened'
      refine ⟨before ++ [entry], by simp [← all], ?_⟩
      simpa [omits, kept] using opened'
  · rintro _ m' ⟨before, all, opened⟩
    rw [List.append_nil] at all
    rwa [← all]

/-- The classes of the settings open the ways to their slots. -/
theorem ends_registerAdditional_opened (h : Opened settings names m) (additional : List Json) :
    Ends (additional.forM registerAdditional) m (fun _ m' => Opened settings
      (names ++ additional.filterMap Json.text?) m') fun _ _ => True := by
  refine (Ends.forM (fun rest m' => ∃ before, before ++ rest = additional ∧ Opened settings
    (names ++ before.filterMap Json.text?) m') (fun _ _ => True) ?_
    ⟨[], rfl, by simpa using h⟩).mono ?_ fun _ _ _ => trivial
  · rintro entry rest m' ⟨before, all, opened⟩
    unfold registerAdditional
    split
    · rename_i name
      rw [ends_discard]
      refine (ends_register_opened opened name _).mono ?_ fun _ _ _ => trivial
      intro _ m'' opened'
      refine ⟨before ++ [.str name], by simp [← all], ?_⟩
      simpa [Json.text?] using opened'
    · exact trivial
  · rintro _ m' ⟨before, all, opened⟩
    rw [List.append_nil] at all
    rwa [← all]

/-- **The namespaces after the assembly of a document.** -/
theorem ends_assemble_opened (settings : Settings) (document : Document) :
    Ends (assemble document) (empty settings)
      (fun _ m => Opened settings (document.registeredNames settings) m) fun _ _ => True := by
  unfold assemble
  rw [ends_bind, ends_orFault]
  refine ⟨fun classes given => ?_, fun _ => trivial⟩
  rw [ends_bind]
  refine (ends_registerEntries_opened (.empty settings) classes).mono ?_ fun _ _ _ => trivial
  intro _ m₁ opened₁
  rw [ends_bind, ends_orFault]
  refine ⟨fun items _ => ?_, fun _ => trivial⟩
  rw [ends_bind]
  refine (Ends.foldlM (fun _ _ m' => Opened settings _ m') (fun _ _ => True)
    (fun item _ attached m' opened => ?_) opened₁).mono ?_ fun _ _ _ => trivial
  · unfold attachCounting
    rw [ends_bind]
    exact (quiet_attach item m').mono (fun _ _ still => opened.of_outline_eq still.outline)
      fun _ _ _ => trivial
  intro attached m₂ opened₂
  rw [ends_bind, ends_get, opened₂.settled, ends_bind, ends_ofReading]
  refine ⟨fun additional read => ?_, fun _ _ => trivial⟩
  rw [ends_bind]
  refine (ends_registerAdditional_opened opened₂ additional).mono ?_ fun _ _ _ => trivial
  intro _ m₃ opened₃
  rw [ends_bind, ends_get, ends_note]
  have names : document.registeredNames settings =
      [] ++ (classes.map (·.1)).filter (fun name => !settings.omits name) ++
        additional.filterMap Json.text? := by
    rw [Document.registeredNames, given, read]
    rfl
  rw [names]
  exact opened₃.congr rfl rfl

end Build

namespace Model

variable {m : Model} {id : ClassId}

/-- The namespace that owns a class has a child with the simple name of the class. -/
def HasChild (m : Model) (id : ClassId) : Prop :=
  ∃ children, m.tree.find? (m.classAt id).slot.home = some children ∧
    (m.classAt id).name ∈ children.names

theorem hasChild_iff : m.HasChild id ↔ m.tree.contains (m.classAt id).slot.path = true :=
  Forest.contains_concat.symm

end Model

namespace Build

open Model

/-- **The two tests for a class that documents a namespace.**  After declarations have been
generated, each test looks for a way to the slot of a registered name, one along the full name of
the class and the other along the path of its slot.  They agree on a class just when both ways are
there or both are not, and so they do when the full name is the dotted path of the slot. -/
theorem flag_agrees_iff (settings : Settings) (document : Document) (text : String) (m : Model)
    (generated : (generate document).run (empty settings) = .ok text m) (id : ClassId)
    (registered : id < m.classes.length) :
    ((m.classAt id).isNamespace = true ↔
      settings.Opens (document.registeredNames settings) (Forest.path (m.fullName id))) ∧
    (m.HasChild id ↔
      settings.Opens (document.registeredNames settings) (m.classAt id).slot.path) ∧
    (((m.classAt id).isNamespace = true ↔ m.HasChild id) ↔
      (settings.Opens (document.registeredNames settings) (Forest.path (m.fullName id)) ↔
        settings.Opens (document.registeredNames settings) (m.classAt id).slot.path)) ∧
    (m.fullName id ≠ "" → m.fullName id = (m.classAt id).slot.dotted →
      ((m.classAt id).isNamespace = true ↔ m.HasChild id)) := by
  obtain ⟨m₀, run, steady, resolved, -⟩ := (ends_generate settings document).of_ok generated
  have housed := (ends_generate_housed settings document).of_ok generated
  have opened : Opened settings (document.registeredNames settings) m :=
    ((ends_assemble_opened settings document).of_ok run).of_outline_eq steady.outline
  have flag : (m.classAt id).isNamespace = m.tree.contains (Forest.path (m.fullName id)) := by
    obtain ⟨_, _, -, linked⟩ := steady.consistent.linked id (resolved id registered)
    exact linked.isNamespace
  have flagged : (m.classAt id).isNamespace = true ↔
      settings.Opens (document.registeredNames settings) (Forest.path (m.fullName id)) := by
    rw [flag, opened.contains_iff]
  have child : m.HasChild id ↔
      settings.Opens (document.registeredNames settings) (m.classAt id).slot.path := by
    rw [hasChild_iff, opened.contains_iff]
  refine ⟨flagged, child, by rw [flagged, child], fun named dotted => ?_⟩
  rw [flag, hasChild_iff, housed.path_dotted registered named dotted]

/-- A class below an alias, with a class below its own name. -/
def aliasedNames : Document := .ofFields [
  ("classes", .obj [("RSVP.Promise", .obj []), ("RSVP.Promise.Deferred", .obj [])])]

/-- Settings with an alias. -/
def aliasedSettings : Settings :=
  { Settings.blank with namespaceAliases := .obj [("RSVP", .str "Ember.RSVP")] }

/-- The model from which the aliased names are rendered. -/
def aliasedEnd : Model := after (generate aliasedNames) (empty aliasedSettings)

/-- The class `RSVP.Promise` stands in `Ember.RSVP`, and the namespace of its full name stands
elsewhere: it is flagged, and its namespace has no child of its name. -/
theorem flag_disagrees_aliased : (aliasedEnd.classAt 0).isNamespace = true ∧
    ¬ aliasedEnd.HasChild 0 ∧
    aliasedSettings.Opens (aliasedNames.registeredNames aliasedSettings) ["RSVP", "Promise"] ∧
    ¬ aliasedSettings.Opens (aliasedNames.registeredNames aliasedSettings)
      ["Ember", "RSVP", "Promise"] := by
  obtain ⟨text, generated⟩ : ∃ text, (generate aliasedNames).run (empty aliasedSettings) =
      .ok text aliasedEnd := exists_of_succeeds (by decide +kernel)
  have registered : 0 < aliasedEnd.classes.length := by decide +kernel
  obtain ⟨flag, child, -, -⟩ :=
    flag_agrees_iff aliasedSettings aliasedNames text aliasedEnd generated 0 registered
  have flagged : (aliasedEnd.classAt 0).isNamespace = true := by decide +kernel
  have full : Forest.path (aliasedEnd.fullName 0) = ["RSVP", "Promise"] := by decide +kernel
  have path : (aliasedEnd.classAt 0).slot.path = ["Ember", "RSVP", "Promise"] := by decide +kernel
  have childless : ¬ aliasedEnd.HasChild 0 := by
    rw [hasChild_iff]
    decide +kernel
  rw [full] at flag
  rw [path] at child
  exact ⟨flagged, childless, flag.1 flagged, fun opened => childless (child.2 opened)⟩

end Build
end AmbientDecl
