/- # Every entry of a document is accounted for

A document with well-typed values registers its classes and those of the settings, without the names
that are left out, and attaches its items between the two (`Document.classEntries`,
`Settings.additionalEntries`).  An item stops the assembly when it looks up a class in a namespace
that is not there, or when it is no method and has parameters all the same.  If no item does, the
model **accounts** for the document: its classes are the first entries at their addresses, their
members are made by the first items of their keys, and the reports are those of the entries that
came too late and of the fates of the items, in this order (`Build.assemble_accounts`).
-/

import AmbientDecl.Proofs.Model.Attached
import AmbientDecl.Proofs.Model.Registrations

namespace AmbientDecl

namespace Settings

/-- The classes that are registered after the document. -/
def additionalEntries (settings : Settings) : List ClassEntry :=
  ((readList settings.additionalClasses).toOption.getD []).filterMap fun name =>
    name.text?.map fun name => (name, .bare name)

end Settings

namespace Document

variable (document : Document)

/-- The classes of a document whose names are not left out. -/
def classEntries (settings : Settings) : List ClassEntry :=
  (document.classes?.getD []).filterMap fun entry =>
    if settings.omits entry.1 then none else entry.2.map fun record => (entry.1, record)

/-- The items of a document. -/
def items : List ItemEntry := document.items?.getD []

/-- The classes of a document and its items have the forms that the documentation of a library
gives them. -/
structure WellTyped : Prop where
  classes : document.classes?.any (fun classes => classes.all fun entry => entry.2.isSome) = true
  items : document.items?.any (fun items => items.all ItemEntry.isWellTyped) = true

end Document

namespace Build

variable {α β : Type} {m : Model}

theorem ends_congr {action action' : Build α} {done : α → Model → Prop}
    {failed : BuildError → Model → Prop} (same : action.run m = action'.run m) :
    Ends action m done failed ↔ Ends action' m done failed := by
  rw [Ends, same, Ends]

open Model

/-- The rule for a loop that registers classes. -/
theorem ends_forM_takes {action : β → Build Unit} (callOf : β → Option ClassEntry) {xs : List β}
    {before : List ClassEntry} (aliases : m.settings.namespaceAliases.isTextTable = true)
    (overrides : m.settings.classOverrides.isOverrideTable = true)
    (step : ∀ x ∈ xs, ∀ m' : Model, m'.settings = m.settings → (action x).run m' =
      match callOf x with
      | none => .ok () m'
      | some entry => (discard (register entry.1 (some entry.2))).run m')
    (h : m.Lists (Keyed.firsts (ClassEntry.address m.settings) before)) :
    Ends (xs.forM action) m (fun _ m' => m.Takes before (xs.filterMap callOf) m')
      fun _ _ => False := by
  induction xs generalizing m before with
  | nil => exact .refl h
  | cons x rest ih =>
    have run := step x List.mem_cons_self m rfl
    have later := fun y mem => step y (List.mem_cons_of_mem x mem)
    rw [List.forM, ends_bind, List.filterMap_cons]
    cases entry : callOf x with
    | none =>
      rw [entry] at run
      rw [Ends, run]
      exact ih aliases overrides later h
    | some call =>
      rw [entry] at run
      rw [ends_congr run, ends_discard]
      refine (ends_register_takes h aliases overrides call).mono ?_ fun _ _ h => h
      rintro _ m₁ ⟨takes, -⟩
      have lists : m₁.Lists (Keyed.firsts (ClassEntry.address m₁.settings) (before ++ [call])) := by
        rw [takes.settings]
        exact takes.lists
      have aliases₁ : m₁.settings.namespaceAliases.isTextTable = true := by rwa [takes.settings]
      have overrides₁ : m₁.settings.classOverrides.isOverrideTable = true := by
        rwa [takes.settings]
      refine (ih aliases₁ overrides₁ ?_ lists).mono ?_ fun _ _ h => h
      · exact fun y mem m' same => later y mem m' (same.trans takes.settings)
      · exact fun _ m₂ takes' => takes.trans takes'

/-- The classes of a document are registered, without those whose names are left out. -/
theorem ends_registerEntries (typed : m.settings.FullyTyped) {document : Document}
    (wellTyped : document.WellTyped) (h : m.Lists []) :
    ∃ classes, document.classes? = some classes ∧ Ends (classes.forM registerEntry) m
      (fun _ m' => m.Takes [] (document.classEntries m.settings) m') fun _ _ => False := by
  obtain ⟨classes, there, records⟩ := (Option.any_eq_true _ _).1 wellTyped.classes
  refine ⟨classes, there, ?_⟩
  have entries : document.classEntries m.settings = classes.filterMap fun entry =>
      if m.settings.omits entry.1 then none else entry.2.map fun record => (entry.1, record) := by
    rw [Document.classEntries, there]
    rfl
  rw [entries]
  refine ends_forM_takes _ typed.namespaceAliases typed.classOverrides ?_ h
  intro entry mem m' settings
  obtain ⟨record, given⟩ := Option.isSome_iff_exists.1 (List.all_eq_true.1 records entry mem)
  have ignores : m'.settings.ignores (.str entry.1) = .ok (m.settings.omits entry.1) := by
    rw [settings, Settings.ignores_eq typed.ignoredNames]
  unfold registerEntry
  rw [EStateM.run_bind, EStateM.run_get]
  dsimp only
  rw [ignores, given]
  cases m.settings.omits entry.1 with
  | true => rfl
  | false => rfl

/-- The classes of the settings are registered. -/
theorem ends_registerAdditional (typed : m.settings.FullyTyped) {before : List ClassEntry}
    (h : m.Lists (Keyed.firsts (ClassEntry.address m.settings) before)) :
    ∃ names, Settings.readList m.settings.additionalClasses = .ok names ∧
      Ends (names.forM registerAdditional) m
        (fun _ m' => m.Takes before m.settings.additionalEntries m') fun _ _ => False := by
  obtain ⟨names, read, texts⟩ := Settings.exists_readList typed.additionalClasses
  refine ⟨names, read, ?_⟩
  have entries : m.settings.additionalEntries = names.filterMap fun name =>
      name.text?.map fun name => (name, .bare name) := by
    rw [Settings.additionalEntries, read]
    rfl
  rw [entries]
  refine ends_forM_takes _ typed.namespaceAliases typed.classOverrides ?_ h
  intro name mem m' _
  obtain ⟨text, rfl⟩ := texts name mem
  rfl

/-- **The items of a document are attached,** up to the first one that stops the run. -/
theorem ends_attachItems {entries : List ClassEntry} (lists : m.Lists entries)
    (fresh : ∀ id, (m.classAt id).members = []) (typed : m.settings.FullyTyped)
    {items : List ItemEntry} (wellTyped : items.all ItemEntry.isWellTyped = true) :
    Ends (items.foldlM attachCounting 0) m
      (fun _ m' => items.findSome? (ItemEntry.error? m.settings entries) = none ∧
        m.Attaches entries items m')
      fun error _ => items.findSome? (ItemEntry.error? m.settings entries) = some error := by
  refine (Ends.foldlM (fun rest _ m' => ∃ done, done ++ rest = items ∧
      done.findSome? (ItemEntry.error? m.settings entries) = none ∧ m.Attaches entries done m')
    (fun error _ => items.findSome? (ItemEntry.error? m.settings entries) = some error) ?_
    ⟨[], rfl, rfl, .refl fresh⟩).mono ?_ fun _ _ h => h
  · rintro entry rest _ m' ⟨done, split, fine, attaches⟩
    have mem : entry ∈ items := by simp [← split]
    have fits := List.all_eq_true.1 wellTyped entry mem
    unfold attachCounting
    rw [ends_bind]
    refine (ends_attach_item lists attaches typed fits).mono ?_ ?_
    · rintro _ m'' ⟨none, attaches'⟩
      refine ⟨done ++ [entry], by simp [← split], ?_, attaches'⟩
      simp [List.findSome?_append, fine, none]
    · intro error m'' some
      simp [← split, List.findSome?_append, fine, some]
  · rintro _ m' ⟨done, all, fine, attaches⟩
    rw [List.append_nil] at all
    subst all
    exact ⟨fine, attaches⟩

end Build

namespace Document

/-- The classes of a document that are registered. -/
def known (document : Document) (settings : Settings) : List ClassEntry :=
  Keyed.firsts (ClassEntry.address settings) (document.classEntries settings)

end Document

namespace Model

/-- What holds of a model that was assembled from a document. -/
structure Accounts (m : Model) (document : Document) : Prop where
  /-- The first entry at each address has a class. -/
  classes : List.Forall₂ (MadeFor m.settings) (Keyed.firsts (ClassEntry.address m.settings)
    (document.classEntries m.settings ++ m.settings.additionalEntries)) m.classes
  /-- The first item of each key has a member in the class to which it leads. -/
  members : ∀ id, (m.classAt id).members.map (fun stored => stored.2.item) =
    Keyed.firsts Item.key
      (ItemEntry.claimsOn m.settings (document.known m.settings) id document.items)
  own : ∀ id, ∀ stored ∈ (m.classAt id).members, stored.1 = stored.2.key ∧ stored.2.owner = id
  /-- The entries of the document that came too late are reported, then the items, then the classes
  of the settings that came too late. -/
  reports : ∃ parts, List.Forall₂ Fate.Told
      (ItemEntry.fates m.settings (document.known m.settings) [] document.items) parts ∧
    m.diagnostics =
      (Keyed.repeats (ClassEntry.address m.settings) (document.classEntries m.settings)).map
        (fun entry => .ofRepeat entry.1) ++ parts.flatten ++
      (Keyed.repeatsAfter (ClassEntry.address m.settings)
        ((document.classEntries m.settings).map (ClassEntry.address m.settings))
        m.settings.additionalEntries).map fun entry => .ofRepeat entry.1

variable {m₁ m₂ m₃ : Model} {document : Document}

/-- The three parts of an assembly account for the document. -/
theorem Accounts.of_parts
    (takes : (empty m₁.settings).Takes [] (document.classEntries m₁.settings) m₁)
    (attaches : m₁.Attaches (document.known m₁.settings) document.items m₂)
    (takes' : m₂.Takes (document.classEntries m₂.settings) m₂.settings.additionalEntries m₃) :
    m₃.Accounts document := by
  have settled : m₃.settings = m₁.settings := takes'.settings.trans attaches.settings
  refine ⟨?_, fun id => ?_, fun id => ?_, ?_⟩
  · rw [takes'.settings]
    have classes := takes'.lists.classes
    rwa [takes'.settings] at classes
  · rw [takes'.members_eq, settled]
    exact attaches.members id
  · rw [takes'.members_eq]
    exact attaches.own id
  · obtain ⟨parts, fit, told⟩ := attaches.told
    refine ⟨parts, by rwa [settled], ?_⟩
    rw [takes'.diagnostics, told, takes.diagnostics, attaches.settings, settled]
    rfl

/-- Remarks do not matter. -/
theorem Accounts.note (h : m₁.Accounts document) (remark : String) :
    ({ m₁ with log := m₁.log ++ [.info remark] } : Model).Accounts document := by
  refine ⟨h.classes, h.members, h.own, ?_⟩
  obtain ⟨parts, fit, told⟩ := h.reports
  refine ⟨parts, fit, Eq.trans ?_ told⟩
  rw [Model.diagnostics, LogEntry.diagnostics_append]
  exact List.append_nil _

end Model

namespace Build

open Model

variable {m : Model}

/-- How the assembly of a document ends. -/
theorem ends_assemble_accounts {settings : Settings} (typed : settings.FullyTyped)
    {document : Document} (wellTyped : document.WellTyped) :
    Ends (assemble document) (empty settings)
      (fun _ m => document.items.findSome? (ItemEntry.error? settings (document.known settings)) =
        none ∧ m.settings = settings ∧ m.Accounts document)
      fun error _ => document.items.findSome?
        (ItemEntry.error? settings (document.known settings)) = some error := by
  obtain ⟨items, there, fit⟩ := (Option.any_eq_true _ _).1 wellTyped.items
  have same : document.items = items := by rw [Document.items, there]; rfl
  obtain ⟨classes, given, registers⟩ :=
    ends_registerEntries (m := empty settings) typed wellTyped (.empty settings)
  unfold assemble
  rw [given, orFault, ends_bind, ends_pure, ends_bind]
  refine registers.mono ?_ fun _ _ h => h.elim
  intro _ m₁ takes
  have settled : m₁.settings = settings := takes.settings
  subst settled
  have lists : m₁.Lists (document.known m₁.settings) := takes.lists
  have fresh : ∀ id, (m₁.classAt id).members = [] := fun id => takes.members_eq id
  rw [there, orFault, ends_bind, ends_pure, ends_bind, same]
  refine (ends_attachItems lists fresh typed fit).mono ?_ fun _ _ h => h
  rintro attached m₂ ⟨fine, attaches⟩
  have lists₂ : m₂.Lists (Keyed.firsts (ClassEntry.address m₂.settings)
      (document.classEntries m₂.settings)) := by
    have lists₂ := lists.congr attaches.settings attaches.tree attaches.classes
    rwa [← attaches.settings] at lists₂
  have typed₂ : m₂.settings.FullyTyped := by rwa [attaches.settings]
  obtain ⟨names, read, registers⟩ := ends_registerAdditional typed₂ lists₂
  rw [ends_bind, ends_get, read, ofReading, ends_bind, ends_pure, ends_bind]
  refine registers.mono ?_ fun _ _ h => h.elim
  intro _ m₃ takes'
  rw [ends_bind, ends_get, ends_note]
  have settled : m₃.settings = m₁.settings := takes'.settings.trans attaches.settings
  rw [← same] at attaches
  exact ⟨fine, settled, (Accounts.of_parts takes attaches takes').note _⟩

end Build

end AmbientDecl
