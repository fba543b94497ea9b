/- # What is ignored is invisible

Entries of classes and items are put into a document at any places, each with a name that the
settings ignore (`Document.WithIgnored`).  A run skips them: it registers and attaches nothing for
them and records no diagnostic, though an item without a class leaves a remark in the log.  All
other steps are heedless of remarks.  So the run for the larger document goes along with that for
the smaller one, step by step, and ends in the same way (`Build.generate_withIgnored`).

A name is ignored when the segments of an ignored name are a leading run of its own, so a name that
goes on within a segment is not.
-/

import AmbientDecl.Proofs.Config.WellTyped
import AmbientDecl.Proofs.Dotted
import AmbientDecl.Proofs.Model.Interleaved

namespace AmbientDecl

/-- A list into which new elements have been put, at any places. -/
inductive Inserted {α : Type} (isNew : α → Prop) : List α → List α → Prop
  | nil : Inserted isNew [] []
  | keep {xs ys : List α} (x : α) (rest : Inserted isNew xs ys) :
      Inserted isNew (x :: xs) (x :: ys)
  | insert {xs ys : List α} {y : α} (fits : isNew y) (rest : Inserted isNew xs ys) :
      Inserted isNew xs (y :: ys)

/-- An item of a class whose name is ignored, whatever its other fields are. -/
def ItemEntry.IsIgnored (settings : Settings) (entry : ItemEntry) : Prop :=
  ∃ fields name, entry = .ofJson (.obj fields) ∧ Json.field fields "class" = .str name ∧
    settings.ignores (.str name) = .ok true

/-- Classes and items whose names are ignored have been put into a document. -/
structure Document.WithIgnored (settings : Settings) (document document' : Document) : Prop where
  classes : Option.Rel (Inserted fun entry => settings.ignores (.str entry.1) = .ok true)
    document.classes? document'.classes?
  items : Option.Rel (Inserted (ItemEntry.IsIgnored settings)) document.items? document'.items?

/-- A name is ignored when it is an ignored name or continues one after a dot: just when the
segments of an ignored name are a leading run of its own. -/
theorem Settings.ignores_iff {settings : Settings} {ignored : List String}
    (listed : readList settings.ignoredNames = .ok (ignored.map .str)) (name : String) :
    ∃ isIgnored, settings.ignores (.str name) = .ok isIgnored ∧
      (isIgnored = true ↔ ∃ lead ∈ ignored, name = lead ∨ ∃ rest, name = lead ++ "." ++ rest) ∧
      (isIgnored = true ↔ ∃ lead ∈ ignored, Dotted.segments lead <+: Dotted.segments name) := by
  have read : settings.ignores (.str name) = .ok (ignored.any (Dotted.isUnder name)) := by
    rw [ignores, listed, bind_ok, leavesOut_str, List.any_map]
    rfl
  refine ⟨_, read, ?_, ?_⟩
  · simp only [List.any_eq_true, Dotted.isUnder, Bool.or_eq_true, beq_iff_eq, Dotted.continues_iff]
  · simp only [List.any_eq_true, Dotted.isUnder_iff]

namespace Model

/-- Two models have the same classes with their members, the same namespaces, and the same
diagnostics in the same order; only the remarks in their logs may differ. -/
structure SameOutcome (m m' : Model) : Prop where
  settings : m'.settings = m.settings
  tree : m'.tree = m.tree
  classes : m'.classes = m.classes
  reported : m'.reported = m.reported
  diagnostics : m'.diagnostics = m.diagnostics

/-- Two models with the given settings have the same outcome. -/
def SameUnder (settings : Settings) (m m' : Model) : Prop :=
  m.settings = settings ∧ m.SameOutcome m'

variable {m m' m'' : Model}

theorem SameOutcome.refl (m : Model) : m.SameOutcome m := ⟨rfl, rfl, rfl, rfl, rfl⟩

theorem SameOutcome.trans (h : m.SameOutcome m') (h' : m'.SameOutcome m'') : m.SameOutcome m'' :=
  ⟨h'.settings.trans h.settings, h'.tree.trans h.tree, h'.classes.trans h.classes,
    h'.reported.trans h.reported, h'.diagnostics.trans h.diagnostics⟩

theorem overlooks_sameUnder (settings : Settings) : Overlooks (SameUnder settings) where
  eq {m m'} h := by
    obtain ⟨-, same⟩ := h
    rw [← same.settings, ← same.tree, ← same.classes]
  content {m m'} h c same := ⟨same.trans h.1, rfl, rfl, rfl, h.2.reported, h.2.diagnostics⟩
  note {m m'} h entry := by
    refine ⟨h.1, h.2.settings, h.2.tree, h.2.classes, h.2.reported, ?_⟩
    rw [diagnostics_log, diagnostics_log, h.2.diagnostics]
  refuse {m m'} h error subject := by
    unfold refuse
    rw [h.2.reported]
    split
    · exact h
    · refine ⟨h.1, h.2.settings, h.2.tree, h.2.classes, rfl, ?_⟩
      have first := diagnostics_log { m with reported := m.reported ++ [error.text] }
      have second := diagnostics_log { m' with reported := m.reported ++ [error.text] }
      dsimp only at first second
      rw [first, second]
      exact congrArg (· ++ _) h.2.diagnostics

end Model

namespace Build

open Model

variable {β : Type} {settings : Settings} {m m' : Model}

/-- **A loop passes over new elements that leave the outcome as it is.** -/
theorem endsBy_foldlM_inserted {α : Type} {R : Model → Model → Prop} {isNew : β → Prop}
    {action : α → β → Build α} {xs ys : List β} (h : Inserted isNew xs ys)
    (step : ∀ value x m m', R m m' → EndsBy R ((action value x).run m) ((action value x).run m'))
    (skip : ∀ value y m m', isNew y → R m m' →
      ∃ m'', (action value y).run m' = .ok value m'' ∧ R m m'')
    (value : α) (related : R m m') :
    EndsBy R ((xs.foldlM action value).run m) ((ys.foldlM action value).run m') := by
  induction h generalizing value m m' with
  | nil => exact .ok related
  | keep x _ ih =>
    rw [List.foldlM_cons, List.foldlM_cons]
    exact (step value x m m' related).bind fun value' _ _ => ih value'
  | insert fits _ ih =>
    obtain ⟨m'', run, related'⟩ := skip value _ m m' fits related
    rw [List.foldlM_cons, EStateM.run_bind, run]
    exact ih value related'

theorem forM_eq_foldlM (action : β → Build PUnit) (xs : List β) :
    xs.forM action = xs.foldlM (fun _ x => action x) ⟨⟩ := by
  induction xs with
  | nil => rfl
  | cons x rest ih => rw [List.forM, List.foldlM_cons, ih]

theorem heedless_registerEntry (entry : String × Option ClassRecord) :
    Heedless (registerEntry entry) := by
  refine .look (fun m => (Heedless.of_reading _).bind fun ignored => ?_) fun _ _ _ => rfl
  split
  · exact .pure _
  · exact (heedless_register _ _).map _

/-- An entry of a class that is ignored registers nothing. -/
theorem run_registerEntry_ignored {entry : String × Option ClassRecord}
    (ignored : m.settings.ignores (.str entry.1) = .ok true) :
    (registerEntry entry).run m = .ok () m := by
  rw [registerEntry, EStateM.run_bind, EStateM.run_get]
  dsimp only
  rw [ignored]
  rfl

/-- An item that is ignored attaches nothing. -/
theorem run_attachCounting_ignored {entry : ItemEntry} (h : entry.IsIgnored m.settings)
    (attached : Nat) : ∃ m', (attachCounting attached entry).run m = .ok attached m' ∧
      m.SameOutcome m' := by
  obtain ⟨fields, name, rfl, owner, ignored⟩ := h
  by_cases empty : name = ""
  · -- the empty text names no class, and all that the item leaves is a remark
    have entry : ItemEntry.ofJson (.obj fields) =
        .ownerless (Json.field fields "name").display := by
      simp [ItemEntry.ofJson, owner, empty, Json.isTruthy]
    rw [entry]
    refine ⟨_, rfl, rfl, rfl, rfl, rfl, ?_⟩
    rw [diagnostics_log]
    exact List.append_nil _
  · have entry : ItemEntry.ofJson (.obj fields) = .owned name (.ofFields fields) := by
      simp [ItemEntry.ofJson, owner, empty, Json.isTruthy]
    refine ⟨m, ?_, .refl m⟩
    rw [entry, attachCounting, EStateM.run_bind, attach, EStateM.run_bind, EStateM.run_get]
    dsimp only
    rw [ignored]
    rfl

section Documents

variable {document document' : Document}

/-- The registration of the classes goes along. -/
theorem endsBy_registerClasses (h : document.WithIgnored settings document')
    (related : SameUnder settings m m') :
    EndsBy (SameUnder settings) ((registerClasses document).run m)
      ((registerClasses document').run m') := by
  have classes := h.classes
  unfold registerClasses
  generalize document.classes? = classes? at classes
  generalize document'.classes? = classes?' at classes
  cases classes with
  | none => exact .error related
  | some inserted =>
    rw [orFault_some_bind, orFault_some_bind, forM_eq_foldlM, forM_eq_foldlM]
    refine endsBy_foldlM_inserted inserted ?_ ?_ PUnit.unit related
    · exact fun _ entry _ _ => (heedless_registerEntry entry).endsBy (overlooks_sameUnder settings)
    · rintro - entry s s' ignored ⟨own, same⟩
      have ignored' : s'.settings.ignores (.str entry.1) = .ok true := by
        rw [same.settings, own]
        exact ignored
      exact ⟨s', run_registerEntry_ignored ignored', own, same⟩

/-- So does what is done with the items. -/
theorem endsBy_attachItems {items items' : List ItemEntry}
    (inserted : Inserted (ItemEntry.IsIgnored settings) items items')
    (related : SameUnder settings m m') :
    EndsBy (SameUnder settings) ((items.foldlM attachCounting 0).run m)
      ((items'.foldlM attachCounting 0).run m') := by
  refine endsBy_foldlM_inserted inserted ?_ ?_ 0 related
  · intro attached entry s s'
    have counting : Heedless (attachCounting attached entry) :=
      (heedless_attach entry).bind fun _ => .pure _
    exact counting.endsBy (overlooks_sameUnder settings)
  · rintro attached entry s s' ignored ⟨own, same⟩
    have ignored' : entry.IsIgnored s'.settings := by
      rw [same.settings, own]
      exact ignored
    obtain ⟨s'', run, same'⟩ := run_attachCounting_ignored ignored' attached
    exact ⟨s'', run, own, same.trans same'⟩

/-- **The run for a document with ignored content goes along with the run without it.** -/
theorem endsBy_generate (h : document.WithIgnored settings document')
    (related : SameUnder settings m m') :
    EndsBy (SameUnder settings) ((generate document).run m) ((generate document').run m') := by
  have items := h.items
  rw [generate_eq, generate_eq]
  refine (endsBy_registerClasses h related).bind fun _ s s' related' => ?_
  generalize document.items? = items? at items
  generalize document'.items? = items?' at items
  cases items with
  | none => exact .error related'
  | some inserted =>
    rw [orFault_some_bind, orFault_some_bind]
    refine (endsBy_attachItems inserted related').bind fun attached _ _ => ?_
    exact (heedless_finish attached).endsBy (overlooks_sameUnder settings)

/-- **Ignored content is invisible.**  Let entries of classes and items be put into a document at
any places, whose names are ignored.  From the start of a run both documents lead to the same text
or to the same error, with the same classes, members and namespaces and the same diagnostics in the
same order.

A name is ignored just when it is an ignored name or continues one after a dot, which is when the
segments of an ignored name are a leading run of its own. -/
theorem generate_withIgnored (settings : Settings) :
    (∀ document document' : Document, document.WithIgnored settings document' →
      EndsBy SameOutcome ((generate document).run (empty settings))
        ((generate document').run (empty settings))) ∧
    ∀ ignored : List String, Settings.readList settings.ignoredNames = .ok (ignored.map .str) →
      ∀ name, ∃ isIgnored, settings.ignores (.str name) = .ok isIgnored ∧
        (isIgnored = true ↔ ∃ lead ∈ ignored, name = lead ∨ ∃ rest, name = lead ++ "." ++ rest) ∧
        (isIgnored = true ↔
          ∃ lead ∈ ignored, Dotted.segments lead <+: Dotted.segments name) := by
  refine ⟨fun document document' h => ?_, fun ignored => Settings.ignores_iff⟩
  exact (endsBy_generate h ⟨rfl, .refl _⟩).mono fun _ _ => And.right

end Documents

/-- The empty name and `App.Internal` are ignored. -/
def twoIgnored : Settings :=
  { Settings.blank with ignoredNames := .arr [.str "", .str "App.Internal"] }

/-- Two classes with a property each. -/
def visibleOnly : Document := .ofFields [
  ("classes", .obj [("App.Internals", .obj []), ("App.Model", .obj [])]),
  ("classitems", .arr [unreadableProperty "App.Internals" "size",
    unreadableProperty "App.Model" "size"])]

/-- The same classes with three that are ignored, one of which has no record, and items that are
ignored, one of which has no name and no kind. -/
def withIgnored : Document := .ofFields [
  ("classes", .obj [(".hidden", .int 7), ("App.Internals", .obj []),
    ("App.Internal", .obj [("uses", .int 3)]), ("App.Model", .obj []),
    ("App.Internal.Tool", .obj [("extends", .str "App.Internal.Tool")])]),
  ("classitems", .arr [unreadableProperty "App.Internals" "size",
    .obj [("class", .str "App.Internal.Tool")], unreadableProperty "App.Internal" "size",
    unreadableProperty "App.Model" "size", .obj [("class", .str ""), ("name", .str "size")]])]

theorem visibleOnly_withIgnored : visibleOnly.WithIgnored twoIgnored withIgnored where
  classes := .some (.insert rfl (.keep _ (.insert rfl (.keep _ (.insert rfl .nil)))))
  items := by
    have fits : ∀ fields name, Json.field fields "class" = .str name →
        twoIgnored.ignores (.str name) = .ok true →
          (ItemEntry.ofJson (.obj fields)).IsIgnored twoIgnored :=
      fun fields name owner ignored => ⟨fields, name, rfl, owner, ignored⟩
    exact .some (.keep _ (.insert (fits _ "App.Internal.Tool" rfl rfl)
      (.insert (fits _ "App.Internal" rfl rfl) (.keep _ (.insert (fits _ "" rfl rfl) .nil)))))

/-- The class that extends itself does no harm, and `App.Internals` is not ignored. -/
theorem generate_visibleOnly : succeeds (generate visibleOnly) (empty twoIgnored) = true ∧
    EndsBy SameOutcome ((generate visibleOnly).run (empty twoIgnored))
      ((generate withIgnored).run (empty twoIgnored)) ∧
    ¬ ∃ lead ∈ ["", "App.Internal"],
      Dotted.segments lead <+: Dotted.segments "App.Internals" := by
  obtain ⟨same, names⟩ := generate_withIgnored twoIgnored
  obtain ⟨isIgnored, read, -, segments⟩ := names ["", "App.Internal"] rfl "App.Internals"
  refine ⟨by decide +kernel, same _ _ visibleOnly_withIgnored, ?_⟩
  rw [← segments]
  obtain rfl : false = isIgnored := Except.ok.inj (Eq.trans rfl read)
  decide

end Build
end AmbientDecl
