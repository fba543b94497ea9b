/- # Items are attached

A model **attaches** items when its classes hold the members that these items make and the reports
are those of their fates (`Model.Attaches`).  One more item is attached, or it stops the run with
the error that belongs to it (`Build.ends_attach_item`, `ItemEntry.error?`).
-/

import AmbientDecl.Proofs.Model.Fates

namespace AmbientDecl

namespace Model

variable {m m' m'' : Model} {entries : List ClassEntry} {items : List ItemEntry}
  {entry : ItemEntry} {id : ClassId} {item : Item}

/-- The parameters of an item that can be read can be built, unless it is no method. -/
theorem paramsFit_of_isReadable {settings : Settings}
    (reserved : settings.reservedNames.isTextTable = true) (readable : item.isReadable = true)
    (placed : item.isMisplaced = false) : ParamsFit settings item := by
  unfold Item.isReadable at readable
  unfold Item.isMisplaced at placed
  unfold ParamsFit
  cases params : item.params with
  | absent => trivial
  | unfit =>
    rw [params] at readable
    cases readable
  | list readings =>
    rw [params] at readable placed
    have kind : item.kind = .method := by
      cases kind : item.kind with
      | method => rfl
      | property =>
        rw [kind] at placed
        cases placed
    refine ⟨kind, fun reading mem => ?_⟩
    have fits := List.all_eq_true.1 readable reading mem
    cases reading with
    | error fault => cases fits
    | ok record =>
      obtain ⟨name, substituted⟩ := Settings.exists_substitute reserved record.name
      cases type : record.type? with
      | error fault => simp [Except.toOption, type, Except.isOk, Except.toBool] at fits
      | ok type? => exact ⟨record, rfl, ⟨_, substituted⟩, type?, type⟩

/-- `m'` comes from `m` by reports: first some of unreadable types, then those listed. -/
def Tells (m : Model) (reports : List Diagnostic) (m' : Model) : Prop :=
  ∃ types : List Diagnostic, m'.diagnostics = m.diagnostics ++ (types ++ reports) ∧
    ∀ d ∈ types, d.code = Diagnostic.unparseableType

/-- The reports of a member that is added to a class. -/
def deprecationOf (c : Class) (item : Item) : List Diagnostic :=
  if c.record.notice.deprecated && !item.notice.deprecated then [.ofDeprecation c.fullName item]
  else []

/-- What building a member for an item and adding it to a class makes of a model. -/
structure Adds (m : Model) (id : ClassId) (item : Item) (m' : Model) : Prop where
  settings : m'.settings = m.settings
  tree : m'.tree = m.tree
  /-- A key that is taken keeps its member. -/
  refused : item.key ∈ Entries.keys (m.classAt id).members → m'.classes = m.classes ∧
    m.Tells [.ofDuplicate (m.classAt id).fullName item] m'
  added : item.key ∉ Entries.keys (m.classAt id).members →
    (∃ member : Member, member.item = item ∧ member.owner = id ∧
      m'.classes = m.classes.modify id fun c => c.withMember member) ∧
    m.Tells (deprecationOf (m.classAt id) item) m'

/-- Only the class with the number matters for a change of it. -/
theorem modifyClass_congr {change change' : Class → Class}
    (same : change (m.classAt id) = change' (m.classAt id)) :
    m.modifyClass id change = m.modifyClass id change' := by
  have classes : m.classes.modify id change = m.classes.modify id change' := by
    refine List.ext_getElem (by simp) fun k bound _ => ?_
    rw [List.length_modify] at bound
    rw [List.getElem_modify, List.getElem_modify]
    split
    · rename_i here
      subst here
      rwa [← classAt_eq_getElem bound]
    · rfl
  rw [modifyClass, classes, modifyClass]

end Model

namespace Build

open Model

variable {m m' : Model} {entries : List ClassEntry} {items : List ItemEntry}
  {entry : ItemEntry} {id : ClassId} {item : Item} {member : Member}

/-- A member whose key is taken is reported, and nothing else happens. -/
theorem ends_addMember_taken (taken : member.key ∈ Entries.keys (m.classAt id).members) :
    Ends (addMember id member) m (fun added m' => added = false ∧ m' = { m with log := m.log ++
      [.warning (.ofDuplicate (m.classAt id).fullName member.item)] }) fun _ _ => False := by
  unfold addMember
  rw [ends_bind, ends_get]
  dsimp only
  rw [if_pos (Entries.get?_isSome_iff.2 taken), ends_bind, ends_warn, ends_pure]
  exact ⟨rfl, rfl⟩

/-- A member whose key is free comes last in its class. -/
theorem ends_addMember_free (free : member.key ∉ Entries.keys (m.classAt id).members) :
    Ends (addMember id member) m (fun added m' => added = true ∧
      m' = m.modifyClass id fun c => c.withMember member) fun _ _ => False := by
  have vacant : Entries.get? member.key (m.classAt id).members = none :=
    Option.not_isSome_iff_eq_none.1 fun there => free (Entries.get?_isSome_iff.1 there)
  unfold addMember
  rw [ends_bind, ends_get]
  dsimp only
  rw [vacant, Option.isSome_none, if_neg Bool.false_ne_true]
  unfold putMember
  rw [ends_bind, ends_modifyClass, ends_pure]
  refine ⟨rfl, modifyClass_congr ?_⟩
  rw [Entries.put_eq_append vacant, Class.withMember]

theorem ends_warnOfDeprecation (id : ClassId) (member : Member) (m : Model) :
    Ends (warnOfDeprecation id member) m (fun _ m' => m' =
      { m with log := m.log ++ List.map .warning (deprecationOf (m.classAt id) member.item) })
      fun _ _ => False := by
  unfold warnOfDeprecation deprecationOf
  rw [ends_bind, ends_get]
  dsimp only
  split
  · rfl
  · simp

/-- **An item that can be built is added to its class, or its key is taken.** -/
theorem ends_attachMember_adds (typed : m.settings.WellTyped) (fit : ParamsFit m.settings item)
    (registered : id < m.classes.length) :
    Ends (attachMember id item) m (fun _ m' => m.Adds id item m') fun _ _ => False := by
  unfold attachMember
  rw [ends_bind]
  have built := (ends_buildMember typed fit id).and (buildMember_made item id m)
  refine built.mono ?_ fun _ _ h => h.1
  rintro member m₁ ⟨reports, rfl, owner, -, -⟩
  obtain ⟨types, told, unreadable⟩ := reports.types
  have at₁ : m₁.classAt id = m.classAt id := reports.classAt id
  have registered₁ : id < m₁.classes.length := by rwa [reports.classes]
  -- The reports of the types come first.
  have tells (more : List Diagnostic) (m₂ : Model) (same : m₂.log = m₁.log ++ more.map .warning) :
      m.Tells more m₂ := by
    refine ⟨types, ?_, unreadable⟩
    rw [Model.diagnostics, same, LogEntry.diagnostics_append, LogEntry.diagnostics_map_warning,
      ← Model.diagnostics, told, List.append_assoc]
  rw [ends_bind]
  by_cases taken : member.key ∈ Entries.keys (m.classAt id).members
  · refine (ends_addMember_taken (by rwa [at₁])).mono ?_ fun _ _ h => h
    rintro added m₂ ⟨rfl, rfl⟩
    rw [if_neg Bool.false_ne_true, ends_pure]
    refine ⟨reports.settings, reports.tree, fun _ => ⟨reports.classes, ?_⟩,
      fun free => absurd taken free⟩
    rw [at₁]
    exact tells _ _ rfl
  · refine (ends_addMember_free (by rwa [at₁])).mono ?_ fun _ _ h => h
    rintro added m₂ ⟨rfl, rfl⟩
    rw [if_pos rfl, ends_bind]
    refine (ends_warnOfDeprecation id member _).mono ?_ fun _ _ h => h
    rintro _ m₃ rfl
    rw [ends_pure]
    have classes : (m₁.modifyClass id fun c => c.withMember member).classes =
        m.classes.modify id fun c => c.withMember member := by
      rw [Model.modifyClass, reports.classes]
    refine ⟨reports.settings, reports.tree, fun there => absurd there taken,
      fun _ => ⟨⟨member, rfl, owner, classes⟩, ?_⟩⟩
    have after : (m₁.modifyClass id fun c => c.withMember member).classAt id =
        (m.classAt id).withMember member := by
      rw [classAt_modifyClass _ _ _ _ registered₁, if_pos rfl, at₁]
    refine tells _ _ ?_
    rw [after]
    rfl

end Build

namespace Model

variable {m m' m'' : Model} {entries : List ClassEntry} {items : List ItemEntry}
  {entry : ItemEntry} {id : ClassId} {item : Item} {reports : List Diagnostic}

/-- What becomes of a model that lists entries when the items come one after the other. -/
structure Attaches (m : Model) (entries : List ClassEntry) (items : List ItemEntry) (m' : Model) :
    Prop where
  settings : m'.settings = m.settings
  tree : m'.tree = m.tree
  classes : List.Forall₂ (fun c c' => c' = { c with members := c'.members }) m.classes m'.classes
  /-- A class has the members that the first items of their keys make. -/
  members : ∀ id, (m'.classAt id).members.map (fun stored => stored.2.item) =
    Keyed.firsts Item.key (ItemEntry.claimsOn m.settings entries id items)
  own : ∀ id, ∀ stored ∈ (m'.classAt id).members, stored.1 = stored.2.key ∧ stored.2.owner = id
  told : ∃ parts, List.Forall₂ Fate.Told (ItemEntry.fates m.settings entries [] items) parts ∧
    m'.diagnostics = m.diagnostics ++ parts.flatten

namespace Attaches

theorem refl (fresh : ∀ id, (m.classAt id).members = []) : m.Attaches entries [] m where
  settings := rfl
  tree := rfl
  classes := List.forall₂_same.2 fun _ _ => rfl
  members id := by
    rw [fresh]
    rfl
  own id stored mem := by
    rw [fresh] at mem
    exact absurd mem List.not_mem_nil
  told := ⟨[], .nil, (List.append_nil _).symm⟩

/-- The keys of a class are those of the items that are meant to be its members. -/
theorem mem_keys_iff (h : m.Attaches entries items m') {key : String} :
    key ∈ Entries.keys (m'.classAt id).members ↔
      key ∈ (ItemEntry.claimsOn m.settings entries id items).map Item.key := by
  have keys : Entries.keys (m'.classAt id).members =
      ((m'.classAt id).members.map fun stored => stored.2.item).map Item.key := by
    rw [Entries.keys, List.map_map]
    exact List.map_congr_left fun stored mem => (h.own id stored mem).1
  rw [keys, h.members, Keyed.mem_keys_firsts]

/-- What is told of one more item follows. -/
theorem told_concat (h : m.Attaches entries items m')
    (told : (entry.fate m.settings entries items).Told reports)
    (diagnostics : m''.diagnostics = m'.diagnostics ++ reports) :
    ∃ parts,
      List.Forall₂ Fate.Told (ItemEntry.fates m.settings entries [] (items ++ [entry])) parts ∧
      m''.diagnostics = m.diagnostics ++ parts.flatten := by
  obtain ⟨parts, fit, same⟩ := h.told
  refine ⟨parts ++ [reports], ?_, ?_⟩
  · rw [ItemEntry.fates_concat]
    exact List.rel_append (R := Fate.Told) fit (.cons told .nil)
  · rw [diagnostics, same, List.flatten_append, List.append_assoc, List.flatten_singleton]

/-- An item that becomes no member leaves the classes as they are. -/
theorem still (h : m.Attaches entries items m') (reports : List Diagnostic)
    (settings : m''.settings = m'.settings)
    (tree : m''.tree = m'.tree) (classes : m''.classes = m'.classes)
    (members : ∀ id, Keyed.firsts Item.key
      (ItemEntry.claimsOn m.settings entries id (items ++ [entry])) =
        Keyed.firsts Item.key (ItemEntry.claimsOn m.settings entries id items))
    (told : (entry.fate m.settings entries items).Told reports)
    (diagnostics : m''.diagnostics = m'.diagnostics ++ reports) :
    m.Attaches entries (items ++ [entry]) m'' where
  settings := settings.trans h.settings
  tree := tree.trans h.tree
  classes := classes ▸ h.classes
  members id := by
    rw [members, classAt, classes]
    exact h.members id
  own id stored := by
    rw [classAt, classes]
    exact h.own id stored
  told := h.told_concat told diagnostics

/-- An item that is no member leaves the model as it is. -/
theorem skipped (h : m.Attaches entries items m')
    (claim : entry.claim? m.settings entries = none)
    (fate : entry.fate m.settings entries items = .skipped) :
    m.Attaches entries (items ++ [entry]) m' := by
  refine h.still [] rfl rfl rfl (fun id => ?_) ⟨[], ?_, by simp⟩ (by simp)
  · rw [ItemEntry.claimsOn_concat_of_none claim]
  · rw [fate]
    rfl

/-- An item whose key is new in its class becomes a member of it. -/
theorem joined (h : m.Attaches entries items m') (settings : m''.settings = m'.settings)
    (tree : m''.tree = m'.tree) (registered : id < m'.classes.length) {member : Member}
    (owner : member.owner = id)
    (classes : m''.classes = m'.classes.modify id fun c => c.withMember member)
    (claim : entry.claim? m.settings entries = some (id, member.item))
    (free : member.item.key ∉ (ItemEntry.claimsOn m.settings entries id items).map Item.key)
    (told : (entry.fate m.settings entries items).Told reports)
    (diagnostics : m''.diagnostics = m'.diagnostics ++ reports) :
    m.Attaches entries (items ++ [entry]) m'' := by
  have at'' (k : ClassId) : m''.classAt k =
      if id = k then (m'.classAt k).withMember member else m'.classAt k := by
    rw [← classAt_modifyClass m' id k (fun c => c.withMember member) registered, classAt, classes]
    rfl
  refine ⟨settings.trans h.settings, tree.trans h.tree, ?_, fun k => ?_, fun k stored mem => ?_,
    h.told_concat told diagnostics⟩
  · have length : m.classes.length = m'.classes.length := h.classes.length_eq
    rw [classes]
    refine List.forall₂_iff_get.2 ⟨by rw [List.length_modify, length], fun i bound bound' => ?_⟩
    have same := (List.forall₂_iff_get.1 h.classes).2 i bound (length ▸ bound)
    rw [List.get_eq_getElem, List.get_eq_getElem] at same
    rw [List.get_eq_getElem, List.get_eq_getElem, List.getElem_modify]
    split
    · rw [same, Class.withMember]
    · exact same
  · rw [at'', ItemEntry.claimsOn_concat claim]
    split
    · rename_i here
      subst here
      rw [Keyed.firsts_concat, if_neg fun old => free (Keyed.mem_keys_firsts.1 old), ← h.members,
        Class.withMember, List.map_append, List.map_singleton]
    · exact h.members k
  · rw [at''] at mem
    split at mem
    · rename_i here
      subst here
      rcases List.mem_append.1 mem with old | new
      · exact h.own _ stored old
      · rw [List.mem_singleton.1 new]
        exact ⟨rfl, owner⟩
    · exact h.own k stored mem

end Attaches

end Model

namespace Build

open Model

variable {m m' : Model} {entries : List ClassEntry} {items : List ItemEntry}
  {entry : ItemEntry} {id : ClassId} {item : Item} {member : Member}

/-- A class is looked up among those of the entries, if its namespace is there. -/
theorem run_lookup_of_lists (h : m.Lists entries)
    (aliases : m.settings.namespaceAliases.isTextTable = true) (name : String) :
    (lookup name).run m = if m.settings.hasHome entries name then
      .ok (m.settings.classOf? entries name) m else .error (.missingNamespace name) m := by
  have home : m.tree.contains (Forest.path (m.settings.ownerName name)) =
      m.settings.hasHome entries name := by
    rw [Bool.eq_iff_iff, h.contains_owner_iff]
    simp [Settings.hasHome]
  rw [run_lookup aliases, home, h.inSlot?_eq]
  rfl

/-- **An item that is meant to be a member is attached, or it stops the run.** -/
theorem ends_attachMember_item (lists : m.Lists entries) (h : m.Attaches entries items m')
    (typed : m.settings.FullyTyped) (readable : item.isReadable = true)
    (claim : entry.claim? m.settings entries = some (id, item)) (there : id < entries.length) :
    Ends (attachMember id item) m' (fun _ m'' => item.isMisplaced = false ∧
      m.Attaches entries (items ++ [entry]) m'')
      fun error _ => item.isMisplaced = true ∧ error = .paramsOnProperty item.name := by
  have typed' : m'.settings.FullyTyped := by rwa [h.settings]
  by_cases misplaced : item.isMisplaced = true
  · unfold attachMember
    rw [ends_bind]
    obtain ⟨kind, given⟩ := item.isMisplaced_iff.1 misplaced
    exact (ends_buildMember_property typed'.toWellTyped kind given id).mono
      (fun _ _ h => h.elim) fun _ _ h => ⟨misplaced, h⟩
  have placed : item.isMisplaced = false := Bool.eq_false_iff.2 misplaced
  have lists' : m'.Lists entries := lists.congr h.settings h.tree h.classes
  have registered : id < m'.classes.length := by rwa [lists'.length]
  have made : MadeFor m'.settings (entries.getD id default) (m'.classAt id) :=
    lists'.made (by simp [there])
  have fit := paramsFit_of_isReadable typed'.reservedNames readable placed
  refine (ends_attachMember_adds typed'.toWellTyped fit registered).mono ?_ fun _ _ h => h.elim
  intro _ m'' adds
  refine ⟨placed, ?_⟩
  by_cases taken : item.key ∈ (ItemEntry.claimsOn m.settings entries id items).map Item.key
  · obtain ⟨classes, types, told, unreadable⟩ := adds.refused (h.mem_keys_iff.2 taken)
    refine h.still _ adds.settings adds.tree classes (fun k => ?_) ⟨types, ?_, ?_⟩ told
    · rw [ItemEntry.claimsOn_concat claim]
      split
      · rename_i here
        subst here
        rw [Keyed.firsts_concat, if_pos (Keyed.mem_keys_firsts.2 taken)]
      · rfl
    · rw [ItemEntry.fate_of_claim claim, if_pos taken, made.fullName]
      rfl
    · rw [ItemEntry.fate_of_claim claim, if_pos taken]
      exact fun d mem => ⟨unreadable d mem, rfl⟩
  · obtain ⟨⟨member, rfl, owner, classes⟩, types, told, unreadable⟩ :=
      adds.added fun old => taken (h.mem_keys_iff.1 old)
    refine h.joined adds.settings adds.tree registered owner classes claim taken
      ⟨types, ?_, ?_⟩ told
    · rw [ItemEntry.fate_of_claim claim, if_neg taken, deprecationOf, made.fullName, made.record]
      rfl
    · rw [ItemEntry.fate_of_claim claim, if_neg taken]
      exact fun d mem => ⟨unreadable d mem, rfl⟩

/-- **An item of a class that is not left out is attached, or it stops the run.** -/
theorem ends_attachOwned (lists : m.Lists entries) (h : m.Attaches entries items m')
    (typed : m.settings.FullyTyped) {className : String} {content : ItemContent}
    (kept : ¬ m.settings.omits className = true)
    (wellTyped : (ItemEntry.owned className content).isWellTyped = true) :
    Ends (attachOwned className content) m'
      (fun _ m'' => (ItemEntry.owned className content).error? m.settings entries = none ∧
        m.Attaches entries (items ++ [.owned className content]) m'')
      fun error _ =>
        (ItemEntry.owned className content).error? m.settings entries = some error := by
  have lists' : m'.Lists entries := lists.congr h.settings h.tree h.classes
  have aliases : m'.settings.namespaceAliases.isTextTable = true := by
    rw [h.settings]
    exact typed.namespaceAliases
  unfold attachOwned
  rw [ends_bind, Ends, run_lookup_of_lists lists' aliases, h.settings]
  by_cases home : m.settings.hasHome entries className = true
  · rw [if_pos home]
    dsimp only
    cases found : m.settings.classOf? entries className with
    | none =>
      dsimp only
      rw [ends_bind, ends_warn, ends_pure]
      have claim : (ItemEntry.owned className content).claim? m.settings entries = none :=
        ItemEntry.claim?_of_unknown found
      refine ⟨by simp [ItemEntry.error?, kept, home, claim],
        h.still [.ofUnknown className] rfl rfl rfl (fun id => ?_) ⟨[], ?_, by simp⟩ ?_⟩
      · rw [ItemEntry.claimsOn_concat_of_none claim]
      · simp [ItemEntry.fate, kept, found, Fate.reports]
      · rw [Model.diagnostics, LogEntry.diagnostics_append]
        rfl
    | some id =>
      cases content with
      | skipped =>
        have error : (ItemEntry.owned className .skipped).error? m.settings entries = none := by
          simp [ItemEntry.error?, kept, home, ItemEntry.claim?]
        exact ⟨error, h.skipped rfl (by simp [ItemEntry.fate, kept, found])⟩
      | unfitKind => cases wellTyped
      | member item =>
        have claim : (ItemEntry.owned className (.member item)).claim? m.settings entries =
            some (id, item) := by simp [ItemEntry.claim?, kept, found]
        obtain ⟨there, -, -⟩ := List.findIdx?_eq_some_iff_getElem.1 found
        refine (ends_attachMember_item lists h typed wellTyped claim there).mono ?_ ?_
        · rintro _ m'' ⟨placed, attaches⟩
          exact ⟨by simp [ItemEntry.error?, kept, home, claim, placed], attaches⟩
        · rintro _ m'' ⟨misplaced, rfl⟩
          simp [ItemEntry.error?, kept, home, claim, misplaced]
  · rw [if_neg home]
    simp [ItemEntry.error?, kept, home]

/-- **One more item is attached, or it stops the run.** -/
theorem ends_attach_item (lists : m.Lists entries) (h : m.Attaches entries items m')
    (typed : m.settings.FullyTyped) (wellTyped : entry.isWellTyped = true) :
    Ends (attach entry) m' (fun _ m'' => entry.error? m.settings entries = none ∧
      m.Attaches entries (items ++ [entry]) m'')
      fun error _ => entry.error? m.settings entries = some error := by
  cases entry with
  | noRecord => cases wellTyped
  | unfitOwner owner => cases wellTyped
  | ownerless shownName =>
    unfold attach
    dsimp only
    rw [ends_bind, ends_note, ends_pure]
    refine ⟨rfl, h.still [] rfl rfl rfl ?_ ⟨[], rfl, by simp⟩ ?_⟩
    · exact fun id => by rw [ItemEntry.claimsOn_concat_of_none rfl]
    · rw [Model.diagnostics, LogEntry.diagnostics_append]
      rfl
  | owned className content =>
    unfold attach
    dsimp only
    rw [ends_bind, ends_get, h.settings, Settings.ignores_eq typed.ignoredNames, ofReading,
      ends_bind, ends_pure]
    split
    · rename_i omitted
      have error : (ItemEntry.owned className content).error? m.settings entries = none := by
        simp [ItemEntry.error?, omitted]
      have fate : (ItemEntry.owned className content).fate m.settings entries items = .skipped := by
        simp [ItemEntry.fate, omitted]
      exact ⟨error, h.skipped (ItemEntry.claim?_of_omitted omitted) fate⟩
    · rename_i kept
      exact ends_attachOwned lists h typed kept wellTyped

end Build

end AmbientDecl
