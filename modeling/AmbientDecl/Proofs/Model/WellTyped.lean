/- # Well-typed models

With well-typed settings classes are found and names are written without a fault (`exists_find?`,
`naming_isText`), types are lowered to texts (`ends_lowerType`), and an item that could be built
for one class can be built for every class (`Buildable.ends`).  So nothing but a loop of names
stops the linking of a class (`WellTyped.not_stops`).
-/

import AmbientDecl.Proofs.Config.WellTyped
import AmbientDecl.Proofs.Model.Linking
import AmbientDecl.Proofs.TypeExpr.Lowered

namespace AmbientDecl

theorem Settings.exists_slotOf {settings : Settings}
    (aliases : settings.namespaceAliases.isTextTable = true) (name : String) :
    ∃ slot, settings.slotOf name = .ok slot := by
  obtain ⟨owner, found⟩ := exists_substitute aliases (Dotted.owner name)
  exact ⟨_, by simp only [slotOf, ownerOf, found, readPath]; rfl⟩

namespace Model

variable {m m' : Model}

/-- Where aliases lead to texts, every name can be looked up. -/
theorem find?_eq_found? (aliases : m.settings.namespaceAliases.isTextTable = true)
    (name : String) : m.find? name = .ok (m.found? name) := by
  obtain ⟨slot, read⟩ := Settings.exists_slotOf aliases name
  have found : m.find? name = .ok (m.inSlot? slot) := by
    rw [find?, read]
    rfl
  rw [found, found?_of_find? found]

theorem exists_find? (typed : m.settings.WellTyped) (name : String) :
    ∃ found, m.find? name = .ok found :=
  ⟨_, find?_eq_found? typed.namespaceAliases name⟩

theorem exists_nearby? (typed : m.settings.WellTyped) (name base : String) :
    ∃ found, m.nearby? name base = .ok found :=
  exists_findSomeM? (fun _ => exists_find? typed _) _

theorem exists_fullNameOf (typed : m.settings.WellTyped) (name base : String) :
    ∃ fullName, m.fullNameOf name base = .ok fullName := by
  obtain ⟨found, near⟩ := exists_nearby? typed name base
  unfold fullNameOf
  split
  · rw [near]
    cases found with
    | none => exact ⟨_, rfl⟩
    | some id => exact ⟨_, rfl⟩
  · exact ⟨_, rfl⟩

theorem exists_reference (typed : m.settings.WellTyped) (name base : String) :
    ∃ text, m.reference name base = .ok (.str text) := by
  obtain ⟨fullName, full⟩ := exists_fullNameOf typed name base
  obtain ⟨found, fixed⟩ := Settings.exists_fixedReference? typed.fixedReferences fullName
  rw [reference, full, bind_ok, fixed]
  cases found with
  | none => exact ⟨_, rfl⟩
  | some text => exact ⟨text, rfl⟩

/-- Names are written as texts inside every class. -/
theorem naming_isText (typed : m.settings.WellTyped) (base : String) : (m.naming base).IsText := by
  have within : ∀ name, ∃ text, m.referenceWithin base name = .ok (.str text) := by
    intro name
    unfold referenceWithin
    split
    · exact ⟨name, rfl⟩
    · exact exists_reference typed name base
  refine ⟨fun name => ?_, within⟩
  obtain ⟨text, written⟩ := within name
  obtain ⟨text', aliased⟩ := Settings.exists_aliasOf typed.typeAliases text
  refine ⟨text', ?_⟩
  simp only [naming, written]
  exact aliased

/-- A record of a parameter can be built: its name can be substituted, and its type is a text or
missing. -/
def ParamFits (settings : Settings) (reading : Except ShapeFault ParamRecord) : Prop :=
  ∃ record, reading = .ok record ∧
    (∃ name, Settings.substitute settings.reservedNames record.name = .ok name) ∧
      ∃ type?, record.type? = .ok type?

/-- The parameters of an item can be built. -/
def ParamsFit (settings : Settings) (item : Item) : Prop :=
  match item.params with
  | .absent => True
  | .list records => item.kind = .method ∧ ∀ reading ∈ records, ParamFits settings reading
  | .unfit => False

end Model

namespace Build

open Model

variable {m : Model}

/-- Lowering a type never fails. -/
theorem ends_lowerType (typed : m.settings.WellTyped) (text base : String) :
    Ends (lowerType text base) m (fun _ m' => m.ReportsTypes m') fun _ _ => False := by
  obtain ⟨lowered, lower⟩ := (WrittenType.ofText text).exists_lower (naming_isText typed base)
  unfold lowerType
  rw [ends_bind, ends_get]
  unfold lowerWith
  dsimp only
  rw [lower]
  split
  · rw [ends_bind]
    exact (ends_reportUnreadable _ _ m).mono (fun _ _ h => h) fun _ _ h => h
  · exact .refl m

theorem ends_lowerType? (typed : m.settings.WellTyped) (text? : Option String)
    (missing base : String) :
    Ends (lowerType? text? missing base) m (fun _ m' => m.ReportsTypes m') fun _ _ => False := by
  cases text? with
  | none => exact .refl m
  | some text => exact ends_lowerType typed text base

/-- A parameter that was built can be built. -/
theorem ends_buildParam_fits (base : String) (reading : Except ShapeFault ParamRecord) (m : Model) :
    Ends (buildParam base reading) m (fun _ m' => m.Reports m' ∧ ParamFits m.settings reading)
      fun _ _ => True := by
  unfold buildParam
  rw [ends_bind, ends_ofReading]
  refine ⟨fun record read => ?_, fun _ _ => trivial⟩
  rw [ends_bind, ends_get, ends_bind, ends_ofReading]
  refine ⟨fun name substituted => ?_, fun _ _ => trivial⟩
  rw [ends_bind, ends_ofReading]
  refine ⟨fun type? typed => ?_, fun _ _ => trivial⟩
  rw [ends_bind]
  refine ((reads_lowerType? type? "any" base).consults.reports m).mono ?_ fun _ _ _ => trivial
  exact fun _ m' reports => ⟨reports, record, read, ⟨name, substituted⟩, type?, typed⟩

/-- A parameter that can be built is built. -/
theorem ends_buildParam (typed : m.settings.WellTyped) (base : String)
    {reading : Except ShapeFault ParamRecord} (fits : ParamFits m.settings reading) :
    Ends (buildParam base reading) m (fun _ m' => m.ReportsTypes m') fun _ _ => False := by
  obtain ⟨record, rfl, ⟨name, substituted⟩, type?, read⟩ := fits
  unfold buildParam
  rw [ends_bind, ofReading, ends_pure, ends_bind, ends_get, substituted, ofReading, ends_bind,
    ends_pure, read, ofReading, ends_bind, ends_pure, ends_bind]
  exact (ends_lowerType? typed type? "any" base).mono (fun _ _ h => h) fun _ _ h => h

/-- Parameters that were built can be built. -/
theorem ends_buildParams_fit (item : Item) (base : String) (m : Model) :
    Ends (buildParams item base) m (fun _ _ => ParamsFit m.settings item) fun _ _ => True := by
  cases params : item.params with
  | absent => simp [buildParams, ParamsFit, params]
  | unfit => cases kind : item.kind <;> simp [buildParams, params, kind]
  | list records =>
    cases kind : item.kind with
    | property => simp [buildParams, params, kind]
    | method =>
      simp only [buildParams, ParamsFit, params, kind]
      refine (Ends.mapM (fun rest m' => m.Reports m' ∧
          ∀ reading ∈ records, reading ∈ rest ∨ ParamFits m.settings reading) (fun _ _ => True) ?_
        ⟨.refl m, fun _ mem => .inl mem⟩).mono ?_ fun _ _ _ => trivial
      · rintro reading rest m' ⟨reports, left⟩
        refine (ends_buildParam_fits base reading m').mono ?_ fun _ _ _ => trivial
        rintro - m'' ⟨reports', fits⟩
        rw [reports.settings] at fits
        refine ⟨reports.trans reports', fun other mem => ?_⟩
        rcases left other mem with here | done
        · rcases List.mem_cons.1 here with rfl | later
          · exact .inr fits
          · exact .inl later
        · exact .inr done
      · rintro - m' ⟨-, fit⟩
        exact ⟨trivial, fun reading mem => (fit reading mem).resolve_left List.not_mem_nil⟩

/-- Parameters that can be built are built. -/
theorem ends_buildParams (typed : m.settings.WellTyped) {item : Item} (base : String)
    (fit : ParamsFit m.settings item) :
    Ends (buildParams item base) m (fun _ m' => m.ReportsTypes m') fun _ _ => False := by
  cases params : item.params with
  | absent =>
    simp only [buildParams, params]
    exact .refl m
  | unfit => simp [ParamsFit, params] at fit
  | list records =>
    simp only [ParamsFit, params] at fit
    simp only [buildParams, params, fit.1]
    refine (Ends.mapM (fun rest m' => m.ReportsTypes m' ∧ rest ⊆ records) (fun _ _ => False) ?_
      ⟨.refl m, List.Subset.refl _⟩).mono (fun _ _ h => h.1) fun _ _ h => h
    rintro reading rest m' ⟨reports, subset⟩
    have fits : ParamFits m'.settings reading := by
      rw [reports.settings]
      exact fit.2 reading (subset List.mem_cons_self)
    refine (ends_buildParam (by rwa [reports.settings]) base fits).mono ?_ fun _ _ h => h
    exact fun _ m'' reports' => ⟨reports.trans reports',
      fun other mem => subset (List.mem_cons_of_mem _ mem)⟩

theorem ends_buildReturn (typed : m.settings.WellTyped) (item : Item) (className base : String) :
    Ends (buildReturn item className base) m (fun _ m' => m.ReportsTypes m') fun _ _ => False := by
  unfold buildReturn
  split
  · exact .refl m
  · exact .refl m
  · rw [ends_map]
    exact ends_lowerType typed _ _

/-- **A member is built for an item whose parameters can be built.** -/
theorem ends_buildMember (typed : m.settings.WellTyped) {item : Item}
    (fit : ParamsFit m.settings item) (owner : ClassId) :
    Ends (buildMember item owner) m (fun _ m' => m.ReportsTypes m') fun _ _ => False := by
  unfold buildMember
  rw [ends_bind, ends_get, ends_bind]
  refine (ends_lowerType? typed _ _ _).mono (fun _ m₁ reports₁ => ?_) fun _ _ h => h
  have typed₁ : m₁.settings.WellTyped := by rwa [reports₁.settings]
  have fit₁ : ParamsFit m₁.settings item := by rwa [reports₁.settings]
  rw [ends_bind]
  refine (ends_buildParams typed₁ _ fit₁).mono (fun _ m₂ reports₂ => ?_) fun _ _ h => h
  have typed₂ : m₂.settings.WellTyped := by rwa [reports₂.settings]
  rw [ends_bind]
  refine (ends_buildReturn typed₂ item _ _).mono (fun _ m₃ reports₃ => ?_) fun _ _ h => h
  exact (reports₁.trans reports₂).trans reports₃

/-- **An item that is no method and has parameters is no member.** -/
theorem ends_buildMember_property (typed : m.settings.WellTyped) {item : Item}
    (kind : item.kind = .property) (given : item.params ≠ .absent) (owner : ClassId) :
    Ends (buildMember item owner) m (fun _ _ => False)
      fun error _ => error = .paramsOnProperty item.name := by
  unfold buildMember
  rw [ends_bind, ends_get, ends_bind]
  refine (ends_lowerType? typed _ _ _).mono (fun _ m₁ _ => ?_) fun _ _ h => h.elim
  rw [ends_bind]
  unfold buildParams
  cases params : item.params with
  | absent => exact absurd params given
  | list records => simp only [kind, ends_throw]
  | unfit => simp only [kind, ends_throw]

end Build

namespace Model

open Build

variable {m : Model} {id : ClassId}

/-- The parameters of an item that was built for a class fit. -/
theorem Buildable.paramsFit {settings : Settings} {item : Item} (h : Buildable settings item) :
    ParamsFit settings item := by
  obtain ⟨m, owner, made, rfl, value⟩ := h
  have ends : Ends (buildMember item owner) m (fun _ _ => ParamsFit m.settings item)
      fun _ _ => True := by
    unfold buildMember
    rw [ends_bind, ends_get, ends_bind]
    refine ((reads_lowerType? _ _ _).consults.reports m).mono (fun _ m₁ reports => ?_)
      fun _ _ _ => trivial
    rw [ends_bind]
    refine (ends_buildParams_fit item _ m₁).mono (fun _ m₂ fit => ?_) fun _ _ _ => trivial
    rw [ends_bind]
    refine ((reads_buildReturn _ _ _).consults.reports m₂).mono (fun _ m₃ _ => ?_)
      fun _ _ _ => trivial
    rwa [← reports.settings]
  obtain ⟨_, _, -, -, fit⟩ := (ends.known_ok value).exists_ok
  exact fit

/-- **An item that could be built for some class can be built for every class.** -/
theorem Buildable.ends {item : Item} (h : Buildable m.settings item)
    (typed : m.settings.WellTyped) (owner : ClassId) :
    Ends (buildMember item owner) m (fun _ m' => m.ReportsTypes m') fun _ _ => False :=
  ends_buildMember typed h.paramsFit owner

/-- Copying a member that was built never fails. -/
theorem exists_copyFor (typed : m.settings.WellTyped) {member : Member}
    (h : Buildable m.settings member.item) (id : ClassId) :
    ∃ copy, m.copyFor id member = .ok copy := by
  have ends : Ends (copyMember member id) m (fun _ m' => m.ReportsTypes m') fun _ _ => False := by
    unfold copyMember
    rw [ends_bind]
    exact (h.ends typed id).mono (fun _ _ h => h) fun _ _ h => h
  obtain ⟨copy, m', run, -⟩ := ends.exists_ok
  exact ⟨copy, by rw [copyFor, Build.value, run]⟩

/-- The settings are well typed, and every class that is registered lists what it uses. -/
structure WellTyped (m : Model) : Prop where
  settings : m.settings.WellTyped
  uses : ∀ id, id < m.classes.length → (m.classAt id).record.usedNames? ≠ none

/-- **Nothing stops the linking of a class in a well-typed model,** apart from the way to other
classes. -/
theorem WellTyped.not_stops (h : m.WellTyped) (id : ClassId) (error : BuildError) :
    ¬ m.Stops id error := by
  rintro (⟨failed⟩ | ⟨registered, failed⟩ | ⟨buildable, failed⟩)
  · obtain ⟨found, find⟩ := exists_find? h.settings _
    rw [find] at failed
    cases failed
  · exact h.uses id registered failed
  · obtain ⟨copy, copied⟩ := exists_copyFor h.settings buildable id
    rw [copied] at failed
    cases failed

end Model
end AmbientDecl
