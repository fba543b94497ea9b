/- # Members that are built in silence

Building a member for another class lowers the types of its item again.  An unreadable type is
reported at its first coming only.  An item is **rehearsed** when a member can be built for it and
all its types have been heard.

* An item is rehearsed once a member is built for it (`ends_buildMember_rehearsed`), and it stays
  so.
* From then on a member is built for it in every class, and the model is left as it was
  (`run_buildMember_silent`, `run_copyMember_silent`).
* A copy has the item of the member, so copying the copy is copying the member
  (`CopyOf.copyMember_eq`).
-/

import AmbientDecl.Proofs.Model.Hearing
import AmbientDecl.Proofs.Model.WellTyped

namespace AmbientDecl

/-- The texts that parameters have for their types. -/
def ParamList.types : ParamList → List String
  | absent => []
  | list params => params.filterMap fun reading => (reading >>= ParamRecord.type?).toOption.join
  | unfit => []

/-- The text that an item has for the type of its result. -/
def ResultRecord.type? : ResultRecord → Option String
  | undocumented => none
  | untyped => none
  | typed text => some text

/-- The texts that an item has for types. -/
def Item.types (item : Item) : List String :=
  item.type?.toList ++ item.params.types ++ item.result.type?.toList

namespace Model

/-- A member can be built for the item, and its types have been heard. -/
structure Rehearsed (m : Model) (item : Item) : Prop where
  fits : ParamsFit m.settings item
  heard : ∀ text ∈ item.types, m.Heard text

variable {m m' : Model} {item : Item}

theorem Remembers.recalls {texts : List String} (h : Remembers texts m m') : m.Recalls m' := by
  refine ⟨h.settings, fun text old => ?_⟩
  rw [h.reported, ← List.count_pos_iff, count_foldl_remember, if_pos old]
  exact List.count_pos_iff.2 old

theorem Rehearsed.of_recalls (h : m.Rehearsed item) (recalls : m.Recalls m') : m'.Rehearsed item :=
  ⟨recalls.settings ▸ h.fits, fun text mem => (h.heard text mem).of_recalls recalls⟩

end Model

namespace Build

open Model

variable {α β : Type} {m : Model} {item : Item}

/-- The action has a value and leaves the model as it was. -/
def Harmless (action : Build α) (m : Model) : Prop := ∃ value, action.run m = .ok value m

namespace Harmless

theorem pure (value : α) (m : Model) : Harmless (pure value) m := ⟨value, rfl⟩

/-- An action may look at the model. -/
theorem getting {next : Model → Build α} (h : Harmless (next m) m) : Harmless (get >>= next) m := h

/-- A reading that has a value is harmless. -/
theorem reading {reading : Except ShapeFault β} {value : β} {next : β → Build α}
    (known : reading = .ok value) (h : Harmless (next value) m) :
    Harmless (ofReading reading >>= next) m := by
  rw [known]
  exact h

theorem bind {action : Build β} {next : β → Build α} (h : Harmless action m)
    (h' : ∀ value, Harmless (next value) m) : Harmless (action >>= next) m := by
  obtain ⟨value, run⟩ := h
  obtain ⟨result, run'⟩ := h' value
  exact ⟨result, by rw [EStateM.run_bind, run]; exact run'⟩

theorem map {action : Build β} (f : β → α) (h : Harmless action m) : Harmless (f <$> action) m := by
  rw [map_eq_pure_bind]
  exact h.bind fun value => pure (f value) m

theorem mapM {action : β → Build α} {xs : List β} (h : ∀ x ∈ xs, Harmless (action x) m) :
    Harmless (xs.mapM action) m := by
  induction xs with
  | nil => exact pure [] m
  | cons x rest ih =>
    obtain ⟨first, others⟩ := List.forall_mem_cons.1 h
    rw [List.mapM_cons]
    exact first.bind fun _ => (ih others).bind fun _ => pure _ m

theorem foldlM {action : α → β → Build α} {xs : List β}
    (h : ∀ value, ∀ x ∈ xs, Harmless (action value x) m) (value : α) :
    Harmless (xs.foldlM action value) m := by
  induction xs generalizing value with
  | nil => exact pure value m
  | cons x rest ih =>
    rw [List.foldlM_cons]
    refine (h value x List.mem_cons_self).bind fun value' => ih ?_ value'
    exact fun value x mem => h value x (List.mem_cons_of_mem _ mem)

end Harmless

section Lowering

variable (typed : m.settings.WellTyped)
include typed

theorem harmless_lowerType {text : String} (heard : m.Heard text) (base : String) :
    Harmless (lowerType text base) m := by
  obtain ⟨type, lowered⟩ := (WrittenType.ofText text).exists_lower (naming_isText typed base)
  exact ⟨.str type, by rw [run_lowerType, lowered, heard.hear_eq]; rfl⟩

theorem harmless_lowerType? {text? : Option String} (heard : ∀ text ∈ text?, m.Heard text)
    (missing base : String) : Harmless (lowerType? text? missing base) m := by
  cases text? with
  | none => exact .pure _ m
  | some text => exact harmless_lowerType typed (heard text rfl) base

theorem harmless_buildParam (base : String) {reading : Except ShapeFault ParamRecord}
    (fits : ParamFits m.settings reading)
    (heard : ∀ text ∈ (reading >>= ParamRecord.type?).toOption.join, m.Heard text) :
    Harmless (buildParam base reading) m := by
  obtain ⟨record, rfl, ⟨name, named⟩, type?, read⟩ := fits
  have heard : ∀ text ∈ type?, m.Heard text := by
    rwa [bind_ok, read] at heard
  refine .reading rfl (.getting (.reading named (.reading read ?_)))
  exact (harmless_lowerType? typed heard "any" base).bind fun _ => .pure _ m

theorem harmless_buildParams (base : String) (rehearsed : m.Rehearsed item) :
    Harmless (buildParams item base) m := by
  have fits := rehearsed.fits
  have heard : ∀ text ∈ item.params.types, m.Heard text := fun text mem =>
    rehearsed.heard text (List.mem_append_left _ (List.mem_append_right _ mem))
  unfold buildParams
  unfold ParamsFit at fits
  cases params : item.params with
  | absent => exact .pure [] m
  | unfit => simp [params] at fits
  | list records =>
    rw [params] at fits heard
    obtain ⟨method, fits⟩ := fits
    rw [method]
    refine .mapM fun reading mem => harmless_buildParam typed base (fits reading mem) ?_
    exact fun text given => heard text (List.mem_filterMap.2 ⟨reading, mem, given⟩)

theorem harmless_buildReturn (className base : String) (rehearsed : m.Rehearsed item) :
    Harmless (buildReturn item className base) m := by
  unfold buildReturn
  cases result : item.result with
  | undocumented => exact .pure _ m
  | untyped => exact .pure _ m
  | typed text =>
    refine .map _ (harmless_lowerType typed (rehearsed.heard text ?_) base)
    exact List.mem_append_right _ (by rw [result]; exact List.mem_cons_self)

/-- **A member is built in silence** for an item that is rehearsed, in every class. -/
theorem run_buildMember_silent (rehearsed : m.Rehearsed item) (owner : ClassId) :
    ∃ made, (buildMember item owner).run m = .ok made m ∧ made.item = item := by
  have heard : ∀ text ∈ item.type?, m.Heard text := fun text given =>
    rehearsed.heard text (List.mem_append_left _ (List.mem_append_left _ (by simpa using given)))
  obtain ⟨type, first⟩ := harmless_lowerType? typed heard "any" (m.classAt owner).fullName
  obtain ⟨params, second⟩ := harmless_buildParams typed (m.classAt owner).fullName rehearsed
  obtain ⟨returnType, third⟩ := harmless_buildReturn typed (m.classAt owner).name
    (m.classAt owner).fullName rehearsed
  refine ⟨⟨item, owner, item.isPrivate, type, params, returnType⟩, ?_, rfl⟩
  rw [Build.buildMember, EStateM.run_bind, EStateM.run_get]
  dsimp only
  rw [EStateM.run_bind, first]
  dsimp only
  rw [EStateM.run_bind, second]
  dsimp only
  rw [EStateM.run_bind, third]
  rfl

/-- **A member is copied in silence.** -/
theorem run_copyMember_silent {member : Member} (rehearsed : m.Rehearsed member.item)
    (owner : ClassId) :
    ∃ copy, (copyMember member owner).run m = .ok copy m ∧ copy.item = member.item ∧
      copy.isPrivate = member.isPrivate := by
  obtain ⟨made, run, same⟩ := run_buildMember_silent typed rehearsed owner
  refine ⟨{ made with isPrivate := member.isPrivate }, ?_, same, rfl⟩
  rw [copyMember, EStateM.run_bind, run]
  rfl

end Lowering

section Hearing

/-- What an action that reads has reported stays reported. -/
theorem Reads.recalls {action : Build α} (h : Reads action) : Keeps Recalls action := by
  intro m
  obtain ⟨texts, told⟩ := h.remembers m
  exact (told m rfl).mono (fun _ _ => Remembers.recalls) fun _ _ => Remembers.recalls

variable (m)

/-- A type that was lowered has been heard. -/
theorem ends_lowerType_heard (text base : String) :
    Ends (lowerType text base) m (fun _ m' => m'.Heard text) fun _ _ => True := by
  rw [Ends, run_lowerType, ← Ends, ends_ofReading]
  exact ⟨fun _ _ => heard_hear m text base, fun _ _ => trivial⟩

theorem ends_lowerType?_heard (text? : Option String) (missing base : String) :
    Ends (lowerType? text? missing base) m (fun _ m' => ∀ text ∈ text?, m'.Heard text)
      fun _ _ => True := by
  cases text? with
  | none => exact fun _ none => nomatch none
  | some text =>
    refine (ends_lowerType_heard m text base).mono (fun _ m' heard => ?_) fun _ _ h => h
    exact fun _ given => Option.some.inj given ▸ heard

theorem ends_buildParam_heard (base : String) (reading : Except ShapeFault ParamRecord) :
    Ends (buildParam base reading) m
      (fun _ m' => ∀ text ∈ (reading >>= ParamRecord.type?).toOption.join, m'.Heard text)
      fun _ _ => True := by
  unfold buildParam
  rw [ends_bind, ends_ofReading]
  refine ⟨?_, fun _ _ => trivial⟩
  rintro record rfl
  rw [ends_bind, ends_get, ends_bind, ends_ofReading]
  refine ⟨fun name _ => ?_, fun _ _ => trivial⟩
  rw [ends_bind, ends_ofReading]
  refine ⟨fun type? read => ?_, fun _ _ => trivial⟩
  rw [ends_bind, bind_ok, read]
  exact ends_lowerType?_heard m type? "any" base

theorem ends_buildParams_heard (item : Item) (base : String) :
    Ends (buildParams item base) m (fun _ m' => ∀ text ∈ item.params.types, m'.Heard text)
      fun _ _ => True := by
  cases params : item.params with
  | absent => exact (ends_of (fun _ _ _ => nofun) fun _ _ _ => trivial)
  | unfit => exact (ends_of (fun _ _ _ => nofun) fun _ _ _ => trivial)
  | list records =>
    cases kind : item.kind with
    | property =>
      simp only [buildParams, params, kind, ends_throw]
    | method =>
      simp only [buildParams, params, kind]
      let heard (reading : Except ShapeFault ParamRecord) (m : Model) : Prop :=
        ∀ text ∈ (reading >>= ParamRecord.type?).toOption.join, m.Heard text
      refine (Ends.mapM (fun rest m' => ∀ reading ∈ records, reading ∈ rest ∨ heard reading m')
        (fun _ _ => True) ?_ fun _ mem => .inl mem).mono ?_ fun _ _ h => h
      · intro reading rest m' left
        refine ((ends_buildParam_heard m' base reading).and
          ((reads_buildParam base reading).recalls m')).mono ?_ fun _ _ _ => trivial
        rintro - m'' ⟨now, recalls⟩ other mem
        rcases left other mem with here | done
        · rcases List.mem_cons.1 here with rfl | later
          · exact .inr now
          · exact .inl later
        · exact .inr fun text given => (done text given).of_recalls recalls
      · rintro - m' left text mem
        obtain ⟨reading, mem, given⟩ := List.mem_filterMap.1 mem
        exact (left reading mem).resolve_left List.not_mem_nil text given

theorem ends_buildReturn_heard (item : Item) (className base : String) :
    Ends (buildReturn item className base) m
      (fun _ m' => ∀ text ∈ item.result.type?, m'.Heard text) fun _ _ => True := by
  unfold buildReturn
  cases result : item.result with
  | undocumented => exact (ends_of (fun _ _ _ => nofun) fun _ _ _ => trivial)
  | untyped => exact (ends_of (fun _ _ _ => nofun) fun _ _ _ => trivial)
  | typed text =>
    rw [ends_map]
    refine (ends_lowerType_heard m text base).mono (fun _ m' heard => ?_) fun _ _ h => h
    exact fun _ given => Option.some.inj given ▸ heard

/-- The types of an item have been heard once a member is built for it. -/
theorem ends_buildMember_heard (item : Item) (owner : ClassId) :
    Ends (buildMember item owner) m
      (fun made m' => made.item = item ∧ ∀ text ∈ item.types, m'.Heard text) fun _ _ => True := by
  unfold buildMember
  rw [ends_bind, ends_get, ends_bind]
  refine (ends_lowerType?_heard m _ _ _).mono (fun _ m₁ first => ?_) fun _ _ h => h
  rw [ends_bind]
  refine ((ends_buildParams_heard m₁ item _).and ((reads_buildParams item _).recalls m₁)).mono ?_
    fun _ _ _ => trivial
  rintro - m₂ ⟨second, recalls⟩
  rw [ends_bind]
  refine ((ends_buildReturn_heard m₂ item _ _).and ((reads_buildReturn item _ _).recalls m₂)).mono
    ?_ fun _ _ _ => trivial
  rintro - m₃ ⟨third, recalls'⟩
  refine ⟨rfl, fun text mem => ?_⟩
  rcases List.mem_append.1 mem with mem | mem
  · rcases List.mem_append.1 mem with mem | mem
    · exact (first text (Option.mem_toList.1 mem)).of_recalls (recalls.trans recalls')
    · exact (second text mem).of_recalls recalls'
  · exact third text (Option.mem_toList.1 mem)

/-- **An item is rehearsed once a member is built for it.** -/
theorem ends_buildMember_rehearsed (item : Item) (owner : ClassId) :
    Ends (buildMember item owner) m (fun made m' => made.item = item ∧ m'.Rehearsed item)
      fun _ _ => True := by
  refine ends_of (fun made m' run => ?_) fun _ _ _ => trivial
  have buildable : Buildable m.settings item :=
    ⟨m, owner, made, rfl, by rw [Build.value, run]⟩
  have recalls : m.Recalls m' := ((reads_buildMember item owner).recalls m).of_ok run
  obtain ⟨same, heard⟩ := (ends_buildMember_heard m item owner).of_ok run
  exact ⟨same, recalls.settings ▸ buildable.paramsFit, heard⟩

end Hearing

/-- A member that is reached from another one by copies, each in any model and for any class. -/
inductive CopyOf (member : Member) : Member → Prop where
  | self : CopyOf member member
  | copy {copied again : Member} {m m' : Model} {owner : ClassId} (before : CopyOf member copied)
      (run : (copyMember copied owner).run m = .ok again m') : CopyOf member again

/-- A copy has the item of the member, and it is as private. -/
theorem ends_copyMember_of (member : Member) (owner : ClassId) (m : Model) :
    Ends (copyMember member owner) m
      (fun copy _ => copy.item = member.item ∧ copy.isPrivate = member.isPrivate)
      fun _ _ => True := by
  unfold copyMember
  rw [ends_bind]
  exact (ends_buildMember_rehearsed m member.item owner).mono (fun _ _ made => ⟨made.1, rfl⟩)
    fun _ _ h => h

/-- **Copying a copy is copying the member.** -/
theorem CopyOf.copyMember_eq {member copied : Member} (h : CopyOf member copied)
    (owner : ClassId) : copyMember copied owner = copyMember member owner := by
  have same : copied.item = member.item ∧ copied.isPrivate = member.isPrivate := by
    induction h with
    | self => exact ⟨rfl, rfl⟩
    | copy _ run ih =>
      obtain ⟨item, isPrivate⟩ := (ends_copyMember_of _ _ _).of_ok run
      exact ⟨item.trans ih.1, isPrivate.trans ih.2⟩
  unfold copyMember
  rw [same.1, same.2]

end Build
end AmbientDecl
