/- # Sound members

Every member that a class holds stands under its own key, belongs to the class and, as a static
factory of which nothing is said, returns the class.  Its item could be built for some class with
the settings of the run.  A model is **sound** when this holds of all members of all classes and
no class holds two members under one key.

Building a member for a class and copying a member to a class give a sound member
(`buildMember_made`, `SoundEntry.copy`), and storing a sound member keeps a model sound
(`Sound.put`).
-/

import AmbientDecl.Proofs.Entries
import AmbientDecl.Proofs.Model.Reads

namespace AmbientDecl

/-- The members of a class in their order, each under its key. -/
abbrev Members := List (String × Member)

namespace Model

/-- An item that could be built for some class in a run with the given settings. -/
def Buildable (settings : Settings) (item : Item) : Prop :=
  ∃ (m : Model) (owner : ClassId) (made : Member),
    m.settings = settings ∧ Build.value (Build.buildMember item owner) m = .ok made

/-- What holds of a member that a class stores under a key. -/
structure SoundEntry (m : Model) (id : ClassId) (entry : String × Member) : Prop where
  key : entry.1 = entry.2.key
  owner : entry.2.owner = id
  /-- A static factory of which nothing is said returns the class. -/
  factory : entry.2.item.isStatic → entry.2.item.name = "create" →
    entry.2.item.result = .undocumented → entry.2.returnType = some (.str (m.classAt id).name)
  buildable : Buildable m.settings entry.2.item

/-- All members of all classes are sound, and no class holds two members under one key. -/
structure Sound (m : Model) : Prop where
  entry : ∀ id, ∀ entry ∈ (m.classAt id).members, m.SoundEntry id entry
  nodup : ∀ id, (Entries.keys (m.classAt id).members).Nodup

variable {m m' : Model} {id : ClassId}

theorem name_of_outline_eq (h : m'.outline = m.outline) (id : ClassId) :
    (m'.classAt id).name = (m.classAt id).name := by
  rw [Class.name, Class.name, slot_of_outline_eq h]

theorem settings_of_outline_eq (h : m'.outline = m.outline) : m'.settings = m.settings := by
  rw [← settings_outline, h, settings_outline]

/-- What holds of a member depends on the settings and on the name of its class. -/
theorem SoundEntry.congr {entry : String × Member} (h : m.SoundEntry id entry)
    (settings : m'.settings = m.settings) (name : (m'.classAt id).name = (m.classAt id).name) :
    m'.SoundEntry id entry where
  key := h.key
  owner := h.owner
  factory := by
    rw [name]
    exact h.factory
  buildable := by
    rw [settings]
    exact h.buildable

theorem SoundEntry.of_outline_eq {entry : String × Member} (h : m.SoundEntry id entry)
    (same : m'.outline = m.outline) : m'.SoundEntry id entry :=
  h.congr (settings_of_outline_eq same) (name_of_outline_eq same id)

/-- A model stays sound when no class gets other members. -/
theorem Sound.of_members_eq (h : m.Sound) (same : m'.outline = m.outline)
    (members : ∀ id, (m'.classAt id).members = (m.classAt id).members) : m'.Sound where
  entry id entry mem := by
    rw [members] at mem
    exact (h.entry id entry mem).of_outline_eq same
  nodup id := by
    rw [members]
    exact h.nodup id

/-- A model stays sound when a class stores a sound member under its key. -/
theorem Sound.put (h : m.Sound) (same : m'.outline = m.outline) {key : String} {member : Member}
    (sound : m.SoundEntry id (key, member))
    (own : (m'.classAt id).members = Entries.put key member (m.classAt id).members)
    (others : ∀ other, other ≠ id → (m'.classAt other).members = (m.classAt other).members) :
    m'.Sound where
  entry other entry mem := by
    refine SoundEntry.of_outline_eq ?_ same
    by_cases ne : other = id
    · subst ne
      rw [own] at mem
      rcases Entries.mem_put mem with rfl | mem
      · exact sound
      · exact h.entry other entry mem
    · rw [others other ne] at mem
      exact h.entry other entry mem
  nodup other := by
    by_cases ne : other = id
    · subst ne
      rw [own]
      exact Entries.nodup_keys_put key member (h.nodup other)
    · rw [others other ne]
      exact h.nodup other

end Model

namespace Build

open Model

/-- What a member is that was built for a class. -/
theorem buildMember_made (item : Item) (owner : ClassId) (m : Model) :
    Ends (buildMember item owner) m
      (fun made _ => made.item = item ∧ made.owner = owner ∧ made.isPrivate = item.isPrivate ∧
        (item.isStatic → item.name = "create" → item.result = .undocumented →
          made.returnType = some (.str (m.classAt owner).name)))
      fun _ _ => True := by
  unfold buildMember
  simp only [ends_bind, ends_get]
  refine (reads_lowerType? _ _ _).consults.ends m |>.mono (fun _ m₁ _ => ?_) fun _ _ _ => trivial
  refine (reads_buildParams _ _).consults.ends m₁ |>.mono (fun _ m₂ _ => ?_) fun _ _ _ => trivial
  have returns := reads_buildReturn item (m.classAt owner).name (m.classAt owner).fullName
  have last := returns.consults.ends m₂
  refine last.mono (fun returnType m₃ h => ?_) fun _ _ _ => trivial
  refine ⟨rfl, rfl, rfl, fun static name silent => ?_⟩
  have returned := h.1
  simp only [buildReturn, silent, impliedReturn, static, name] at returned
  exact (Except.ok.inj returned).symm

/-- The copy of a member for a class. -/
theorem copyMember_made (member : Member) (owner : ClassId) (m : Model) :
    Ends (copyMember member owner) m
      (fun copy _ => copy.item = member.item ∧ copy.owner = owner ∧
        copy.isPrivate = member.isPrivate ∧
        (copy.item.isStatic → copy.item.name = "create" → copy.item.result = .undocumented →
          copy.returnType = some (.str (m.classAt owner).name)))
      fun _ _ => True := by
  unfold copyMember
  rw [ends_bind]
  refine (buildMember_made member.item owner m).mono ?_ fun _ _ h => h
  rintro made m' ⟨item, owner, -, factory⟩
  refine ⟨item, owner, rfl, ?_⟩
  dsimp only
  rw [item]
  exact factory

end Build

namespace Model

variable {m : Model} {id : ClassId}

/-- The copy of a member for a class, or the error that stops the copying. -/
def copyFor (m : Model) (id : ClassId) (member : Member) : Except BuildError Member :=
  Build.value (Build.copyMember member id) m

theorem copyFor_of_outline_eq {m' : Model} (h : m'.outline = m.outline) :
    m'.copyFor = m.copyFor := by
  funext id member
  exact (Build.reads_copyMember member id).consults.value_eq h

/-- A copy has the item of its source and its privacy. -/
theorem copyFor_eq_ok {member copy : Member} (h : m.copyFor id member = .ok copy) :
    copy.item = member.item ∧ copy.owner = id ∧ copy.isPrivate = member.isPrivate ∧
      (copy.item.isStatic → copy.item.name = "create" → copy.item.result = .undocumented →
        copy.returnType = some (.str (m.classAt id).name)) := by
  obtain ⟨_, _, -, rfl, made⟩ := ((Build.copyMember_made member id m).known_ok h).exists_ok
  exact made

/-- **The copy of a sound member is sound where it goes to.** -/
theorem SoundEntry.copy {source : ClassId} {key : String} {member copy : Member}
    (h : m.SoundEntry source (key, member)) (copied : m.copyFor id member = .ok copy) :
    m.SoundEntry id (key, copy) := by
  obtain ⟨item, owner, -, factory⟩ := copyFor_eq_ok copied
  refine ⟨?_, owner, factory, ?_⟩
  · have same : copy.key = member.key := by rw [Member.key, Member.key, item]
    exact h.key.trans same.symm
  · exact item ▸ h.buildable

end Model
end AmbientDecl
