/- # What a class inherits

A class inherits the public members of its ancestors under keys that it has no member under itself,
each key from the nearest ancestor that has a public member under it.  These are its **heirlooms**
(`heirlooms`), and each comes to the class as the member that is built for it from the same item
(`IsHeir`).

Inheriting from one ancestor after the other brings the heirs of the heirlooms in their order, and
changes nothing but the reports (`yields_inherit`, `yields_inheritFrom`).  So the effective members
of a class are its own members and one heir for each heirloom (`yields_effectiveMembers`), and no
ancestor has a public member, be it inherited, under a key under which the class has none
(`InheritsNearest.publicKeys_subset`).
-/

import AmbientDecl.Proofs.Model.Acyclic
import AmbientDecl.Proofs.Model.Merge
import Mathlib.Data.List.Nodup

namespace AmbientDecl

/-- Entries that are related one by one under the same keys have the same keys. -/
theorem Entries.keys_eq_of_forall₂ {α β : Type} {table : List (String × α)}
    {table' : List (String × β)} (h : List.Forall₂ (fun entry entry' => entry'.1 = entry.1)
      table table') : keys table' = keys table := by
  induction h with
  | nil => rfl
  | cons first _ ih => exact congrArg₂ List.cons first ih

namespace Model

variable {m m' : Model} {id : ClassId} {members : Members} {taken : List String}
  {ancestors : List ClassId}

/-- The keys of the members that are not private. -/
def publicKeys (members : Members) : List String :=
  Entries.keys (members.filter fun entry => !entry.2.isPrivate)

/-- The members that are not private and whose keys are not taken. -/
def untaken (taken : List String) (members : Members) : Members :=
  members.filter fun entry => !entry.2.isPrivate && !taken.contains entry.1

/-- The members that come from a line of ancestors, from the nearest on, to a class that has members
under the keys `taken`: of each ancestor the public ones under keys that neither are taken nor are
those of public members of a nearer ancestor. -/
def heirlooms (m : Model) (taken : List String) : List ClassId → Members
  | [] => []
  | ancestor :: farther =>
    untaken taken (m.classAt ancestor).members ++
      heirlooms m (taken ++ publicKeys (m.classAt ancestor).members) farther

/-- An entry is what a class has for a member that it inherits. -/
structure IsHeir (m : Model) (id : ClassId) (source entry : String × Member) : Prop where
  key : entry.1 = source.1
  /-- The member is the one that is built for the class, but that it is public. -/
  built : ∃ made, Build.value (Build.buildMember source.2.item id) m = .ok made ∧
    entry.2 = { made with isPrivate := false }
  owner : entry.2.owner = id
  isPublic : entry.2.isPrivate = false

/-- The members of a class with those that it inherits from a line of ancestors. -/
structure InheritsNearest (m : Model) (id : ClassId) (ancestors : List ClassId)
    (members : Members) : Prop where
  /-- The members of the class come first, and an heir of every heirloom follows. -/
  parts : ∃ inherited, members = (m.classAt id).members ++ inherited ∧
    List.Forall₂ (m.IsHeir id) (m.heirlooms (Entries.keys (m.classAt id).members) ancestors)
      inherited
  nodup : (Entries.keys members).Nodup
  mem_keys : ∀ key, key ∈ Entries.keys members ↔ key ∈ Entries.keys (m.classAt id).members ∨
    ∃ ancestor ∈ ancestors, key ∈ publicKeys (m.classAt ancestor).members

/-- The heir of an heirloom, or the error that stops the copying. -/
def copyEntry (m : Model) (id : ClassId) (source : String × Member) :
    Except BuildError (String × Member) := do
  return (source.1, ← m.copyFor id source.2)

/-- Members followed by the heirs of heirlooms. -/
def withHeirs (m : Model) (id : ClassId) (members sources : Members) :
    Except BuildError Members := do
  return members ++ (← sources.mapM (m.copyEntry id))

/-- The members of a class and the heirs of all its heirlooms. -/
def effective (m : Model) (id : ClassId) : Except BuildError Members :=
  let own := (m.classAt id).members
  m.withHeirs id own (m.heirlooms (Entries.keys own) (m.ancestors m.classes.length [id] id))

/-! ## Heirlooms -/

theorem publicKeys_sublist (members : Members) :
    (publicKeys members).Sublist (Entries.keys members) :=
  List.filter_sublist.map _

@[simp] theorem publicKeys_append (members members' : Members) :
    publicKeys (members ++ members') = publicKeys members ++ publicKeys members' := by
  simp [publicKeys]

theorem keys_untaken (taken : List String) (members : Members) :
    Entries.keys (untaken taken members) =
      (publicKeys members).filter fun key => !taken.contains key := by
  rw [untaken, publicKeys, Entries.keys, Entries.keys, List.filter_map, List.filter_filter]
  simp only [Function.comp_def, Bool.and_comm]

/-- What is untaken depends only on which keys of the members are taken. -/
theorem untaken_congr {taken' : List String}
    (same : ∀ key ∈ Entries.keys members, key ∈ taken ↔ key ∈ taken') :
    untaken taken members = untaken taken' members := by
  refine List.filter_congr fun entry mem => ?_
  have contains : taken.contains entry.1 = taken'.contains entry.1 := by
    rw [Bool.eq_iff_iff, List.contains_iff_mem, List.contains_iff_mem]
    exact same entry.1 (List.mem_map.2 ⟨entry, mem, rfl⟩)
  rw [contains]

/-- A key is inherited when it is not taken and some ancestor has a public member under it. -/
theorem mem_keys_heirlooms {key : String} :
    key ∈ Entries.keys (m.heirlooms taken ancestors) ↔ key ∉ taken ∧
      ∃ ancestor ∈ ancestors, key ∈ publicKeys (m.classAt ancestor).members := by
  induction ancestors generalizing taken with
  | nil => simp [heirlooms, Entries.keys]
  | cons ancestor farther ih =>
    rw [heirlooms, Entries.keys_append, List.mem_append, keys_untaken, List.mem_filter, ih,
      List.mem_append, List.exists_mem_cons_iff]
    by_cases offered : key ∈ publicKeys (m.classAt ancestor).members <;> simp [offered]

/-- Every key is inherited once. -/
theorem nodup_keys_heirlooms (sound : m.Sound) (ancestors : List ClassId) :
    (Entries.keys (m.heirlooms taken ancestors)).Nodup := by
  induction ancestors generalizing taken with
  | nil => exact .nil
  | cons ancestor farther ih =>
    rw [heirlooms, Entries.keys_append, keys_untaken]
    refine List.Nodup.append ?_ ih fun key near far => ?_
    · exact ((sound.nodup ancestor).sublist (publicKeys_sublist _)).filter _
    · have offered := (List.mem_filter.1 near).1
      exact (mem_keys_heirlooms.1 far).1 (List.mem_append_right _ offered)

theorem isPublic_heirlooms (m : Model) (taken : List String) (ancestors : List ClassId) :
    ∀ source ∈ m.heirlooms taken ancestors, source.2.isPrivate = false := by
  induction ancestors generalizing taken with
  | nil => exact fun _ mem => absurd mem List.not_mem_nil
  | cons ancestor farther ih =>
    refine List.forall_mem_append.2 ⟨fun source mem => ?_, ih _⟩
    have kept := (List.mem_filter.1 mem).2
    simp only [Bool.and_eq_true, Bool.not_eq_true'] at kept
    exact kept.1

theorem Reports.heirlooms (h : m.Reports m') (taken : List String) (ancestors : List ClassId) :
    m'.heirlooms taken ancestors = m.heirlooms taken ancestors := by
  induction ancestors generalizing taken with
  | nil => rfl
  | cons ancestor farther ih => rw [Model.heirlooms, Model.heirlooms, ih, h.classAt]

/-! ## Heirs -/

theorem Reports.withHeirs (h : m.Reports m') : m'.withHeirs = m.withHeirs := by
  funext id members sources
  have copyEntry : m'.copyEntry = m.copyEntry := by
    funext id source
    rw [Model.copyEntry, Model.copyEntry, copyFor_of_outline_eq h.outline]
  rw [Model.withHeirs, Model.withHeirs, copyEntry]

theorem Reports.effective (h : m.Reports m') : m'.effective = m.effective := by
  funext id
  have ancestors (room : Nat) (seen : List ClassId) (k : ClassId) :
      m'.ancestors room seen k = m.ancestors room seen k := by
    induction room generalizing seen k with
    | zero => rfl
    | succ room ih => simp only [Model.ancestors, h.classAt, ih]
  rw [Model.effective, Model.effective, h.classAt, h.withHeirs, h.heirlooms, h.classes, ancestors]

theorem withHeirs_nil (members : Members) : m.withHeirs id members [] = .ok members := by
  rw [withHeirs, List.mapM_nil, pure_bind, List.append_nil]
  rfl

theorem withHeirs_singleton (members : Members) (source : String × Member) :
    m.withHeirs id members [source] = m.copyFor id source.2 >>= fun copy =>
      .ok (members ++ [(source.1, copy)]) := by
  unfold withHeirs copyEntry
  simp only [List.mapM_cons, List.mapM_nil, bind_assoc, pure_bind]
  rfl

theorem withHeirs_append (members sources sources' : Members) :
    m.withHeirs id members (sources ++ sources') =
      m.withHeirs id members sources >>= fun members' => m.withHeirs id members' sources' := by
  unfold withHeirs
  rw [List.mapM_append]
  simp only [bind_assoc, pure_bind, List.append_assoc]

theorem exists_withHeirs_iff {sources : Members} :
    (∃ members', m.withHeirs id members sources = .ok members') ↔
      ∀ source ∈ sources, ∃ copy, m.copyFor id source.2 = .ok copy := by
  have copied (source : String × Member) : (∃ entry, m.copyEntry id source = .ok entry) ↔
      ∃ copy, m.copyFor id source.2 = .ok copy := by
    simp only [copyEntry, bind_eq_ok]
    exact ⟨fun ⟨_, copy, h, _⟩ => ⟨copy, h⟩, fun ⟨copy, h⟩ => ⟨_, copy, h, rfl⟩⟩
  simp only [← copied, ← exists_mapM_iff, withHeirs, bind_eq_ok]
  exact ⟨fun ⟨_, heirs, h, _⟩ => ⟨heirs, h⟩, fun ⟨heirs, h⟩ => ⟨_, heirs, h, rfl⟩⟩

theorem isHeir_of_copyEntry {source entry : String × Member} (isPublic : source.2.isPrivate = false)
    (h : m.copyEntry id source = .ok entry) : m.IsHeir id source entry := by
  obtain ⟨copy, copied, same⟩ := bind_eq_ok.1 h
  obtain rfl := Except.ok.inj same
  obtain ⟨-, owner, visible, -⟩ := copyFor_eq_ok copied
  have built := Build.Consults.value_bind (Build.reads_buildMember source.2.item id).consults
    (fun made => .pure { made with isPrivate := source.2.isPrivate }) m
  obtain ⟨made, first, same⟩ := bind_eq_ok.1 (built.symm.trans copied)
  refine ⟨rfl, ⟨made, first, ?_⟩, owner, visible.trans isPublic⟩
  rw [← isPublic]
  exact (Except.ok.inj same).symm

/-- Copies of heirlooms are their heirs. -/
theorem exists_heirs_of_withHeirs {sources members' : Members}
    (isPublic : ∀ source ∈ sources, source.2.isPrivate = false)
    (h : m.withHeirs id members sources = .ok members') :
    ∃ heirs, members' = members ++ heirs ∧ List.Forall₂ (m.IsHeir id) sources heirs := by
  obtain ⟨heirs, copied, same⟩ := bind_eq_ok.1 h
  refine ⟨heirs, (Except.ok.inj same).symm, ?_⟩
  refine List.Forall₂.imp (fun source entry both => ?_)
    ((List.forall₂_and_left _ _).2 ⟨isPublic, mapM_eq_ok_iff.1 copied⟩)
  exact isHeir_of_copyEntry both.1 both.2

/-- Copies have the keys of their sources. -/
theorem keys_of_withHeirs {sources members' : Members}
    (h : m.withHeirs id members sources = .ok members') :
    Entries.keys members' = Entries.keys members ++ Entries.keys sources := by
  obtain ⟨heirs, copied, same⟩ := bind_eq_ok.1 h
  have keys : Entries.keys heirs = Entries.keys sources := by
    refine Entries.keys_eq_of_forall₂ ((mapM_eq_ok_iff.1 copied).imp fun source entry copied => ?_)
    obtain ⟨copy, -, same⟩ := bind_eq_ok.1 copied
    rw [← Except.ok.inj same]
  rw [← Except.ok.inj same, Entries.keys_append, keys]

/-- **Every key comes from the nearest ancestor that offers it.** -/
theorem inheritsNearest_of_withHeirs (sound : m.Sound)
    (h : m.withHeirs id (m.classAt id).members
      (m.heirlooms (Entries.keys (m.classAt id).members) ancestors) = .ok members) :
    m.InheritsNearest id ancestors members := by
  have keys := keys_of_withHeirs h
  refine ⟨exists_heirs_of_withHeirs (m.isPublic_heirlooms _ ancestors) h, ?_, fun key => ?_⟩
  · rw [keys]
    refine List.Nodup.append (sound.nodup id) (nodup_keys_heirlooms sound ancestors) ?_
    exact fun key own inherited => (mem_keys_heirlooms.1 inherited).1 own
  · rw [keys, List.mem_append, mem_keys_heirlooms]
    by_cases own : key ∈ Entries.keys (m.classAt id).members <;> simp [own]

/-- **A key that is public in an ancestor is not lost.** -/
theorem InheritsNearest.publicKeys_subset (h : m.InheritsNearest id ancestors members)
    {ancestor : ClassId} {nearer farther : List ClassId} {members' : Members}
    (line : ancestors = nearer ++ ancestor :: farther)
    (h' : m.InheritsNearest ancestor farther members') :
    publicKeys members' ⊆ Entries.keys members := by
  intro key mem
  refine (h.mem_keys key).2 (.inr ?_)
  obtain ⟨inherited, rfl, heirs⟩ := h'.parts
  rw [publicKeys_append, List.mem_append] at mem
  rcases mem with own | heir
  · exact ⟨ancestor, by simp [line], own⟩
  · have heirloom := (publicKeys_sublist inherited).subset heir
    rw [Entries.keys_eq_of_forall₂ (heirs.imp fun _ _ heir => heir.key)] at heirloom
    obtain ⟨other, mem, offered⟩ := (mem_keys_heirlooms.1 heirloom).2
    exact ⟨other, by simp [line, mem], offered⟩

end Model

namespace Build

open Model

variable {α β : Type} {m : Model}

/-- The action has the given value or error, and changes nothing but the reports. -/
def Yields (action : Build α) (m : Model) (result : Except BuildError α) : Prop :=
  Ends action m (fun value m' => result = .ok value ∧ m.Reports m')
    fun error m' => result = .error error ∧ m.Reports m'

namespace Yields

theorem pure (value : α) (m : Model) : Yields (pure value) m (.ok value) := ⟨rfl, .refl m⟩

theorem bind {action : Build β} {next : β → Build α} {first : Except BuildError β}
    {second : β → Except BuildError α} (h : Yields action m first)
    (h' : ∀ value m', first = .ok value → m.Reports m' → Yields (next value) m' (second value)) :
    Yields (action >>= next) m (first >>= second) := by
  rw [Yields, ends_bind]
  refine h.mono ?_ ?_
  · rintro value m' ⟨rfl, reports⟩
    exact (h' value m' rfl reports).mono (fun _ _ => And.imp id reports.trans)
      fun _ _ => And.imp id reports.trans
  · rintro error m' ⟨rfl, reports⟩
    exact ⟨rfl, reports⟩

/-- An action that yields a value ends with it. -/
theorem exists_run {action : Build α} {value : α} (h : Yields action m (.ok value)) :
    ∃ m', action.run m = .ok value m' ∧ m.Reports m' := by
  have ends : Ends action m (fun value' m' => value' = value ∧ m.Reports m') fun _ _ => False :=
    h.mono (fun _ _ done => ⟨(Except.ok.inj done.1).symm, done.2⟩) fun _ _ failed => by
      cases failed.1
  obtain ⟨_, m', run, rfl, reports⟩ := ends.exists_ok
  exact ⟨m', run, reports⟩

end Yields

theorem yields_copyMember (member : Member) (id : ClassId) (m : Model) :
    Yields (copyMember member id) m (m.copyFor id member) :=
  ends_copyMember member id m

/-- A member is inherited when it is public and its key is not taken. -/
theorem inherit_eq (id : ClassId) (members : Members) (entry : String × Member) :
    inherit id members entry =
      if !entry.2.isPrivate && !(Entries.keys members).contains entry.1 then do
        return members ++ [(entry.1, ← copyMember entry.2 id)]
      else return members := by
  have taken : (Entries.get? entry.1 members).isSome = (Entries.keys members).contains entry.1 := by
    rw [Bool.eq_iff_iff, Entries.get?_isSome_iff, List.contains_iff_mem]
  rw [inherit, taken]
  cases entry.2.isPrivate <;> cases (Entries.keys members).contains entry.1 <;> rfl

/-- What is inherited from one class are the heirs of its members that are untaken. -/
theorem yields_inherit {entries members : Members} {id : ClassId}
    (nodup : (Entries.keys entries).Nodup) (m : Model) :
    Yields (entries.foldlM (inherit id) members) m
      (m.withHeirs id members (untaken (Entries.keys members) entries)) := by
  induction entries generalizing members m with
  | nil =>
    rw [untaken, List.filter_nil, withHeirs_nil]
    exact .pure members m
  | cons entry rest ih =>
    obtain ⟨new, nodup⟩ := List.nodup_cons.1 nodup
    rw [List.foldlM_cons, inherit_eq, untaken, List.filter_cons, ← untaken]
    split
    next kept =>
      rw [← List.singleton_append, withHeirs_append]
      refine Yields.bind ?_ fun members' m' first reports => ?_
      · rw [withHeirs_singleton]
        exact (yields_copyMember entry.2 id m).bind fun copy m' _ _ => .pure _ m'
      · -- The key of the entry is taken now, but no other member has it.
        have others :
            untaken (Entries.keys members) rest = untaken (Entries.keys members') rest := by
          refine untaken_congr fun key mem => ?_
          have ne : key ≠ entry.1 := by
            rintro rfl
            exact new mem
          rw [keys_of_withHeirs first, List.mem_append]
          simp [Entries.keys, ne]
        rw [others, ← reports.withHeirs]
        exact ih nodup m'
    next =>
      rw [pure_bind]
      exact ih nodup m

/-- What is inherited from a line of ancestors are the heirs of the heirlooms. -/
theorem yields_inheritFrom {members : Members} {taken : List String} {id : ClassId}
    {ancestors : List ClassId} {m : Model} (sound : m.Sound)
    (same : ∀ key, key ∈ taken ↔ key ∈ Entries.keys members) :
    Yields (ancestors.foldlM (inheritFrom id) members) m
      (m.withHeirs id members (m.heirlooms taken ancestors)) := by
  induction ancestors generalizing members taken m with
  | nil =>
    rw [heirlooms, withHeirs_nil]
    exact .pure members m
  | cons ancestor farther ih =>
    rw [List.foldlM_cons, heirlooms, withHeirs_append]
    refine Yields.bind ?_ fun members' m' first reports => ?_
    · rw [untaken_congr fun key _ => same key]
      exact yields_inherit (sound.nodup ancestor) m
    · have sound' : m'.Sound := (reports.changes ancestor).sound sound
      have same' (key : String) : key ∈ taken ++ publicKeys (m.classAt ancestor).members ↔
          key ∈ Entries.keys members' := by
        rw [keys_of_withHeirs first, List.mem_append, List.mem_append, ← same, keys_untaken,
          List.mem_filter]
        by_cases there : key ∈ taken <;> simp [there]
      rw [← reports.withHeirs, ← reports.heirlooms]
      exact ih sound' same'

/-- **The effective members** of a class are its own and the heirs of its heirlooms. -/
theorem yields_effectiveMembers (sound : m.Sound) (id : ClassId) :
    Yields (effectiveMembers id) m (m.effective id) := by
  unfold effectiveMembers
  rw [Yields, ends_bind, ends_get]
  exact yields_inheritFrom sound fun _ => Iff.rfl

end Build

namespace Model

open Build

variable {m : Model} {id : ClassId} {ancestors : List ClassId}

/-! ## The line of ancestors -/

theorem Lineage.unique (h : m.Lineage id ancestors) {ancestors' : List ClassId}
    (h' : m.Lineage id ancestors') : ancestors = ancestors' := by
  induction h generalizing ancestors' with
  | root none =>
    cases h' with
    | root => rfl
    | child some => exact absurd (none.symm.trans some) nofun
  | child some _ ih =>
    cases h' with
    | root none => exact absurd (none.symm.trans some) nofun
    | child some' rest' =>
      obtain rfl := Option.some.inj (some.symm.trans some')
      rw [ih rest']

/-- What stands behind an ancestor are its own ancestors. -/
theorem Lineage.of_append {nearer farther : List ClassId} {ancestor : ClassId}
    (h : m.Lineage id (nearer ++ ancestor :: farther)) : m.Lineage ancestor farther := by
  induction nearer generalizing id with
  | nil =>
    cases h with
    | child _ rest => exact rest
  | cons next nearer ih =>
    cases h with
    | child _ rest => exact ih rest

theorem Lineage.settled (h : m.Lineage id ancestors) (settled : m.Settled id) :
    ∀ ancestor ∈ ancestors, m.Settled ancestor := by
  induction h with
  | root => exact fun _ mem => absurd mem List.not_mem_nil
  | child some _ ih =>
    have parent := settled.link (.inl some)
    exact List.forall_mem_cons.2 ⟨parent, ih parent⟩

/-- What is known of the effective members of a class. -/
structure InheritsFrom (m : Model) (id : ClassId) (ancestors : List ClassId) : Prop where
  lineage : m.Lineage id ancestors
  /-- The class has effective members when all its heirlooms can be copied. -/
  exists_iff : (∃ members m', (effectiveMembers id).run m = .ok members m') ↔
    ∀ source ∈ m.heirlooms (Entries.keys (m.classAt id).members) ancestors,
      ∃ copy, m.copyFor id source.2 = .ok copy
  /-- No class is changed, and every key is inherited from the nearest ancestor that offers it. -/
  nearest : ∀ members m', (effectiveMembers id).run m = .ok members m' →
    m'.classes = m.classes ∧ m.InheritsNearest id ancestors members
  /-- The class has all public keys of each ancestor, and so no fewer members than there are. -/
  monotone : ∀ members m', (effectiveMembers id).run m = .ok members m' →
    ∀ ancestor ∈ ancestors, ∀ members' m'', (effectiveMembers ancestor).run m = .ok members' m'' →
      publicKeys members' ⊆ Entries.keys members ∧ (publicKeys members').Nodup ∧
        (publicKeys members').length ≤ members.length

theorem Settled.inheritsNearest (settled : m.Settled id) (sound : m.Sound)
    (lineage : m.Lineage id ancestors) {members : Members} {m' : Model}
    (run : (effectiveMembers id).run m = .ok members m') :
    m.Reports m' ∧ m.InheritsNearest id ancestors members := by
  obtain ⟨known, reports⟩ := (yields_effectiveMembers sound id).of_ok run
  rw [Model.effective, settled.lineage.unique lineage] at known
  exact ⟨reports, inheritsNearest_of_withHeirs sound known⟩

theorem Settled.inheritsFrom (settled : m.Settled id) (sound : m.Sound) :
    ∃ ancestors, m.InheritsFrom id ancestors := by
  have lineage := settled.lineage
  refine ⟨_, lineage, ?exists_iff, ?nearest, ?monotone⟩
  case exists_iff =>
    rw [← exists_withHeirs_iff]
    constructor
    · rintro ⟨members, m', run⟩
      exact ⟨members, ((yields_effectiveMembers sound id).of_ok run).1⟩
    · rintro ⟨members, known⟩
      have yields := yields_effectiveMembers sound id
      rw [Model.effective, known] at yields
      obtain ⟨m', run, -⟩ := yields.exists_run
      exact ⟨members, m', run⟩
  case nearest =>
    intro members m' run
    obtain ⟨reports, nearest⟩ := settled.inheritsNearest sound lineage run
    exact ⟨reports.classes, nearest⟩
  case monotone =>
    intro members m' run ancestor mem members' m'' run'
    obtain ⟨nearer, farther, line⟩ := List.append_of_mem mem
    have lineage' : m.Lineage ancestor farther := Lineage.of_append (line ▸ lineage)
    obtain ⟨-, nearest⟩ := settled.inheritsNearest sound lineage run
    obtain ⟨-, nearest'⟩ :=
      (lineage.settled settled ancestor mem).inheritsNearest sound lineage' run'
    have subset := nearest.publicKeys_subset line nearest'
    have nodup := nearest'.nodup.sublist (publicKeys_sublist members')
    refine ⟨subset, nodup, ?_⟩
    simpa [Entries.keys] using nodup.length_le_of_subset subset

end Model
end AmbientDecl
