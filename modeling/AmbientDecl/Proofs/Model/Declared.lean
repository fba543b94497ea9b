/- # The members that a class declares

What the members of a class are once it is linked, said at one go for the members that its parent
and its mixins have in the end (`declared`): the own members in their order, then a copy of the
factory of the parent where there is none, then for each mixin in order copies of its public
members with new keys.  Of these, a member is private that came in as a private one and under
whose key no mixin has a public member.
-/

import AmbientDecl.Proofs.Model.Contract

namespace AmbientDecl

namespace Model

variable {m : Model} {id : ClassId} {own members mixin : Members}

/-- The copies of members for a class. -/
def copies (m : Model) (id : ClassId) (members : Members) : Except BuildError Members :=
  members.mapM fun entry => do return (entry.1, ← m.copyFor id entry.2)

/-- The public members of a mixin with keys that are not taken. -/
def news (table mixin : Members) : Members :=
  mixin.filter fun entry => !entry.2.isPrivate && (Entries.get? entry.1 table).isNone

/-- A member as it is in the end: it is public if a mixin has a public member under its key. -/
def revealed (mixins : List Members) (entry : String × Member) : String × Member :=
  (entry.1, { entry.2 with
    isPrivate := entry.2.isPrivate && !mixins.any fun mixin => decide (TableOffers mixin entry.1) })

/-- The factory that a class takes over from its parent. -/
def inheritedFactory (own parent : Members) : Members :=
  match Entries.get? Member.createKey parent with
  | none => []
  | some create =>
    if (Entries.get? Member.createKey own).isSome then [] else [(Member.createKey, create)]

/-- Members as they come in from several mixins, in order. -/
def entered (m : Model) (id : ClassId) (base : Members) (mixins : List Members) :
    Except BuildError Members :=
  mixins.foldlM (fun table mixin => do return table ++ (← m.copies id (news table mixin))) base

/-- The members of a class in the end, by its own members and by those that its parent and its
mixins have in the end. -/
def declared (m : Model) (id : ClassId) (own : Members) (parent? : Option Members)
    (mixins : List Members) : Except BuildError Members := do
  let factory ← m.copies id (inheritedFactory own (parent?.getD []))
  return (← m.entered id (own ++ factory) mixins).map (revealed mixins)

variable {key : String} {new : Members}

theorem copies_cons_eq_ok {entry : String × Member} {rest : Members} :
    m.copies id (entry :: rest) = .ok new ↔ ∃ copy, m.copyFor id entry.2 = .ok copy ∧
      ∃ others, m.copies id rest = .ok others ∧ new = (entry.1, copy) :: others := by
  rw [copies, List.mapM_cons, bind_eq_ok]
  constructor
  · rintro ⟨first, made, h⟩
    obtain ⟨copy, copied, same⟩ := bind_eq_ok.1 made
    obtain ⟨others, copied', same'⟩ := bind_eq_ok.1 h
    obtain rfl := Except.ok.inj same
    exact ⟨copy, copied, others, copied', (Except.ok.inj same').symm⟩
  · rintro ⟨copy, copied, others, copied', rfl⟩
    refine ⟨(entry.1, copy), by rw [copied]; rfl, ?_⟩
    rw [copies] at copied'
    rw [copied']
    rfl

theorem copies_append {first second new' : Members} (h : m.copies id first = .ok new)
    (h' : m.copies id second = .ok new') : m.copies id (first ++ second) = .ok (new ++ new') := by
  induction first generalizing new with
  | nil =>
    obtain rfl := Except.ok.inj h
    exact h'
  | cons entry rest ih =>
    obtain ⟨copy, copied, others, copied', rfl⟩ := copies_cons_eq_ok.1 h
    exact copies_cons_eq_ok.2 ⟨copy, copied, others ++ new', ih copied', rfl⟩

/-- Copies have the keys of their sources and their privacy. -/
theorem mem_copies {members : Members} (h : m.copies id members = .ok new)
    {entry : String × Member} (mem : entry ∈ new) :
    ∃ source ∈ members, source.1 = entry.1 ∧ source.2.isPrivate = entry.2.isPrivate := by
  induction members generalizing new with
  | nil =>
    obtain rfl := Except.ok.inj h
    exact absurd mem List.not_mem_nil
  | cons first rest ih =>
    obtain ⟨copy, copied, others, copied', rfl⟩ := copies_cons_eq_ok.1 h
    rcases List.mem_cons.1 mem with rfl | mem
    · exact ⟨first, List.mem_cons_self, rfl, (copyFor_eq_ok copied).2.2.1.symm⟩
    · obtain ⟨source, there, same⟩ := ih copied' mem
      exact ⟨source, List.mem_cons_of_mem _ there, same⟩

/-- The copies of new members are public and have keys of the mixin that were not taken. -/
theorem mem_copies_news (h : m.copies id (news own mixin) = .ok new) {entry : String × Member}
    (mem : entry ∈ new) : entry.2.isPrivate = false ∧ entry.1 ∈ Entries.keys mixin ∧
      Entries.get? entry.1 own = none := by
  obtain ⟨source, there, key, hidden⟩ := mem_copies h mem
  obtain ⟨there, fits⟩ := List.mem_filter.1 there
  simp only [Bool.and_eq_true, Bool.not_eq_true', Option.isNone_iff_eq_none] at fits
  rw [← key, ← hidden]
  exact ⟨fits.1, List.mem_map.2 ⟨source, there, rfl⟩, fits.2⟩

theorem revealed_of_public (mixins : List Members) {entry : String × Member}
    (shown : entry.2.isPrivate = false) : revealed mixins entry = entry := by
  obtain ⟨key, member⟩ := entry
  cases member
  simp_all [revealed]

theorem map_revealed_of_public (mixins : List Members) {members : Members}
    (shown : ∀ entry ∈ members, entry.2.isPrivate = false) :
    members.map (revealed mixins) = members :=
  (List.map_congr_left fun entry mem => revealed_of_public mixins (shown entry mem)).trans
    (List.map_id' members)

theorem revealed_revealed (first second : List Members) (entry : String × Member) :
    revealed second (revealed first entry) = revealed (first ++ second) entry := by
  simp only [revealed, List.any_append, Bool.not_or, Bool.and_assoc]
  rfl

theorem tableOffers_cons {entry : String × Member} {rest : Members} :
    TableOffers (entry :: rest) key ↔
      if entry.1 = key then entry.2.isPrivate = false else TableOffers rest key := by
  obtain ⟨k, member⟩ := entry
  unfold TableOffers
  by_cases same : k = key <;> simp [Entries.get?, same]

theorem not_tableOffers (absent : key ∉ Entries.keys mixin) : ¬ TableOffers mixin key := by
  rintro ⟨member, there, -⟩
  exact absent (Entries.get?_isSome_iff.1 (by rw [there]; rfl))

/-- What one member of a mixin makes public and then the others is what the mixin makes public. -/
theorem revealed_cons {entry : String × Member} {rest : Members}
    (absent : entry.1 ∉ Entries.keys rest) (x : String × Member) :
    revealed [rest] (revealed [[entry]] x) = revealed [entry :: rest] x := by
  rw [revealed_revealed]
  have none : ¬ TableOffers rest entry.1 := not_tableOffers absent
  have nothing : ¬ TableOffers [] x.1 := not_tableOffers List.not_mem_nil
  by_cases same : entry.1 = x.1
  · rw [same] at none
    simp [revealed, tableOffers_cons, same, none]
  · simp [revealed, tableOffers_cons, same, nothing]

/-- A member with another key makes nothing public in a table without its key. -/
theorem map_revealed_of_absent {entry : String × Member}
    (absent : Entries.get? entry.1 own = none) : own.map (revealed [[entry]]) = own := by
  refine (List.map_congr_left fun x mem => ?_).trans (List.map_id' own)
  have ne : entry.1 ≠ x.1 := by
    intro same
    have there := Entries.get?_isSome_iff.2 (List.mem_map.2 ⟨x, mem, same.symm⟩)
    rw [absent] at there
    cases there
  have nothing : ¬ TableOffers [] x.1 := not_tableOffers List.not_mem_nil
  simp [revealed, tableOffers_cons, ne, nothing]

/-- A member that no public member comes for stays as it is. -/
theorem map_revealed_of_hidden {entry : String × Member} (hidden : entry.2.isPrivate = true)
    (own : Members) : own.map (revealed [[entry]]) = own := by
  refine (List.map_congr_left fun x _ => ?_).trans (List.map_id' own)
  have nothing : ¬ TableOffers [] x.1 := not_tableOffers List.not_mem_nil
  simp [revealed, tableOffers_cons, hidden, nothing]

/-- A public member makes the member public that stands under its key. -/
theorem map_revealed_of_there {entry : String × Member} {existing : Member}
    (nodup : (Entries.keys own).Nodup) (shown : entry.2.isPrivate = false)
    (there : Entries.get? entry.1 own = some existing) :
    own.map (revealed [[entry]]) =
      Entries.put entry.1 { existing with isPrivate := false } own := by
  rw [Entries.put_eq_map nodup there]
  refine List.map_congr_left fun x mem => ?_
  have nothing : ¬ TableOffers [] x.1 := not_tableOffers List.not_mem_nil
  by_cases same : x.1 = entry.1
  · have found := Entries.get?_of_mem nodup mem
    rw [same, there] at found
    simp [revealed, tableOffers_cons, same, shown, Option.some.inj found]
  · simp [revealed, tableOffers_cons, same, Ne.symm same, nothing]

/-- Writing a member as it is, or making it public, is making it public. -/
theorem put_public {existing : Member} (there : Entries.get? key own = some existing) :
    (if existing.isPrivate = true then
        Entries.put key { existing with isPrivate := false } own else own) =
      Entries.put key { existing with isPrivate := false } own := by
  by_cases hidden : existing.isPrivate = true
  · rw [if_pos hidden]
  · have same : ({ existing with isPrivate := false } : Member) = existing := by
      cases existing
      simp_all
    rw [if_neg hidden, same, Entries.put_of_get? there]

/-- Which members of a mixin are new depends on the keys that are taken. -/
theorem news_congr {table table' : Members}
    (same : ∀ key ∈ Entries.keys mixin, key ∈ Entries.keys table ↔ key ∈ Entries.keys table') :
    news table mixin = news table' mixin := by
  refine List.filter_congr fun entry mem => ?_
  have iff := same entry.1 (List.mem_map.2 ⟨entry, mem, rfl⟩)
  simp only [Entries.isNone_get?, iff]

@[simp] theorem keys_map_revealed (mixins : List Members) (table : Members) :
    Entries.keys (table.map (revealed mixins)) = Entries.keys table := by
  simp [Entries.keys, revealed, Function.comp_def]

theorem keys_copies (h : m.copies id members = .ok new) :
    Entries.keys new = Entries.keys members := by
  induction members generalizing new with
  | nil =>
    obtain rfl := Except.ok.inj h
    rfl
  | cons first rest ih =>
    obtain ⟨copy, -, others, copied', rfl⟩ := copies_cons_eq_ok.1 h
    exact congrArg (first.1 :: ·) (ih copied')

/-- No key comes twice when new members are added. -/
theorem nodup_keys_append (nodup : (Entries.keys own).Nodup) (nodup' : (Entries.keys mixin).Nodup)
    (h : m.copies id (news own mixin) = .ok new) :
    (Entries.keys own ++ Entries.keys new).Nodup := by
  refine List.nodup_append.2 ⟨nodup, ?_, fun key mem key' mem' same => ?_⟩
  · rw [keys_copies h]
    exact nodup'.sublist (List.filter_sublist.map _)
  · obtain ⟨entry, there, rfl⟩ := List.mem_map.1 mem'
    have absent := (mem_copies_news h there).2.2
    have present := Entries.get?_isSome_iff.2 (same ▸ mem)
    rw [absent] at present
    cases present

end Model
end AmbientDecl
