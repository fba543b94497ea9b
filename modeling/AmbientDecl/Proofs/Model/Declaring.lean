/- # Linking gives a class the members that it declares

The steps of linking compute the members that a class declares (`Linked.declared_eq`), as no class
holds two members under one key.  Merging one mixin makes members public and adds new ones
(`merge_eq_ok`), and what is made public between two mixins can be made public in the end
(`entered_map_revealed`).
-/

import AmbientDecl.Proofs.Model.Declared

namespace AmbientDecl
namespace Model

variable {m : Model} {id : ClassId} {own members mixin : Members}

/-- Merging one member makes the member under its key public or adds a copy. -/
theorem mergeEntry_eq_ok {entry : String × Member} (nodup : (Entries.keys own).Nodup)
    (merged : m.mergeEntry id own entry = .ok members) :
    ∃ new, m.copies id (news own [entry]) = .ok new ∧
      members = own.map (revealed [[entry]]) ++ new := by
  unfold mergeEntry at merged
  split at merged
  · rename_i hidden
    obtain rfl := Except.ok.inj merged
    refine ⟨[], by simp [news, hidden, copies]; rfl, ?_⟩
    rw [List.append_nil, map_revealed_of_hidden hidden]
  · rename_i shown
    have shown := Bool.eq_false_iff.2 shown
    split at merged
    · rename_i absent
      obtain ⟨copy, copied, stored⟩ := bind_eq_ok.1 merged
      obtain rfl := Except.ok.inj stored
      refine ⟨[(entry.1, copy)], ?_, ?_⟩
      · have new : news own [entry] = [entry] := by simp [news, shown, absent]
        rw [new]
        exact copies_cons_eq_ok.2 ⟨copy, copied, [], rfl, rfl⟩
      · rw [map_revealed_of_absent absent, Entries.put_eq_append absent]
    · rename_i existing there
      obtain rfl := Except.ok.inj merged
      refine ⟨[], by simp [news, there, copies]; rfl, ?_⟩
      rw [List.append_nil, put_public there, map_revealed_of_there nodup shown there]

/-- **Merging a mixin** makes public what it has public members for, and adds copies of its public
members with new keys. -/
theorem merge_eq_ok (nodup : (Entries.keys own).Nodup) (nodup' : (Entries.keys mixin).Nodup)
    (merged : m.merge id own mixin = .ok members) :
    ∃ new, m.copies id (news own mixin) = .ok new ∧
      members = own.map (revealed [mixin]) ++ new := by
  induction mixin generalizing own with
  | nil =>
    obtain rfl := Except.ok.inj merged
    have kept : ∀ x ∈ own, revealed [[]] x = x := fun x _ => by
      have nothing : ¬ TableOffers [] x.1 := not_tableOffers List.not_mem_nil
      simp [revealed, nothing]
    exact ⟨[], rfl, by rw [List.append_nil, List.map_congr_left kept, List.map_id']⟩
  | cons entry rest ih =>
    rw [merge, List.foldlM_cons] at merged
    obtain ⟨next, first, merged⟩ := bind_eq_ok.1 merged
    obtain ⟨absent, nodup'⟩ := List.nodup_cons.1 nodup'
    obtain ⟨one, copied, rfl⟩ := mergeEntry_eq_ok nodup first
    have single : (Entries.keys [entry]).Nodup := List.pairwise_singleton _ _
    have nodup₁ := nodup_keys_append nodup single copied
    obtain ⟨others, copied', rfl⟩ := ih (by simpa using nodup₁) nodup' merged
    -- the key of the first member is none of the others, so the others are new as before
    have later : news (own.map (revealed [[entry]]) ++ one) rest = news own rest := by
      refine news_congr fun key mem => ?_
      rw [Entries.keys_append, keys_map_revealed, List.mem_append]
      refine ⟨fun there => there.resolve_right fun added => ?_, .inl⟩
      obtain ⟨x, copy, rfl⟩ := List.mem_map.1 added
      have same := List.mem_singleton.1 (mem_copies_news copied copy).2.1
      exact absent (same ▸ mem)
    have split : news own (entry :: rest) = news own [entry] ++ news own rest :=
      List.filter_append [entry] rest
    rw [later] at copied'
    refine ⟨one ++ others, by rw [split, copies_append copied copied'], ?_⟩
    rw [List.map_append, List.map_map, ← List.append_assoc,
      map_revealed_of_public _ fun x mem => (mem_copies_news copied mem).1]
    exact congrArg (· ++ one ++ others)
      (List.map_congr_left fun x _ => revealed_cons absent x)

/-- What is made public before can be made public in the end. -/
theorem entered_map_revealed {before mixins : List Members}
    (h : m.entered id (own.map (revealed before)) mixins = .ok members) :
    ∃ table, m.entered id own mixins = .ok table ∧ members = table.map (revealed before) := by
  induction mixins generalizing own with
  | nil =>
    obtain rfl := Except.ok.inj h
    exact ⟨own, rfl, rfl⟩
  | cons mixin rest ih =>
    rw [entered, List.foldlM_cons] at h
    obtain ⟨next, step, h⟩ := bind_eq_ok.1 h
    obtain ⟨new, copied, same⟩ := bind_eq_ok.1 step
    obtain rfl := Except.ok.inj same
    have news_eq : news (own.map (revealed before)) mixin = news own mixin :=
      news_congr fun key _ => by rw [keys_map_revealed]
    have added : own.map (revealed before) ++ new = (own ++ new).map (revealed before) := by
      rw [List.map_append,
        map_revealed_of_public before fun x mem => (mem_copies_news copied mem).1]
    rw [added] at h
    obtain ⟨table, entered', same⟩ := ih h
    rw [news_eq] at copied
    refine ⟨table, ?_, same⟩
    rw [entered, List.foldlM_cons, copied]
    exact entered'

/-- Merging several mixins. -/
theorem mixinMembers_eq_ok {mixins : List ClassId} (nodup : (Entries.keys own).Nodup)
    (nodups : ∀ k ∈ mixins, (Entries.keys (m.classAt k).members).Nodup)
    (merged : m.mixinMembers id own mixins = .ok members) :
    ∃ table, m.entered id own (mixins.map fun k => (m.classAt k).members) = .ok table ∧
      members = table.map (revealed (mixins.map fun k => (m.classAt k).members)) := by
  induction mixins generalizing own with
  | nil =>
    obtain rfl := Except.ok.inj merged
    have kept : ∀ x ∈ own, revealed [] x = x := fun x _ => by simp [revealed]
    exact ⟨own, rfl, by rw [List.map_nil, List.map_congr_left kept, List.map_id']⟩
  | cons k rest ih =>
    rw [mixinMembers, List.foldlM_cons] at merged
    obtain ⟨next, first, merged⟩ := bind_eq_ok.1 merged
    have nodup' := nodups k List.mem_cons_self
    obtain ⟨new, copied, rfl⟩ := merge_eq_ok nodup nodup' first
    have nodup₁ := nodup_keys_append nodup nodup' copied
    obtain ⟨table, entered', rfl⟩ := ih (by simpa using nodup₁)
      (fun l mem => nodups l (List.mem_cons_of_mem _ mem)) merged
    rw [← map_revealed_of_public [(m.classAt k).members]
      fun x mem => (mem_copies_news copied mem).1, ← List.map_append] at entered'
    obtain ⟨table', enteredAll, rfl⟩ := entered_map_revealed entered'
    refine ⟨table', ?_, ?_⟩
    · rw [List.map_cons, entered, List.foldlM_cons, copied]
      exact enteredAll
    · rw [List.map_map]
      exact List.map_congr_left fun x _ => revealed_revealed [_] _ x

/-- The factory of a parent comes in as a copy. -/
theorem parentMembers_eq_ok {parent? : Option ClassId} (nodup : (Entries.keys own).Nodup)
    (h : m.parentMembers id own parent? = .ok members) :
    ∃ factory, m.copies id (inheritedFactory own
        ((parent?.map fun p => (m.classAt p).members).getD [])) = .ok factory ∧
      members = own ++ factory ∧ (Entries.keys members).Nodup := by
  cases parent? with
  | none =>
    obtain rfl := Except.ok.inj h
    exact ⟨[], rfl, (List.append_nil own).symm, nodup⟩
  | some p =>
    rw [Option.map_some, Option.getD_some]
    rw [parentMembers] at h
    cases create? : Entries.get? Member.createKey (m.classAt p).members with
    | none =>
      simp only [withFactory, create?] at h
      obtain rfl := Except.ok.inj h
      exact ⟨[], by simp only [inheritedFactory, create?]; rfl, (List.append_nil own).symm, nodup⟩
    | some create =>
      simp only [withFactory, create?] at h
      simp only [inheritedFactory, create?]
      by_cases there : (Entries.get? Member.createKey own).isSome = true
      · rw [if_pos there] at h ⊢
        obtain rfl := Except.ok.inj h
        exact ⟨[], rfl, (List.append_nil own).symm, nodup⟩
      · rw [if_neg there] at h ⊢
        obtain ⟨copy, copied, same⟩ := bind_eq_ok.1 h
        obtain rfl := Except.ok.inj same
        have absent := Option.not_isSome_iff_eq_none.1 there
        exact ⟨[(Member.createKey, copy)], copies_cons_eq_ok.2 ⟨copy, copied, [], rfl, rfl⟩,
          Entries.put_eq_append absent copy, Entries.nodup_keys_put _ _ nodup⟩

/-- **Linking computes what a class declares.** -/
theorem Linked.declared_eq {start : Class} {busy : ClassId → Bool} (h : m.Linked start busy id)
    (nodup : (Entries.keys start.members).Nodup)
    (nodups : ∀ k, (Entries.keys (m.classAt k).members).Nodup) :
    m.declared id start.members ((m.parentOf? id).map fun p => (m.classAt p).members)
      (((m.classAt id).implemented.filterMap TypeRef.target?).map fun k => (m.classAt k).members) =
        .ok (m.classAt id).members := by
  obtain ⟨base, inherited, merged⟩ := h.members
  obtain ⟨factory, copied, rfl, nodup'⟩ := parentMembers_eq_ok nodup inherited
  obtain ⟨table, entered', same⟩ := mixinMembers_eq_ok nodup' (fun k _ => nodups k) merged
  rw [declared, copied, bind_ok, entered', bind_ok, same]
  rfl

end Model
end AmbientDecl
