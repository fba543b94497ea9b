/- # What resolved classes keep to

A table of members **offers** a key when a public member stands under it.  Merging a mixin never
takes a key away and never makes a member private, and it makes the table offer all that the mixin
offers (`mixinMembers_grows`).  Mixins are settled before they are merged and stay as they are, so
a resolved class offers what any class offers that it implements at any distance
(`Consistent.offers`).

These hold in every model that is reached from an assembled one by resolving classes in any order,
whether the calls end well or not (`Reaches.contract`).
-/

import AmbientDecl.Proofs.Model.Assembled

namespace AmbientDecl
namespace Model

variable {m m' m₀ : Model} {id other parent : ClassId} {own members mixin : Members}
  {key : String} {origin : Origin}

/-- A public member stands under a key. -/
def TableOffers (members : Members) (key : String) : Prop :=
  ∃ member, Entries.get? key members = some member ∧ member.isPrivate = false

/-- A class has a public member under a key. -/
def Offers (m : Model) (id : ClassId) (key : String) : Prop :=
  TableOffers (m.classAt id).members key

/-- A class has a member under a key. -/
def Holds (m : Model) (id : ClassId) (key : String) : Prop :=
  (Entries.get? key (m.classAt id).members).isSome

/-- A class is linked to another one as a type that it implements. -/
def Implements (m : Model) (id other : ClassId) : Prop :=
  .linked other ∈ (m.classAt id).implemented

instance (members : Members) (key : String) : Decidable (TableOffers members key) :=
  decidable_of_iff ((Entries.get? key members).any fun member => !member.isPrivate)
    (by simp [TableOffers, Option.any_eq_true])

instance (m : Model) (id : ClassId) (key : String) : Decidable (m.Offers id key) :=
  inferInstanceAs (Decidable (TableOffers _ _))

instance (m : Model) (id other : ClassId) : Decidable (m.Implements id other) :=
  inferInstanceAs (Decidable (_ ∈ _))

/-- All keys of a table are there in another one, and what is public in it is public there. -/
structure Grows (own members : Members) : Prop where
  holds : ∀ key, (Entries.get? key own).isSome → (Entries.get? key members).isSome
  offers : ∀ key, TableOffers own key → TableOffers members key

theorem Grows.refl (own : Members) : Grows own own := ⟨fun _ h => h, fun _ h => h⟩

theorem Grows.trans {later : Members} (h : Grows own members) (h' : Grows members later) :
    Grows own later :=
  ⟨fun key there => h'.holds key (h.holds key there),
    fun key there => h'.offers key (h.offers key there)⟩

/-- Writing a public member under a key leaves every other key alone. -/
theorem grows_put {member : Member} (shown : member.isPrivate = false) (key : String)
    (own : Members) :
    Grows own (Entries.put key member own) ∧ TableOffers (Entries.put key member own) key := by
  refine ⟨⟨fun k there => ?_, fun k there => ?_⟩, member, ?_, shown⟩
  · rw [Entries.get?_put]
    split
    · rfl
    · exact there
  · unfold TableOffers
    rw [Entries.get?_put]
    split
    · exact ⟨member, rfl, shown⟩
    · exact there
  · rw [Entries.get?_put, if_pos rfl]

/-- Merging a member takes nothing away, and the key of a public member is offered then. -/
theorem mergeEntry_grows {entry : String × Member}
    (merged : m.mergeEntry id own entry = .ok members) :
    Grows own members ∧ (entry.2.isPrivate = false → TableOffers members entry.1) := by
  unfold mergeEntry at merged
  split at merged
  · rename_i hidden
    obtain rfl := Except.ok.inj merged
    refine ⟨.refl own, fun shown => ?_⟩
    rw [shown] at hidden
    cases hidden
  · rename_i shown
    have shown := Bool.eq_false_iff.2 shown
    split at merged
    · obtain ⟨copy, copied, stored⟩ := bind_eq_ok.1 merged
      obtain rfl := Except.ok.inj stored
      have put := grows_put ((copyFor_eq_ok copied).2.2.1.trans shown) entry.1 own
      exact ⟨put.1, fun _ => put.2⟩
    · rename_i existing there
      obtain rfl := Except.ok.inj merged
      by_cases hidden : existing.isPrivate = true
      · rw [if_pos hidden]
        have opened : ({ existing with isPrivate := false } : Member).isPrivate = false := rfl
        have put := grows_put opened entry.1 own
        exact ⟨put.1, fun _ => put.2⟩
      · rw [if_neg hidden]
        exact ⟨.refl own, fun _ => ⟨existing, there, Bool.eq_false_iff.2 hidden⟩⟩

/-- Merging a mixin takes nothing away, and what the mixin offers is offered then. -/
theorem merge_grows (merged : m.merge id own mixin = .ok members) :
    Grows own members ∧ ∀ key, TableOffers mixin key → TableOffers members key := by
  have entries : Grows own members ∧
      ∀ entry ∈ mixin, entry.2.isPrivate = false → TableOffers members entry.1 := by
    induction mixin generalizing own with
    | nil =>
      obtain rfl := Except.ok.inj merged
      exact ⟨.refl own, fun _ mem => absurd mem List.not_mem_nil⟩
    | cons entry rest ih =>
      rw [merge, List.foldlM_cons] at merged
      obtain ⟨next, first, merged⟩ := bind_eq_ok.1 merged
      obtain ⟨grows, offers⟩ := mergeEntry_grows first
      obtain ⟨grows', offers'⟩ := ih merged
      refine ⟨grows.trans grows', fun entry' mem shown => ?_⟩
      rcases List.mem_cons.1 mem with rfl | mem
      · exact grows'.offers _ (offers shown)
      · exact offers' entry' mem shown
  refine ⟨entries.1, ?_⟩
  rintro key ⟨member, there, shown⟩
  exact entries.2 (key, member) (Entries.mem_of_get? there) shown

/-- Merging several mixins takes nothing away, and what any of them offers is offered then. -/
theorem mixinMembers_grows {mixins : List ClassId}
    (merged : m.mixinMembers id own mixins = .ok members) :
    Grows own members ∧ ∀ k ∈ mixins, ∀ key, m.Offers k key → TableOffers members key := by
  induction mixins generalizing own with
  | nil =>
    obtain rfl := Except.ok.inj merged
    exact ⟨.refl own, fun _ mem => absurd mem List.not_mem_nil⟩
  | cons k rest ih =>
    rw [mixinMembers, List.foldlM_cons] at merged
    obtain ⟨next, first, merged⟩ := bind_eq_ok.1 merged
    obtain ⟨grows, offers⟩ := merge_grows first
    obtain ⟨grows', offers'⟩ := ih merged
    refine ⟨grows.trans grows', fun l mem key offered => ?_⟩
    rcases List.mem_cons.1 mem with rfl | mem
    · exact grows'.offers key (offers key offered)
    · exact offers' l mem key offered

/-- The factory of a parent is there after it is declared again. -/
theorem holds_withFactory {table : Members} (added : m.withFactory id own table = .ok members)
    (there : (Entries.get? Member.createKey table).isSome) :
    (Entries.get? Member.createKey members).isSome := by
  unfold withFactory at added
  split at added
  · rename_i absent
    rw [absent] at there
    cases there
  · rename_i create _
    split at added
    · rename_i own_there
      obtain rfl := Except.ok.inj added
      exact own_there
    · obtain ⟨copy, -, stored⟩ := bind_eq_ok.1 added
      obtain rfl := Except.ok.inj stored
      rw [Entries.get?_put, if_pos rfl]
      rfl

/-- What a class offers that a resolved class implements, the resolved class offers too. -/
theorem Consistent.offers_of_implements (h : Consistent origin m) (resolved : m.IsResolved id)
    (link : m.Implements id other) (offered : m.Offers other key) : m.Offers id key := by
  obtain ⟨start, busy, -, linked⟩ := h.linked id resolved
  obtain ⟨members, -, merged⟩ := linked.members
  exact (mixinMembers_grows merged).2 other (List.mem_filterMap.2 ⟨_, link, rfl⟩) key offered

/-- **A resolved class offers what the classes offer that it implements at any distance.** -/
theorem Consistent.offers (h : Consistent origin m) (resolved : m.IsResolved id)
    (links : Relation.TransGen m.Implements id other) (offered : m.Offers other key) :
    m.Offers id key := by
  induction links using Relation.TransGen.head_induction_on with
  | single link => exact h.offers_of_implements resolved link offered
  | head link _ ih =>
    have next := (h.settled _ resolved).link (.inr link)
    exact h.offers_of_implements resolved link (ih next.resolved)

/-- A resolved class has the factory that its parent has. -/
theorem Consistent.holds_factory (h : Consistent origin m) (resolved : m.IsResolved id)
    (child : (m.classAt id).parent? = some parent) (there : m.Holds parent Member.createKey) :
    m.Holds id Member.createKey := by
  obtain ⟨start, busy, -, linked⟩ := h.linked id resolved
  obtain ⟨members, factory, merged⟩ := linked.members
  rw [← linked.parent, child] at factory
  exact (mixinMembers_grows merged).1.holds _ (holds_withFactory factory there)

/-- The models that are reached from a model by calls that resolve registered classes, whether
the calls end well or not. -/
inductive Reaches (m₀ : Model) : Model → Prop where
  | start : Reaches m₀ m₀
  | resolve {m : Model} {id : ClassId} (before : Reaches m₀ m)
      (registered : id < m.classes.length) : Reaches m₀ (Build.after (Build.resolve id) m)
  | resolveAll {m : Model} {ids : List ClassId} (before : Reaches m₀ m)
      (registered : ∀ id ∈ ids, id < m.classes.length) :
      Reaches m₀ (Build.after (Build.resolveAll ids) m)

theorem Reaches.consistent (h : m₀.Reaches m) (start : Consistent anyOrigin m₀) :
    Consistent anyOrigin m := by
  induction h with
  | start => exact start
  | resolve _ registered ih =>
    refine Build.Ends.after (Build.ends_resolve ih registered) ?_ ?_
    · exact fun _ _ h => h.1
    · exact fun _ _ h => h.1
  | resolveAll _ registered ih =>
    refine Build.Ends.after (Build.ends_resolveAll ih registered) ?_ ?_
    · exact fun _ _ h => h.1
    · exact fun _ _ h => h.1

/-- **Resolved classes satisfy what they declare.**  However classes of an assembled model have
been resolved, also by calls that stopped with an error, every class that is resolved

* offers every key that is offered by a class which it implements at any distance,
* has a factory when its parent has one,
* stores every member under the key of the member and owns it, and
* is returned by its factory when nothing is said of the result of the factory. -/
theorem Reaches.contract {settings : Settings} {document : Document}
    (assembled : (Build.assemble document).run (empty settings) = .ok () m₀)
    (reached : m₀.Reaches m) (resolved : m.IsResolved id) :
    (∀ other key, Relation.TransGen m.Implements id other → m.Offers other key →
      m.Offers id key) ∧
    (∀ parent, (m.classAt id).parent? = some parent → m.Holds parent Member.createKey →
      m.Holds id Member.createKey) ∧
    (∀ key member, (key, member) ∈ (m.classAt id).members →
      key = member.key ∧ member.owner = id) ∧
    ∀ key member, (key, member) ∈ (m.classAt id).members → member.item.isStatic →
      member.item.name = "create" → member.item.result = .undocumented →
        member.returnType = some (.str (m.classAt id).name) := by
  have start := (Build.ends_assemble (unlinked_empty settings) document).of_ok assembled
  have consistent := reached.consistent start.consistent
  refine ⟨?_, ?_, ?_, ?_⟩
  · intro other key links offered
    exact consistent.offers resolved links offered
  · intro parent child there
    exact consistent.holds_factory resolved child there
  · intro key member mem
    have entry := consistent.sound.entry id _ mem
    exact ⟨entry.key, entry.owner⟩
  · intro key member mem
    exact (consistent.sound.entry id _ mem).factory

/-- The class `A` uses `B`, which uses `C`, and the class `D` extends itself. -/
def nestedMixins : Document := .ofFields [
  ("classes", .obj [
    ("A", .obj [("uses", .arr [.str "B"])]),
    ("B", .obj [("uses", .arr [.str "C"])]),
    ("C", .obj []),
    ("D", .obj [("extends", .str "D")])]),
  ("classitems", .arr [
    .obj [("class", .str "C"), ("name", .str "isOpen"), ("itemtype", .str "property")]])]

/-- The model for nested mixins before any class is resolved. -/
def nestedStart : Model := Build.after (Build.assemble nestedMixins) (empty .blank)

/-- The model after the call for `D`, which fails, and the call for `A`. -/
def nestedEnd : Model := Build.after (Build.resolve 0) (Build.after (Build.resolve 3) nestedStart)

/-- After a call that failed, `A` offers what `C` offers. -/
theorem contract_nestedMixins :
    Build.value (Build.resolve 3) nestedStart = .error (.cycle ["D", "D"]) ∧
      nestedEnd.IsResolved 0 ∧ nestedEnd.Offers 2 "isOpen" ∧ nestedEnd.Offers 0 "isOpen" := by
  have assembled : (Build.assemble nestedMixins).run (empty .blank) = .ok () nestedStart :=
    Build.run_of_succeeds (by decide +kernel)
  have failed : Build.value (Build.resolve 3) nestedStart = .error (.cycle ["D", "D"]) := by rfl
  have registered₃ : 3 < nestedStart.classes.length := by decide +kernel
  have registered₀ : 0 < (Build.after (Build.resolve 3) nestedStart).classes.length := by
    decide +kernel
  have first : nestedStart.Reaches (Build.after (Build.resolve 3) nestedStart) :=
    .resolve .start registered₃
  have reached : nestedStart.Reaches nestedEnd := .resolve first registered₀
  have resolved : nestedEnd.IsResolved 0 := by decide +kernel
  have link : nestedEnd.Implements 0 1 := by decide +kernel
  have link' : nestedEnd.Implements 1 2 := by decide +kernel
  have offered : nestedEnd.Offers 2 "isOpen" := by decide +kernel
  have contract := Reaches.contract assembled reached resolved
  exact ⟨failed, resolved, offered, contract.1 2 "isOpen" (.head link (.single link')) offered⟩

end Model
end AmbientDecl
