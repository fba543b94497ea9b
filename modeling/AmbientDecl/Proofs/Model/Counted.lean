/- # How many members a report counts

The report of a run counts the effective members of a class under the full name of the class.  A
class may have the full name of another one, since the name in its record need not be the key that
it is registered under, and then the count is that of the last class with the name
(`get?_countEffective`).

So for the last class with a full name the report gives the number of its effective members, and it
has at least as many as any of its ancestors has public ones (`generated_inherits`).
-/

import AmbientDecl.Proofs.Model.Copies
import AmbientDecl.Proofs.Model.Inherited

namespace AmbientDecl

/-- No class that was registered later has the full name of the class. -/
structure Model.IsLastOfName (m : Model) (id : ClassId) : Prop where
  registered : id < m.classes.length
  unshared : ∀ later, id < later → later < m.classes.length → m.fullName later ≠ m.fullName id

namespace Build

open Model

variable {m m' : Model} {id : ClassId}

/-- The count of the members of a class, after the counts of other classes. -/
def countEffective (m : Model) (counts : List (String × Nat)) (id : ClassId) :
    Except BuildError (List (String × Nat)) := do
  return Entries.put (m.fullName id) (← m.effective id).length counts

/-- The counts of a report are those of the effective members, whatever has been reported since. -/
theorem yields_counts (sound : m.Sound) (reports : m.Reports m') (ids : List ClassId)
    (counts : List (String × Nat)) :
    Yields (ids.foldlM Report.countMembers counts) m' (ids.foldlM (countEffective m) counts) := by
  induction ids generalizing counts m' with
  | nil => exact .pure counts m'
  | cons id rest ih =>
    rw [List.foldlM_cons, List.foldlM_cons]
    refine Yields.bind ?_ fun counts' m'' _ more => ih (reports.trans more) counts'
    have members := yields_effectiveMembers ((reports.changes id).sound sound) id
    rw [reports.effective] at members
    refine members.bind fun members m'' _ more => ?_
    rw [← fullName_of_outline_eq (reports.trans more).outline]
    exact .pure _ m''

/-- A count is not changed by classes with other full names. -/
theorem get?_countEffective_of_ne {ids : List ClassId} {counts counts' : List (String × Nat)}
    (h : ids.foldlM (countEffective m) counts = .ok counts') {name : String}
    (others : ∀ other ∈ ids, m.fullName other ≠ name) :
    Entries.get? name counts' = Entries.get? name counts := by
  induction ids generalizing counts with
  | nil => rw [Except.ok.inj h]
  | cons other rest ih =>
    obtain ⟨ne, others⟩ := List.forall_mem_cons.1 others
    rw [List.foldlM_cons] at h
    obtain ⟨counted, first, after⟩ := bind_eq_ok.1 h
    obtain ⟨members, -, same⟩ := bind_eq_ok.1 first
    rw [ih after others, ← Except.ok.inj same, Entries.get?_put, if_neg ne]

/-- The last class with a full name is the one that is counted under it. -/
theorem get?_countEffective {before after : List ClassId} {counts counts' : List (String × Nat)}
    (h : (before ++ id :: after).foldlM (countEffective m) counts = .ok counts')
    (last : ∀ later ∈ after, m.fullName later ≠ m.fullName id) :
    ∃ members, m.effective id = .ok members ∧
      Entries.get? (m.fullName id) counts' = some members.length := by
  rw [List.foldlM_append] at h
  obtain ⟨earlier, -, own⟩ := bind_eq_ok.1 h
  rw [List.foldlM_cons] at own
  obtain ⟨counted, first, rest⟩ := bind_eq_ok.1 own
  obtain ⟨members, effective, same⟩ := bind_eq_ok.1 first
  refine ⟨members, effective, ?_⟩
  rw [get?_countEffective_of_ne rest last, ← Except.ok.inj same, Entries.get?_put, if_pos rfl]

/-- What a report says of the number of the members of a class. -/
theorem within_ofCounts (name : String) (counts : List (String × Nat)) :
    (Report.ofCounts counts).within? [name] = (Entries.get? name counts).map fun count =>
      .int count := by
  unfold Report.ofCounts Json.within?
  induction counts with
  | nil => rfl
  | cons entry rest ih =>
    obtain ⟨key, count⟩ := entry
    rw [List.map_cons, Entries.get?, Entries.get?]
    split
    · rfl
    · exact ih

/-- A report counts the members of the last class with a full name under that name. -/
theorem report_counts {fingerprint : String} {report : Json} (sound : m.Sound)
    (run : (Report.build fingerprint).run m = .ok report m') :
    m.Reports m' ∧ ∀ id, m.IsLastOfName id → ∃ members, m.effective id = .ok members ∧
      report.within? ["stats", "member_counts", m.fullName id] = some (.int members.length) := by
  have ends : Ends (Report.build fingerprint) m (fun report m' => ∃ counts,
      m.classIds.foldlM (countEffective m) [] = .ok counts ∧ m.Reports m' ∧
        ∀ name, report.within? ["stats", "member_counts", name] =
          (Report.ofCounts counts).within? [name]) fun _ _ => True := by
    unfold Report.build
    rw [ends_bind, ends_get, ends_bind]
    refine (yields_counts sound (.refl m) m.classIds []).mono ?_ fun _ _ _ => trivial
    rintro counts m' ⟨counted, reports⟩
    exact ⟨counts, counted, reports, fun _ => rfl⟩
  obtain ⟨counts, counted, reports, shown⟩ := ends.of_ok run
  refine ⟨reports, fun id last => ?_⟩
  obtain ⟨before, after, split⟩ := List.append_of_mem (List.mem_range.2 last.registered)
  rw [classIds, split] at counted
  obtain ⟨members, effective, count⟩ := get?_countEffective counted fun later mem => by
    have ordered := List.pairwise_lt_range (n := m.classes.length)
    rw [split, List.pairwise_append, List.pairwise_cons] at ordered
    have bound : later ∈ List.range m.classes.length := by simp [split, mem]
    exact last.unshared later (ordered.2.1.1 later mem) (List.mem_range.1 bound)
  refine ⟨members, effective, ?_⟩
  rw [shown, within_ofCounts, count, Option.map_some]

/-- A model stays told when declarations are generated. -/
theorem keepsTold_generate (document : Document) : Keeps KeepsTold (generate document) := by
  refine (keepsTold_assemble document).bind fun _ => .getting fun m => ?_
  refine ((hushed_resolveAll m.classIds).mono fun _ _ => Hushed.keepsTold).bind fun _ => ?_
  exact .getting fun m' => .of_reading _

end Build

/-- A report counts the effective members of every class that is the last of its full name, and
there are no fewer than an ancestor has public ones. -/
def Report.CountsMembers (report : Json) (m : Model) : Prop :=
  ∀ id, m.IsLastOfName id →
    ∃ members m', (Build.effectiveMembers id).run m = .ok members m' ∧
      report.within? ["stats", "member_counts", m.fullName id] = some (.int members.length) ∧
      ∀ ancestors, m.Lineage id ancestors → ∀ ancestor ∈ ancestors, ∀ members' m'',
        (Build.effectiveMembers ancestor).run m = .ok members' m'' →
          (Model.publicKeys members').length ≤ members.length

namespace Build

open Model

/-- **A class inherits each key from the nearest ancestor that offers it.**  When declarations have
been generated:

* the effective members of a class are its own and one heir for each heirloom from its line of
  ancestors, and they have all public keys of each ancestor;
* with tables that lead to texts every class has effective members, a report can be made, and both
  leave the model as it was;
* a report changes no class, and it counts the effective members of a class under its full name, as
  long as no later class has the same. -/
theorem generated_inherits {settings : Settings} {document : Document} {text : String} {m : Model}
    (generated : (generate document).run (empty settings) = .ok text m) :
    (∀ id < m.classes.length, ∃ ancestors, m.InheritsFrom id ancestors) ∧
      (settings.WellTyped → (∀ id, ∃ members, (effectiveMembers id).run m = .ok members m) ∧
        ∀ fingerprint, ∃ report, (Report.build fingerprint).run m = .ok report m) ∧
      ∀ fingerprint report m', (Report.build fingerprint).run m = .ok report m' →
        m'.classes = m.classes ∧ Report.CountsMembers report m := by
  obtain ⟨m₀, -, steady, resolved, -⟩ := (ends_generate settings document).of_ok generated
  have sound := steady.consistent.sound
  have inherits : ∀ id < m.classes.length, ∃ ancestors, m.InheritsFrom id ancestors :=
    fun id registered => (steady.consistent.settled id (resolved id registered)).inheritsFrom sound
  refine ⟨inherits, fun typed => ?_, fun fingerprint report m' run => ?_⟩
  · obtain ⟨told, -⟩ := (keepsTold_generate document (empty settings)).of_ok generated
      (told_empty typed)
    refine ⟨told.harmless_effectiveMembers, fun fingerprint => ?_⟩
    obtain ⟨report, run, -⟩ := told.run_report fingerprint
    exact ⟨report, run⟩
  · obtain ⟨reports, counts⟩ := report_counts sound run
    refine ⟨reports.classes, fun id last => ?_⟩
    obtain ⟨members, known, count⟩ := counts id last
    have yields := yields_effectiveMembers sound id
    rw [known] at yields
    obtain ⟨m'', run', -⟩ := yields.exists_run
    refine ⟨members, m'', run', count, fun ancestors lineage ancestor mem members' m₁ run₁ => ?_⟩
    obtain ⟨ancestors', from'⟩ := inherits id last.registered
    obtain rfl := lineage.unique from'.lineage
    exact (from'.monotone members m'' run' ancestor mem members' m₁ run₁).2.2

/-- `A` and `B` are both documented under the name `X`.  Only `A` extends `P`, which has two
methods. -/
def namesakes : Document := .ofFields [
  ("classes", .obj [
    ("P", .obj [("name", .str "P")]),
    ("A", .obj [("name", .str "X"), ("extends", .str "P")]),
    ("B", .obj [("name", .str "X")])]),
  ("classitems", .arr [
    .obj [("class", .str "P"), ("name", .str "open"), ("itemtype", .str "method")],
    .obj [("class", .str "P"), ("name", .str "close"), ("itemtype", .str "method")]])]

/-- The model after declarations have been generated. -/
def namesakesEnd : Model := after (generate namesakes) (empty .blank)

/-- `A` has the two methods of `P`, but what the report says of `X` is that it has none. -/
theorem generated_inherits_namesakes :
    (∃ ancestors, namesakesEnd.InheritsFrom 1 ancestors) ∧
      (∃ members, (effectiveMembers 1).run namesakesEnd = .ok members namesakesEnd ∧
        members.length = 2) ∧
      ∃ report, (Report.build "").run namesakesEnd = .ok report namesakesEnd ∧
        report.within? ["stats", "member_counts", "X"] = some (.int 0) := by
  obtain ⟨text, generated⟩ : ∃ text, (generate namesakes).run (empty .blank) =
      .ok text namesakesEnd := exists_of_succeeds (by decide +kernel)
  obtain ⟨inherits, returns, counts⟩ := generated_inherits generated
  obtain ⟨members, reports⟩ := returns (by decide)
  have length_eq {id : ClassId} {own : Members} {m : Model} {count : Nat}
      (run : (effectiveMembers id).run namesakesEnd = .ok own m)
      (known : (value (effectiveMembers id) namesakesEnd).toOption.map List.length = some count) :
      own.length = count := by
    rw [value, run] at known
    exact Option.some.inj known
  refine ⟨inherits 1 (by decide +kernel), ?_, ?_⟩
  · obtain ⟨own, run⟩ := members 1
    exact ⟨own, run, length_eq run (by decide +kernel)⟩
  · obtain ⟨report, run⟩ := reports ""
    refine ⟨report, run, ?_⟩
    have few : namesakesEnd.classes.length = 3 := by decide +kernel
    have last : namesakesEnd.IsLastOfName 2 := by
      refine ⟨few ▸ by decide, fun later after bound => ?_⟩
      rw [few] at bound
      exact absurd after (Nat.not_lt.2 (Nat.le_of_lt_succ bound))
    obtain ⟨own, m', run', count, -⟩ := (counts "" report _ run).2 2 last
    have name : namesakesEnd.fullName 2 = "X" := by decide +kernel
    have none : own.length = 0 := length_eq run' (by decide +kernel)
    rw [← name, count, none]
    rfl

end Build
end AmbientDecl
