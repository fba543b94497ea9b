/- # Copying is silent

From the assembly of a document on, classes are registered, items are attached, classes are resolved
and types are lowered, in any order, and each call may stop with an error (`Model.Later`).  With
tables that lead to texts the model is told all the time, so whatever copies its members does it in
silence: the effective members of a class, and the report of the run (`Report.Agrees`), leave the
model as it was (`Model.Later.copies_silent`).
-/

import AmbientDecl.Command.Converter
import AmbientDecl.Proofs.Json.Keys
import AmbientDecl.Proofs.Model.Conversions
import AmbientDecl.Proofs.Model.Machine
import AmbientDecl.Proofs.Model.Told
import Mathlib.Algebra.GroupWithZero.Nat

namespace AmbientDecl

namespace Diagnostic

theorem sum_countOne (counts : List (String × Nat)) (code : String) :
    ((countOne counts code).map Prod.snd).sum = (counts.map Prod.snd).sum + 1 := by
  unfold countOne
  induction counts with
  | nil => rfl
  | cons entry rest ih =>
    obtain ⟨key, count⟩ := entry
    rw [Entries.put, Entries.get?]
    by_cases same : key = code
    · simp only [same, if_true, Option.getD_some, List.map_cons, List.sum_cons]
      omega
    · simp only [same, if_false, List.map_cons, List.sum_cons, ih]
      omega

/-- The counts of all codes are the number of the diagnostics. -/
theorem sum_counts (diagnostics : List Diagnostic) :
    ((counts diagnostics).map Prod.snd).sum = diagnostics.length := by
  have step : ∀ (codes : List String) (before : List (String × Nat)),
      ((codes.foldl countOne before).map Prod.snd).sum =
        (before.map Prod.snd).sum + codes.length := by
    intro codes
    induction codes with
    | nil => exact fun _ => rfl
    | cons code rest ih =>
      intro before
      rw [List.foldl_cons, ih, sum_countOne, List.length_cons]
      omega
  rw [counts, step, List.length_map]
  exact Nat.zero_add _

end Diagnostic

/-- A report lists the diagnostics of a model.  Their number is the total, the sum of the counts of
the codes and what a strict run is decided by. -/
structure Report.Agrees (report : Json) (m : Model) : Prop where
  listed : report.within? ["diagnostics"] = some (.arr (m.diagnostics.map ofDiagnostic))
  total : report.within? ["meta", "total_diagnostics"] = some (.int m.diagnostics.length)
  counted : ∃ counts, report.within? ["stats", "code_counts"] = some (ofCounts counts) ∧
    (counts.map Prod.snd).sum = m.diagnostics.length
  strict : ∀ options, Command.Converter.isRejected options m =
    (options.isStrict && decide (0 < m.diagnostics.length))

namespace Model

open Build

variable {m m' m₀ m₁ : Model}

/-- The models to which calls lead, each of which may stop with an error. -/
inductive Later (m₀ : Model) : Model → Prop where
  | now : Later m₀ m₀
  | call {m : Model} (before : Later m₀ m) (command : Command) :
      Later m₀ (after command.action m)
  | convert {m : Model} (before : Later m₀ m) (c : TypeConverter) (a : Mention) :
      Later m₀ (after (c.convert a) m)

theorem keepsTold_action (command : Command) : Keeps KeepsTold command.action := by
  have hushed : ∀ {action : Build Unit}, Keeps Hushed action → Keeps KeepsTold action :=
    fun keeps => keeps.mono fun _ _ => Hushed.keepsTold
  cases command with
  | register key record? => exact hushed ((hushed_register key record?).map _)
  | attach entry => exact (keepsTold_attach entry).map _
  | resolve id => exact hushed (hushed_resolve id)
  | resolveAll ids => exact hushed (hushed_resolveAll ids)

/-- **A model that is told stays told.** -/
theorem Later.keepsTold (h : m₀.Later m) : m₀.KeepsTold m := by
  induction h with
  | now => exact refl_of KeepsTold m₀
  | @call m _ command ih => exact trans_of KeepsTold ih ((keepsTold_action command).after m)
  | @convert m _ c a ih => exact trans_of KeepsTold ih ((keepsTold_lowerWith _ _ _).after m)

namespace Told

/-- Members are inherited in silence. -/
theorem harmless_effectiveMembers (told : m.Told) (id : ClassId) :
    Harmless (effectiveMembers id) m := by
  refine .getting (Harmless.foldlM (fun members ancestor _ => ?_) _)
  refine .getting (Harmless.foldlM (fun members entry mem => ?_) _)
  unfold inherit
  split
  · exact .pure _ m
  · obtain ⟨copy, run, -⟩ := run_copyMember_silent told.typed (told.rehearsed ancestor entry mem) id
    exact Harmless.bind ⟨copy, run⟩ fun _ => .pure _ m

/-- The report of a run is made in silence. -/
theorem run_report (told : m.Told) (fingerprint : String) :
    ∃ report, (Report.build fingerprint).run m = .ok report m ∧ Report.Agrees report m := by
  have counting : ∀ counts, ∀ id ∈ m.classIds, Harmless (Report.countMembers counts id) m :=
    fun counts id _ => (told.harmless_effectiveMembers id).bind fun _ => .getting (.pure _ m)
  obtain ⟨memberCounts, run⟩ := Harmless.foldlM counting []
  refine ⟨?report, ?run, ?agrees⟩
  case run =>
    rw [Report.build, EStateM.run_bind, EStateM.run_get]
    dsimp only
    rw [EStateM.run_bind, run]
    exact rfl
  case agrees =>
    refine ⟨rfl, rfl, ⟨_, rfl, Diagnostic.sum_counts m.diagnostics⟩, fun options => ?_⟩
    rw [Command.Converter.isRejected]
    cases m.diagnostics <;> simp

end Told

/-- Resolving classes and rendering them reports no unreadable type. -/
theorem Told.typeReports_render (told : m.Told) (ids : List ClassId) :
    (after (do resolveAll ids; ofReading (Output.render (← get))) m).typeReports =
      m.typeReports := by
  have keeps : Keeps Hushed (do resolveAll ids; ofReading (Output.render (← get))) :=
    (hushed_resolveAll ids).bind fun _ => .getting fun _ => .of_reading _
  exact (keeps.after m told).types

/-- **Copying a member is silent,** and so is all that copies members.  Let a document be assembled
with tables that lead to texts, and let calls lead from there to `m₁` and further to `m`.

* A member of `m₁` is copied in `m` for any class without an error and without a report, and so is
  a copy of it, or a copy of a copy, with the same result.
* Resolving classes and rendering them reports no unreadable type.
* The effective members of a class and the report of the run leave the model as it was, and in
  the report the number of the diagnostics is the same everywhere. -/
theorem Later.copies_silent {settings : Settings} (typed : settings.WellTyped)
    {document : Document} (assembled : (assemble document).run (empty settings) = .ok () m₀)
    (between : m₀.Later m₁) (later : m₁.Later m) :
    (∀ id, ∀ entry ∈ (m₁.classAt id).members, ∀ copied, CopyOf entry.2 copied → ∀ target,
        ∃ copy, (copyMember copied target).run m = .ok copy m ∧
          (copyMember entry.2 target).run m = .ok copy m) ∧
      (∀ ids, (after (do resolveAll ids; ofReading (Output.render (← get))) m).typeReports =
        m.typeReports) ∧
      (∀ id, ∃ members, (effectiveMembers id).run m = .ok members m) ∧
      ∀ fingerprint, ∃ report, (Report.build fingerprint).run m = .ok report m ∧
        Report.Agrees report m := by
  obtain ⟨told₀, -⟩ := (keepsTold_assemble document (empty settings)).of_ok assembled
    (told_empty typed)
  obtain ⟨told₁, -⟩ := between.keepsTold told₀
  obtain ⟨told, recalls⟩ := later.keepsTold told₁
  refine ⟨fun id entry mem copied copies target => ?_, told.typeReports_render,
    told.harmless_effectiveMembers, told.run_report⟩
  have rehearsed : m.Rehearsed entry.2.item := (told₁.rehearsed id entry mem).of_recalls recalls
  obtain ⟨copy, run, -⟩ := run_copyMember_silent told.typed rehearsed target
  exact ⟨copy, by rw [copies.copyMember_eq, run], run⟩

/-- `A` extends `B`, which uses `M`.  The method of `M` has two types that are unreadable. -/
def unreadableMixin : Document := .ofFields [
  ("classes", .obj [
    ("A", .obj [("extends", .str "B")]),
    ("B", .obj [("uses", .arr [.str "M"])]),
    ("M", .obj [])]),
  ("classitems", .arr [
    .obj [("class", .str "M"), ("name", .str "open"), ("itemtype", .str "method"),
      ("params", .arr [.obj [("name", .str "at"), ("type", .str "Id> of a door")]]),
      ("return", .obj [("type", .str "Map<Id")])]])]

/-- The model after the assembly. -/
def mixinStart : Model := after (assemble unreadableMixin) (empty .blank)

/-- The model after the mixin was merged into `B`. -/
def mixinEnd : Model := after (resolveAll [0, 1, 2]) mixinStart

/-- Both types are reported for `M`, and neither is reported again when the method comes to `B` and
to `A`. -/
theorem copies_silent_mixin :
    mixinEnd.diagnostics.map Diagnostic.subject = ["M", "M"] ∧
      (∃ entry ∈ (mixinStart.classAt 2).members, ∃ copy,
        (copyMember entry.2 0).run mixinEnd = .ok copy mixinEnd) ∧
      (∃ members, (effectiveMembers 0).run mixinEnd = .ok members mixinEnd) ∧
      ∃ report, (Report.build "").run mixinEnd = .ok report mixinEnd ∧
        Report.Agrees report mixinEnd := by
  have assembled : (assemble unreadableMixin).run (empty .blank) = .ok () mixinStart :=
    run_of_succeeds (by decide +kernel)
  have resolved : mixinStart.Later mixinEnd := .call .now (.resolveAll [0, 1, 2])
  obtain ⟨copies, -, members, report⟩ :=
    Later.copies_silent (by decide) assembled .now resolved
  have held : (mixinStart.classAt 2).members ≠ [] := by decide +kernel
  obtain ⟨entry, mem⟩ := List.exists_mem_of_ne_nil _ held
  obtain ⟨copy, run, -⟩ := copies 2 entry mem entry.2 .self 0
  exact ⟨by decide +kernel, ⟨entry, mem, copy, run⟩, members 0, report ""⟩

end Model
end AmbientDecl
