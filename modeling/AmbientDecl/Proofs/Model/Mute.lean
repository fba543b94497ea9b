/- # Reports of linking

Three codes of diagnostics tell of links that are not drawn: a class is not found that another one
extends or uses, or a class is dropped that is being resolved.  Only linking a class to what its
record names reports them (`linkReports`).  All other actions are **mute**: building, copying and
merging members, and the whole assembly of a document (`mute_assemble`), so that an assembled model
has no such report.
-/

import AmbientDecl.Proofs.Model.Assembled
import AmbientDecl.Proofs.Model.Passes
import AmbientDecl.Proofs.Model.Reads

namespace AmbientDecl

namespace Diagnostic

/-- The codes of the diagnostics about links that are not drawn. -/
def linkCodes : List String := [unresolvedExtends, unresolvedMixin, cyclicMixin]

/-- The diagnostics about links that are not drawn. -/
def ofLinks (diagnostics : List Diagnostic) : List Diagnostic :=
  diagnostics.filter fun d => linkCodes.contains d.code

@[simp] theorem ofLinks_append (diagnostics more : List Diagnostic) :
    ofLinks (diagnostics ++ more) = ofLinks diagnostics ++ ofLinks more :=
  List.filter_append ..

end Diagnostic

namespace Model

variable {m m' : Model}

/-- What has been reported of links that are not drawn. -/
def linkReports (m : Model) : List Diagnostic := Diagnostic.ofLinks m.diagnostics

theorem linkReports_log (m : Model) (entry : LogEntry) :
    ({ m with log := m.log ++ [entry] } : Model).linkReports =
      m.linkReports ++ Diagnostic.ofLinks entry.diagnostic?.toList := by
  rw [linkReports, diagnostics_log, Diagnostic.ofLinks_append, linkReports]

/-- Nothing new is reported of links. -/
def Mute (m m' : Model) : Prop := m'.linkReports = m.linkReports

instance : IsPreorder Model Mute where
  refl _ := rfl
  trans _ _ _ h h' := h'.trans h

theorem ReportsTypes.mute (h : m.ReportsTypes m') : m.Mute m' := by
  obtain ⟨types, told, unreadable⟩ := h.types
  have none : Diagnostic.ofLinks types = [] := by
    refine List.filter_eq_nil_iff.2 fun d mem => ?_
    rw [unreadable d mem]
    decide
  rw [Mute, linkReports, told, Diagnostic.ofLinks_append, none, List.append_nil, linkReports]

end Model

namespace Build

open Model

theorem mute_note {entry : LogEntry} (h : Diagnostic.ofLinks entry.diagnostic?.toList = []) :
    Keeps Mute (note entry) := fun m => by
  rw [ends_note, Mute, linkReports_log, h, List.append_nil]

theorem mute_warn {code message subject : String} (other : code ∉ Diagnostic.linkCodes) :
    Keeps Mute (warn code message subject) :=
  mute_note (by simpa [Diagnostic.ofLinks, LogEntry.diagnostic?] using other)

theorem mute_modifyClass (id : ClassId) (change : Class → Class) :
    Keeps Mute (modifyClass id change) := fun _ => rfl

theorem mute_attachMember (id : ClassId) (item : Item) : Keeps Mute (attachMember id item) := by
  have built := (reads_buildMember item id).types.mono fun _ _ => ReportsTypes.mute
  refine built.bind fun member => ?_
  refine Keeps.bind (.getting fun m => ?_) fun added => ?_
  · dsimp only
    split
    · exact (mute_warn (by decide)).bind fun _ => .pure _
    · exact (mute_modifyClass _ _).bind fun _ => .pure _
  · split
    · refine Keeps.bind (.getting fun m => ?_) fun _ => .pure _
      dsimp only
      split
      · exact mute_warn (by decide)
      · exact .pure _
    · exact .pure _

/-- Attaching an item is mute. -/
theorem mute_attach (entry : ItemEntry) : Keeps Mute (attach entry) :=
  .attach mute_attachMember (fun _ => mute_note rfl) (fun _ _ => mute_warn (by decide)) entry

/-- Registering a class is mute. -/
theorem mute_register (key : String) (record? : Option ClassRecord) :
    Keeps Mute (register key record?) := by
  refine .getting fun m => (Keeps.of_reading _).bind fun slot => ?_
  refine Keeps.bind (fun _ => rfl) fun _ => .getting fun m' => ?_
  split
  · exact (mute_warn (by decide)).bind fun _ => .pure _
  · refine (Keeps.orFault _ _).bind fun record => (Keeps.of_reading _).bind fun override => ?_
    refine Keeps.bind (fun _ => rfl) fun id => (Keeps.of_reading _).bind fun owner => ?_
    exact (mute_note rfl).bind fun _ => .pure _

/-- **Assembling a document reports nothing of links.** -/
theorem mute_assemble (document : Document) : Keeps Mute (assemble document) :=
  .assemble mute_register mute_attach (fun _ => mute_note rfl) document

end Build
end AmbientDecl
