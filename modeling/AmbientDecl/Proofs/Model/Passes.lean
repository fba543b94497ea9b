/- # The passes of a run keep to a relation

The assembly of a document registers classes and attaches items, and resolving classes links them
in a recursion.  For a reflexive and transitive relation it is enough that the steps keep to it:
then a pass does too.
-/

import AmbientDecl.Model.Assembly
import AmbientDecl.Model.Resolution
import AmbientDecl.Proofs.Action.Keeps

namespace AmbientDecl
namespace Build
namespace Keeps

variable {R : Model → Model → Prop} [IsPreorder Model R]

/-- Attaching an item comes down to attaching a member and to reports. -/
theorem attach (member : ∀ id item, Keeps R (attachMember id item))
    (debug : ∀ text, Keeps R (note (.debug text)))
    (unknown : ∀ message subject, Keeps R (warn Diagnostic.unknownClass message subject))
    (entry : ItemEntry) : Keeps R (Build.attach entry) := by
  unfold Build.attach
  split
  · exact .throw _
  · refine .getting fun m => (Keeps.of_reading _).bind fun ignored => ?_
    split
    · exact .pure _
    · exact .throw _
  · exact (debug _).bind fun _ => .pure _
  · refine .getting fun m => (Keeps.of_reading _).bind fun ignored => ?_
    split
    · exact .pure _
    refine Keeps.bind (.getting fun m => (Keeps.of_reading _).bind fun slot => ?_) fun found => ?_
    · split
      · exact .pure _
      · exact .throw _
    split
    · exact (unknown _ _).bind fun _ => .pure _
    · split
      · exact .pure _
      · exact .throw _
      · exact member _ _

/-- Assembling a document comes down to registering classes and attaching items. -/
theorem assemble (registers : ∀ key record?, Keeps R (register key record?))
    (attaches : ∀ entry, Keeps R (Build.attach entry))
    (info : ∀ text, Keeps R (note (.info text))) (document : Document) :
    Keeps R (Build.assemble document) := by
  refine (Keeps.orFault _ _).bind fun classes => Keeps.bind (.forM (fun entry => ?_) _) fun _ =>
    (Keeps.orFault _ _).bind fun items => Keeps.bind (.foldlM (fun attached entry => ?_) _ _)
      fun attached => .getting fun m => (Keeps.of_reading _).bind fun additional =>
        Keeps.bind (.forM (fun name => ?_) _) fun _ => .getting fun m' => info _
  · refine .getting fun m => (Keeps.of_reading _).bind fun ignored => ?_
    split
    · exact .pure _
    · exact .map _ (registers _ _)
  · exact (attaches entry).bind fun _ => .pure _
  · unfold registerAdditional
    split
    · exact .map _ (registers _ _)
    · exact .throw _

theorem resolveNew {id : ClassId} (marks : ∀ progress, Keeps R (setProgress id progress))
    {body : Build Unit} (h : Keeps R body) :
    Keeps R (Build.resolveNew id body) := by
  refine (marks _).bind fun _ => Keeps.bind (h.tryCatch fun error => ?_) fun _ => marks _
  dsimp only
  split
  · exact (marks _).bind fun _ => .throw _
  · exact .throw _

theorem reach (stack : List ClassId) (id : ClassId) {whenNew : Build Unit}
    (h : Keeps R whenNew) : Keeps R (Build.reach stack id whenNew) := by
  refine .getting fun m => ?_
  split
  · exact .pure _
  · refine .getting fun m' => ?_
    split <;> exact .throw _
  · exact h

section Resolving

variable (marks : ∀ id progress, Keeps R (setProgress id progress))
  (links : ∀ id {enter}, (∀ k, Keeps R (enter k)) → Keeps R (link id enter))
include marks links

/-- Resolving a class comes down to linking classes. -/
theorem resolveWithin (room : Nat) (stack : List ClassId) (id : ClassId) :
    Keeps R (Build.resolveWithin room stack id) := by
  induction room generalizing stack id with
  | zero => exact reach stack id (.throw _)
  | succ room ih => exact reach stack id (resolveNew (marks id) (links id (ih (stack ++ [id]))))

theorem resolve (id : ClassId) : Keeps R (Build.resolve id) :=
  .getting fun _ => resolveWithin marks links _ [] id

end Resolving

end Keeps
end Build
end AmbientDecl
