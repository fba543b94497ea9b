/- # The texts of a class

The texts for the members of a class are those of its members that are not private, in the order
of their keys in the class (`renders_of_memberTexts`).  A declaration starts with a keyword and the
name of the member.  Where the class documents a namespace, the keyword says whether the member is
called; in a class, it says whether the member is static.
-/

import AmbientDecl.Output.File
import AmbientDecl.Proofs.Action.Except
import AmbientDecl.Proofs.Model.Sound

namespace AmbientDecl
namespace Signature

variable {owner : Class} {member : Member} {text : String} {texts : List String}

/-- What stands before the name of a member in the block of a namespace. -/
def wordInNamespace (member : Member) : String :=
  if member.isMethod then "function " else "var "

/-- What stands before the name of a member in the block of a class. -/
def wordInClass (member : Member) : String :=
  if member.item.isStatic then "static " else ""

theorem keyword_of_isPlainNamespace (plain : owner.isPlainNamespace = true) :
    keyword owner = wordInNamespace := by
  funext member
  rw [keyword, if_pos plain, wordInNamespace]

theorem keyword_of_not_isPlainNamespace (other : owner.isPlainNamespace = false) :
    keyword owner = wordInClass := by
  funext member
  rw [keyword, other, if_neg Bool.false_ne_true, wordInClass]

/-- What stands after the name of a member. -/
def opening (member : Member) : String :=
  if member.isMethod then "(" else ": "

/-- A text that declares a member after a word. -/
def DeclaresAfter (word : String) (member : Member) (text : String) : Prop :=
  ∃ rest, text = word ++ memberName member.item.name ++ opening member ++ rest

theorem declaresAfter_of_declare {withRest : Bool}
    (h : declare owner member withRest = .ok text) :
    DeclaresAfter (keyword owner member) member text := by
  unfold DeclaresAfter opening
  unfold declare at h
  dsimp only at h
  split at h
  · rename_i called
    obtain ⟨list, -, same⟩ := bind_eq_ok.1 h
    obtain rfl := Except.ok.inj same
    exact ⟨list ++ ")" ++ returnClause member, by simp only [called, if_pos, String.append_assoc]⟩
  · rename_i value
    obtain rfl := Except.ok.inj h
    exact ⟨member.type.display, by simp [value, String.append_assoc]⟩

/-- A member has a declaration, and each of its declarations starts with the keyword and the
name. -/
theorem declaresAfter_of_declarations (h : declarations owner member = .ok texts) :
    texts ≠ [] ∧ ∀ text ∈ texts, DeclaresAfter (keyword owner member) member text := by
  unfold declarations at h
  obtain ⟨full, first, h⟩ := bind_eq_ok.1 h
  have declares := declaresAfter_of_declare first
  split at h
  · obtain ⟨short, second, same⟩ := bind_eq_ok.1 h
    obtain rfl := Except.ok.inj same
    refine ⟨List.cons_ne_nil _ _, List.forall_mem_cons.2 ⟨declares, ?_⟩⟩
    exact List.forall_mem_singleton.2 (declaresAfter_of_declare second)
  · obtain rfl := Except.ok.inj h
    exact ⟨List.cons_ne_nil _ _, List.forall_mem_singleton.2 declares⟩

end Signature

namespace Output

open Signature

variable {m : Model} {id : ClassId} {entry : String × Member} {text : MemberText}
  {texts : List MemberText} {block : ClassBlock}

/-- A text that stands for a member of a class, with a word before the name of the member. -/
structure StandsFor (m : Model) (id : ClassId) (word : Member → String) (entry : String × Member)
    (text : MemberText) : Prop where
  owner : text.owner = id
  key : text.key = entry.1
  comment : text.comment? = DocComment.ofMember? (m.classAt id) entry.2
  declared : declarations (m.classAt id) entry.2 = .ok text.declarations
  nonempty : text.declarations ≠ []
  word : ∀ declaration ∈ text.declarations, DeclaresAfter (word entry.2) entry.2 declaration

/-- The texts of a class: one for each member that is not private, in the order of the keys. -/
def Renders (m : Model) (id : ClassId) (word : Member → String) (texts : List MemberText) : Prop :=
  List.Forall₂ (StandsFor m id word) (publicMembers (m.classAt id)) texts

theorem Renders.owner {word : Member → String} (h : Renders m id word texts) :
    ∀ text ∈ texts, text.owner = id := by
  intro text mem
  obtain ⟨entry, -, stands⟩ := exists_mem_of_forall₂ h mem
  exact stands.owner

theorem standsFor_of_memberText (sound : m.Sound) (mem : entry ∈ (m.classAt id).members)
    (h : memberText m id entry = .ok text) :
    StandsFor m id (keyword (m.classAt id)) entry text := by
  unfold memberText at h
  rw [(sound.entry id entry mem).owner] at h
  obtain ⟨declarations, declared, same⟩ := bind_eq_ok.1 h
  obtain rfl := Except.ok.inj same
  obtain ⟨nonempty, word⟩ := declaresAfter_of_declarations declared
  exact ⟨rfl, rfl, rfl, declared, nonempty, word⟩

/-- **The texts of a class** are those of its members that are not private. -/
theorem renders_of_memberTexts (sound : m.Sound) (h : memberTexts m id = .ok texts) :
    Renders m id (keyword (m.classAt id)) texts := by
  have pointwise := mapM_eq_ok_iff.1 h
  have mem : ∀ entry ∈ publicMembers (m.classAt id), entry ∈ (m.classAt id).members :=
    fun entry mem => (List.mem_filter.1 mem).1
  refine List.Forall₂.imp (fun entry text both => ?_)
    ((List.forall₂_and_left _ _).2 ⟨mem, pointwise⟩)
  exact standsFor_of_memberText sound both.1 both.2

end Output
end AmbientDecl
