/- # A lowered type is read as the normal form

Outside of all classes a name is written as it is, or as its alias where it stands alone
(`Naming.plain`).  When every alias is the text of a type that can be read, a type that can be read
is lowered to a text that is read as the normal form of what the type means, to its end
(`Build.lowerWith_normal`).  Without aliases a lowered type is lowered to itself.
-/

import AmbientDecl.Model.Members
import AmbientDecl.Proofs.TypeExpr.Spelling

namespace AmbientDecl

namespace WrittenType

/-- A text that is read as an expression stands for it: it is not empty, and no brace starts it. -/
theorem ofText_of_read {text : String} {e : TypeExpr} (h : TypeExpr.read text = .ok e) :
    ofText text = .expression e := by
  have tokens := TypeExpr.read_eq_ok_iff.1 h
  rw [TypeExpr.strippedTokens, Token.tokens, String.toList_ofList] at tokens
  have some : Text.trim text.toList ≠ [] := fun empty => by
    rw [empty] at tokens
    cases tokens
  have unbraced : interior? (Text.trim text.toList) = none := by
    unfold interior?
    split
    next brace =>
      -- no expression starts with the token of a brace
      rw [brace] at tokens
      cases tokens
    next => rfl
  simp only [ofText, ofTrimmed, if_neg some, unbraced, TypeExpr.read_trim, h]

end WrittenType

namespace TypeExpr

/-- Names are written as they are, and those that stand alone as their aliases. -/
def Naming.plain (aliases : Json) : Naming where
  alone name := Settings.aliasOf aliases (.str name)
  withArguments name := .ok (.str name)

/-- The entries of a table of aliases are the texts that the types `meanings`, which can be read,
are lowered to without aliases. -/
def Aliases (table : List (String × Json)) (meanings : List (String × TypeExpr)) : Prop :=
  List.Forall₂ (fun entry meaning =>
    entry.1 = meaning.1 ∧ (∃ source, read source = .ok meaning.2) ∧
      lower (.plain (.obj [])) meaning.2 = .ok entry.2) table meanings

/-- What a name that stands alone means. -/
def meaningIn (meanings : List (String × TypeExpr)) (n : String) : TypeExpr :=
  (Entries.get? n meanings).getD (name n)

theorem plain_alone (table : List (String × Json)) (n : String) :
    (Naming.plain (.obj table)).alone n = .ok ((Entries.get? n table).getD (.str n)) := by
  simp [Naming.plain, Settings.aliasOf]

/-- Without aliases every name means itself. -/
theorem plain_nil_writes : (Naming.plain (.obj [])).Writes name where
  alone n := by
    rw [plain_alone]
    rfl
  withArguments _ := rfl

namespace Aliases

variable {table : List (String × Json)} {meanings : List (String × TypeExpr)}

/-- What a name means can be read. -/
theorem readable (h : Aliases table meanings) {n : String} (isName : Token.IsName n.toList) :
    (meaningIn meanings n).Readable := by
  induction h with
  | nil => exact .name isName
  | @cons entry meaning table meanings first _ ih =>
    obtain ⟨_, ⟨source, read⟩, _⟩ := first
    rw [meaningIn, Entries.get?]
    split
    · exact readable_of_read read
    · exact ih

/-- A name is written as the text of what it means. -/
theorem writes (h : Aliases table meanings) :
    (Naming.plain (.obj table)).Writes (meaningIn meanings) where
  alone n := by
    rw [plain_alone]
    induction h with
    | nil => rfl
    | @cons entry meaning table meanings first _ ih =>
      obtain ⟨key, value⟩ := entry
      obtain ⟨key', e⟩ := meaning
      obtain ⟨rfl, -, lowered⟩ := first
      have text : value = .str (render e) := by
        rw [plain_nil_writes.lower, withNames_name] at lowered
        exact (Except.ok.inj lowered).symm
      rw [meaningIn, Entries.get?, Entries.get?, text]
      split
      · rfl
      · exact ih
  withArguments _ := rfl

end Aliases

end TypeExpr

open TypeExpr

/-- Outside of all classes the names of a model are written plainly. -/
theorem Model.naming_outside (m : Model) : m.naming "" = .plain m.settings.typeAliases := by
  rfl

namespace Build

/-- A text that can be read is lowered without a report. -/
theorem run_lowerWith {naming : Naming} {text : String} {e : TypeExpr} {type : Json}
    (h : read text = .ok e) (lowered : e.lower naming = .ok type) (m : Model) (subject : String) :
    (lowerWith naming text subject).run m = .ok type m := by
  rw [lowerWith, WrittenType.ofText_of_read h, WrittenType.lower, lowered]
  rfl

/-- Outside of all classes a type is lowered plainly. -/
theorem run_lowerType_outside (m : Model) (text : String) :
    (lowerType text "").run m = (lowerWith (.plain m.settings.typeAliases) text "").run m := by
  rw [lowerType, EStateM.run_bind, EStateM.run_get]
  dsimp only
  rw [m.naming_outside]

/-- **A lowered type is read as the normal form of what it means**, to its end, and without
aliases it is lowered to itself. -/
theorem lowerWith_normal {table : List (String × Json)} {meanings : List (String × TypeExpr)}
    (aliases : Aliases table meanings) {text : String} {e : TypeExpr} (h : read text = .ok e) :
    ∃ out,
      (∀ m subject,
        (lowerWith (.plain (.obj table)) text subject).run m = .ok (.str out) m) ∧
      ReadsWhole out (normal (withNames (meaningIn meanings) e)) ∧
      (table = [] → ∀ m subject,
        (lowerWith (.plain (.obj table)) out subject).run m = .ok (.str out) m) := by
  have readable := (readable_of_read h).withNames fun n isName => aliases.readable isName
  refine ⟨_, run_lowerWith h (aliases.writes.lower e), readable.readsWhole_render, ?_⟩
  rintro rfl m subject
  obtain rfl := List.forall₂_nil_left_iff.1 aliases
  have same : ∀ e, withNames (meaningIn []) e = e := withNames_name
  rw [same] at readable ⊢
  have lowered := aliases.writes.lower (normal e)
  rw [same, readable.render_normal] at lowered
  exact run_lowerWith readable.readsWhole_render.read lowered m subject

/-- An alias for a union stands among arguments, in an array and under an ellipsis. -/
theorem lowerWith_normal_key :
    ∃ out,
      (∀ m subject,
        (lowerWith (.plain (.obj [("Key", .str "string|number")])) "Map<Id, Key>|Key[]|...Key"
          subject).run m = .ok (.str out) m) ∧
      ReadsWhole out (union [generic "Map" [union [name "Id", name "string", name "number"]],
        array (union [name "string", name "number"]), name "string", name "number"]) := by
  have aliases : Aliases [("Key", .str "string|number")]
      [("Key", union [name "string", name "number"])] :=
    .cons ⟨rfl, ⟨"string|number", rfl⟩, rfl⟩ .nil
  have first : read "Map<Id, Key>|Key[]|...Key" = .ok (union [generic "Map" [name "Id", name "Key"],
      array (name "Key"), variadic (name "Key")]) := rfl
  obtain ⟨out, run, reads, -⟩ := lowerWith_normal aliases first
  exact ⟨out, run, reads⟩

end Build
end AmbientDecl
