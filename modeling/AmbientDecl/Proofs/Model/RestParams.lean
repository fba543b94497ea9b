/- # Rest parameters

A parameter is a rest parameter when its name is starred or an ellipsis stands in the text of its
type (`Build.ends_buildParam_isRest`).  The ellipsis is looked for among the tokens of the text as
it is documented, before it is known whether the text is a type.  On a text that is one this is the
same as to look for a variadic type, but for the prose behind the type, and braces around the text
make no difference (`Build.isRest_of_variadic`).
-/

import AmbientDecl.Proofs.Model.WellTyped
import AmbientDecl.Proofs.TypeExpr.Around

namespace AmbientDecl
namespace Build

open TypeExpr

variable {m m' : Model} {param : Param}

/-- What makes a parameter a rest parameter. -/
theorem ends_buildParam_isRest (base : String) (record : ParamRecord) (m : Model) :
    Ends (buildParam base (.ok record)) m
      (fun param _ => ∃ type?, record.type? = .ok type? ∧ param.isRest = record.isRest type?)
      fun _ _ => True := by
  unfold buildParam
  rw [ends_bind, ofReading, ends_pure, ends_bind, ends_get, ends_bind, ends_ofReading]
  refine ⟨fun name _ => ?_, fun _ _ => trivial⟩
  rw [ends_bind, ends_ofReading]
  refine ⟨fun type? read => ?_, fun _ _ => trivial⟩
  rw [ends_bind]
  refine ((reads_lowerType? type? "any" base).consults.reports m).mono ?_ fun _ _ _ => trivial
  exact fun type _ _ => ⟨type?, read, rfl⟩

/-- **The test for an ellipsis agrees with the type that is read.**  A text that is read as a type
holds an ellipsis exactly if the type has a variadic type in it or an ellipsis is among the tokens
that the type leaves over, and a text in braces holds one exactly if the text does.  So a parameter
whose type is written through an expression with a variadic type in it is a rest parameter. -/
theorem isRest_of_variadic :
    (∀ text e, read text = .ok e →
      ∃ rest, (∀ other, Leaves (strippedTokens text) e other ↔ other = rest) ∧
        (Token.hasEllipsis text = true ↔
          e.hasVariadic = true ∨ ∃ token ∈ rest, token.kind = .ellipsis)) ∧
      (∀ text, Token.hasEllipsis ("\x7b" ++ text ++ "\x7d") = Token.hasEllipsis text) ∧
      ∀ (base : String) (record : ParamRecord) (m m' : Model) (param : Param) (text : String)
        (e : TypeExpr), (buildParam base (.ok record)).run m = .ok param m' →
          record.type? = .ok (some text) → WrittenType.ofText text = .expression e →
            e.hasVariadic = true → param.isRest = true := by
  refine ⟨fun text e h => ?_, hasEllipsis_braced, ?_⟩
  · obtain ⟨rest, leaves⟩ := beginsWith_iff_exists_leaves.1
      (ofTokens_eq_ok_iff.1 (read_eq_ok_iff.1 h))
    refine ⟨rest, fun other => ⟨fun leaves' => leaves'.unique leaves, ?_⟩, ?_⟩
    · rintro rfl
      exact leaves
    · rw [← hasEllipsis_strippedTokens, leaves.hasEllipsis_iff, HasEllipsis]
  · intro base record m m' param text e run typed written variadic
    obtain ⟨type?, typed', isRest⟩ := (ends_buildParam_isRest base record m).of_ok run
    obtain rfl : some text = type? := Except.ok.inj (typed.symm.trans typed')
    rw [isRest, ParamRecord.isRest, Option.any_some,
      WrittenType.hasEllipsis_of_ofText written variadic, Bool.or_true]

/-- An ellipsis in the prose behind a type, and one inside a type in braces. -/
theorem isRest_of_variadic_keys :
    (∃ rest, Leaves (strippedTokens "Id and so on...") (name "Id") rest ∧
      ∃ token ∈ rest, token.kind = .ellipsis) ∧
      ∃ param, (buildParam "App" (.ok ⟨"keys", false, .ok (some "\x7bMap<Id, (Key...)>\x7d keys"),
        false⟩)).run default = .ok param default ∧ param.isRest = true := by
  obtain ⟨agrees, -, isRest⟩ := isRest_of_variadic
  have prose : read "Id and so on..." = .ok (name "Id") := by rfl
  obtain ⟨rest, leaves, found⟩ := agrees _ _ prose
  have keys : WrittenType.ofText "\x7bMap<Id, (Key...)>\x7d keys" =
      .expression (generic "Map" [name "Id", variadic (name "Key")]) := by rfl
  have built : (buildParam "App" (.ok ⟨"keys", false,
      .ok (some "\x7bMap<Id, (Key...)>\x7d keys"), false⟩)).run default =
        .ok ⟨.str "keys", .str "Map<Id|Key>", true, false⟩ default := by rfl
  refine ⟨⟨rest, (leaves rest).2 rfl, ?_⟩, _, built, isRest _ _ _ _ _ _ _ built rfl keys rfl⟩
  exact (found.1 (by rfl)).resolve_left (by decide)

end Build
end AmbientDecl
