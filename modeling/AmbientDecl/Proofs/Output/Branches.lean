/- # The branches of a lowered type

The text of a lowered type is parted again where it is written: at the elements of an array and at
those of a rest parameter.  What is found there are the branches that the type was put together of,
as long as aliases are balanced and references hold neither brackets nor bars (`Divides`).  So two
brackets apply to the whole of what stands before them, be it the text of an array or the type of a
rest parameter (`RepeatsFirst`).

References are like this where the full names of the classes and the fixed references are
(`Model.plain_referenceWithin`).
-/

import AmbientDecl.Output.Signature
import AmbientDecl.Proofs.Model.Conversions
import AmbientDecl.Proofs.Model.Housed
import AmbientDecl.Proofs.Model.Reference
import AmbientDecl.Proofs.TypeExpr.Balanced
import AmbientDecl.Proofs.TypeExpr.Spelling

namespace AmbientDecl

open TypeText

namespace TypeExpr

variable {naming : Naming} {e : TypeExpr} {text : String}

/-- What stands before the brackets of an array with elements of a type. -/
def operand (text : String) : String :=
  if 1 < (branches text).length then "(" ++ text ++ ")" else text

theorem arrayOf_str (text : String) : arrayOf (.str text) = .ok (operand text ++ "[]") := by
  rw [arrayOf, branchesOf?_str, ShapeFault.required_some, bind_ok, List.length_map, operand]
  split
  · have brackets : ")" ++ "[]" = ")[]" := rfl
    rw [← brackets, ← String.append_assoc]
    rfl
  · rfl

theorem operand_cases (text : String) :
    operand text = text ∨ operand text = "(" ++ text ++ ")" := by
  unfold operand
  split
  · exact .inr rfl
  · exact .inl rfl

/-- The operand of a balanced text is balanced, and one branch. -/
theorem operand_single (h : IsBalanced text) :
    IsBalanced (operand text) ∧ branches (operand text) = [operand text] := by
  unfold operand
  split
  · have nothing : Plain "" := by decide
    have same : ("(" ++ text ++ ")").toList = "".toList ++ '(' :: (text.toList ++ [')']) := by simp
    exact h.bracketed nothing same rfl rfl
  next few =>
    refine ⟨h, ?_⟩
    have some := List.length_pos_of_ne_nil (branches_ne_nil text)
    rw [branches_eq_self_iff, ← length_branches]
    omega

/-- Names are written as balanced texts where they stand alone, and before arguments as texts that
hold neither brackets nor bars. -/
structure Naming.Balances (naming : Naming) : Prop extends Naming.IsText naming where
  balanced : ∀ n text, Token.IsName n.toList → naming.alone n = .ok (.str text) → IsBalanced text
  plain : ∀ n text, Token.IsName n.toList → naming.withArguments n = .ok (.str text) → Plain text

/-- How the text of a lowered type is parted into branches. -/
structure Divides (naming : Naming) (e : TypeExpr) (text : String) : Prop where
  balanced : IsBalanced text
  union : ∀ es, e = union es → ∃ texts : List String, lowerAll naming es = .ok (texts.map .str) ∧
    branches text = texts.flatMap branches
  generic : ∀ base args, e = generic base args → branches text = [text]
  /-- The brackets of an array apply to the whole of its elements. -/
  array : ∀ element, e = array element → branches text = [text] ∧
    ∃ inner whole, lower naming element = .ok (.str inner) ∧ text = whole ++ "[]" ∧
      (whole = inner ∨ whole = "(" ++ inner ++ ")") ∧ branches whole = [whole]

/-- Expressions that are divided are lowered to texts which are balanced, and their bars part them
when they are joined. -/
theorem exists_lowerAll_divides {es : List TypeExpr} (some : es ≠ [])
    (each : ∀ e ∈ es, ∃ text, lower naming e = .ok (.str text) ∧ e.Divides naming text) :
    ∃ texts : List String, lowerAll naming es = .ok (texts.map .str) ∧
      IsBalanced ("|".intercalate texts) ∧
      branches ("|".intercalate texts) = texts.flatMap branches := by
  have lowered : ∃ texts : List String, lowerAll naming es = .ok (texts.map .str) ∧
      texts.length = es.length ∧ ∀ text ∈ texts, IsBalanced text := by
    clear some
    induction es with
    | nil => exact ⟨[], rfl, rfl, fun _ mem => absurd mem List.not_mem_nil⟩
    | cons e rest ih =>
      obtain ⟨⟨text, first, divides⟩, each⟩ := List.forall_mem_cons.1 each
      obtain ⟨texts, others, length, balanced⟩ := ih each
      refine ⟨text :: texts, ?_, congrArg Nat.succ length,
        List.forall_mem_cons.2 ⟨divides.balanced, balanced⟩⟩
      rw [lowerAll, first, bind_ok, others]
      rfl
  obtain ⟨texts, lowered, length, balanced⟩ := lowered
  refine ⟨texts, lowered, branches_intercalate ?_ balanced⟩
  rintro rfl
  exact some (List.length_eq_zero_iff.1 length.symm)

/-- **A lowered type is parted into the branches that it was put together of.** -/
theorem Readable.exists_divides (names : naming.Balances) (h : e.Readable) :
    ∃ text, lower naming e = .ok (.str text) ∧ e.Divides naming text := by
  induction h with
  | @name n isName =>
    obtain ⟨text, written⟩ := names.alone n
    exact ⟨text, written, names.balanced n text isName written, nofun, nofun, nofun⟩
  | @generic base args isName some _ ih =>
    obtain ⟨texts, lowered, inside, -⟩ := exists_lowerAll_divides some ih
    obtain ⟨reference, written⟩ := names.withArguments base
    have same : (reference ++ "<" ++ "|".intercalate texts ++ ">").toList =
        reference.toList ++ '<' :: (("|".intercalate texts).toList ++ ['>']) := by simp
    obtain ⟨balanced, single⟩ :=
      inside.bracketed (names.plain base reference isName written) same rfl rfl
    refine ⟨_, ?_, balanced, nofun, fun _ _ _ => single, nofun⟩
    rw [lower, lowered, bind_ok, joined_map_str, bind_ok, written]
    rfl
  | @union es some _ ih =>
    obtain ⟨texts, lowered, balanced, parted⟩ := exists_lowerAll_divides some ih
    refine ⟨_, ?_, balanced, ?_, nofun, nofun⟩
    · rw [lower, lowered, bind_ok, joined_map_str]
      rfl
    · rintro _ ⟨⟩
      exact ⟨texts, lowered, parted⟩
  | @array element _ ih =>
    obtain ⟨inner, lowered, divides⟩ := ih
    obtain ⟨balanced, single⟩ := operand_single divides.balanced
    refine ⟨operand inner ++ "[]", ?_, balanced.brackets, nofun, nofun, ?_⟩
    · rw [lower, lowered, bind_ok, arrayOf_str]
      rfl
    · rintro _ ⟨⟩
      exact ⟨branches_brackets_iff.2 single, inner, operand inner, lowered, rfl,
        operand_cases inner, single⟩
  | variadic _ ih =>
    obtain ⟨text, lowered, divides⟩ := ih
    exact ⟨text, lowered, divides.balanced, nofun, nofun, nofun⟩

end TypeExpr

namespace Signature

/-- A rest parameter of the type `text` repeats the type `element`, which is the first branch of
`text`, and the brackets that are written after it apply to the whole of it. -/
structure RepeatsFirst (text element : String) : Prop where
  read : restElement (.str text) = .ok (.str element)
  first : ∃ first others, branches text = first :: others ∧
    element = if first = "\x7b\x7d" then "any" else first
  written : ∀ (p : Param) (following : List Param), p.isRest = true → p.type = .str text →
    paramText p following = .ok ("..." ++ p.name.display ++ ": " ++ (element ++ "[]"))
  single : branches element = [element]
  whole : branches (element ++ "[]") = [element ++ "[]"]

/-- The elements of a rest parameter have the type of the first branch. -/
theorem restElement_str {text first : String} {others : List String}
    (same : branches text = first :: others) :
    restElement (.str text) = .ok (.str (if first = "\x7b\x7d" then "any" else first)) := by
  rw [restElement, branchesOf?_str, ShapeFault.required_some, bind_ok, same, List.map_cons,
    List.headD_cons]
  dsimp only
  by_cases empty : first = "\x7b\x7d"
  · rw [if_pos empty, empty]
    rfl
  · rw [if_neg empty, if_neg]
    · rfl
    · intro isEmpty
      split at isEmpty
      next same => exact empty (Json.str.inj same)
      next => cases isEmpty

/-- **A rest parameter repeats the first branch of its type.** -/
theorem exists_repeatsFirst (text : String) : ∃ element, RepeatsFirst text element := by
  obtain ⟨first, others, same⟩ := List.exists_cons_of_ne_nil (branches_ne_nil text)
  let element := if first = "\x7b\x7d" then "any" else first
  have read : restElement (.str text) = .ok (.str element) := restElement_str same
  have single : branches element = [element] := by
    unfold element
    split
    · decide
    · exact branches_of_mem (same ▸ List.mem_cons_self)
  refine ⟨element, read, ⟨first, others, same, rfl⟩, fun p following rest typed => ?_, single,
    branches_brackets_iff.2 single⟩
  rw [paramText, if_pos rest, typed, read, bind_ok, ← String.append_assoc]
  rfl

/-- What is repeated of a balanced text is balanced. -/
theorem RepeatsFirst.balanced {text element : String} (h : RepeatsFirst text element)
    (balanced : IsBalanced text) : IsBalanced element := by
  obtain ⟨first, others, same, rfl⟩ := h.first
  split
  · decide
  · exact balanced.of_mem (same ▸ List.mem_cons_self)

end Signature

/-- Every text that a table leads to has a property. -/
def Json.LeadsTo (table : Json) (holds : String → Prop) : Prop :=
  ∀ members, table.table? = some members →
    ∀ entry ∈ members, ∀ text, entry.2 = .str text → holds text

namespace Settings

variable {table : Json} {holds : String → Prop} {name text : String}

/-- A name is replaced by a text of the table, or not at all. -/
theorem aliasOf_cases (leads : table.LeadsTo holds)
    (h : aliasOf table (.str name) = .ok (.str text)) : text = name ∨ holds text := by
  cases there : table.table? with
  | none =>
    rw [aliasOf, there] at h
    cases h
  | some members =>
    rw [aliasOf, there] at h
    have value : (Entries.get? name members).getD (.str name) = .str text := Except.ok.inj h
    cases found : Entries.get? name members with
    | none =>
      rw [found] at value
      cases value
      exact .inl rfl
    | some other =>
      rw [found] at value
      cases value
      exact .inr (leads members there _ (Entries.mem_of_get? found) text rfl)

/-- The fixed reference of a name is a text of the table. -/
theorem holds_of_fixedReference? (leads : table.LeadsTo holds)
    (h : fixedReference? table name = .ok (some (.str text))) : holds text := by
  cases table with
  | obj members =>
    rw [fixedReference?_obj] at h
    exact leads members (Json.table?_obj members) _ (Entries.mem_of_get? (Except.ok.inj h)) text rfl
  | arr _ | str _ =>
    unfold fixedReference? at h
    dsimp only at h
    split at h
    · split at h <;> cases h
    · cases h
  | null | bool _ | int _ =>
    unfold fixedReference? at h
    dsimp only at h
    split at h <;> cases h

end Settings

namespace Model

variable {m : Model} {name base text : String}

theorem plain_fullName (classes : ∀ c ∈ m.classes, Plain c.fullName) (id : ClassId) :
    Plain (m.fullName id) := by
  rcases Nat.lt_or_ge id m.classes.length with registered | beyond
  · rw [fullName, classAt_eq_getElem registered]
    exact classes _ (List.getElem_mem registered)
  · rw [fullName, classAt_of_le beyond]
    decide

theorem plain_reference (classes : ∀ c ∈ m.classes, Plain c.fullName)
    (fixed : m.settings.fixedReferences.LeadsTo Plain) (plain : Plain name)
    (h : m.reference name base = .ok (.str text)) : Plain text := by
  obtain ⟨fullName, full, h⟩ := bind_eq_ok.1 h
  obtain ⟨found, fix, h⟩ := bind_eq_ok.1 h
  have known : Plain fullName := by
    unfold fullNameOf at full
    split at full
    · obtain ⟨near, -, full⟩ := bind_eq_ok.1 full
      cases near with
      | none =>
        cases full
        exact plain
      | some id =>
        cases full
        exact plain_fullName classes id
    · cases full
      exact plain
  cases found with
  | some value =>
    cases h
    exact Settings.holds_of_fixedReference? fixed fix
  | none =>
    cases h
    rcases localName_cases m.settings fullName base with same | ⟨run, mem, same⟩
    · rwa [same]
    · rw [Dotted.join_concat (ne_nil_of_mem_surroundings mem)] at same
      intro c within
      refine known c ?_
      rw [← same]
      simp [within]

/-- **References hold no bracket and no bar** where the full names of the classes and the fixed
references hold none. -/
theorem plain_referenceWithin (classes : ∀ c ∈ m.classes, Plain c.fullName)
    (fixed : m.settings.fixedReferences.LeadsTo Plain) (plain : Plain name)
    (h : m.referenceWithin base name = .ok (.str text)) : Plain text := by
  unfold referenceWithin at h
  split at h
  · cases h
    exact plain
  · exact plain_reference classes fixed plain h

end Model

namespace TypeConverter

variable {c : TypeConverter} {base : String}

/-- The aliases are balanced, and names are written inside the class named `base` without brackets
and bars. -/
structure Balances (c : TypeConverter) (base : String) : Prop extends IsText c where
  balanced : c.aliases.LeadsTo IsBalanced
  plain : ∀ namer ∈ c.namer?, ∀ n text, Token.IsName n.toList →
    namer.referenceWithin base n = .ok (.str text) → Plain text

theorem plain_of_isName {n : String} (h : Token.IsName n.toList) : Plain n :=
  fun _ => TypeExpr.markOf_of_isName h

theorem Balances.naming (h : c.Balances base) : (c.naming base).Balances where
  toIsText := h.toIsText.naming base
  balanced n text isName written := by
    have plain : ∀ name, Plain name → Settings.aliasOf c.aliases (.str name) = .ok (.str text) →
        IsBalanced text := by
      intro name plain aliased
      rcases Settings.aliasOf_cases h.balanced aliased with rfl | balanced
      · exact Settles.of_plain plain
      · exact balanced
    rw [TypeConverter.naming] at written
    split at written
    · exact plain n (plain_of_isName isName) written
    next namer given =>
      obtain ⟨reference, within, aliased⟩ := bind_eq_ok.1 written
      obtain ⟨name, isText⟩ := (h.toIsText.naming base).withArguments n
      rw [TypeConverter.naming, given] at isText
      cases within.symm.trans isText
      exact plain name (h.plain namer given n name isName isText) aliased
  plain n text isName written := by
    rw [TypeConverter.naming] at written
    split at written
    · cases written
      exact plain_of_isName isName
    next namer given => exact h.plain namer given n text isName written

/-- **A lowered type is parted into its branches.**  Let aliases be balanced, and let references
hold neither brackets nor bars.

* An expression that can be read is lowered to a balanced text, which is parted into the branches
  that the type was put together of; a generic type and an array are one branch each, and the
  brackets of an array apply to the whole of its elements.
* A rest parameter of that type repeats its first branch, which is balanced.

The branches of any text are their own only branches, and with the bars between them they are the
text. -/
theorem Balances.lowered_divides (balances : c.Balances base) {source : String} {e : TypeExpr}
    (parsed : TypeExpr.read source = .ok e) :
    (∃ text, e.lower (c.naming base) = .ok (.str text) ∧ e.Divides (c.naming base) text ∧
      ∃ element, Signature.RepeatsFirst text element ∧ IsBalanced element) ∧
    ∀ text, "|".intercalate (branches text) = text ∧
      ∀ branch ∈ branches text, branches branch = [branch] := by
  refine ⟨?_, fun text => ⟨intercalate_branches text, fun _ => branches_of_mem⟩⟩
  obtain ⟨text, lowered, divides⟩ :=
    (TypeExpr.readable_of_read parsed).exists_divides balances.naming
  obtain ⟨element, repeats⟩ := Signature.exists_repeatsFirst text
  exact ⟨text, lowered, divides, element, repeats, repeats.balanced divides.balanced⟩

/-- The classes `App.User` and `App.Main`. -/
def twoUsers : Document := .ofFields [
  ("classes", .obj [("App.User", .obj []), ("App.Main", .obj [])])]

/-- The model with the two classes. -/
def users : Model := Build.after (Build.assemble twoUsers) (Model.empty .blank)

/-- The model names types, and an alias is a union with a branch in braces. -/
def userConverter : TypeConverter :=
  ⟨.obj [("Key", .str "string|\x7bid: (a|b)\x7d")], some users⟩

theorem userConverter_balances : userConverter.Balances "App.Main" := by
  have settings : users.settings = .blank := (Build.ends_assemble_settings rfl twoUsers).of_ok
    (Build.run_of_succeeds (by decide +kernel))
  have typed : users.settings.WellTyped := by
    rw [settings]
    decide
  refine ⟨⟨by decide, ?_, ?_⟩, ?_, ?_⟩
  · exact fun _ given => Option.some.inj given ▸ typed.namespaceAliases
  · exact fun _ given => Option.some.inj given ▸ typed.fixedReferences
  · intro members there entry mem text same
    cases there
    obtain rfl := List.mem_singleton.1 mem
    cases same
    decide
  · intro namer given n text isName
    obtain rfl : users = namer := Option.some.inj given
    refine Model.plain_referenceWithin (by decide +kernel) ?_ (plain_of_isName isName)
    intro members there
    rw [settings] at there
    cases there
    exact fun _ mem => absurd mem List.not_mem_nil

/-- A map and a list of keys, where a key is a text or has one as a field. -/
def keysText : String := "Map<User|string|\x7bid: (a|b)\x7d>|(string|\x7bid: (a|b)\x7d)[]"

/-- The bars of an alias part the branches of a union and not those of an array. -/
theorem lowered_divides_key :
    ∃ element, Signature.RepeatsFirst keysText element ∧ IsBalanced element ∧
      branches keysText =
        ["Map<User|string|\x7bid: (a|b)\x7d>", "(string|\x7bid: (a|b)\x7d)[]"] := by
  have parsed : TypeExpr.read "Map<App.User, Key>|Key[]..." = .ok (.union [
      .generic "Map" [.name "App.User", .name "Key"], .variadic (.array (.name "Key"))]) := by rfl
  obtain ⟨⟨text, lowered, divides, element, repeats, balanced⟩, -⟩ :=
    userConverter_balances.lowered_divides parsed
  have same : text = keysText := by
    have written := congrArg (fun type => type.toOption.bind Json.text?) lowered
    exact Option.some.inj (written.symm.trans (by decide +kernel))
  obtain rfl := same
  exact ⟨element, repeats, balanced, by decide +kernel⟩

end TypeConverter

end AmbientDecl
