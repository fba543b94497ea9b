/- # The parameter lists of a method

A parameter after a rest parameter cannot be written.  So a list is cut after its first rest
parameter, and where that leaves parameters out, a second list is cut before it (`Overloads`).

A parameter is marked within the list that it stands in, and a cut may change what comes after it.
In every list the rest parameter is last, and no required parameter comes after an optional one
(`Legal`): one that is marked as optional has only optional and rest parameters after it, and none
of these has a required one after it either.
-/

import AmbientDecl.Output.Signature
import AmbientDecl.Proofs.Action.Except

namespace AmbientDecl
namespace Signature

variable {owner : Class} {member : Member} {param : Param} {ps following : List Param}
  {text : String} {texts : List String}

/-- How a parameter stands in a list. -/
inductive Mark where
  | required
  | optional
  | rest
  deriving DecidableEq

/-- The text of a parameter with a mark.  A rest parameter repeats the first branch of its type. -/
inductive WrittenAs (param : Param) : Mark → String → Prop where
  | required : WrittenAs param .required (param.name.display ++ ": " ++ param.type.display)
  | optional : WrittenAs param .optional (param.name.display ++ "?: " ++ param.type.display)
  | rest {element : Json} (first : restElement param.type = .ok element) :
      WrittenAs param .rest ("..." ++ param.name.display ++ ": " ++ element.display ++ "[]")

/-- A parameter as it is written in a list. -/
structure Entry where
  param : Param
  mark : Mark
  text : String

/-- A parameter has the mark that it needs before the given ones. -/
structure Suits (param : Param) (mark : Mark) (following : List Param) : Prop where
  rest : mark = .rest ↔ param.isRest = true
  optional : mark = .optional ↔ param.isOptional = true ∧ param.isRest = false ∧
    ∀ later ∈ following, later.isOptional = true ∨ later.isRest = true

/-- Every parameter of a list has the mark that it needs before those after it, and is written with
this mark. -/
structure Marked (entries : List Entry) : Prop where
  written : ∀ entry ∈ entries, WrittenAs entry.param entry.mark entry.text
  suits : ∀ entry after, entry :: after <:+ entries →
    Suits entry.param entry.mark (after.map Entry.param)

/-- A list that the target language takes: a rest parameter is the last one, and nothing that is
required comes after what is optional. -/
structure Legal (entries : List Entry) : Prop extends Marked entries where
  restLast : ∀ entry after, entry :: after <:+ entries → entry.mark = .rest → after = []
  gapless : ∀ entry after, entry :: after <:+ entries → entry.mark = .optional →
    ∀ later ∈ after, later.mark ≠ .required

/-- The lists that the parameters of a method are cut into. -/
inductive Overloads : List Param → List (List Param) → Prop where
  | whole {ps : List Param} (plain : ∀ p ∈ ps, p.isRest = false) : Overloads ps [ps]
  | restLast {before : List Param} {rest : Param} (plain : ∀ p ∈ before, p.isRest = false)
      (isRest : rest.isRest = true) : Overloads (before ++ [rest]) [before ++ [rest]]
  | restWithin {before after : List Param} {rest : Param} (plain : ∀ p ∈ before, p.isRest = false)
      (isRest : rest.isRest = true) (more : after ≠ []) :
      Overloads (before ++ rest :: after) [before ++ [rest], before]

/-- The declaration of a method with a parameter list. -/
def declarationWith (owner : Class) (member : Member) (entries : List Entry) : String :=
  keyword owner member ++ memberName member.item.name ++ "(" ++
    ", ".intercalate (entries.map Entry.text) ++ ")" ++ returnClause member

/-- The texts declare a method, one for each list that its parameters are cut into. -/
def DeclaresLegally (owner : Class) (member : Member) (texts : List String) : Prop :=
  ∃ lists : List (List Entry), Overloads member.params (lists.map (List.map Entry.param)) ∧
    (∀ entries ∈ lists, Legal entries) ∧ texts = lists.map (declarationWith owner member)

/-! ## The marks of a list -/

/-- The elements of a rest parameter have a type when its type has branches. -/
theorem exists_restElement_iff {type : Json} :
    (∃ element, restElement type = .ok element) ↔ (TypeText.branchesOf? type).isSome = true := by
  unfold restElement
  cases TypeText.branchesOf? type with
  | none =>
    constructor
    · rintro ⟨_, h⟩
      cases h
    · intro h
      cases h
  | some branches => exact ⟨fun _ => rfl, fun _ => ⟨_, rfl⟩⟩

theorem isMarked_iff : isMarked param following = true ↔ param.isOptional = true ∧
    param.isRest = false ∧ ∀ later ∈ following, later.isOptional = true ∨ later.isRest = true := by
  simp only [isMarked, canFollowGap, Bool.and_eq_true, Bool.not_eq_true', List.all_eq_true,
    Bool.or_eq_true, and_assoc]

/-- A parameter is written with the mark that it needs. -/
theorem exists_mark_of_paramText (h : paramText param following = .ok text) :
    ∃ mark, WrittenAs param mark text ∧ Suits param mark following := by
  unfold paramText at h
  dsimp only at h
  split at h
  next isRest =>
    obtain ⟨element, first, same⟩ := bind_eq_ok.1 h
    obtain rfl := Except.ok.inj same
    exact ⟨.rest, .rest first, by simp [isRest], by simp [isRest]⟩
  next notRest =>
    obtain rfl := Except.ok.inj h
    by_cases marked : isMarked param following = true
    · rw [if_pos marked]
      exact ⟨.optional, .optional, by simp [notRest], by simpa using isMarked_iff.1 marked⟩
    · rw [if_neg marked]
      exact ⟨.required, .required, by simp [notRest], by simpa using mt isMarked_iff.2 marked⟩

theorem exists_marked_of_paramTexts (h : paramTexts ps = .ok texts) :
    ∃ entries : List Entry, entries.map Entry.param = ps ∧ entries.map Entry.text = texts ∧
      Marked entries := by
  induction ps generalizing texts with
  | nil =>
    obtain rfl := Except.ok.inj h
    exact ⟨[], rfl, rfl, fun _ mem => absurd mem List.not_mem_nil,
      fun _ _ within => absurd (List.suffix_nil.1 within) (List.cons_ne_nil _ _)⟩
  | cons param following ih =>
    obtain ⟨text, first, h⟩ := bind_eq_ok.1 h
    obtain ⟨others, after, same⟩ := bind_eq_ok.1 h
    obtain rfl := Except.ok.inj same
    obtain ⟨mark, written, suits⟩ := exists_mark_of_paramText first
    obtain ⟨entries, rfl, rfl, marked⟩ := ih after
    refine ⟨⟨param, mark, text⟩ :: entries, rfl, rfl,
      List.forall_mem_cons.2 ⟨written, marked.written⟩, fun entry after within => ?_⟩
    rcases List.suffix_cons_iff.1 within with same | within
    · obtain ⟨rfl, rfl⟩ := List.cons.inj same
      exact suits
    · exact marked.suits entry after within

/-- A list can be written when the types of its rest parameters have branches. -/
theorem exists_paramTexts_iff : (∃ texts, paramTexts ps = .ok texts) ↔
    ∀ p ∈ ps, p.isRest = true → (TypeText.branchesOf? p.type).isSome = true := by
  induction ps with
  | nil => exact ⟨fun _ _ mem => absurd mem List.not_mem_nil, fun _ => ⟨[], rfl⟩⟩
  | cons param following ih =>
    have head : (∃ text, paramText param following = .ok text) ↔
        (param.isRest = true → (TypeText.branchesOf? param.type).isSome = true) := by
      rw [← exists_restElement_iff]
      unfold paramText
      dsimp only
      split
      next isRest =>
        simp only [isRest, forall_true_left, bind_eq_ok]
        exact ⟨fun ⟨_, element, first, _⟩ => ⟨element, first⟩,
          fun ⟨element, first⟩ => ⟨_, element, first, rfl⟩⟩
      next notRest => exact ⟨fun _ isRest => absurd isRest notRest, fun _ => ⟨_, rfl⟩⟩
    rw [List.forall_mem_cons, ← ih, ← head]
    simp only [paramTexts, bind_eq_ok]
    constructor
    · rintro ⟨_, text, first, others, after, _⟩
      exact ⟨⟨text, first⟩, others, after⟩
    · rintro ⟨⟨text, first⟩, others, after⟩
      exact ⟨_, text, first, others, after, rfl⟩

/-- **A list that is cut at its rest parameter is legal.** -/
theorem Marked.legal {entries : List Entry} (marked : Marked entries)
    (cut : ∀ p after, p :: after <:+ entries.map Entry.param → p.isRest = true → after = []) :
    Legal entries := by
  refine { marked with restLast := fun entry after within mark => ?_, gapless := ?_ }
  · have isRest := (marked.suits entry after within).rest.1 mark
    exact List.map_eq_nil_iff.1 (cut _ _ (within.map Entry.param) isRest)
  · intro entry after within mark later mem required
    obtain ⟨-, -, each⟩ := (marked.suits entry after within).optional.1 mark
    obtain ⟨between, others, rfl⟩ := List.append_of_mem mem
    -- What comes after the later one also comes after the first one.
    have further : later :: others <:+ entries :=
      (List.suffix_append (entry :: between) (later :: others)).trans within
    have suits := marked.suits later others further
    have notRest : later.param.isRest = false := by
      rw [← Bool.not_eq_true, ← suits.rest, required]
      exact Mark.noConfusion
    have isOptional : later.param.isOptional = true :=
      (each later.param (List.mem_map_of_mem mem)).resolve_right (by simp [notRest])
    have rest : ∀ p ∈ others.map Entry.param, p.isOptional = true ∨ p.isRest = true :=
      fun p among => each p (by simp [among])
    rw [suits.optional.2 ⟨isOptional, notRest, rest⟩] at required
    cases required

/-! ## The lists of a method -/

/-- Where the first rest parameter of a list stands. -/
inductive FirstRest : List Param → Option Nat → Prop where
  | absent {ps : List Param} (plain : ∀ p ∈ ps, p.isRest = false) : FirstRest ps none
  | found {before after : List Param} {rest : Param} (plain : ∀ p ∈ before, p.isRest = false)
      (isRest : rest.isRest = true) : FirstRest (before ++ rest :: after) (some before.length)

theorem firstRest (ps : List Param) : FirstRest ps (ps.findIdx? Param.isRest) := by
  induction ps with
  | nil => exact .absent fun _ mem => absurd mem List.not_mem_nil
  | cons p ps ih =>
    rw [List.findIdx?_cons]
    split
    next isRest =>
      have nothing : ∀ p ∈ ([] : List Param), p.isRest = false :=
        fun _ mem => absurd mem List.not_mem_nil
      exact .found nothing isRest
    next notRest =>
      have plain : p.isRest = false := Bool.eq_false_iff.2 notRest
      generalize ps.findIdx? Param.isRest = index? at ih
      cases ih with
      | absent others => exact .absent (List.forall_mem_cons.2 ⟨plain, others⟩)
      | found others isRest =>
        exact .found (List.forall_mem_cons.2 ⟨plain, others⟩) isRest

/-- The lists of parameters of a method. -/
def declaredLists (member : Member) : List (List Param) :=
  if needsOverload member then [declaredParams member true, declaredParams member false]
  else [declaredParams member true]

theorem overloads_declaredLists (member : Member) :
    Overloads member.params (declaredLists member) := by
  have first := firstRest member.params
  unfold declaredLists needsOverload declaredParams
  rw [Member.restIndex?]
  generalize member.params.findIdx? Param.isRest = index? at first
  generalize member.params = ps at first
  cases first with
  | absent plain => exact .whole plain
  | @found before after rest plain isRest =>
    simp only [if_true, Bool.false_eq_true, if_false, List.take_length_add_append,
      List.take_left, List.take_succ_cons, List.take_zero, List.length_append, List.length_cons]
    cases after with
    | nil => simpa using .restLast plain isRest
    | cons next others =>
      rw [if_pos (by simp)]
      exact .restWithin plain isRest (List.cons_ne_nil _ _)

/-- Every list of a method is cut: only its last parameter can be a rest parameter. -/
theorem Overloads.plain_dropLast {lists : List (List Param)} (h : Overloads ps lists) :
    ∀ list ∈ lists, ∀ p ∈ list.dropLast, p.isRest = false := by
  cases h with
  | whole plain =>
    exact List.forall_mem_singleton.2 fun p mem => plain p (List.dropLast_subset _ mem)
  | restLast plain =>
    rw [List.forall_mem_singleton, List.dropLast_concat]
    exact plain
  | restWithin plain =>
    rw [List.forall_mem_cons, List.forall_mem_singleton, List.dropLast_concat]
    exact ⟨plain, fun p mem => plain p (List.dropLast_subset _ mem)⟩

theorem cut_of_plain_dropLast (plain : ∀ p ∈ ps.dropLast, p.isRest = false) {after : List Param}
    (within : param :: after <:+ ps) (isRest : param.isRest = true) : after = [] := by
  obtain ⟨before, rfl⟩ := within
  by_contra more
  have early : param ∈ (before ++ param :: after).dropLast := by
    rw [List.dropLast_append_cons, List.dropLast_cons_of_ne_nil more]
    simp
  exact Bool.false_ne_true ((plain param early).symm.trans isRest)

/-- The one rest parameter in the lists of a method is the first one of its parameters. -/
theorem Overloads.exists_rest_iff {lists : List (List Param)} (h : Overloads ps lists) {p : Param} :
    (∃ list ∈ lists, p ∈ list ∧ p.isRest = true) ↔ ps.find? Param.isRest = some p := by
  have notIn {list : List Param} (plain : ∀ p ∈ list, p.isRest = false) :
      ¬ (p ∈ list ∧ p.isRest = true) :=
    fun ⟨mem, isRest⟩ => Bool.false_ne_true ((plain p mem).symm.trans isRest)
  have skip {before : List Param} (plain : ∀ p ∈ before, p.isRest = false) :
      before.find? Param.isRest = none := by
    simpa [List.find?_eq_none] using plain
  have onlyRest {before : List Param} {rest : Param} (plain : ∀ p ∈ before, p.isRest = false)
      (isRest : rest.isRest = true) : (p ∈ before ++ [rest] ∧ p.isRest = true) ↔ rest = p := by
    rw [List.mem_append, List.mem_singleton, or_and_right, or_iff_right (notIn plain)]
    exact ⟨fun same => same.1.symm, fun same => same ▸ ⟨rfl, isRest⟩⟩
  cases h with
  | whole plain => simp [skip plain, notIn plain]
  | restLast plain isRest => simpa [skip plain, isRest] using onlyRest plain isRest
  | restWithin plain isRest =>
    simpa [skip plain, isRest, notIn plain] using onlyRest plain isRest

/-- The declaration of a method with a list of parameters. -/
def declareList (owner : Class) (member : Member) (list : List Param) :
    Except ShapeFault String := do
  return keyword owner member ++ memberName member.item.name ++ "(" ++
    ", ".intercalate (← paramTexts list) ++ ")" ++ returnClause member

theorem declare_eq (called : member.isMethod = true) (withRest : Bool) :
    declare owner member withRest = declareList owner member (declaredParams member withRest) := by
  unfold declare declareList params
  simp only [called, if_true, bind_assoc, pure_bind]

/-- A method has one declaration for each of its lists. -/
theorem declarations_eq (called : member.isMethod = true) :
    declarations owner member = (declaredLists member).mapM (declareList owner member) := by
  unfold declarations declaredLists
  split
  · simp [declare_eq called]
  · simp [declare_eq called]

theorem exists_declareList_iff {list : List Param} :
    (∃ text, declareList owner member list = .ok text) ↔
      ∃ texts, paramTexts list = .ok texts := by
  unfold declareList
  simp only [bind_eq_ok]
  exact ⟨fun ⟨_, texts, h, _⟩ => ⟨texts, h⟩, fun ⟨texts, h⟩ => ⟨_, texts, h, rfl⟩⟩

/-- A list that is cut is written as a legal one. -/
theorem exists_legal_of_declareList {list : List Param}
    (plain : ∀ p ∈ list.dropLast, p.isRest = false)
    (h : declareList owner member list = .ok text) :
    ∃ entries : List Entry, entries.map Entry.param = list ∧ Legal entries ∧
      text = declarationWith owner member entries := by
  obtain ⟨texts, written, same⟩ := bind_eq_ok.1 h
  obtain rfl := Except.ok.inj same
  obtain ⟨entries, rfl, rfl, marked⟩ := exists_marked_of_paramTexts written
  exact ⟨entries, rfl, marked.legal fun _ _ => cut_of_plain_dropLast plain, rfl⟩

/-- Lists that are cut are written as legal ones. -/
theorem exists_legal_of_forall₂ {lists : List (List Param)}
    (plain : ∀ list ∈ lists, ∀ p ∈ list.dropLast, p.isRest = false)
    (h : List.Forall₂ (fun list text => declareList owner member list = .ok text) lists texts) :
    ∃ entryLists : List (List Entry), entryLists.map (List.map Entry.param) = lists ∧
      (∀ entries ∈ entryLists, Legal entries) ∧
      texts = entryLists.map (declarationWith owner member) := by
  induction h with
  | nil => exact ⟨[], rfl, fun _ mem => absurd mem List.not_mem_nil, rfl⟩
  | cons first _ ih =>
    obtain ⟨head, each⟩ := List.forall_mem_cons.1 plain
    obtain ⟨entries, rfl, legal, rfl⟩ := exists_legal_of_declareList head first
    obtain ⟨rest, rfl, others, rfl⟩ := ih each
    exact ⟨entries :: rest, rfl, List.forall_mem_cons.2 ⟨legal, others⟩, rfl⟩

/-- **The parameter lists of a method are legal.**  A method has declarations when the type of its
first rest parameter has branches, as every text has.  There is one declaration for each list that
the parameters are cut into, and every list is written as a legal one. -/
theorem declarations_legal (called : member.isMethod = true) :
    ((∃ texts, declarations owner member = .ok texts) ↔
      ∀ rest, member.params.find? Param.isRest = some rest →
        (TypeText.branchesOf? rest.type).isSome = true) ∧
      ∀ texts, declarations owner member = .ok texts → DeclaresLegally owner member texts := by
  have overloads := overloads_declaredLists member
  rw [declarations_eq called]
  constructor
  · simp only [exists_mapM_iff, exists_declareList_iff, exists_paramTexts_iff,
      ← overloads.exists_rest_iff]
    constructor
    · rintro each rest ⟨list, mem, among, isRest⟩
      exact each list mem rest among isRest
    · intro each list mem p among isRest
      exact each p ⟨list, mem, among, isRest⟩
  · intro texts h
    obtain ⟨entryLists, same, legal, rfl⟩ :=
      exists_legal_of_forall₂ overloads.plain_dropLast (mapM_eq_ok_iff.1 h)
    exact ⟨entryLists, same ▸ overloads, legal, rfl⟩

/-- A method with two rest parameters, neither of which is the last parameter. -/
def send : Member where
  item := { (default : Item) with kind := .method, name := "send" }
  owner := 0
  isPrivate := false
  type := .str ""
  params := [⟨.str "action", .str "string", false, true⟩, ⟨.str "at", .str "Date", false, false⟩,
    ⟨.str "note", .str "string", false, true⟩, ⟨.str "keys", .str "Key|Id", true, false⟩,
    ⟨.str "done", .str "Function", false, false⟩, ⟨.str "more", .str "any", true, true⟩]
  returnType := some (.str "void")

/-- The note may be left out, since what comes after it is cut. -/
theorem declarations_legal_send : DeclaresLegally default send
    ["send(action: string, at: Date, note?: string, ...keys: Key[]): void",
      "send(action: string, at: Date, note?: string): void"] :=
  (@declarations_legal default send (by decide)).2 _ (by decide +kernel)

end Signature
end AmbientDecl
