/- # Documentation stays in its comment

A comment is over where it is first closed.  No text closes one in which a star never stands right
before a slash (`Unclosed`).  Breaking the closers of a text leaves it unclosed, and the seams of a
comment add none: its lines start with a blank and a star, and so does its last line.  An
indentation puts spaces after the line feeds and nothing else (`intercalate_indent`), so it adds
none either.  What is written after a comment therefore stands outside of it (`comments_enclose`).
-/

import AmbientDecl.Output.File
import AmbientDecl.Proofs.Action.Except
import Mathlib.Data.List.Chain

namespace AmbientDecl
namespace DocComment

variable {cs ds lead inner rest : List Char} {c : Char} {comment : String} {ls : List String}

/-- After the lead the text opens a comment, and it closes one at its end and nowhere else. -/
structure IsComment (lead text : String) : Prop where
  opens : ∃ rest, text = lead ++ "/**" ++ rest
  closes : ∀ after, (∃ before, text = before ++ "*/" ++ after) ↔ after = ""

/-- So many spaces. -/
def spaces (n : Nat) : String := String.ofList (List.replicate n ' ')

/-- A text that is a comment, as it is and after any indentation. -/
structure StaysComment (text : String) : Prop where
  bare : IsComment "" text
  indented : ∀ n, IsComment (spaces n) ("\n".intercalate (indent (spaces n) text))

/-- What stands after the first closer of a comment. -/
def afterCloser? : List Char → Option (List Char)
  | [] => none
  | '*' :: '/' :: cs => some cs
  | _ :: cs => afterCloser? cs

/-- What stands after the comment that a text starts with, where spaces before it do not count. -/
def afterComment? : List Char → Option (List Char)
  | '/' :: '*' :: cs => afterCloser? cs
  | ' ' :: cs => afterComment? cs
  | _ => none

/-- No star stands right before a slash. -/
def Unclosed (cs : List Char) : Prop := cs.IsChain fun c next => ¬ (c = '*' ∧ next = '/')

instance (cs : List Char) : Decidable (Unclosed cs) :=
  inferInstanceAs (Decidable (cs.IsChain _))

/-! ## Unclosed texts -/

theorem unclosed_of_starless (h : '*' ∉ cs) : Unclosed cs := by
  refine List.isChain_iff_forall_rel_of_append_cons_cons.2 ?_
  rintro c next before after rfl ⟨rfl, -⟩
  simp at h

/-- Two texts are unclosed together when no star stands at the seam. -/
theorem Unclosed.append (h : Unclosed cs) (h' : Unclosed ds) (seam : '*' ∉ cs.getLast?) :
    Unclosed (cs ++ ds) := by
  refine List.isChain_append.2 ⟨h, h', fun c last next _ closer => seam ?_⟩
  rw [← closer.1]
  exact last

theorem head?_breakClosers (cs : List Char) : (breakClosers cs).head? = cs.head? := by
  fun_cases breakClosers cs <;> rfl

/-- **A text whose closers are broken is unclosed.** -/
theorem unclosed_breakClosers (cs : List Char) : Unclosed (breakClosers cs) := by
  fun_induction breakClosers cs with
  | case1 => exact .nil
  | case2 cs ih =>
    have broken : Unclosed ['*', '\\', '/'] := by decide
    exact broken.append ih (by decide)
  | case3 c cs whole ih =>
    refine List.isChain_cons.2 ⟨fun next head => ?_, ih⟩
    rintro ⟨rfl, rfl⟩
    rw [head?_breakClosers] at head
    obtain ⟨others, rfl⟩ := List.head?_eq_some_iff.1 head
    exact whole others rfl rfl

/-- An unclosed text is scanned up to the closer behind it. -/
theorem afterCloser?_append (h : Unclosed cs) (rest : List Char) :
    afterCloser? (cs ++ '*' :: '/' :: rest) = some rest := by
  induction cs with
  | nil => rfl
  | cons c cs ih =>
    obtain ⟨head, tail⟩ := List.isChain_cons.1 h
    rw [List.cons_append, afterCloser?, ih tail]
    rintro others rfl closer
    cases cs with
    | nil => cases closer
    | cons d cs => exact head d rfl ⟨rfl, (List.cons.inj closer).1⟩

/-- Behind an unclosed text a closer is the first one. -/
theorem Unclosed.closes_iff (h : Unclosed cs) {after : List Char} :
    (∃ before, cs ++ ['*', '/'] = before ++ '*' :: '/' :: after) ↔ after = [] := by
  constructor
  · rintro ⟨before, same⟩
    rcases List.eq_nil_or_concat after with none | ⟨inside, last, rfl⟩
    · exact none
    · -- Without its last character the text is unclosed, and the closer is still in it.
      have open' : Unclosed (cs ++ ['*']) := List.isChain_append.2 ⟨h, .singleton _, by simp⟩
      have ends : (cs ++ ['*']) ++ ['/'] = (before ++ '*' :: '/' :: inside) ++ [last] := by
        simpa using same
      have shorter := (List.append_inj' ends rfl).1
      exact absurd ⟨rfl, rfl⟩ (List.isChain_iff_forall_rel_of_append_cons_cons.1 open' shorter)
  · rintro rfl
    exact ⟨cs, rfl⟩

/-! ## Indented texts -/

/-- The text with spaces after every line feed. -/
def continued (lead cs : List Char) : List Char :=
  cs.flatMap fun c => if c = '\n' then '\n' :: lead else [c]

@[simp] theorem continued_nil (lead : List Char) : continued lead [] = [] := rfl

@[simp] theorem continued_cons (lead : List Char) (c : Char) (cs : List Char) :
    continued lead (c :: cs) = (if c = '\n' then '\n' :: lead else [c]) ++ continued lead cs :=
  List.flatMap_cons

theorem continued_append (lead cs ds : List Char) :
    continued lead (cs ++ ds) = continued lead cs ++ continued lead ds :=
  List.flatMap_append

theorem lines_cons (c : Char) (cs : List Char) :
    lines (c :: cs) = if c = '\n' then [] :: lines cs else (lines cs).modifyHead (List.cons c) := by
  simp [lines, List.splitOn, List.splitOnP_cons_eq_if_modifyHead]

theorem lines_ne_nil (cs : List Char) : lines cs ≠ [] := List.splitOnP_ne_nil _ cs

/-- An indented text has the lead before its first line, and after every line feed. -/
theorem intercalate_indent (indentation text : String) :
    ("\n".intercalate (indent indentation text)).toList =
      indentation.toList ++ continued indentation.toList text.toList := by
  have each (cs : List Char) :
      List.intercalate ['\n'] ((lines cs).map (indentation.toList ++ ·)) =
        indentation.toList ++ continued indentation.toList cs := by
    induction cs with
    | nil => simp [lines, List.splitOn]
    | cons c cs ih =>
      obtain ⟨first, others, same⟩ := List.exists_cons_of_ne_nil (lines_ne_nil cs)
      rw [continued_cons, lines_cons]
      split
      next =>
        rw [List.map_cons, same, List.map_cons, List.intercalate_cons_cons, ← List.map_cons, ← same,
          ih]
        simp
      next =>
        rw [same] at ih ⊢
        cases others <;> simpa using ih
  rw [String.toList_intercalate, ← each, indent, List.map_map]
  simp [Function.comp_def]

theorem head?_continued (lead cs : List Char) : (continued lead cs).head? = cs.head? := by
  cases cs with
  | nil => rfl
  | cons c cs =>
    rw [continued_cons]
    split
    next feed => rw [feed]; rfl
    next => rfl

theorem Unclosed.continued (h : Unclosed cs) (starless : '*' ∉ lead) :
    Unclosed (continued lead cs) := by
  induction cs with
  | nil => exact .nil
  | cons c cs ih =>
    obtain ⟨head, tail⟩ := List.isChain_cons.1 h
    rw [continued_cons]
    split
    next =>
      have quiet : '*' ∉ '\n' :: lead := by simp [starless]
      exact (unclosed_of_starless quiet).append (ih tail) fun last =>
        quiet (List.mem_of_getLast? last)
    next =>
      refine List.isChain_cons.2 ⟨fun next mem => head next ?_, ih tail⟩
      rwa [← head?_continued lead cs]

/-! ## Comments -/

/-- What is wrapped is a comment when its inside is unclosed and opens with no slash. -/
theorem isComment_of_wrapped {lead text : String} (starless : '*' ∉ lead.toList)
    (h : Unclosed ('*' :: inner))
    (same : text.toList = lead.toList ++ '/' :: '*' :: '*' :: inner ++ ['*', '/']) :
    IsComment lead text := by
  have opened : Unclosed ('/' :: '*' :: '*' :: inner) :=
    List.isChain_cons_cons.2 ⟨by decide, List.isChain_cons_cons.2 ⟨by decide, h⟩⟩
  have whole : Unclosed (lead.toList ++ '/' :: '*' :: '*' :: inner) :=
    (unclosed_of_starless starless).append opened fun last => starless (List.mem_of_getLast? last)
  refine ⟨⟨String.ofList (inner ++ ['*', '/']), ?_⟩, fun after => ?_⟩
  · rw [← String.toList_inj, same]
    simp
  · rw [← String.toList_inj, String.toList_empty, ← whole.closes_iff, ← same]
    constructor
    · rintro ⟨before, rfl⟩
      exact ⟨before.toList, by simp⟩
    · rintro ⟨before, same⟩
      refine ⟨String.ofList before, ?_⟩
      rw [← String.toList_inj, same]
      simp

/-- The inside of a comment is unclosed. -/
theorem exists_inner_of_format? (h : format? ls = some comment) :
    ∃ inner, Unclosed ('*' :: inner) ∧
      comment.toList = '/' :: '*' :: '*' :: inner ++ ['*', '/'] := by
  unfold format? at h
  split at h
  · cases h
  · obtain rfl := Option.some.inj h
    have first : Unclosed ['*', '\n'] := by decide
    have last : Unclosed ['\n', ' '] := by decide
    generalize unlines (ls.map commentLine) = body
    refine ⟨'\n' :: breakClosers body ++ ['\n', ' '], ?_, by simp⟩
    have seam : breakClosers body ++ ['\n', ' '] = breakClosers body ++ '\n' :: [' '] := rfl
    exact first.append (List.isChain_append.2 ⟨unclosed_breakClosers body, last, by simp⟩)
      (by decide)

theorem starless_spaces (n : Nat) : '*' ∉ (spaces n).toList := by
  simp [spaces]

/-- The lines of a formatted text wrap an inside, too. -/
theorem exists_inner_of_indent (h : format? ls = some comment) (n : Nat) :
    ∃ inner, Unclosed ('*' :: inner) ∧
      ("\n".intercalate (indent (spaces n) comment)).toList =
        (spaces n).toList ++ '/' :: '*' :: '*' :: inner ++ ['*', '/'] := by
  obtain ⟨inner, unclosed, same⟩ := exists_inner_of_format? h
  refine ⟨continued (spaces n).toList inner, unclosed.continued (starless_spaces n), ?_⟩
  rw [intercalate_indent, same]
  simp [continued_append]

/-- **A formatted text stays a comment.** -/
theorem staysComment_of_format? (h : format? ls = some comment) : StaysComment comment := by
  constructor
  · obtain ⟨inner, unclosed, same⟩ := exists_inner_of_format? h
    exact isComment_of_wrapped List.not_mem_nil unclosed same
  · intro n
    obtain ⟨inner, unclosed, same⟩ := exists_inner_of_indent h n
    exact isComment_of_wrapped (starless_spaces n) unclosed same

theorem afterComment?_spaces (n : Nat) (cs : List Char) :
    afterComment? ((spaces n).toList ++ cs) = afterComment? cs := by
  rw [spaces, String.toList_ofList]
  induction n with
  | zero => rfl
  | succ n ih => exact ih

/-- The lines start with a comment, and after it stands a line feed before each of the others. -/
def LeavesOut (all others : List String) : Prop :=
  afterComment? ("\n".intercalate all).toList = some ("\n".intercalate ("" :: others)).toList

/-- **A comment is over where the next line starts.** -/
theorem leavesOut_indent (h : format? ls = some comment) (n : Nat) (others : List String) :
    LeavesOut (indent (spaces n) comment ++ others) others := by
  obtain ⟨inner, unclosed, same⟩ := exists_inner_of_indent h n
  have some : indent (spaces n) comment ≠ [] := by
    simpa [indent] using lines_ne_nil comment.toList
  have joined : "\n".intercalate (indent (spaces n) comment ++ others) =
      "\n".intercalate (indent (spaces n) comment) ++ "\n".intercalate ("" :: others) := by
    cases others with
    | nil => simp
    | cons next others =>
      rw [String.intercalate_append_of_ne_nil some (List.cons_ne_nil _ _),
        String.intercalate_cons_cons, String.empty_append, String.append_assoc]
  rw [LeavesOut, joined, String.toList_append, same, List.append_assoc, List.append_assoc,
    afterComment?_spaces]
  exact afterCloser?_append unclosed _

end DocComment

namespace Output

open DocComment

variable {m : Model} {id : ClassId} {entry : String × Member} {member : MemberText}
  {block : ClassBlock}

theorem leavesOut_commentLines {comment? : Option String} (commented : comment?.isSome)
    (formatted : ∀ comment ∈ comment?, ∃ ls, format? ls = some comment) (n : Nat)
    (others : List String) : LeavesOut (commentLines (spaces n) comment? ++ others) others := by
  obtain ⟨comment, rfl⟩ := Option.isSome_iff_exists.1 commented
  obtain ⟨ls, h⟩ := formatted comment rfl
  exact leavesOut_indent h n others

/-- The declarations of a member stand outside of its comment. -/
theorem leavesOut_member (h : memberText m id entry = .ok member)
    (commented : member.comment?.isSome) (n : Nat) (following : List String) :
    LeavesOut (member.lines (spaces n) ++ following)
      (MemberText.lines (spaces n) { member with comment? := none } ++ following) := by
  unfold memberText at h
  obtain ⟨declarations, -, same⟩ := bind_eq_ok.1 h
  obtain rfl := Except.ok.inj same
  rw [MemberText.lines, MemberText.lines, commentLines, List.nil_append, List.append_assoc]
  exact leavesOut_commentLines commented (fun comment there => ⟨_, there⟩) n _

/-- The block of a class stands outside of the comment of the class. -/
theorem leavesOut_block (h : classBlock m id = .ok block) (commented : block.comment?.isSome)
    (n : Nat) (following : List String) :
    LeavesOut (block.lines (spaces n) ++ following)
      (ClassBlock.lines (spaces n) { block with comment? := none } ++ following) := by
  unfold classBlock at h
  dsimp only at h
  obtain ⟨header, -, h⟩ := bind_eq_ok.1 h
  obtain ⟨members, -, same⟩ := bind_eq_ok.1 h
  obtain rfl := Except.ok.inj same
  rw [ClassBlock.lines, ClassBlock.lines, List.append_assoc, List.append_assoc, List.append_assoc]
  exact leavesOut_commentLines commented (fun comment there => ⟨_, there⟩) n _

/-- **Documentation stays in its comment.**  The comment of some lines, of a class or of a member
opens where it starts and is closed at its end and nowhere else, and so are its lines after every
indentation.  What is written after it, the declarations of the member or the block of the class and
all lines that follow, stands outside of it. -/
theorem comments_enclose :
    (∀ ls comment, format? ls = some comment → StaysComment comment) ∧
      (∀ c comment, ofClass? c = some comment → StaysComment comment) ∧
      (∀ owner member comment, ofMember? owner member = some comment → StaysComment comment) ∧
      (∀ m id entry member, memberText m id entry = .ok member → member.comment?.isSome →
        ∀ n following, LeavesOut (member.lines (spaces n) ++ following)
          (MemberText.lines (spaces n) { member with comment? := none } ++ following)) ∧
      ∀ m id block, classBlock m id = .ok block → block.comment?.isSome →
        ∀ n following, LeavesOut (block.lines (spaces n) ++ following)
          (ClassBlock.lines (spaces n) { block with comment? := none } ++ following) :=
  ⟨fun _ _ => staysComment_of_format?, fun _ _ => staysComment_of_format?,
    fun _ _ _ => staysComment_of_format?, fun _ _ _ _ => leavesOut_member,
    fun _ _ _ => leavesOut_block⟩

/-- An indented comment starts with the indentation and not with the comment. -/
theorem not_opens_indented : ∃ comment, format? ["Keys."] = some comment ∧
    ¬ ∃ rest, "\n".intercalate (indent (spaces 2) comment) = "/**" ++ rest := by
  refine ⟨"/**\n * Keys.\n */", by decide +kernel, ?_⟩
  rintro ⟨rest, same⟩
  have blank :
      ("\n".intercalate (indent (spaces 2) "/**\n * Keys.\n */")).toList.head? = some ' ' := by
    decide +kernel
  rw [same, String.toList_append] at blank
  cases blank

/-- The description of a class and of its member, which closes a comment and starts another line
with a slash. -/
def slashed : Notice := ⟨"All keys *\n/ values */", false, ""⟩

/-- A property with the description. -/
def slashedKeys : Member :=
  { (default : Member) with
    item := { (default : Item) with name := "keys", kind := .property, notice := slashed }
    type := .str "Key" }

/-- A class with the description and the property. -/
def slashedClass : Class :=
  { (default : Class) with
    record := { (default : ClassRecord) with notice := slashed }
    members := [("keys", slashedKeys)] }

/-- The model of the class. -/
def slashedModel : Model := { (default : Model) with classes := [slashedClass] }

/-- The comment of the class and of its property. -/
def slashedComment : String := "/**\n * All keys *\n * / values *\\/\n */"

/-- The texts of the property. -/
def slashedTexts : MemberText := ⟨0, "keys", some slashedComment, ["keys: Key"]⟩

/-- The block of the class. -/
def slashedBlock : ClassBlock := ⟨0, some slashedComment, "class ", [slashedTexts]⟩

theorem memberText_slashed :
    memberText slashedModel 0 ("keys", slashedKeys) = .ok slashedTexts := by
  have comment : ofMember? slashedClass slashedKeys = some slashedComment := by decide +kernel
  have declared : Signature.declarations slashedClass slashedKeys = .ok ["keys: Key"] := by
    decide +kernel
  have owner : slashedModel.classAt slashedKeys.owner = slashedClass := rfl
  unfold memberText
  rw [owner]
  dsimp only
  rw [comment, declared]
  rfl

theorem classBlock_slashed : classBlock slashedModel 0 = .ok slashedBlock := by
  have comment : ofClass? slashedClass = some slashedComment := by decide +kernel
  have header : classHeader slashedModel slashedClass = .ok "class " := by decide +kernel
  have texts : memberTexts slashedModel 0 = .ok [slashedTexts] :=
    mapM_eq_ok_iff.2 (.cons memberText_slashed .nil)
  have owner : slashedModel.classAt 0 = slashedClass := rfl
  unfold classBlock
  rw [owner]
  dsimp only
  rw [comment, header, texts]
  rfl

/-- The block and its property stand outside of the comments. -/
theorem comments_enclose_slashed :
    StaysComment slashedComment ∧
      LeavesOut (slashedTexts.lines (spaces 4) ++ ["  \x7d"])
        ["    keys: Key;", "  \x7d"] ∧
      LeavesOut (slashedBlock.lines (spaces 2) ++ [])
        (["  class  \x7b"] ++ slashedTexts.lines (spaces 4) ++ ["  \x7d"]) := by
  obtain ⟨-, ofClass, -, members, blocks⟩ := comments_enclose
  have comment : ofClass? slashedClass = some slashedComment := by decide +kernel
  exact ⟨ofClass _ _ comment, members _ _ _ _ memberText_slashed rfl 4 _,
    blocks _ _ _ classBlock_slashed rfl 2 []⟩

end Output
end AmbientDecl
