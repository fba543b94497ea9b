/- # Written values are read back

A value is spelled with tokens: its brackets, commas and colons, and the keys and scalars between
them (`Json.tokens`).  The one-line text of the value is scanned as these tokens
(`Json.scan_oneLine`), and they are put together to the value again (`Json.build_tokens`), if no key
comes twice in it: the reader would keep the last one only.

So the text of a value is read as the value (`Json.read?_oneLine`), and two values that are written
alike are equal.
-/

import AmbientDecl.Proofs.Json.Keys
import AmbientDecl.Proofs.Json.Lexed

namespace AmbientDecl
namespace Json

open Token

variable {item value : Json} {items : List Json} {members : List (String × Json)}
  {rest : List Char} {done after : List Token} {frames : List Frame}

mutual

/-- The tokens that a value is spelled with. -/
def tokens : Json → List Token
  | arr items => .openList :: tokensOf items ++ [.closeList]
  | obj members => .openObject :: tokensUnder members ++ [.closeObject]
  | value => [.value value]

/-- The tokens of the elements of a list. -/
def tokensOf : List Json → List Token
  | [] => []
  | [item] => tokens item
  | item :: next :: rest => tokens item ++ .comma :: tokensOf (next :: rest)

/-- The tokens of the members of an object. -/
def tokensUnder : List (String × Json) → List Token
  | [] => []
  | [(key, value)] => .value (.str key) :: .colon :: tokens value
  | (key, value) :: next :: rest =>
    .value (.str key) :: .colon :: tokens value ++ .comma :: tokensUnder (next :: rest)

end

/-! Scanning -/

theorem scan_text {cs read : List Char} {limit? : Option Nat} :
    scan limit? (.text read) done (cs.flatMap writtenChar ++ '\x22' :: rest) =
      scan limit? .between (.value (.str (String.ofList (read.reverse ++ cs))) :: done) rest := by
  induction cs generalizing read with
  | nil =>
    rw [List.flatMap_nil, List.nil_append, List.append_nil]
    rfl
  | cons c cs ih =>
    rw [List.flatMap_cons, List.append_assoc, scan_writtenChar, ih, List.reverse_cons,
      List.append_assoc]
    rfl

/-- A text between quotes is one token. -/
theorem scan_writtenText {limit? : Option Nat} (s : String) :
    scan limit? .between done (writtenText s ++ rest) =
      scan limit? .between (.value (.str s) :: done) rest := by
  have opened : scan limit? .between done (writtenText s ++ rest) =
      scan limit? (.text []) done (s.toList.flatMap writtenChar ++ '\x22' :: rest) := by
    rw [writtenText, List.cons_append, List.cons_append, List.append_assoc]
    rfl
  rw [opened, scan_text, List.reverse_nil, List.nil_append, String.ofList_toList]

/-- The text of a value is scanned as the tokens of the value. -/
def Scanned (value : Json) : Prop :=
  ∀ (done : List Token) (rest : List Char), AtMark rest →
    scan none .between done (value.oneLine ++ rest) =
      scan none .between (value.tokens.reverse ++ done) rest

theorem scanned_word {word : List Char} (line : value.oneLine = word)
    (spelled : value.tokens = [ofWord none word]) (chars : word.all isWordChar = true)
    (some : word ≠ []) : Scanned value := by
  intro done rest ends
  rw [line, spelled, scan_between_word chars some ends]
  rfl

theorem atMark_comma (rest : List Char) : AtMark (',' :: rest) :=
  .cons (rfl : ofMark? ',' = some .comma) rest

theorem atMark_closeList (rest : List Char) : AtMark (']' :: rest) :=
  .cons (rfl : ofMark? ']' = some .closeList) rest

theorem atMark_closeObject (rest : List Char) : AtMark ('\x7d' :: rest) :=
  .cons (rfl : ofMark? '\x7d' = some .closeObject) rest

theorem scan_oneLineItems (h : ∀ item ∈ items, Scanned item) (ends : AtMark rest) :
    scan none .between done (oneLineItems items ++ rest) =
      scan none .between ((tokensOf items).reverse ++ done) rest := by
  induction items generalizing done with
  | nil => rfl
  | cons item items ih =>
    obtain ⟨first, h⟩ := List.forall_mem_cons.1 h
    cases items with
    | nil => exact first done rest ends
    | cons next items =>
      rw [oneLineItems, tokensOf, List.append_assoc, List.cons_append, List.cons_append,
        first _ _ (atMark_comma _), scan_mark rfl, scan_space, ih h]
      simp

theorem scan_oneLineMembers (h : ∀ entry ∈ members, Scanned entry.2) (ends : AtMark rest) :
    scan none .between done (oneLineMembers members ++ rest) =
      scan none .between ((tokensUnder members).reverse ++ done) rest := by
  induction members generalizing done with
  | nil => rfl
  | cons entry members ih =>
    obtain ⟨key, value⟩ := entry
    obtain ⟨first, h⟩ := List.forall_mem_cons.1 h
    cases members with
    | nil =>
      rw [oneLineMembers, tokensUnder, List.append_assoc, scan_writtenText, List.cons_append,
        List.cons_append, scan_mark rfl, scan_space, first _ _ ends]
      simp
    | cons next members =>
      rw [oneLineMembers, tokensUnder]
      simp only [List.append_assoc, List.cons_append]
      rw [scan_writtenText, scan_mark rfl, scan_space, first _ _ (atMark_comma _), scan_mark rfl,
        scan_space, ih h]
      simp

/-- **The text of a value is scanned as the tokens of the value.** -/
theorem scan_oneLine (value : Json) : Scanned value := by
  induction value using byParts with
  | null => exact scanned_word rfl rfl rfl (by decide)
  | bool b => cases b <;> exact scanned_word rfl rfl rfl (by decide)
  | int n =>
    have line : (Json.int n).oneLine = (toString n).toList := rfl
    have spelled : (Json.int n).tokens = [ofWord none (toString n).toList] := by
      rw [ofWord_int]
      rfl
    refine scanned_word line spelled (all_isWordChar_int n) ?_
    rw [toList_toString]
    split
    · exact List.cons_ne_nil _ _
    · exact Nat.toDigits_ne_nil
  | str s =>
    intro done rest _
    exact scan_writtenText s
  | arr items ih =>
    intro done rest _
    rw [oneLine, tokens, List.cons_append, List.cons_append, List.append_assoc,
      List.singleton_append, scan_mark rfl, scan_oneLineItems ih (atMark_closeList _),
      scan_mark rfl]
    simp
  | obj members ih =>
    intro done rest _
    rw [oneLine, tokens, List.cons_append, List.cons_append, List.append_assoc,
      List.singleton_append, scan_mark rfl, scan_oneLineMembers ih (atMark_closeObject _),
      scan_mark rfl]
    simp

/-! Building -/

section Steps

variable {done : List Json} {held : List (String × Json)} {key : String}

theorem build_value :
    build frames .value (.value value :: after) = build frames (.afterValue value) after := by
  cases frames <;> rfl

theorem build_openList :
    build frames .value (.openList :: after) = build (.list [] :: frames) .itemOrEnd after := by
  cases frames <;> rfl

theorem build_openObject : build frames .value (.openObject :: after) =
    build (.object [] "" :: frames) .keyOrEnd after := by
  cases frames <;> rfl

theorem build_nextItem : build (.list done :: frames) (.afterValue value) (.comma :: after) =
    build (.list (value :: done) :: frames) .value after := rfl

theorem build_closeList : build (.list done :: frames) (.afterValue value) (.closeList :: after) =
    build frames (.afterValue (.arr (value :: done).reverse)) after := rfl

theorem build_key : build frames (.key held) (.value (.str key) :: .colon :: after) =
    build (.object held key :: frames) .value after := by
  cases frames <;> rfl

theorem build_nextKey : build (.object held key :: frames) (.afterValue value) (.comma :: after) =
    build frames (.key ((key, value) :: held)) after := rfl

theorem build_closeObject :
    build (.object held key :: frames) (.afterValue value) (.closeObject :: after) =
      build frames (.afterValue (ofMembers ((key, value) :: held).reverse)) after := rfl

end Steps

/-- The tokens of a value are put together to the value. -/
def Built (value : Json) : Prop :=
  ∀ (frames : List Frame) (after : List Token),
    build frames .value (value.tokens ++ after) = build frames (.afterValue value) after

/-- The elements of a list, after those already read. -/
theorem build_tokensOf {done : List Json} (first : Built item) (h : ∀ item ∈ items, Built item) :
    build (.list done :: frames) .value (tokensOf (item :: items) ++ .closeList :: after) =
      build frames (.afterValue (.arr (done.reverse ++ item :: items))) after := by
  induction items generalizing item done with
  | nil =>
    rw [tokensOf, first, build_closeList]
    simp
  | cons next items ih =>
    obtain ⟨second, h⟩ := List.forall_mem_cons.1 h
    rw [tokensOf, List.append_assoc, first, List.cons_append, build_nextItem, ih second h]
    simp

/-- The members of an object, after those already read. -/
theorem build_tokensUnder {done : List (String × Json)} {key : String} (first : Built value)
    (h : ∀ entry ∈ members, Built entry.2) :
    build frames (.key done) (tokensUnder ((key, value) :: members) ++ .closeObject :: after) =
      build frames (.afterValue (ofMembers (done.reverse ++ (key, value) :: members))) after := by
  induction members generalizing key value done with
  | nil =>
    rw [tokensUnder, List.cons_append, List.cons_append, build_key, first, build_closeObject]
    simp
  | cons next members ih =>
    obtain ⟨key', value'⟩ := next
    obtain ⟨second, h⟩ := List.forall_mem_cons.1 h
    rw [tokensUnder, List.append_assoc, List.cons_append, List.cons_append, build_key, first,
      List.cons_append, build_nextKey, ih second h]
    simp

/-- The tokens of a list after its opening bracket. -/
theorem build_list (h : ∀ item ∈ items, Built item) :
    build (.list [] :: frames) .itemOrEnd (tokensOf items ++ .closeList :: after) =
      build frames (.afterValue (.arr items)) after := by
  cases items with
  | nil => rfl
  | cons item items =>
    obtain ⟨first, h⟩ := List.forall_mem_cons.1 h
    -- The first token of an element does not close the list.
    have opens : ∀ more, build (.list [] :: frames) .itemOrEnd (item.tokens ++ more) =
        build (.list [] :: frames) .value (item.tokens ++ more) := by
      intro more
      cases item <;> rfl
    have split : ∃ more, tokensOf (item :: items) ++ .closeList :: after = item.tokens ++ more := by
      cases items with
      | nil => exact ⟨_, rfl⟩
      | cons next items => exact ⟨_, by rw [tokensOf, List.append_assoc]⟩
    obtain ⟨more, split⟩ := split
    rw [split, opens, ← split, build_tokensOf first h]
    rfl

/-- The tokens of an object after its opening bracket. -/
theorem build_object (h : ∀ entry ∈ members, Built entry.2) :
    build (.object [] "" :: frames) .keyOrEnd (tokensUnder members ++ .closeObject :: after) =
      build frames (.afterValue (ofMembers members)) after := by
  cases members with
  | nil => rfl
  | cons entry members =>
    obtain ⟨key, value⟩ := entry
    obtain ⟨first, h⟩ := List.forall_mem_cons.1 h
    have opens : ∀ more,
        build (.object [] "" :: frames) .keyOrEnd (.value (.str key) :: more) =
          build frames (.key []) (.value (.str key) :: more) := by
      intro more
      cases frames <;> rfl
    have split : ∃ more, tokensUnder ((key, value) :: members) ++ .closeObject :: after =
        .value (.str key) :: more := by
      cases members <;> exact ⟨_, rfl⟩
    obtain ⟨more, split⟩ := split
    rw [split, opens, ← split, build_tokensUnder first h]
    rfl

/-- **The tokens of a value are put together to the value.** -/
theorem build_tokens (unique : value.hasUniqueKeys = true) : Built value := by
  induction value using byParts with
  | null => exact fun _ _ => build_value
  | bool b => exact fun _ _ => build_value
  | int n => exact fun _ _ => build_value
  | str s => exact fun _ _ => build_value
  | arr items ih =>
    rw [hasUniqueKeys_arr] at unique
    intro frames after
    rw [tokens, List.cons_append, List.cons_append, List.append_assoc, List.singleton_append,
      build_openList]
    exact build_list fun item mem => ih item mem (unique item mem)
  | obj members ih =>
    obtain ⟨nodup, unique⟩ := hasUniqueKeys_obj.1 unique
    intro frames after
    have all : Entries.putAll [] members = members := Entries.putAll_of_nodup nodup
    rw [tokens, List.cons_append, List.cons_append, List.append_assoc, List.singleton_append,
      build_openObject, build_object fun entry mem => ih entry mem (unique entry mem), ofMembers,
      all]

/-! Reading -/

theorem standIn_eq_self {token : Token} (native : token.isForeign = false) :
    token.standIn = token := by
  cases token with
  | foreign v => cases native
  | _ => rfl

theorem native_tokensOf (h : ∀ item ∈ items, ∀ token ∈ item.tokens, token.isForeign = false) :
    ∀ token ∈ tokensOf items, token.isForeign = false := by
  induction items with
  | nil => exact List.forall_mem_nil _
  | cons item items ih =>
    obtain ⟨first, h⟩ := List.forall_mem_cons.1 h
    cases items with
    | nil => exact first
    | cons next items =>
      rw [tokensOf, List.forall_mem_append, List.forall_mem_cons]
      exact ⟨first, rfl, ih h⟩

theorem native_tokensUnder
    (h : ∀ entry ∈ members, ∀ token ∈ entry.2.tokens, token.isForeign = false) :
    ∀ token ∈ tokensUnder members, token.isForeign = false := by
  induction members with
  | nil => exact List.forall_mem_nil _
  | cons entry members ih =>
    obtain ⟨key, value⟩ := entry
    obtain ⟨first, h⟩ := List.forall_mem_cons.1 h
    cases members with
    | nil =>
      rw [tokensUnder, List.forall_mem_cons, List.forall_mem_cons]
      exact ⟨rfl, rfl, first⟩
    | cons next members =>
      rw [tokensUnder, List.cons_append, List.cons_append, List.forall_mem_cons,
        List.forall_mem_cons, List.forall_mem_append, List.forall_mem_cons]
      exact ⟨rfl, rfl, first, rfl, ih h⟩

/-- No token of a value is foreign. -/
theorem native_tokens (value : Json) : ∀ token ∈ value.tokens, token.isForeign = false := by
  induction value using byParts with
  | null => exact List.forall_mem_singleton.2 rfl
  | bool b => exact List.forall_mem_singleton.2 rfl
  | int n => exact List.forall_mem_singleton.2 rfl
  | str s => exact List.forall_mem_singleton.2 rfl
  | arr items ih =>
    rw [tokens, List.cons_append, List.forall_mem_cons, List.forall_mem_append,
      List.forall_mem_singleton]
    exact ⟨rfl, native_tokensOf ih, rfl⟩
  | obj members ih =>
    rw [tokens, List.cons_append, List.forall_mem_cons, List.forall_mem_append,
      List.forall_mem_singleton]
    exact ⟨rfl, native_tokensUnder ih, rfl⟩

/-- **A written value is read back.** -/
theorem read?_oneLine (unique : value.hasUniqueKeys = true) :
    read? (String.ofList value.oneLine) = some value := by
  have scanned := scan_oneLine value [] [] (.inl rfl)
  have built := build_tokens unique [] []
  rw [List.append_nil] at scanned built
  have native := native_tokens value
  have same : value.tokens.map Token.standIn = value.tokens :=
    (List.map_congr_left fun token mem => standIn_eq_self (native token mem)).trans (List.map_id' _)
  have noForeign : value.tokens.any Token.isForeign = false :=
    List.any_eq_false.2 fun token mem => Bool.eq_false_iff.1 (native token mem)
  have result : read none (String.ofList value.oneLine) = .ok value := by
    rw [read, String.toList_ofList, scanned, scan, List.append_nil, List.reverse_reverse]
    rw [same, built, noForeign]
    rfl
  rw [read?, result]
  rfl

end Json
end AmbientDecl
