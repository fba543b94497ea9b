/- # Local names

Inside the class named `base` a name is looked for on the way out, under the leading runs of the
segments of `base`.  Two searches of this kind follow each other, and both take the longest run
that fits (`Dotted.LongestRun`).

* The first one looks for a class: the name stands for the full name of the class that is
  registered under the longest run, or else for itself (`StandsForName`).
* The second one looks at the full name: what follows the longest run and a dot is its short form,
  unless this is a built-in type (`IsShortFor`).

So a full name can be told from its short form and `base`, and a short form is no built-in type
(`reference_recoverable`).  A fixed reference is looked up between the two searches.  It may be a
built-in type, and a name that has one loses it where the first search ends at another full name
(`fixedReference_wins_iff`).
-/

import AmbientDecl.Proofs.Model.Reference

namespace AmbientDecl

namespace Dotted

variable {α β : Type} {run xs : List α} {fits : List α → Prop} {f : List α → Option β}
  {value : β}

/-- The longest of the leading runs of a list of which something holds. -/
structure LongestRun (xs : List α) (fits : List α → Prop) (run : List α) : Prop where
  nonempty : run ≠ []
  leads : run <+: xs
  holds : fits run
  longest : ∀ longer, longer <+: xs → run.length < longer.length → ¬ fits longer

theorem mem_leadingRuns_iff : run ∈ leadingRuns xs ↔ run ≠ [] ∧ run <+: xs := by
  induction xs generalizing run with
  | nil => simp [leadingRuns]
  | cons x xs ih =>
    cases run with
    | nil => simp [leadingRuns]
    | cons first run =>
      simp only [leadingRuns, List.mem_append, List.mem_map, List.mem_singleton, List.cons.injEq,
        List.cons_prefix_cons, ne_eq, reduceCtorEq, not_false_eq_true, true_and]
      constructor
      · rintro (⟨later, mem, rfl, rfl⟩ | ⟨rfl, rfl⟩)
        · exact ⟨rfl, (ih.1 mem).2⟩
        · exact ⟨rfl, List.nil_prefix⟩
      · rintro ⟨rfl, leads⟩
        by_cases last : run = []
        · exact .inr ⟨rfl, last⟩
        · exact .inl ⟨run, ih.2 ⟨last, leads⟩, rfl, rfl⟩

/-- The longer runs come first. -/
theorem pairwise_leadingRuns (xs : List α) :
    (leadingRuns xs).Pairwise fun run later => later.length < run.length := by
  induction xs with
  | nil => exact .nil
  | cons x xs ih =>
    rw [leadingRuns, List.pairwise_append, List.pairwise_map]
    refine ⟨ih.imp (by simp), List.pairwise_singleton _ _, fun run mem later mem' => ?_⟩
    obtain ⟨rest, mem_rest, rfl⟩ := List.mem_map.1 mem
    obtain rfl := List.mem_singleton.1 mem'
    have some := List.length_pos_iff.2 (mem_leadingRuns_iff.1 mem_rest).1
    simpa using some

/-- **What is found first under the leading runs is found under the longest one.** -/
theorem findSome?_leadingRuns_eq_some_iff :
    (leadingRuns xs).findSome? f = some value ↔
      ∃ run, LongestRun xs (fun run => ∃ value, f run = some value) run ∧ f run = some value := by
  rw [List.findSome?_eq_some_iff]
  constructor
  · rintro ⟨before, run, after, split, found, none⟩
    have mem : run ∈ leadingRuns xs := by simp [split]
    obtain ⟨nonempty, leads⟩ := mem_leadingRuns_iff.1 mem
    refine ⟨run, ⟨nonempty, leads, ⟨value, found⟩, fun longer leads' lt => ?_⟩, found⟩
    rintro ⟨other, found'⟩
    have nonempty' : longer ≠ [] := List.length_pos_iff.1 (by omega)
    have mem' : longer ∈ before ++ run :: after := split ▸ mem_leadingRuns_iff.2 ⟨nonempty', leads'⟩
    have order := pairwise_leadingRuns xs
    rw [split, List.pairwise_append, List.pairwise_cons] at order
    rcases List.mem_append.1 mem' with early | late
    · rw [none longer early] at found'
      cases found'
    · rcases List.mem_cons.1 late with rfl | late
      · omega
      · have := order.2.1.1 longer late
        omega
  · rintro ⟨run, longest, found⟩
    obtain ⟨before, after, split⟩ :=
      List.append_of_mem (mem_leadingRuns_iff.2 ⟨longest.nonempty, longest.leads⟩)
    refine ⟨before, run, after, split, found, fun longer mem => ?_⟩
    have order := pairwise_leadingRuns xs
    rw [split, List.pairwise_append] at order
    have lt := order.2.2 longer mem run List.mem_cons_self
    have mem' : longer ∈ leadingRuns xs := by simp [split, mem]
    have none := longest.longest longer (mem_leadingRuns_iff.1 mem').2 lt
    exact Option.eq_none_iff_forall_ne_some.2 fun value found => none ⟨value, found⟩

theorem exists_findSome?_leadingRuns
    (h : LongestRun xs (fun run => ∃ value, f run = some value) run) :
    ∃ value, (leadingRuns xs).findSome? f = some value := by
  obtain ⟨value, found⟩ := h.holds
  exact ⟨value, findSome?_leadingRuns_eq_some_iff.2 ⟨run, h, found⟩⟩

end Dotted

namespace Model

open Dotted

variable {m : Model} {id other : ClassId} {name base fullName text : String}

/-- The segments of the name of the class that a name stands in; outside of all classes there are
none. -/
def enclosing (base : String) : List String :=
  if base = "" then [] else segments base

theorem surroundings_eq (base : String) : surroundings base = leadingRuns (enclosing base) := by
  unfold surroundings enclosing
  split <;> rfl

/-- A name that may be a local name of a class: it is capitalised and no built-in type. -/
def MayBeLocal (m : Model) (name : String) : Prop :=
  name ∉ m.settings.builtInTypes ∧ isCapitalised name = true

/-- A class is registered under a run of segments with a local name. -/
def RegisteredUnder (m : Model) (name : String) (run : List String) (id : ClassId) : Prop :=
  m.find? (join (run ++ [name])) = .ok (some id)

/-- The class that goes by a local name inside `base`: the one that is registered under the longest
leading run under which there is one. -/
def IsNearby (m : Model) (name base : String) (id : ClassId) : Prop :=
  ∃ run, LongestRun (enclosing base) (fun run => ∃ other, m.RegisteredUnder name run other) run ∧
    m.RegisteredUnder name run id

/-- The full name that a name stands for inside `base`. -/
inductive StandsForName (m : Model) (name base : String) : String → Prop where
  | nearby {id : ClassId} (fits : m.MayBeLocal name) (near : m.IsNearby name base id) :
      StandsForName m name base (m.fullName id)
  | itself (none : m.MayBeLocal name → ∀ id, ¬ m.IsNearby name base id) :
      StandsForName m name base name

/-- A full name starts with a run of segments and a dot. -/
def StartsWith (fullName : String) (run : List String) : Prop :=
  ∃ rest, fullName = join run ++ "." ++ rest

/-- A text is the short form of a full name inside `base`. -/
structure IsShortFor (settings : Settings) (base fullName text : String) : Prop where
  recoverable : text = fullName ∨ ∃ run, LongestRun (enclosing base) (StartsWith fullName) run ∧
    fullName = join run ++ "." ++ text ∧ text ∉ settings.builtInTypes
  whole : text = fullName → (∀ run, ¬ LongestRun (enclosing base) (StartsWith fullName) run) ∨
    ∃ run rest, LongestRun (enclosing base) (StartsWith fullName) run ∧
      fullName = join run ++ "." ++ rest ∧ rest ∈ settings.builtInTypes
  builtIn : text ∈ settings.builtInTypes → fullName ∈ settings.builtInTypes

/-! ## The class nearby -/

theorem nearby?_eq (aliases : m.settings.namespaceAliases.isTextTable = true)
    (name base : String) :
    m.nearby? name base = .ok ((leadingRuns (enclosing base)).findSome? fun run =>
      m.found? (join (run ++ [name]))) := by
  rw [nearby?, surroundings_eq]
  exact findSomeM?_eq_ok (fun run => find?_eq_found? aliases _) _

theorem registeredUnder_iff (aliases : m.settings.namespaceAliases.isTextTable = true)
    {run : List String} :
    m.RegisteredUnder name run id ↔ m.found? (join (run ++ [name])) = some id := by
  rw [RegisteredUnder, find?_eq_found? aliases, Except.ok.injEq]

/-- **The class that is found nearby** is the one under the longest run. -/
theorem nearby?_eq_some_iff (aliases : m.settings.namespaceAliases.isTextTable = true) :
    m.nearby? name base = .ok (some id) ↔ m.IsNearby name base id := by
  rw [nearby?_eq aliases, Except.ok.injEq, findSome?_leadingRuns_eq_some_iff]
  simp only [IsNearby, registeredUnder_iff aliases]

theorem mayBeLocal_iff :
    (!m.settings.builtInTypes.contains name && isCapitalised name) = true ↔ m.MayBeLocal name := by
  simp [MayBeLocal]

/-- **The full name that a name stands for** is the one that is computed for it. -/
theorem standsForName_iff (aliases : m.settings.namespaceAliases.isTextTable = true) :
    m.StandsForName name base fullName ↔ m.fullNameOf name base = .ok fullName := by
  unfold fullNameOf
  by_cases fits : m.MayBeLocal name
  · rw [if_pos (mayBeLocal_iff.2 fits)]
    cases found : m.nearby? name base with
    | error fault =>
      rw [nearby?_eq aliases] at found
      cases found
    | ok found? =>
      cases found? with
      | some id =>
        have near := (nearby?_eq_some_iff aliases).1 found
        constructor
        · rintro (⟨-, near'⟩ | none)
          · rw [(nearby?_eq_some_iff aliases).2 near'] at found
            rw [Option.some.inj (Except.ok.inj found)]
            rfl
          · exact absurd near (none fits id)
        · intro same
          obtain rfl := Except.ok.inj same
          exact .nearby fits near
      | none =>
        have none : ∀ id, ¬ m.IsNearby name base id := by
          intro id near
          rw [(nearby?_eq_some_iff aliases).2 near] at found
          cases found
        constructor
        · rintro (⟨-, near⟩ | -)
          · exact absurd near (none _)
          · rfl
        · intro same
          obtain rfl := Except.ok.inj same
          exact .itself fun _ => none
  · rw [if_neg (fun holds => fits (mayBeLocal_iff.1 holds))]
    constructor
    · rintro (⟨fits', -⟩ | -)
      · exact absurd fits' fits
      · rfl
    · intro same
      obtain rfl := Except.ok.inj same
      exact .itself fun fits' => absurd fits' fits

/-- A name stands for one full name. -/
theorem exists_standsForName (aliases : m.settings.namespaceAliases.isTextTable = true)
    (name base : String) : ∃ fullName, m.fullNameOf name base = .ok fullName ∧
      ∀ other, m.StandsForName name base other ↔ other = fullName := by
  have full : ∃ fullName, m.fullNameOf name base = .ok fullName := by
    unfold fullNameOf
    rw [nearby?_eq aliases]
    split
    · cases (leadingRuns (enclosing base)).findSome? fun run => m.found? (join (run ++ [name])) with
      | none => exact ⟨_, rfl⟩
      | some id => exact ⟨_, rfl⟩
    · exact ⟨_, rfl⟩
  obtain ⟨fullName, full⟩ := full
  refine ⟨fullName, full, fun other => ?_⟩
  rw [standsForName_iff aliases, full, Except.ok.injEq]
  exact eq_comm

/-! ## The short form -/

theorem afterRun?_eq_some_iff_append {run : List String} (nonempty : run ≠ []) :
    afterRun? fullName run = some text ↔ fullName = join run ++ "." ++ text := by
  rw [afterRun?_eq_some_iff nonempty, join_concat nonempty]
  exact eq_comm

theorem longestRun_startsWith_iff {run : List String} :
    LongestRun (enclosing base) (StartsWith fullName) run ↔
      LongestRun (enclosing base) (fun run => ∃ text, afterRun? fullName run = some text) run := by
  have same : ∀ run : List String, run ≠ [] →
      (StartsWith fullName run ↔ ∃ text, afterRun? fullName run = some text) := by
    intro run nonempty
    simp only [StartsWith, afterRun?_eq_some_iff_append nonempty]
  have later : ∀ longer : List String, run.length < longer.length → longer ≠ [] := fun longer lt =>
    List.length_pos_iff.1 (by omega)
  constructor
  · rintro ⟨nonempty, leads, starts, longest⟩
    exact ⟨nonempty, leads, (same run nonempty).1 starts, fun longer leads lt starts =>
      longest longer leads lt ((same longer (later longer lt)).2 starts)⟩
  · rintro ⟨nonempty, leads, starts, longest⟩
    exact ⟨nonempty, leads, (same run nonempty).2 starts, fun longer leads lt starts =>
      longest longer leads lt ((same longer (later longer lt)).1 starts)⟩

/-- A full name without its longest leading run. -/
theorem shortened_cases (fullName base : String) :
    (∃ run, LongestRun (enclosing base) (StartsWith fullName) run ∧
      fullName = join run ++ "." ++ shortened fullName base) ∨
    (∀ run, ¬ LongestRun (enclosing base) (StartsWith fullName) run) ∧
      shortened fullName base = fullName := by
  rw [shortened, surroundings_eq]
  cases left : (leadingRuns (enclosing base)).findSome? (afterRun? fullName) with
  | some text =>
    obtain ⟨run, longest, after⟩ := findSome?_leadingRuns_eq_some_iff.1 left
    exact .inl ⟨run, longestRun_startsWith_iff.2 longest,
      (afterRun?_eq_some_iff_append longest.nonempty).1 after⟩
  | none =>
    refine .inr ⟨fun run longest => ?_, rfl⟩
    obtain ⟨text, found⟩ := exists_findSome?_leadingRuns (longestRun_startsWith_iff.1 longest)
    rw [left] at found
    cases found

/-- A name is longer than what follows a run of its segments. -/
theorem ne_of_eq_append {run : List String} (split : fullName = join run ++ "." ++ text) :
    text ≠ fullName := by
  intro same
  have lengths := congrArg String.length split
  rw [String.length_append, String.length_append, same] at lengths
  have dot : ".".length = 1 := rfl
  omega

/-- **The local name is a short form.** -/
theorem isShortFor_localName (settings : Settings) (base fullName : String) :
    IsShortFor settings base fullName (localName settings fullName base) := by
  unfold localName
  dsimp only
  split
  · rename_i builtIn
    rw [List.contains_iff_mem] at builtIn
    refine ⟨.inl rfl, fun _ => ?_, id⟩
    rcases shortened_cases fullName base with ⟨run, longest, split⟩ | ⟨none, -⟩
    · exact .inr ⟨run, _, longest, split, builtIn⟩
    · exact .inl none
  · rename_i plain
    rw [List.contains_iff_mem] at plain
    rcases shortened_cases fullName base with ⟨run, longest, split⟩ | ⟨none, same⟩
    · exact ⟨.inr ⟨run, longest, split, plain⟩, fun same => absurd same (ne_of_eq_append split),
        fun builtIn => absurd builtIn plain⟩
    · rw [same] at plain ⊢
      exact ⟨.inl rfl, fun _ => .inl none, id⟩

/-! ## References -/

/-- The reference to a name by the full name that it stands for. -/
theorem reference_eq {fixed : Option Json} (full : m.fullNameOf name base = .ok fullName)
    (found : Settings.fixedReference? m.settings.fixedReferences fullName = .ok fixed) :
    m.reference name base =
      .ok (fixed.getD (.str (localName m.settings fullName base))) := by
  rw [reference, full, bind_ok, found, bind_ok]
  cases fixed with
  | none => rfl
  | some fixed => rfl

/-- **Shortening keeps a name recoverable and makes no built-in type of it.**  Inside `base` a name
stands for one full name.  If this has a fixed reference, then the reference to the name is the
fixed one.  If not, then it is the full name, or the full name is the longest leading run of `base`
that starts it, a dot and the reference, which is no built-in type; and it is the full name only if
it starts with no such run or if what the run leaves is a built-in type.  So the reference is a
built-in type only if the full name is one or has a fixed reference.  Looking this up leaves the
model as it is. -/
theorem reference_recoverable (aliases : m.settings.namespaceAliases.isTextTable = true)
    (references : m.settings.fixedReferences.isTextTable = true) (name base : String) :
    ∃ fullName text, (∀ other, m.StandsForName name base other ↔ other = fullName) ∧
      (do Build.ofReading ((← get).reference name base) : Build Json).run m = .ok (.str text) m ∧
      (∀ fixed, Settings.fixedReference? m.settings.fixedReferences fullName = .ok (some fixed) →
        fixed = .str text) ∧
      (Settings.fixedReference? m.settings.fixedReferences fullName = .ok none →
        IsShortFor m.settings base fullName text) ∧
      (text ∈ m.settings.builtInTypes → fullName ∈ m.settings.builtInTypes ∨
        Settings.fixedReference? m.settings.fixedReferences fullName = .ok (some (.str text))) := by
  obtain ⟨fullName, full, only⟩ := exists_standsForName aliases name base
  obtain ⟨fixed, found⟩ := Settings.exists_fixedReference? references fullName
  have refers := reference_eq full found
  have run : (do Build.ofReading ((← get).reference name base) : Build Json).run m =
      (Build.ofReading (m.reference name base)).run m := rfl
  cases fixed with
  | some fixed =>
    refine ⟨fullName, fixed, only, ?_, fun other found' => ?_, fun none => ?_, fun _ => .inr found⟩
    · rw [run, refers]
      rfl
    · exact Option.some.inj (Except.ok.inj (found'.symm.trans found))
    · rw [found] at none
      cases none
  | none =>
    have short := isShortFor_localName m.settings base fullName
    refine ⟨fullName, _, only, ?_, fun fixed found' => ?_, fun _ => short, fun builtIn => ?_⟩
    · rw [run, refers]
      rfl
    · rw [found] at found'
      cases found'
    · exact .inl (short.builtIn builtIn)

/-- Settings with an alias for the namespace of promises and a fixed reference to the class. -/
def promiseSettings : Settings := { Settings.blank with
  namespaceAliases := .obj [("RSVP", .str "Ember.RSVP")]
  fixedReferences := .obj [("RSVP.Promise", .str "Ember.RSVP.Promise")] }

/-- The class of promises, registered by the short name of its namespace. -/
def promises : Document := .ofFields [
  ("classes", .obj [("RSVP.Promise", .obj [("name", .str "Ember.RSVP.Promise")])])]

/-- The model with the class of promises. -/
def promised : Model := Build.after (Build.assemble promises) (empty promiseSettings)

theorem promised_settings : promised.settings = promiseSettings :=
  (Build.ends_assemble_settings rfl promises).of_ok (Build.run_of_succeeds (by decide +kernel))

/-- Next to the class its local name is a short form of the full one. -/
theorem reference_promise : promised.settings.namespaceAliases.isTextTable = true ∧
    promised.settings.fixedReferences.isTextTable = true ∧
    promised.reference "Promise" "Ember.RSVP.Foo" = .ok (.str "Promise") ∧
    promised.StandsForName "Promise" "Ember.RSVP.Foo" "Ember.RSVP.Promise" ∧
    IsShortFor promised.settings "Ember.RSVP.Foo" "Ember.RSVP.Promise" "Promise" := by
  have aliases : promised.settings.namespaceAliases.isTextTable = true :=
    promised_settings ▸ by decide
  have references : promised.settings.fixedReferences.isTextTable = true :=
    promised_settings ▸ by decide
  have full : promised.fullNameOf "Promise" "Ember.RSVP.Foo" = .ok "Ember.RSVP.Promise" := by
    decide +kernel
  have free : Settings.fixedReference? promised.settings.fixedReferences "Ember.RSVP.Promise" =
      .ok none := by rw [promised_settings]; rfl
  have local₀ : localName promised.settings "Ember.RSVP.Promise" "Ember.RSVP.Foo" = "Promise" := by
    decide +kernel
  have refers : promised.reference "Promise" "Ember.RSVP.Foo" = .ok (.str "Promise") :=
    (reference_eq full free).trans (by rw [local₀]; rfl)
  obtain ⟨fullName, text, only, run, -, short, -⟩ :=
    reference_recoverable aliases references "Promise" "Ember.RSVP.Foo"
  have stands := (standsForName_iff aliases).2 full
  obtain rfl := (only _).1 stands
  have run' : (Build.ofReading (promised.reference "Promise" "Ember.RSVP.Foo")).run promised =
      .ok (.str text) promised := run
  rw [refers] at run'
  obtain rfl : "Promise" = text := by cases run'; rfl
  exact ⟨aliases, references, refers, stands, short free⟩

/-- A fixed reference may be a built-in type where the full name is none: then the reference is a
built-in type all the same. -/
theorem reference_fixed_builtIn : ¬ ∀ (m : Model) (name base fullName text : String),
    m.settings.namespaceAliases.isTextTable = true →
    m.settings.fixedReferences.isTextTable = true → base ≠ "" →
    m.StandsForName name base fullName → m.reference name base = .ok (.str text) →
    text ∈ m.settings.builtInTypes → fullName ∈ m.settings.builtInTypes := by
  intro only
  let settings : Settings := { Settings.blank with
    fixedReferences := .obj [("Foo", .str "String")], builtInTypes := ["String"] }
  have full : (empty settings).fullNameOf "Foo" "A" = .ok "Foo" := by decide +kernel
  have builtIn := only (empty settings) "Foo" "A" "Foo" "String" (by decide) (by decide)
    (by decide) ((standsForName_iff (by decide)).2 full) (reference_eq full rfl) (by decide)
  exact absurd builtIn (by decide)

/-- **When a fixed reference wins.**  A name with a fixed reference stands for one full name inside
`base`.  The reference to the name is the fixed one where the name is taken for no class nearby.
Elsewhere the full name is asked instead: the fixed reference is answered only if the full name is
the name again, or it has the same fixed reference, or it has none and its local name reads like
the fixed reference. -/
theorem fixedReference_wins_iff (aliases : m.settings.namespaceAliases.isTextTable = true)
    (references : m.settings.fixedReferences.isTextTable = true) {fixed : Json}
    (listed : Settings.fixedReference? m.settings.fixedReferences name = .ok (some fixed))
    (base : String) :
    ∃ fullName, (∀ other, m.StandsForName name base other ↔ other = fullName) ∧
      ((m.MayBeLocal name → ∀ id, ¬ m.IsNearby name base id) →
        m.reference name base = .ok fixed) ∧
      (m.reference name base = .ok fixed ↔ fullName = name ∨
        Settings.fixedReference? m.settings.fixedReferences fullName = .ok (some fixed) ∨
        Settings.fixedReference? m.settings.fixedReferences fullName = .ok none ∧
          fixed = .str (localName m.settings fullName base)) := by
  obtain ⟨fullName, full, only⟩ := exists_standsForName aliases name base
  obtain ⟨found?, found⟩ : ∃ found?,
      Settings.fixedReference? m.settings.fixedReferences fullName = .ok found? :=
    (Settings.exists_fixedReference? references fullName).imp' _ fun _ found => found
  have refers := reference_eq full found
  have wins : fullName = name → m.reference name base = .ok fixed := by
    rintro rfl
    obtain rfl : found? = some fixed := Except.ok.inj (found.symm.trans listed)
    exact refers
  refine ⟨fullName, only, fun none => wins ((only name).1 (.itself none)).symm, ?_⟩
  constructor
  · intro same
    obtain rfl := Except.ok.inj (refers.symm.trans same)
    cases found? with
    | some other => exact .inr (.inl found)
    | none => exact .inr (.inr ⟨found, rfl⟩)
  · rintro (same | same | ⟨none, rfl⟩)
    · exact wins same
    · obtain rfl := Except.ok.inj (found.symm.trans same)
      exact refers
    · obtain rfl := Except.ok.inj (found.symm.trans none)
      exact refers

/-- Inside `Ember.Foo` the class is nearby under the name with the fixed reference. -/
theorem reference_overruled :
    promised.settings.namespaceAliases.isTextTable = true ∧
    promised.settings.fixedReferences.isTextTable = true ∧
    Settings.fixedReference? promised.settings.fixedReferences "RSVP.Promise" =
      .ok (some (.str "Ember.RSVP.Promise")) ∧
    promised.reference "RSVP.Promise" "Ember.Foo" = .ok (.str "RSVP.Promise") ∧
    promised.reference "RSVP.Promise" "Ember.Foo" ≠ .ok (.str "Ember.RSVP.Promise") := by
  have aliases : promised.settings.namespaceAliases.isTextTable = true :=
    promised_settings ▸ by decide
  have references : promised.settings.fixedReferences.isTextTable = true :=
    promised_settings ▸ by decide
  have listed : Settings.fixedReference? promised.settings.fixedReferences "RSVP.Promise" =
      .ok (some (.str "Ember.RSVP.Promise")) := by rw [promised_settings]; rfl
  have full : promised.fullNameOf "RSVP.Promise" "Ember.Foo" = .ok "Ember.RSVP.Promise" := by
    decide +kernel
  have free : Settings.fixedReference? promised.settings.fixedReferences "Ember.RSVP.Promise" =
      .ok none := by rw [promised_settings]; rfl
  have short : localName promised.settings "Ember.RSVP.Promise" "Ember.Foo" = "RSVP.Promise" := by
    decide +kernel
  obtain ⟨fullName, only, -, wins⟩ :=
    fixedReference_wins_iff aliases references listed "Ember.Foo"
  obtain rfl := (only _).1 ((standsForName_iff aliases).2 full)
  have refers : promised.reference "RSVP.Promise" "Ember.Foo" = .ok (.str "RSVP.Promise") :=
    (reference_eq full free).trans (by rw [short]; rfl)
  refine ⟨aliases, references, listed, refers, fun same => ?_⟩
  rcases wins.1 same with same | same | ⟨-, same⟩
  · exact absurd same (by decide)
  · rw [free] at same
    cases same
  · rw [short] at same
    exact absurd (Json.str.inj same) (by decide)

end Model
end AmbientDecl
