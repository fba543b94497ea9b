/- # The order of the items of different classes

The run for a document registers the classes, takes the items in their order and then finishes
(`generate_eq`).  Whether an item stops the run depends on the outline of the model alone, and so
does the class in which it lands.  So two items of different classes may be taken in either order
(`together_swap`), and two interleavings of the items lead to models that are alike, or both of them
stop the run (`together_items`).

What finishes the run is heedless, so it is blind to the order of the reports.  So the order of the
items of different classes does not matter for the file, nor for the classes, nor for how many
reports there are of each code (`generate_interleaved`).  What it matters for is the order of the
reports, and which class is named by the report of a type that several items share.
-/

import AmbientDecl.Proofs.Model.Landing

namespace AmbientDecl

/-- The number of members that have been attached when an item has landed. -/
def Landing.tally (m : Model) (attached : Nat) (landing : Landing) : Nat :=
  if (landing.added? m).isSome then attached + 1 else attached

namespace Build

open Model

variable {m m' o : Model} {x y entry : ItemEntry} {attached : Nat}

/-- How a run ends that attaches items. -/
abbrev ItemsEnd : Type := EStateM.Result BuildError Model Nat

/-- Takes a run one item further; nothing follows an error. -/
def takeItem (run : ItemsEnd) (entry : ItemEntry) : ItemsEnd :=
  match run with
  | .ok attached m => (attachCounting attached entry).run m
  | .error error m => .error error m

theorem foldl_takeItem_error (items : List ItemEntry) (error : BuildError) (m : Model) :
    items.foldl takeItem (.error error m) = .error error m := by
  induction items with
  | nil => rfl
  | cons entry rest ih => exact ih

/-- The items are taken one after the other. -/
theorem run_attachItems (items : List ItemEntry) (attached : Nat) (m : Model) :
    (items.foldlM attachCounting attached).run m = items.foldl takeItem (.ok attached m) := by
  induction items generalizing attached m with
  | nil => rfl
  | cons entry rest ih =>
    rw [List.foldlM_cons, EStateM.run_bind, List.foldl_cons, takeItem]
    cases (attachCounting attached entry).run m with
    | ok attached' m' => exact ih attached' m'
    | error error m' => exact (foldl_takeItem_error rest error m').symm

/-- The run stops at an item in every model with an outline. -/
def StopsAt (o : Model) (entry : ItemEntry) : Prop :=
  ∀ attached m, m.outline = o.outline →
    ∃ error m', takeItem (.ok attached m) entry = .error error m'

/-- In every model with an outline the item lands in one way. -/
structure LandsAs (o : Model) (entry : ItemEntry) (texts : List String) (landing : Landing) :
    Prop where
  owner : ∀ id, landing.owner? = some id → entry.owner? o = some id
  takes : ∀ attached m, m.outline = o.outline →
    ∃ m', takeItem (.ok attached m) entry = .ok (landing.tally m attached) m' ∧
      Lands texts landing m m'

/-- **An item stops the run in all models with an outline, or lands in one way in all of them.** -/
theorem stopsAt_or_landsAs (o : Model) (entry : ItemEntry) :
    StopsAt o entry ∨ ∃ texts landing, LandsAs o entry texts landing := by
  rcases ends_attach_lands o entry with fails | ⟨texts, landing, owner, lands⟩
  · refine .inl fun attached m outline => ?_
    have ends : Ends (attachCounting attached entry) m (fun _ _ => False) fun _ _ => True := by
      unfold attachCounting
      rw [ends_bind]
      exact (fails m outline).mono (fun _ _ none => none.elim) fun _ _ h => h
    rw [takeItem]
    cases run : (attachCounting attached entry).run m with
    | ok attached' m' => exact (ends.of_ok run).elim
    | error error m' => exact ⟨error, m', rfl⟩
  · refine .inr ⟨texts, landing, owner, fun attached m outline => ?_⟩
    have ends : Ends (attachCounting attached entry) m
        (fun attached' m' => attached' = landing.tally m attached ∧ Lands texts landing m m')
        fun _ _ => False := by
      unfold attachCounting
      rw [ends_bind]
      refine (lands m outline).mono ?_ fun _ _ h => h
      rintro answer m' ⟨same, lands⟩
      exact ⟨by rw [same]; rfl, lands⟩
    obtain ⟨_, m', run, rfl, lands⟩ := ends.exists_ok
    exact ⟨m', run, lands⟩

/-- Two runs have attached as many members, with models of an outline that are alike, or both have
stopped. -/
inductive Together (o : Model) : ItemsEnd → ItemsEnd → Prop
  | ok {attached : Nat} {m m' : Model} (outline : m.outline = o.outline) (alike : m.Alike m') :
      Together o (.ok attached m) (.ok attached m')
  | stopped {error error' : BuildError} {m m' : Model} :
      Together o (.error error m) (.error error' m')

namespace Together

variable {run run' run'' : ItemsEnd}

theorem symm (h : Together o run run') : Together o run' run := by
  cases h with
  | ok outline alike => exact .ok (alike.outline.trans outline) alike.symm
  | stopped => exact .stopped

theorem trans (h : Together o run run') (h' : Together o run' run'') : Together o run run'' := by
  cases h with
  | ok outline alike =>
    cases h' with
    | ok _ alike' => exact .ok outline (alike.trans alike')
  | stopped =>
    cases h' with
    | stopped => exact .stopped

/-- Runs that are together stay so when they take the same item. -/
theorem takes (h : Together o run run') (entry : ItemEntry) :
    Together o (takeItem run entry) (takeItem run' entry) := by
  cases h with
  | stopped => exact .stopped
  | @ok attached m m' outline alike =>
    rcases stopsAt_or_landsAs o entry with stops | ⟨texts, landing, lands⟩
    · obtain ⟨error, s, run⟩ := stops attached m outline
      obtain ⟨error', s', run'⟩ := stops attached m' (alike.outline.trans outline)
      rw [run, run']
      exact .stopped
    · obtain ⟨s, run, landed⟩ := lands.takes attached m outline
      obtain ⟨s', run', landed'⟩ := lands.takes attached m' (alike.outline.trans outline)
      obtain ⟨added, alike'⟩ := Lands.alike alike landed landed'
      rw [run, run', Landing.tally, Landing.tally, added]
      exact .ok (landed.outline.trans outline) alike'

end Together

/-- An item at which the run stops may be taken before or after another one. -/
theorem StopsAt.swap (h : StopsAt o x) (outline : m.outline = o.outline) (y : ItemEntry) :
    ∃ error s error' s', takeItem (takeItem (.ok attached m) x) y = .error error s ∧
      takeItem (takeItem (.ok attached m) y) x = .error error' s' := by
  obtain ⟨error, s, run⟩ := h attached m outline
  have first : takeItem (takeItem (.ok attached m) x) y = .error error s := by
    rw [run]
    rfl
  rcases stopsAt_or_landsAs o y with stops | ⟨texts, landing, lands⟩
  · obtain ⟨error', s', run'⟩ := stops attached m outline
    exact ⟨error, s, error', s', first, by rw [run']; rfl⟩
  · obtain ⟨m', run', landed⟩ := lands.takes attached m outline
    obtain ⟨error', s', second⟩ := h (landing.tally m attached) m' (landed.outline.trans outline)
    exact ⟨error, s, error', s', first, by rw [run', second]⟩

/-- **Two items of different classes may be taken in either order.** -/
theorem together_swap {run : ItemsEnd} (start : Together o run run)
    (apart : Apart (ItemEntry.owner? o) x y) :
    Together o (takeItem (takeItem run x) y) (takeItem (takeItem run y) x) := by
  cases start with
  | stopped => exact .stopped
  | @ok attached m _ outline _ =>
    rcases stopsAt_or_landsAs o x with stops | ⟨texts, landing, lands⟩
    · obtain ⟨_, _, _, _, first, second⟩ := stops.swap outline y
      rw [first, second]
      exact .stopped
    rcases stopsAt_or_landsAs o y with stops | ⟨texts', landing', lands'⟩
    · obtain ⟨_, _, _, _, first, second⟩ := stops.swap outline x
      rw [first, second]
      exact .stopped
    obtain ⟨m₁, run₁, landed₁⟩ := lands.takes attached m outline
    obtain ⟨m₂, run₂, landed₂⟩ := lands'.takes (landing.tally m attached) m₁
      (landed₁.outline.trans outline)
    obtain ⟨s₁, run₁', landed₁'⟩ := lands'.takes attached m outline
    obtain ⟨s₂, run₂', landed₂'⟩ := lands.takes (landing'.tally m attached) s₁
      (landed₁'.outline.trans outline)
    have different : ∀ id, landing.owner? = some id → landing'.owner? ≠ some id := by
      intro id own own'
      have owner := lands.owner id own
      rcases apart with none | ne
      · rw [none] at owner
        cases owner
      · exact ne (owner.trans (lands'.owner id own').symm)
    obtain ⟨added', added, alike⟩ := Lands.swap different landed₁ landed₂ landed₁' landed₂'
    have tally : landing.tally s₁ (landing'.tally m attached) =
        landing'.tally m₁ (landing.tally m attached) := by
      simp only [Landing.tally, added, added']
      split <;> split <;> rfl
    rw [run₁, run₂, run₁', run₂', tally]
    exact .ok (landed₂.outline.trans (landed₁.outline.trans outline)) alike

/-- **Interleavings of the items lead to models that are alike,** or both stop the run. -/
theorem together_items {items items' : List ItemEntry}
    (h : Interleaves (ItemEntry.owner? o) items items') (attached : Nat) :
    Together o ((items.foldlM attachCounting attached).run o)
      ((items'.foldlM attachCounting attached).run o) := by
  rw [run_attachItems, run_attachItems]
  exact h.foldl Together.symm Together.trans (fun _ _ entry together => together.takes entry)
    (fun _ _ _ => together_swap) (.ok rfl (.refl o))

/-- Registers the classes of a document. -/
def registerClasses (document : Document) : Build Unit := do
  (← orFault .noFields document.classes?).forM registerEntry

/-- Finishes the run for a document after its items were attached. -/
def finish (attached : Nat) : Build String := do
  let additional ← ofReading (Settings.readList (← get).settings.additionalClasses)
  additional.forM registerAdditional
  note (.info ("Registered " ++ toString (← get).classes.length ++ " classes and " ++
    toString attached ++ " members"))
  resolveAll (← get).classIds
  ofReading (Output.render (← get))

/-- **A run registers the classes, takes the items in their order and finishes.** -/
theorem generate_eq (document : Document) : generate document = (do
    registerClasses document
    let items ← orFault .unfit document.items?
    let attached ← items.foldlM attachCounting 0
    finish attached) := by
  simp only [generate, assemble, registerClasses, finish, bind_assoc]

theorem orFault_some_bind {α β : Type} (fault : ShapeFault) (value : β) (next : β → Build α) :
    orFault fault (some value) >>= next = next value := rfl

theorem heedless_registerAdditional (name : Json) : Heedless (registerAdditional name) := by
  unfold registerAdditional
  split
  · exact (heedless_register _ _).map _
  · exact .throw _

/-- What finishes a run is heedless. -/
theorem heedless_finish (attached : Nat) : Heedless (finish attached) := by
  refine .look (fun m => ?_) fun _ _ _ => rfl
  refine (Heedless.of_reading _).bind fun additional =>
    (Heedless.forM heedless_registerAdditional additional).bind fun _ => ?_
  refine .look (fun m => (Heedless.note _).bind fun _ => ?_) fun _ _ _ => rfl
  refine .look (fun m => (heedless_resolveAll _).bind fun _ => ?_) fun _ _ _ => rfl
  exact heedless_render

/-- The model in which the classes of a document are registered, and that is all. -/
def registered (document : Document) (settings : Settings) : Model :=
  after (registerClasses document) (empty settings)

section Documents

variable {settings : Settings} {document document' : Document} {items items' : List ItemEntry}

/-- The runs for two interleavings end with the same text and with models that are alike, or both
of them fail. -/
theorem generate_together (classes : document'.classes? = document.classes?)
    (given : document.items? = some items) (given' : document'.items? = some items')
    (order : Interleaves (ItemEntry.owner? (registered document settings)) items items') :
    (∃ text m m', (generate document).run (empty settings) = .ok text m ∧
      (generate document').run (empty settings) = .ok text m' ∧ m.Alike m') ∨
    ∃ error m error' m', (generate document).run (empty settings) = .error error m ∧
      (generate document').run (empty settings) = .error error' m' := by
  have register : registerClasses document' = registerClasses document := by
    rw [registerClasses, classes, registerClasses]
  rw [generate_eq, generate_eq, register, given, given', EStateM.run_bind, EStateM.run_bind]
  cases started : (registerClasses document).run (empty settings) with
  | error error m => exact .inr ⟨error, m, error, m, rfl, rfl⟩
  | ok value m₁ =>
    have start : registered document settings = m₁ := by
      rw [registered, after, started]
    rw [start] at order
    have together := together_items order 0
    dsimp only
    rw [orFault_some_bind, orFault_some_bind, EStateM.run_bind, EStateM.run_bind]
    generalize (items.foldlM attachCounting 0).run m₁ = run at together
    generalize (items'.foldlM attachCounting 0).run m₁ = run' at together
    cases together with
    | stopped => exact .inr ⟨_, _, _, _, rfl, rfl⟩
    | @ok attached m m' _ alike =>
      have ends := (heedless_finish attached).blind m m' alike
      dsimp only
      generalize (finish attached).run m = run at ends
      generalize (finish attached).run m' = run' at ends
      cases ends with
      | ok alike' => exact .inl ⟨_, _, _, rfl, rfl, alike'⟩
      | error => exact .inr ⟨_, _, _, _, rfl, rfl⟩

theorem length_withCode (code : String) (diagnostics : List Diagnostic) :
    (Diagnostic.withCode code diagnostics).length =
      (diagnostics.map Diagnostic.code).count code := by
  rw [Diagnostic.withCode, List.count_eq_countP, List.countP_map, List.countP_eq_length_filter]
  rfl

/-- **The order of items of different classes does not matter.**  Let two documents have the same
classes, and let the items of one be those of the other in an order in which those stay in order
whose owners lead to the same class.  Then the run for one of them succeeds if and only if that for
the other one does.  If they succeed, the files are the same, all classes are the same with their
members, and there are as many reports of each code. -/
theorem generate_interleaved (classes : document'.classes? = document.classes?)
    (given : document.items? = some items) (given' : document'.items? = some items')
    (order : Interleaves (ItemEntry.owner? (registered document settings)) items items') :
    succeeds (generate document') (empty settings) = succeeds (generate document) (empty settings) ∧
    ∀ {text text' : String} {m m' : Model}, (generate document).run (empty settings) = .ok text m →
      (generate document').run (empty settings) = .ok text' m' →
        text' = text ∧ m'.classes = m.classes ∧ ∀ code : String,
          (Diagnostic.withCode code m'.diagnostics).length =
            (Diagnostic.withCode code m.diagnostics).length := by
  rcases generate_together classes given given' order with
    ⟨text, m, m', run, run', alike⟩ | ⟨error, m, error', m', run, run'⟩
  · refine ⟨by rw [succeeds, succeeds, run, run'], fun ran ran' => ?_⟩
    obtain ⟨rfl, rfl⟩ := EStateM.Result.ok.inj (run.symm.trans ran)
    obtain ⟨rfl, rfl⟩ := EStateM.Result.ok.inj (run'.symm.trans ran')
    refine ⟨rfl, alike.classes, fun code => ?_⟩
    rw [length_withCode, length_withCode]
    exact (alike.codes.count_eq code).symm
  · refine ⟨by rw [succeeds, succeeds, run, run'], fun ran _ => ?_⟩
    cases run.symm.trans ran

end Documents

/-- A property of a type that cannot be read. -/
def unreadableProperty (owner name : String) : Json :=
  .obj [("class", .str owner), ("name", .str name), ("itemtype", .str "property"),
    ("type", .str "Array<")]

/-- Two classes with the given items. -/
def twoClasses (items : List Json) : Document :=
  .ofFields [("classes", .obj [("A", .obj []), ("B", .obj [])]), ("classitems", .arr items)]

/-- Items of `A` and of `B`, and one whose class is not there. -/
def mixedItems : List Json :=
  [unreadableProperty "A" "first", unreadableProperty "B" "first", unreadableProperty "A" "second",
    unreadableProperty "Gone" "first"]

/-- The same items, in another order that keeps that of the items of `A`. -/
def movedItems : List Json :=
  [unreadableProperty "Gone" "first", unreadableProperty "B" "first",
    unreadableProperty "A" "first", unreadableProperty "A" "second"]

/-- The model that is rendered for the items. -/
def mixedEnd : Model := after (generate (twoClasses mixedItems)) (empty .blank)

/-- The model that is rendered for the items in the other order. -/
def movedEnd : Model := after (generate (twoClasses movedItems)) (empty .blank)

theorem interleaves_movedItems :
    Interleaves (ItemEntry.owner? (registered (twoClasses mixedItems) .blank))
      (mixedItems.map ItemEntry.ofJson) (movedItems.map ItemEntry.ofJson) := by
  have owners : ∀ entry ∈ [("A", "first", some 0), ("B", "first", some 1), ("A", "second", some 0),
      ("Gone", "first", none)], (ItemEntry.ofJson (unreadableProperty entry.1 entry.2.1)).owner?
        (registered (twoClasses mixedItems) .blank) = entry.2.2 := by
    decide +kernel
  simp only [List.forall_mem_cons] at owners
  obtain ⟨first, other, second, gone, -⟩ := owners
  generalize ItemEntry.owner? (registered (twoClasses mixedItems) .blank) = owner? at *
  refine ⟨.map _ (.trans ?_ (.cons _ (.swap ..))), fun id => ?_⟩
  · exact (List.perm_append_comm : (mixedItems.take 3 ++ _).Perm _)
  · by_cases here : 0 = id
    · simp [mixedItems, movedItems, first, other, second, gone, ← here]
    · simp [mixedItems, movedItems, List.filter_cons, first, other, second, gone, here]

/-- Three properties share a type that cannot be read.  It is reported once in either order, but the
report names another class and stands elsewhere. -/
theorem generate_moved : (∃ text, (generate (twoClasses mixedItems)).run (empty .blank) =
      .ok text mixedEnd ∧ (generate (twoClasses movedItems)).run (empty .blank) =
      .ok text movedEnd) ∧ movedEnd.classes = mixedEnd.classes ∧
    (Diagnostic.withCode Diagnostic.unparseableType movedEnd.diagnostics).length = 1 ∧
    mixedEnd.diagnostics.map Diagnostic.subject = ["A", "Gone"] ∧
    movedEnd.diagnostics.map Diagnostic.subject = ["Gone", "B"] := by
  have ran : succeeds (generate (twoClasses mixedItems)) (empty .blank) = true := by
    decide +kernel
  obtain ⟨same, agree⟩ := @generate_interleaved .blank (twoClasses mixedItems)
    (twoClasses movedItems) _ _ rfl rfl rfl interleaves_movedItems
  obtain ⟨text, run⟩ := exists_of_succeeds ran
  obtain ⟨text', run'⟩ := exists_of_succeeds (same.trans ran)
  obtain ⟨rfl, classes, counts⟩ := agree run run'
  have once : (Diagnostic.withCode Diagnostic.unparseableType mixedEnd.diagnostics).length = 1 := by
    decide +kernel
  exact ⟨⟨_, run, run'⟩, classes, (counts _).trans once, by decide +kernel, by decide +kernel⟩

end Build
end AmbientDecl
