/- # Where an item lands

Attaching an item has two parts.  First it is settled where the item **lands**: in no class, in one
that is not there, or as a member of a class; this reads (`reads_aim`), so it depends on the outline
of the model alone.  Then the item lands: a member is added to its class unless its key is taken,
and the reports are made (`ends_land`).  The second part looks at no other class than that of the
member and never fails.  Together: attaching an item fails in all models with an outline, or in all
of them the item lands in one way (`ends_attach_lands`).

So two items that land in different classes, or of which one lands in none, may be attached in
either order: the models are alike (`Lands.swap`).
-/

import AmbientDecl.Proofs.Interleaving
import AmbientDecl.Proofs.Model.Alike
import AmbientDecl.Proofs.Model.Attached

namespace AmbientDecl

/-- Where an item lands. -/
inductive Landing where
  | nowhere
  /-- The item belongs to no class. -/
  | ownerless (shownName : String)
  /-- There is no class of the name. -/
  | unknown (className : String)
  /-- The item makes a member of a class. -/
  | member (id : ClassId) (member : Member)

namespace Landing

variable {m m' : Model} {landing : Landing}

/-- The class in which an item lands. -/
def owner? : Landing → Option ClassId
  | member id _ => some id
  | _ => none

/-- The member that is added to a class, if its key is free. -/
def added? (m : Model) : Landing → Option (ClassId × Member)
  | member id added =>
    if (Entries.get? added.key (m.classAt id).members).isSome then none else some (id, added)
  | _ => none

/-- The codes of the reports when an item lands. -/
def codes (m : Model) : Landing → List String
  | unknown _ => [Diagnostic.unknownClass]
  | member id added =>
    if (Entries.get? added.key (m.classAt id).members).isSome then [Diagnostic.duplicateMember]
    else (Model.deprecationOf (m.classAt id) added.item).map Diagnostic.code
  | _ => []

/-- Where an item lands is told by the class in which it lands. -/
theorem parts_congr (same : ∀ id, landing.owner? = some id → m'.classAt id = m.classAt id) :
    landing.added? m' = landing.added? m ∧ landing.codes m' = landing.codes m := by
  cases landing with
  | nowhere => exact ⟨rfl, rfl⟩
  | ownerless shownName => exact ⟨rfl, rfl⟩
  | unknown className => exact ⟨rfl, rfl⟩
  | member id added =>
    have own := same id rfl
    exact ⟨by rw [added?, own, added?], by rw [codes, own, codes]⟩

end Landing

/-- Classes to one of which a member may be added. -/
def Class.join (classes : List Class) : Option (ClassId × Member) → List Class
  | some (id, member) => classes.modify id fun c => c.withMember member
  | none => classes

theorem Class.map_outline_join (classes : List Class) (added? : Option (ClassId × Member)) :
    (join classes added?).map outline = classes.map outline := by
  cases added? with
  | none => rfl
  | some added =>
    refine List.ext_getElem? fun i => ?_
    rw [join, List.getElem?_map, List.getElem?_map, List.getElem?_modify]
    split <;> cases classes[i]? <;> rfl

/-- Members of different classes may be added in either order. -/
theorem Class.join_join {classes : List Class} {first? second? : Option (ClassId × Member)}
    (apart : ∀ first second, first? = some first → second? = some second → first.1 ≠ second.1) :
    join (join classes first?) second? = join (join classes second?) first? := by
  cases first? with
  | none => rfl
  | some first =>
    cases second? with
    | none => rfl
    | some second =>
      have ne := apart first second rfl rfl
      refine List.ext_getElem? fun i => ?_
      simp only [join, List.getElem?_modify]
      by_cases here : first.1 = i
      · have other : second.1 ≠ i := fun same => ne (here.trans same.symm)
        simp [here, other]
      · simp [here]

/-- The class to which the name of the owner of an item leads. -/
def ItemEntry.owner? (m : Model) : ItemEntry → Option ClassId
  | .owned className _ => m.found? className
  | _ => none

namespace Model

variable {m m' m'' s s' : Model} {landing landing' : Landing} {texts texts' : List String}

/-- What attaching an item makes of a model: unreadable types are reported and the item lands. -/
structure Lands (texts : List String) (landing : Landing) (m m' : Model) : Prop where
  settings : m'.settings = m.settings
  tree : m'.tree = m.tree
  classes : m'.classes = Class.join m.classes (landing.added? m)
  reported : m'.reported = texts.foldl remember m.reported
  codes : ∃ fresh, m'.reported.length = m.reported.length + fresh ∧
    m'.codes = m.codes ++ List.replicate fresh Diagnostic.unparseableType ++ landing.codes m

/-- An item may land without an unreadable type. -/
theorem Lands.plain (settings : m'.settings = m.settings) (tree : m'.tree = m.tree)
    (classes : m'.classes = Class.join m.classes (landing.added? m))
    (reported : m'.reported = m.reported) (codes : m'.codes = m.codes ++ landing.codes m) :
    Lands [] landing m m' := by
  refine ⟨settings, tree, classes, reported, 0, by rw [reported, Nat.add_zero], ?_⟩
  rw [codes, List.replicate_zero, List.append_nil]

/-- An item lands after unreadable types were reported. -/
theorem Remembers.lands (h : Remembers texts m m') (lands : Lands [] landing m' m'') :
    landing.added? m' = landing.added? m ∧ Lands texts landing m m'' := by
  obtain ⟨added, codes⟩ := landing.parts_congr fun id _ => h.classAt id
  obtain ⟨fresh, length, told⟩ := h.codes
  obtain ⟨fresh', length', told'⟩ := lands.codes
  refine ⟨added, ?_, ?_, ?_, ?_, fresh + fresh', ?_, ?_⟩
  · rw [lands.settings, h.settings]
  · rw [lands.tree, h.tree]
  · rw [lands.classes, h.classes, added]
  · rw [lands.reported, h.reported, List.foldl_nil]
  · rw [length', length, Nat.add_assoc]
  · rw [told', told, codes, List.append_assoc m.codes, List.replicate_append_replicate]

theorem Lands.outline (h : Lands texts landing m m') : m'.outline = m.outline := by
  simp only [Model.outline, h.settings, h.tree, h.classes, Class.map_outline_join]

/-- Landing changes no other class than the one in which the item lands. -/
theorem Lands.classAt_eq (h : Lands texts landing m m') {id : ClassId}
    (other : ∀ own, landing.owner? = some own → own ≠ id) : m'.classAt id = m.classAt id := by
  rw [classAt, h.classes, classAt]
  cases landing with
  | nowhere => rfl
  | ownerless shownName => rfl
  | unknown className => rfl
  | member own added =>
    have ne := other own rfl
    rw [Landing.added?]
    split
    · rfl
    · simp [Class.join, List.getD_eq_getElem?_getD, ne]

/-- In models that are alike the same item lands alike. -/
theorem Lands.alike (h : m.Alike m') (lands : Lands texts landing m s)
    (lands' : Lands texts landing m' s') :
    landing.added? m' = landing.added? m ∧ s.Alike s' := by
  obtain ⟨added, codes⟩ := landing.parts_congr fun id _ => h.classAt id
  have reported : s.reported.Perm s'.reported := by
    rw [lands.reported, lands'.reported]
    exact perm_foldl_remember (.refl texts) h.reported
  refine ⟨added, ?_, ?_, ?_, reported, ?_⟩
  · rw [lands'.settings, h.settings, lands.settings]
  · rw [lands'.tree, h.tree, lands.tree]
  · rw [lands'.classes, h.classes, added, lands.classes]
  · obtain ⟨fresh, length, told⟩ := lands.codes
    obtain ⟨fresh', length', told'⟩ := lands'.codes
    have same : fresh' = fresh := by
      have before := h.reported.length_eq
      have after := reported.length_eq
      omega
    rw [told, told', same, codes]
    exact (h.codes.append_right _).append_right _

/-- Two items that do not land in one class may land in either order. -/
theorem Lands.swap (apart : ∀ id, landing.owner? = some id → landing'.owner? ≠ some id)
    (first : Lands texts landing m m') (second : Lands texts' landing' m' m'')
    (second' : Lands texts' landing' m s) (first' : Lands texts landing s s') :
    landing'.added? m' = landing'.added? m ∧ landing.added? s = landing.added? m ∧
      m''.Alike s' := by
  obtain ⟨added', codes'⟩ := landing'.parts_congr fun id own =>
    first.classAt_eq fun k mem same => apart k mem (same ▸ own)
  obtain ⟨added, codes⟩ := landing.parts_congr fun id own =>
    second'.classAt_eq fun k mem same => apart id own (same ▸ mem)
  have reported : m''.reported.Perm s'.reported := by
    rw [second.reported, first.reported, first'.reported, second'.reported, ← List.foldl_append,
      ← List.foldl_append]
    exact perm_foldl_remember List.perm_append_comm (.refl _)
  refine ⟨added', added, ?_, ?_, ?_, reported, ?_⟩
  · rw [first'.settings, second'.settings, second.settings, first.settings]
  · rw [first'.tree, second'.tree, second.tree, first.tree]
  · rw [first'.classes, second'.classes, second.classes, first.classes, added, added']
    refine Class.join_join fun one other joined joined' same => ?_
    have owner : ∀ {l : Landing} {pair}, l.added? m = some pair → l.owner? = some pair.1 := by
      intro l pair joined
      cases l with
      | member id added =>
        rw [Landing.added?] at joined
        split at joined
        · cases joined
        · exact congrArg (some ·.1) (Option.some.inj joined)
      | _ => cases joined
    exact apart _ (owner joined') (same ▸ owner joined)
  · obtain ⟨a, length_a, told_a⟩ := first.codes
    obtain ⟨b, length_b, told_b⟩ := second.codes
    obtain ⟨c, length_c, told_c⟩ := second'.codes
    obtain ⟨d, length_d, told_d⟩ := first'.codes
    have same : a + b = c + d := by
      have length := reported.length_eq
      omega
    rw [told_b, told_a, told_d, told_c, codes, codes']
    refine List.perm_iff_count.2 fun code => ?_
    simp only [List.count_append, List.count_replicate]
    split <;> omega

end Model

namespace Build

open Model

variable {m m' : Model}

/-- Settles where an item lands. -/
def aim (entry : ItemEntry) : Build Landing := do
  match entry with
  | .noRecord => throw (.shape .noFields)
  | .unfitOwner owner =>
    if ← ofReading ((← get).settings.ignores owner) then return .nowhere
    else throw (.shape .noFields)
  | .ownerless shownName => return .ownerless shownName
  | .owned className content =>
    if ← ofReading ((← get).settings.ignores (.str className)) then return .nowhere
    else
      match ← lookup className with
      | none => return .unknown className
      | some id =>
        match content with
        | .skipped => return .nowhere
        | .unfitKind => throw (.shape .unfit)
        | .member item => return .member id (← buildMember item id)

/-- Lets an item land. -/
def land : Landing → Build (Option Member)
  | .nowhere => return none
  | .ownerless shownName => do
    note (.debug ("Skipping item without a class; name=" ++ shownName))
    return none
  | .unknown className => do
    warn Diagnostic.unknownClass ("Klass not found for " ++ className) className
    return none
  | .member id member => do
    if ← addMember id member then
      warnOfDeprecation id member
      return some member
    else return none

/-- **Attaching an item settles where it lands and lets it land.** -/
theorem attach_eq (entry : ItemEntry) : attach entry = aim entry >>= land := by
  cases entry with
  | noRecord => rfl
  | ownerless shownName => rfl
  | unfitOwner owner =>
    unfold attach aim
    dsimp only
    rw [bind_assoc]
    refine bind_congr fun m => ?_
    rw [bind_assoc]
    refine bind_congr fun ignored => ?_
    split <;> rfl
  | owned className content =>
    unfold attach aim
    dsimp only
    rw [bind_assoc]
    refine bind_congr fun m => ?_
    rw [bind_assoc]
    refine bind_congr fun ignored => ?_
    split
    · rfl
    unfold attachOwned
    rw [bind_assoc]
    refine bind_congr fun found => ?_
    cases found with
    | none => rfl
    | some id =>
      cases content with
      | skipped => rfl
      | unfitKind => rfl
      | member item =>
        dsimp only
        unfold attachMember
        rw [bind_assoc]
        exact bind_congr fun member => rfl

theorem reads_lookup (name : String) : Reads (lookup name) := by
  refine .look (fun m => (Reads.of_reading _).bind fun slot => ?_) fun m => ?_
  · split
    · exact .pure _
    · exact .throw rfl
  · rw [inSlot?_outline]
    rfl

/-- Where an item lands is settled by reading. -/
theorem reads_aim (entry : ItemEntry) : Reads (aim entry) := by
  have ignores : ∀ (owner : Json) {next : Bool → Build Landing}, (∀ ignored, Reads (next ignored)) →
      Reads (do next (← ofReading ((← get).settings.ignores owner))) := fun owner _ reads =>
    .look (fun _ => (Reads.of_reading _).bind reads) fun _ => rfl
  cases entry with
  | noRecord => exact .throw rfl
  | ownerless shownName => exact .pure _
  | unfitOwner owner =>
    refine ignores owner fun ignored => ?_
    split
    · exact .pure _
    · exact .throw rfl
  | owned className content =>
    refine ignores (.str className) fun ignored => ?_
    split
    · exact .pure _
    refine (reads_lookup className).bind fun found => ?_
    cases found with
    | none => exact .pure _
    | some id =>
      cases content with
      | skipped => exact .pure _
      | unfitKind => exact .throw rfl
      | member item => exact (reads_buildMember item id).bind fun _ => .pure _

/-- An item lands in the class of its owner, if it lands in a class. -/
theorem ends_aim_owner (entry : ItemEntry) (m : Model) :
    Ends (aim entry) m (fun landing _ => ∀ id, landing.owner? = some id →
      entry.owner? m = some id) fun _ _ => True := by
  have nowhere : ∀ id, Landing.nowhere.owner? = some id → entry.owner? m = some id :=
    fun _ own => nomatch own
  cases entry with
  | noRecord => trivial
  | ownerless shownName => exact fun _ own => nomatch own
  | unfitOwner owner =>
    unfold aim
    rw [ends_bind, ends_get, ends_bind, ends_ofReading]
    refine ⟨fun ignored _ => ?_, fun _ _ => trivial⟩
    split
    · exact nowhere
    · trivial
  | owned className content =>
    unfold aim
    rw [ends_bind, ends_get, ends_bind, ends_ofReading]
    refine ⟨fun ignored _ => ?_, fun _ _ => trivial⟩
    split
    · exact nowhere
    unfold lookup
    rw [ends_bind, ends_bind, ends_get, ends_bind, ends_ofReading]
    refine ⟨fun slot read => ?_, fun _ _ => trivial⟩
    split
    · rw [ends_pure]
      cases found : m.inSlot? slot with
      | none => exact fun _ own => nomatch own
      | some id =>
        have owner : m.found? className = some id := by
          rw [found?, find?, read]
          exact found
        cases content with
        | skipped => exact nowhere
        | unfitKind => trivial
        | member item =>
          dsimp only
          rw [ends_bind]
          refine ends_of (fun member m' _ k own => ?_) fun _ _ _ => trivial
          exact owner.trans own
    · trivial

/-- Landing never fails. -/
theorem ends_land (landing : Landing) (m : Model) :
    Ends (land landing) m (fun answer m' => answer.isSome = (landing.added? m).isSome ∧
      Lands [] landing m m') fun _ _ => False := by
  cases landing with
  | nowhere => exact ⟨rfl, .plain rfl rfl rfl rfl (List.append_nil _).symm⟩
  | ownerless shownName => exact ⟨rfl, .plain rfl rfl rfl rfl (codes_log m _)⟩
  | unknown className => exact ⟨rfl, .plain rfl rfl rfl rfl (codes_log m _)⟩
  | member id member =>
    unfold land
    rw [ends_bind]
    by_cases taken : (Entries.get? member.key (m.classAt id).members).isSome = true
    · have added : (Landing.member id member).added? m = none := if_pos taken
      have codes : (Landing.member id member).codes m = [Diagnostic.duplicateMember] :=
        if_pos taken
      refine (ends_addMember_taken (Entries.get?_isSome_iff.1 taken)).mono ?_ fun _ _ h => h
      rintro _ m₁ ⟨rfl, rfl⟩
      refine ⟨by rw [added]; rfl, .plain rfl rfl (by rw [added]; rfl) rfl ?_⟩
      rw [codes]
      exact codes_log m _
    · have added : (Landing.member id member).added? m = some (id, member) := if_neg taken
      have codes : (Landing.member id member).codes m =
          (deprecationOf (m.classAt id) member.item).map Diagnostic.code := if_neg taken
      refine (ends_addMember_free fun there => taken (Entries.get?_isSome_iff.2 there)).mono ?_
        fun _ _ h => h
      rintro _ m₁ ⟨rfl, rfl⟩
      rw [if_pos rfl, ends_bind]
      refine (ends_warnOfDeprecation id member _).mono ?_ fun _ _ h => h
      rintro - m₂ rfl
      -- the warning looks at the name and the record of the class, which have not changed
      have outline : (m.modifyClass id fun c => c.withMember member).outline = m.outline :=
        outline_modifyClass m id fun _ => rfl
      have deprecation : deprecationOf
          ((m.modifyClass id fun c => c.withMember member).classAt id) member.item =
            deprecationOf (m.classAt id) member.item := by
        have name := fullName_of_outline_eq outline id
        rw [fullName, fullName] at name
        rw [deprecationOf, deprecationOf, record_of_outline_eq outline, name]
      refine ⟨by rw [added]; rfl, .plain rfl rfl (by rw [added]; rfl) rfl ?_⟩
      rw [codes_log, deprecation, LogEntry.diagnostics_map_warning, codes]
      rfl

/-- **Attaching an item fails in all models with an outline, or in all of them it has the item land
in one way.** -/
theorem ends_attach_lands (o : Model) (entry : ItemEntry) :
    (∀ m : Model, m.outline = o.outline → Ends (attach entry) m (fun _ _ => False)
      fun _ _ => True) ∨
    ∃ texts landing, (∀ id, landing.owner? = some id → entry.owner? o = some id) ∧
      ∀ m : Model, m.outline = o.outline → Ends (attach entry) m
        (fun answer m' => answer.isSome = (landing.added? m).isSome ∧ Lands texts landing m m')
        fun _ _ => False := by
  obtain ⟨texts, told⟩ := (reads_aim entry).remembers o
  have same := fun (m : Model) (outline : m.outline = o.outline) =>
    (reads_aim entry).consults.value_eq outline
  cases known : Build.value (aim entry) o with
  | error error =>
    refine .inl fun m outline => ?_
    rw [attach_eq, ends_bind]
    exact ((told m outline).known_error ((same m outline).trans known)).mono
      (fun _ _ none => none.elim) fun _ _ _ => trivial
  | ok landing =>
    obtain ⟨_, _, -, rfl, owner⟩ := ((ends_aim_owner entry o).known_ok known).exists_ok
    refine .inr ⟨texts, _, owner, fun m outline => ?_⟩
    rw [attach_eq, ends_bind]
    refine ((told m outline).known_ok ((same m outline).trans known)).mono ?_ fun _ _ h => h
    rintro _ m₁ ⟨rfl, remembers⟩
    refine (ends_land _ m₁).mono ?_ fun _ _ h => h
    rintro answer m₂ ⟨answered, lands⟩
    obtain ⟨added, lands⟩ := remembers.lands lands
    exact ⟨answered.trans (by rw [added]), lands⟩

end Build
end AmbientDecl
