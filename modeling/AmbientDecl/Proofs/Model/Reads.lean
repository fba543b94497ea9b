/- # Actions that read

Building a member only looks at the outline of a model, and the only thing that it changes is that
unreadable types are reported.  The actions that are put together from such looks and reports
**read** (`Build.Reads`); what they fail for is not how far the linking of a class has come, which
the outline does not tell.  A statement about all of them is proved by induction on how they are
put together:

* their value depends on the outline alone (`Reads.consults`);
* the diagnostics that they add are of unreadable types (`Reads.types`); and
* the unreadable types that they come to depend on the outline alone, and each of them is reported
  unless it was reported before (`Reads.remembers`).
-/

import AmbientDecl.Proofs.Action.Keeps
import AmbientDecl.Proofs.Model.Outline
import Mathlib.Data.List.Perm.Basic

namespace AmbientDecl

/-- The texts with one more, which is added once. -/
def remember (texts : List String) (text : String) : List String :=
  if texts.contains text then texts else texts ++ [text]

theorem remember_of_mem {texts : List String} {text : String} (old : text ∈ texts) :
    remember texts text = texts := by
  rw [remember, if_pos (by simpa using old)]

theorem remember_of_not_mem {texts : List String} {text : String} (new : text ∉ texts) :
    remember texts text = texts ++ [text] := by
  rw [remember, if_neg (by simpa using new)]

theorem count_foldl_remember (text : String) (more texts : List String) :
    (more.foldl remember texts).count text =
      if text ∈ texts then texts.count text else if text ∈ more then 1 else 0 := by
  induction more generalizing texts with
  | nil =>
    by_cases there : text ∈ texts
    · simp [there]
    · simp [there, List.count_eq_zero]
  | cons next rest ih =>
    rw [List.foldl_cons, ih]
    by_cases old : next ∈ texts
    · rw [remember_of_mem old]
      by_cases there : text ∈ texts
      · simp [there]
      · have ne : text ≠ next := fun same => there (same ▸ old)
        simp [there, ne]
    · rw [remember_of_not_mem old]
      by_cases there : text ∈ texts
      · have ne : next ≠ text := fun same => old (same ▸ there)
        simp [there, ne]
      · by_cases same : text = next
        · subst same
          simp [there, List.count_eq_zero.2 there]
        · simp [there, same]

/-- What is remembered does not depend on the order of the texts. -/
theorem perm_foldl_remember {more more' texts texts' : List String} (h : more.Perm more')
    (h' : texts.Perm texts') :
    (more.foldl remember texts).Perm (more'.foldl remember texts') := by
  refine List.perm_iff_count.2 fun text => ?_
  rw [count_foldl_remember, count_foldl_remember, h'.count_eq]
  simp only [h.mem_iff, h'.mem_iff]

/-- Whether an error is due to how far the linking of a class has come. -/
def BuildError.isOfProgress : BuildError → Bool
  | cycle _ => true
  | abandonedClass => true
  | paramsOnProperty _ => false
  | missingNamespace _ => false
  | shape _ => false

namespace Model

variable {m m' m'' : Model} {texts texts' : List String}

instance : IsPreorder Model ReportsTypes where
  refl := .refl
  trans _ _ _ := .trans

/-- The codes of the diagnostics in their order. -/
def codes (m : Model) : List String := m.diagnostics.map Diagnostic.code

theorem codes_log (m : Model) (log : List LogEntry) :
    ({ m with log := m.log ++ log } : Model).codes =
      m.codes ++ (LogEntry.diagnostics log).map Diagnostic.code := by
  rw [codes, diagnostics, LogEntry.diagnostics_append, List.map_append, codes, diagnostics]

/-- `m'` differs from `m` by the reports of unreadable types: each of `texts` that had not been
reported before has been reported. -/
structure Remembers (texts : List String) (m m' : Model) : Prop extends m.Reports m' where
  reported : m'.reported = texts.foldl remember m.reported
  codes : ∃ fresh, m'.reported.length = m.reported.length + fresh ∧
    m'.codes = m.codes ++ List.replicate fresh Diagnostic.unparseableType

theorem Remembers.refl (m : Model) : Remembers [] m m :=
  ⟨.refl m, rfl, 0, rfl, (List.append_nil _).symm⟩

theorem Remembers.trans (h : Remembers texts m m') (h' : Remembers texts' m' m'') :
    Remembers (texts ++ texts') m m'' := by
  obtain ⟨fresh, length, codes⟩ := h.codes
  obtain ⟨fresh', length', codes'⟩ := h'.codes
  refine ⟨h.toReports.trans h'.toReports, ?_, fresh + fresh', ?_, ?_⟩
  · rw [h'.reported, h.reported, List.foldl_append]
  · rw [length', length, Nat.add_assoc]
  · rw [codes', codes, List.append_assoc, List.replicate_append_replicate]

end Model

namespace Build

open Model

/-- The actions that look at the outline of a model and report unreadable types. -/
inductive Reads : {α : Type} → Build α → Prop
  | pure {α : Type} (value : α) : Reads (pure value)
  | throw {α : Type} {error : BuildError} (named : error.isOfProgress = false) :
      Reads (throw error : Build α)
  | report (error : TypeExpr.SyntaxError) (subject : String) :
      Reads (reportUnreadable error subject)
  | look {α : Type} {next : Model → Build α} (reads : ∀ m, Reads (next m))
      (same : ∀ m : Model, next m.outline = next m) : Reads (get >>= next)
  | bind {α β : Type} {action : Build β} {next : β → Build α} (reads : Reads action)
      (others : ∀ value, Reads (next value)) : Reads (action >>= next)

namespace Reads

variable {α β : Type} {action : Build α}

theorem of_reading (reading : Except ShapeFault α) : Reads (ofReading reading) := by
  cases reading with
  | ok value => exact .pure value
  | error fault => exact .throw rfl

theorem map {action : Build β} (f : β → α) (h : Reads action) : Reads (f <$> action) := by
  rw [map_eq_pure_bind]
  exact h.bind fun value => .pure (f value)

theorem mapM {action : β → Build α} (h : ∀ x, Reads (action x)) (xs : List β) :
    Reads (xs.mapM action) := by
  induction xs with
  | nil => exact .pure []
  | cons x rest ih =>
    rw [List.mapM_cons]
    exact (h x).bind fun _ => ih.bind fun _ => .pure _

/-- The value of an action that reads depends on the outline alone. -/
theorem consults (h : Reads action) : Consults action := by
  induction h with
  | pure value => exact .pure value
  | throw named => exact .throw _
  | report error subject => exact reportUnreadable_consults error subject
  | look _ same ih => exact .getting ih same
  | bind _ _ ih ih' => exact ih.bind ih'

/-- The diagnostics that an action adds that reads are of unreadable types. -/
theorem types (h : Reads action) : Keeps ReportsTypes action := by
  induction h with
  | pure value => exact .pure value
  | throw named => exact .throw _
  | report error subject =>
    exact fun m => (ends_reportUnreadable error subject m).mono (fun _ _ told => told)
      fun _ _ none => none.elim
  | look _ _ ih => exact .getting ih
  | bind _ _ ih ih' => exact ih.bind ih'

/-- **The unreadable types that an action comes to that reads depend on the outline alone,**
however it ends. -/
theorem remembers (h : Reads action) (o : Model) : ∃ texts, ∀ m : Model, m.outline = o.outline →
    Ends action m (fun _ m' => Remembers texts m m') fun _ m' => Remembers texts m m' := by
  induction h generalizing o with
  | pure value => exact ⟨[], fun m _ => .refl m⟩
  | throw named => exact ⟨[], fun m _ => .refl m⟩
  | report error subject =>
    refine ⟨[error.text], fun m _ => ?_⟩
    unfold reportUnreadable
    rw [ends_bind, ends_get]
    by_cases old : m.reported.contains error.text = true
    · rw [if_pos old, ends_pure]
      refine ⟨.refl m, ?_, 0, rfl, (List.append_nil _).symm⟩
      rw [List.foldl_cons, List.foldl_nil, remember, if_pos old]
    · rw [if_neg old, ends_bind, ends_set, ends_warn]
      refine ⟨⟨rfl, rfl, rfl, List.prefix_append ..⟩, ?_, 1, ?_, ?_⟩
      · rw [List.foldl_cons, List.foldl_nil, remember, if_neg old]
      · exact List.length_append
      · exact codes_log { m with reported := m.reported ++ [error.text] } _
  | @look α next reads same ih =>
    obtain ⟨texts, told⟩ := ih o o
    refine ⟨texts, fun m outline => ?_⟩
    have next_eq : next m = next o := by rw [← same m, outline, same o]
    rw [ends_bind, ends_get, next_eq]
    exact told m outline
  | @bind α β action next reads others ih ih' =>
    obtain ⟨texts, told⟩ := ih o
    have known : ∀ m : Model, m.outline = o.outline → Build.value action m = Build.value action o :=
      fun m outline => reads.consults.value_eq outline
    -- what comes next depends on the value, which all models with this outline give
    cases first : Build.value action o with
    | error error =>
      refine ⟨texts, fun m outline => ?_⟩
      rw [ends_bind]
      exact ((told m outline).known_error ((known m outline).trans first)).mono
        (fun _ _ none => none.elim) fun _ _ h => h.2
    | ok value =>
      obtain ⟨texts', told'⟩ := ih' value o
      refine ⟨texts ++ texts', fun m outline => ?_⟩
      rw [ends_bind]
      refine ((told m outline).known_ok ((known m outline).trans first)).mono ?_
        fun _ _ none => none.elim
      rintro _ m' ⟨rfl, remembers⟩
      exact (told' m' (remembers.outline.trans outline)).mono
        (fun _ _ => remembers.trans) fun _ _ => remembers.trans

end Reads

theorem reads_lowerType (text base : String) : Reads (lowerType text base) := by
  refine .look (fun m => ?_) fun m => by rw [Model.naming_outline]
  rw [lowerWith]
  split
  · exact (Reads.report _ _).bind fun _ => .of_reading _
  · exact (Reads.pure ()).bind fun _ => .of_reading _

theorem reads_lowerType? (text? : Option String) (missing base : String) :
    Reads (lowerType? text? missing base) := by
  cases text? with
  | none => exact .pure _
  | some text => exact reads_lowerType text base

theorem reads_buildParam (base : String) (reading : Except ShapeFault ParamRecord) :
    Reads (buildParam base reading) :=
  (Reads.of_reading reading).bind fun _ => .look (fun _ => (Reads.of_reading _).bind fun _ =>
    (Reads.of_reading _).bind fun _ => (reads_lowerType? _ _ _).bind fun _ => .pure _) fun _ => rfl

theorem reads_buildParams (item : Item) (base : String) : Reads (buildParams item base) := by
  unfold buildParams
  split
  · exact .pure _
  · split
    · exact .mapM (reads_buildParam base) _
    · exact .throw rfl
  · split <;> exact .throw rfl

theorem reads_buildReturn (item : Item) (className base : String) :
    Reads (buildReturn item className base) := by
  unfold buildReturn
  split
  · exact .pure _
  · exact .pure _
  · exact (reads_lowerType _ _).map some

/-- **Building a member reads.** -/
theorem reads_buildMember (item : Item) (owner : ClassId) : Reads (buildMember item owner) := by
  refine .look (fun m => ?_) fun m => by rw [Model.classAt_outline]; rfl
  exact (reads_lowerType? _ _ _).bind fun _ => (reads_buildParams _ _).bind fun _ =>
    (reads_buildReturn _ _ _).bind fun _ => .pure _

theorem reads_copyMember (member : Member) (owner : ClassId) : Reads (copyMember member owner) :=
  (reads_buildMember member.item owner).bind fun _ => .pure _

end Build
end AmbientDecl
