/- # Writing files

A path leads to one place if it leads anywhere, whatever stands on the disk (`Place.ofPath`).  A
path is free if no file stands on the way to it and nothing but a file at its place
(`Disk.Free`).  Then its directory can be made (`Disk.makeAll_of_clear`), and a file can be written
at its place (`Disk.Free.writes`).

What is written at one path leaves another one free if none of them leads through the place of the
other one (`Disk.Free.after`).  So files can be written at such paths one after the other, and what
stands on the disk then is known for every place: the text of each file at the place of its path
(`Disk.afterAll_text`), directories on the ways to them (`Disk.afterAll_directory`), and anywhere
else what stood there before (`Disk.afterAll_elsewhere`).
-/

import AmbientDecl.Command.Disk
import AmbientDecl.Proofs.Action.Except
import AmbientDecl.Proofs.Command.Path
import Mathlib.Data.List.Induction
import Mathlib.Data.List.Pairwise

namespace AmbientDecl

/-- The place that a path leads to, if directories stand on the way. -/
def Place.ofPath (path : String) : Place :=
  (Path.steps path).foldl Place.step (Place.startOf path)

namespace Command
namespace Disk

variable {disk : Disk} {place : Place} {path other text : String}

/-! Clear ways -/

/-- The disk with directories at some places. -/
def withDirectories (disk : Disk) (places : List Place) : Disk := fun place =>
  if place ∈ places then .directory else disk place

theorem trail_concat (place : Place) (components : List String) (last : String) :
    place.trail (components ++ [last]) =
      place.trail components ++ [(components.foldl Place.step place).step last] := by
  induction components generalizing place with
  | nil => rfl
  | cons component rest ih => exact congrArg (place :: ·) (ih _)

variable {components : List String} {name : String}

/-- The names on a way can be those of files. -/
def AreShort (components : List String) : Prop :=
  ∀ component ∈ components, component.utf8ByteSize ≤ longestName

theorem walk_directory {rest : List String} (directory : disk place = .directory)
    (short : name.utf8ByteSize ≤ longestName) :
    disk.walk place (name :: rest) = disk.walk (place.step name) rest := by
  rw [walk, directory]
  exact if_neg (Nat.not_lt.2 short)

/-- A way through directories leads to its place. -/
theorem walk_of_directories (short : AreShort (components ++ [name]))
    (directories : ∀ above ∈ place.trail components, disk above = .directory) :
    disk.walk place (components ++ [name]) =
      .ok ((components ++ [name]).foldl Place.step place) := by
  induction components generalizing place with
  | nil =>
    have here : disk place = .directory := directories _ List.mem_cons_self
    exact walk_directory here (short _ List.mem_cons_self)
  | cons component rest ih =>
    obtain ⟨here, directories⟩ := List.forall_mem_cons.1 directories
    obtain ⟨first, short⟩ := List.forall_mem_cons.1 short
    exact (walk_directory here first).trans (ih short directories)

/-- Where no file stands there is nothing or a directory. -/
theorem missing_or_directory {state : FileState} (clear : state.isFile = false) :
    state = .missing ∨ state = .directory := by
  cases state with
  | missing => exact .inl rfl
  | directory => exact .inr rfl
  | text content => cases clear
  | bytes reason => cases clear

/-- A way without files that lacks a directory stops where it is missing. -/
theorem walk_of_missing (short : AreShort (components ++ [name]))
    (clear : ∀ above ∈ place.trail components, (disk above).isFile = false)
    (lacks : ∃ above ∈ place.trail components, disk above ≠ .directory) :
    disk.walk place (components ++ [name]) = .error .isMissing := by
  induction components generalizing place with
  | nil =>
    obtain ⟨above, mem, other⟩ := lacks
    obtain rfl := List.mem_singleton.1 mem
    rcases missing_or_directory (clear _ mem) with state | state
    · simp [walk, state]
    · exact absurd state other
  | cons component rest ih =>
    obtain ⟨noFile, clear⟩ := List.forall_mem_cons.1 clear
    obtain ⟨first, short⟩ := List.forall_mem_cons.1 short
    rcases missing_or_directory noFile with state | state
    · simp [walk, state]
    · obtain ⟨above, mem, other⟩ := lacks
      rcases List.mem_cons.1 mem with rfl | mem
      · exact absurd state other
      · exact (walk_directory state first).trans (ih short clear ⟨above, mem, other⟩)

theorem withDirectories_of_mem {places : List Place} (mem : place ∈ places) :
    disk.withDirectories places place = .directory :=
  if_pos mem

theorem withDirectories_of_notMem {places : List Place} (mem : place ∉ places) :
    disk.withDirectories places place = disk place :=
  if_neg mem

theorem withDirectories_append (disk : Disk) (places more : List Place) :
    disk.withDirectories (places ++ more) = (disk.withDirectories places).withDirectories more := by
  funext place
  by_cases first : place ∈ places <;> by_cases second : place ∈ more <;>
    simp [withDirectories, first, second]

/-- Directories that are there are not made. -/
theorem withDirectories_of_directories {places : List Place}
    (there : ∀ place ∈ places, disk place = .directory) : disk.withDirectories places = disk := by
  funext place
  by_cases mem : place ∈ places
  · rw [withDirectories_of_mem mem, there place mem]
  · rw [withDirectories_of_notMem mem]

theorem isFile_withDirectories (clear : (disk place).isFile = false) (places : List Place) :
    (disk.withDirectories places place).isFile = false := by
  unfold withDirectories
  split
  · rfl
  · exact clear

theorem set_directory (disk : Disk) (place : Place) :
    disk.set place .directory = disk.withDirectories [place] := by
  funext other
  simp [set, withDirectories]

/-- The last directory of a way is made if it is not there. -/
theorem makeLast_of_directories (short : AreShort (components ++ [name]))
    (directories : ∀ above ∈ place.trail components, disk above = .directory)
    (clear : (disk ((components.foldl Place.step place).step name)).isFile = false) :
    disk.makeLast place (components ++ [name]) =
      (disk.withDirectories [(components.foldl Place.step place).step name], .ok ()) := by
  rw [makeLast, walk_of_directories short directories, List.foldl_concat]
  dsimp only
  rcases missing_or_directory clear with state | state
  · rw [state, ← set_directory]
  · rw [state, withDirectories_of_directories (List.forall_mem_singleton.2 state)]

/-- **A directory is made** with all that the way to it lacks, if no file stands on the way. -/
theorem makeAll_of_clear (short : AreShort components) (start : disk place = .directory)
    (clear : ∀ above ∈ place.trail components, (disk above).isFile = false) :
    disk.makeAll place components.reverse =
      (disk.withDirectories (place.trail components), .ok ()) := by
  induction components using List.reverseRecOn with
  | nil =>
    have there : ∀ above ∈ place.trail [], disk above = .directory :=
      List.forall_mem_singleton.2 start
    rw [withDirectories_of_directories there]
    rfl
  | append_singleton components name ih =>
    rw [trail_concat] at clear ⊢
    have reversed : (name :: components.reverse).reverse = components ++ [name] := by simp
    have above : ∀ above ∈ place.trail components, (disk above).isFile = false :=
      fun above mem => clear above (List.mem_append_left _ mem)
    have last := clear _ (List.mem_append_right _ (List.mem_singleton.2 rfl))
    rw [List.reverse_append, List.reverse_singleton, List.singleton_append, makeAll, reversed,
      withDirectories_append]
    by_cases directories : ∀ above ∈ place.trail components, disk above = .directory
    · rw [makeLast_of_directories short directories last,
        withDirectories_of_directories directories]
    · have lacks : ∃ above ∈ place.trail components, disk above ≠ .directory := by
        simpa using directories
      have missing : disk.makeLast place (components ++ [name]) = (disk, .error .isMissing) := by
        rw [makeLast, walk_of_missing short above lacks]
      have made := ih (fun name mem => short name (List.mem_append_left _ mem)) above
      rw [missing]
      dsimp only
      rw [made]
      exact makeLast_of_directories short (fun _ mem => withDirectories_of_mem mem)
        (isFile_withDirectories last _)

/-! Free paths -/

/-- The places on the way to the directory of a path, and its own one. -/
def way (path : String) : List Place :=
  (Place.startOf path).trail (Path.steps path).dropLast

/-- No file stands on the way to a path, and at its place nothing but a file. -/
structure Free (disk : Disk) (path : String) : Prop where
  starts : start path = .ok (Place.startOf path)
  directoryStarts : start (Path.parent path) = .ok (Place.startOf (Path.parent path))
  short : AreShort (Path.steps path)
  root : disk (Place.startOf path) = .directory
  clear : ∀ place ∈ way path, (disk place).isFile = false
  noDirectory : disk (Place.ofPath path) ≠ .directory
  apart : Place.ofPath path ∉ way path

/-- Neither of two paths leads through the place of the other one, nor to the same place. -/
structure Apart (path other : String) : Prop where
  ne : Place.ofPath path ≠ Place.ofPath other
  outside : Place.ofPath path ∉ way other
  outside' : Place.ofPath other ∉ way path

instance : Std.Symm Apart where
  symm _ _ h := ⟨h.ne.symm, h.outside', h.outside⟩

/-- Free paths that are apart do not lead through the places of one another. -/
theorem notMem_way {paths : List String} (free : ∀ path ∈ paths, disk.Free path)
    (apart : paths.Pairwise Apart) (mem : path ∈ paths) (mem' : other ∈ paths) :
    Place.ofPath other ∉ way path := by
  by_cases same : path = other
  · exact same ▸ (free path mem).apart
  · exact (apart.forall mem mem' same).outside'

theorem startOf_mem_way (path : String) : Place.startOf path ∈ way path := by
  unfold way
  cases (Path.steps path).dropLast <;> exact List.mem_cons_self

/-- The disk after a file was written at a path. -/
def after (disk : Disk) (path text : String) : Disk :=
  (disk.withDirectories (way path)).set (Place.ofPath path) (.text text)

theorem after_of_ne (ne : place ≠ Place.ofPath path) (text : String) :
    disk.after path text place = disk.withDirectories (way path) place :=
  if_neg ne

/-- A directory stays where no file is written. -/
theorem after_of_directory (there : disk place = .directory) (ne : place ≠ Place.ofPath path)
    (text : String) : disk.after path text place = .directory := by
  rw [after_of_ne ne, withDirectories]
  split
  · rfl
  · exact there

/-- A file is written at a path that is free. -/
theorem Free.writes (h : disk.Free path) (text : String) :
    disk.makeDirectory (Path.parent path) = (disk.withDirectories (way path), .ok ()) ∧
    (disk.withDirectories (way path)).write path text =
      (disk.after path text, .ok (Place.ofPath path)) := by
  constructor
  · rw [makeDirectory, h.directoryStarts, Path.steps_parent, Place.startOf_parent]
    have short : AreShort (Path.steps path).dropLast := fun name mem =>
      h.short name (List.dropLast_subset _ mem)
    exact makeAll_of_clear short h.root h.clear
  · have some : Path.steps path ≠ [] := by
      intro none
      refine h.apart ?_
      rw [Place.ofPath, none]
      exact startOf_mem_way path
    have located : (disk.withDirectories (way path)).locate path = .ok (Place.ofPath path) := by
      have split := List.dropLast_append_getLast some
      have short := h.short
      rw [locate, h.starts, bind_ok, Place.ofPath, ← split]
      rw [← split] at short
      exact walk_of_directories short fun _ mem => withDirectories_of_mem mem
    have noDirectory : disk.withDirectories (way path) (Place.ofPath path) ≠ .directory := by
      rw [withDirectories_of_notMem h.apart]
      exact h.noDirectory
    rw [write, located]
    dsimp only
    split
    · exact absurd ‹_› noDirectory
    · rfl

/-- A path stays free while a file is written at a path apart from it. -/
theorem Free.after (h : disk.Free other) (apart : Apart path other) (text : String) :
    (disk.after path text).Free other where
  starts := h.starts
  directoryStarts := h.directoryStarts
  short := h.short
  root := by
    have ne : Place.startOf other ≠ Place.ofPath path := fun same =>
      apart.outside (same ▸ startOf_mem_way other)
    exact after_of_directory h.root ne text
  clear place mem := by
    have ne : place ≠ Place.ofPath path := fun same => apart.outside (same ▸ mem)
    rw [after_of_ne ne]
    exact isFile_withDirectories (h.clear place mem) _
  noDirectory := by
    rw [after_of_ne apart.ne.symm, withDirectories_of_notMem apart.outside']
    exact h.noDirectory
  apart := h.apart

/-! Several files -/

variable {file : String × String} {files : List (String × String)}

/-- The disk after files were written one after the other, each at a path with a text. -/
def afterAll (disk : Disk) : List (String × String) → Disk
  | [] => disk
  | file :: rest => (disk.after file.1 file.2).afterAll rest

/-- Places off all paths stay as they are. -/
theorem afterAll_elsewhere
    (off : ∀ file ∈ files, place ≠ Place.ofPath file.1 ∧ place ∉ way file.1) :
    disk.afterAll files place = disk place := by
  induction files generalizing disk with
  | nil => rfl
  | cons first files ih =>
    obtain ⟨⟨ne, notOn⟩, off⟩ := List.forall_mem_cons.1 off
    rw [afterAll, ih off, after_of_ne ne, withDirectories_of_notMem notOn]

/-- **A file has its text** after files were written at paths that are apart. -/
theorem afterAll_text (apart : files.Pairwise fun file other => Apart file.1 other.1)
    (mem : (path, text) ∈ files) :
    disk.afterAll files (Place.ofPath path) = .text text := by
  induction files generalizing disk with
  | nil => cases mem
  | cons first files ih =>
    obtain ⟨others, apart⟩ := List.pairwise_cons.1 apart
    rcases List.mem_cons.1 mem with rfl | mem
    · rw [afterAll, afterAll_elsewhere fun other mem => ⟨(others other mem).ne,
        (others other mem).outside⟩]
      exact if_pos rfl
    · exact ih apart mem

theorem afterAll_of_directory (there : disk place = .directory)
    (ne : ∀ file ∈ files, place ≠ Place.ofPath file.1) :
    disk.afterAll files place = .directory := by
  induction files generalizing disk with
  | nil => exact there
  | cons first files ih =>
    obtain ⟨here, ne⟩ := List.forall_mem_cons.1 ne
    exact ih (after_of_directory there here _) ne

/-- **A place on the way to a file is a directory** after files were written, if none of them is at
this place. -/
theorem afterAll_directory (mem : file ∈ files) (on : place ∈ way file.1)
    (ne : ∀ file ∈ files, place ≠ Place.ofPath file.1) :
    disk.afterAll files place = .directory := by
  induction files generalizing disk with
  | nil => cases mem
  | cons first files ih =>
    obtain ⟨here, others⟩ := List.forall_mem_cons.1 ne
    rcases List.mem_cons.1 mem with rfl | mem
    · have made : disk.after file.1 file.2 place = .directory :=
        (after_of_ne here _).trans (withDirectories_of_mem on)
      rw [afterAll]
      exact afterAll_of_directory made others
    · exact ih mem others

end Disk
end Command
end AmbientDecl
