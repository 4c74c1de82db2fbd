import Mathlib
import Reckon.Log.Reading
import Reckon.Proofs.Appending

/-!
The logs of a project as files. Whatever sink an event goes through, its line is added to the
project's own log and to that of its batch, and no other log changes.
-/

namespace Reckon.Log

open Store (Path Place)
open Text (Bytes)

/-! ### Places -/

/-- The log of a batch is named by the batch, and the project's own log by nothing. -/
def IsLog : Option String → Prop
  | some batch => isBatchName batch = true
  | none => True

theorem isLog_own : IsLog none :=
  trivial

theorem isLog_of_isBatchName {batch : String} (usable : isBatchName batch = true) :
    IsLog (some batch) :=
  usable

def innerFolder (home : Place) : Place :=
  home ++ ["logs", "batches"]

def logPlace (home : Place) : Option String → Place
  | some batch => innerFolder home ++ [batch ++ Sink.batchSuffix]
  | none => home ++ ["logs", "events.ndjson"]

variable {home : Place} {which other : Option String}

theorem logPlace_inj : logPlace home which = logPlace home other ↔ which = other := by
  cases which <;> cases other <;> simp [logPlace, innerFolder]

theorem not_logPlace_prefix : ¬ logPlace home which <+: innerFolder home := by
  cases which <;> simp [logPlace, innerFolder]

theorem prefix_of_dropLast_logPlace (home : Place) (which : Option String) :
    (logPlace home which).dropLast <+: innerFolder home := by
  cases which <;> simp [logPlace, innerFolder, List.dropLast_append_of_ne_nil]

namespace Sink

variable {k : Sink} {path : Path}

def log? (k : Sink) : Option String → Option Path
  | some batch => k.batchLog? batch
  | none => some k.log

theorem place_folder (k : Sink) : k.folder.place = k.project.place ++ ["logs"] :=
  Path.place_child k.project (by decide)

theorem place_batchFolder (k : Sink) : k.batchFolder.place = innerFolder k.project.place := by
  rw [batchFolder, Path.place_child k.folder (by decide), place_folder, List.append_assoc]
  rfl

theorem visited_folder (k : Sink) :
    k.folder.visited = k.project.through ++ [k.project.place, k.project.place ++ ["logs"]] := by
  rw [folder, Path.visited_child, ← folder, place_folder, Path.visited, List.append_assoc]
  rfl

theorem visited_batchFolder (k : Sink) : k.batchFolder.visited =
    k.project.through ++
      [k.project.place, k.project.place ++ ["logs"], innerFolder k.project.place] := by
  rw [batchFolder, Path.visited_child, ← batchFolder, place_batchFolder, visited_folder,
    List.append_assoc]
  rfl

theorem log?_eq (k : Sink) (isLog : IsLog which) :
    ∃ folder name, k.log? which = some (Path.child folder name) ∧ name ≠ ".." ∧
      (folder = k.folder ∨ folder = k.batchFolder) ∧
      folder.place ++ [name] = logPlace k.project.place which := by
  cases which with
  | none =>
    refine ⟨k.folder, "events.ndjson", rfl, by decide, .inl rfl, ?_⟩
    rw [place_folder, logPlace, List.append_assoc]
    rfl
  | some batch =>
    refine ⟨k.batchFolder, batch ++ batchSuffix, if_pos isLog, ?_, .inr rfl, ?_⟩
    · intro up
      have short := congrArg String.length up
      have suffix : batchSuffix.length = 7 := by decide
      have points : "..".length = 2 := by decide
      rw [String.length_append, suffix, points] at short
      omega
    · rw [place_batchFolder]
      rfl

theorem isNamed_of_log? (isLog : IsLog which) (log : k.log? which = some path) : IsNamed path := by
  obtain ⟨folder, name, found, down, -⟩ := k.log?_eq isLog
  obtain rfl := Option.some.inj (log.symm.trans found)
  exact isNamed_child folder down

theorem place_of_log? (isLog : IsLog which) (log : k.log? which = some path) :
    path.place = logPlace k.project.place which := by
  obtain ⟨folder, name, found, down, -, place⟩ := k.log?_eq isLog
  obtain rfl := Option.some.inj (log.symm.trans found)
  rw [Path.place_child folder down, place]

/-- The way to a log leads to the project, and then through the folders of the log. -/
theorem mem_through_of_log? (isLog : IsLog which) (log : k.log? which = some path) {place : Place}
    (member : place ∈ path.through) :
    place ∈ k.project.through ∨ place <+: (logPlace k.project.place which).dropLast := by
  obtain ⟨folder, name, found, -, inner, same⟩ := k.log?_eq isLog
  obtain rfl := Option.some.inj (log.symm.trans found)
  rw [← same, List.dropLast_concat]
  rw [Path.through_child] at member
  obtain rfl | rfl := inner
  · rw [visited_folder] at member
    rw [place_folder]
    refine (List.mem_append.mp member).imp_right fun last => ?_
    simp only [List.mem_cons, List.not_mem_nil, or_false] at last
    obtain rfl | rfl := last <;> simp
  · rw [visited_batchFolder] at member
    rw [place_batchFolder, innerFolder]
    refine (List.mem_append.mp member).imp_right fun last => ?_
    simp only [List.mem_cons, List.not_mem_nil, or_false] at last
    obtain rfl | rfl | rfl := last <;> simp [innerFolder]

variable [Limits]

def fits (k : Sink) (which : Option String) : Bool :=
  (k.log? which).any Path.fits

theorem fits_eq (log : k.log? which = some path) : k.fits which = path.fits := by
  rw [fits, log, Option.any_some]

theorem fits_none (k : Sink) : k.fits none = k.log.fits :=
  fits_eq rfl

theorem query_eq (log : k.log? which = some path) (s : Store) (f : Filter) (limit : Int) :
    k.query s f which limit =
      (k.events s path f).map fun found => takeInt (min limit maxLimit) found.reverse := by
  cases which with
  | none =>
    have own : k.log = path := Option.some.inj log
    simp only [query, own]
  | some batch =>
    have own : k.batchLog? batch = some path := log
    simp only [query, own]

theorem query_of_not_isLog (k : Sink) (refused : ¬ IsLog which) (s : Store) (f : Filter) (limit : Int) :
    k.query s f which limit = .ok [] := by
  cases which with
  | none => exact absurd isLog_own refused
  | some batch =>
    have path : k.batchLog? batch = none := if_neg refused
    simp only [query, path]

theorem readBatch_eq {batch : String} (log : k.log? (some batch) = some path) (s : Store) :
    k.readBatch s batch = k.events s path {} := by
  have own : k.batchLog? batch = some path := log
  simp only [readBatch, own]

theorem readBatch_of_not_isBatchName (k : Sink) {batch : String} (refused : isBatchName batch = false)
    (s : Store) : k.readBatch s batch = .ok [] := by
  have path : k.batchLog? batch = none := if_neg (Bool.eq_false_iff.mp refused)
  simp only [readBatch, path]

theorem read_of_isOpen {s : Store} {stored : Stored} (opened : IsOpen s path)
    (file : s.file? path.place = some stored) : s.read path = .ok stored.content := by
  simp only [Store.read, opened.1, file]

theorem exists?_of_isOpen {s : Store} (opened : IsOpen s path) : s.exists? path = .ok true := by
  have free := (Store.refusal?_eq_none_iff.mp opened.1).1
  simp only [Store.exists?, free, Store.has, opened.2, Bool.true_or]

theorem events_eq {s : Store} {stored : Stored} (opened : IsOpen s path)
    (file : s.file? path.place = some stored) (f : Filter) :
    k.events s path f =
      match k.window.tail? stored.content with
      | some part => collect f (splitLines part)
      | none => .error (.window k.window) := by
  simp only [events, exists?_of_isOpen opened, read_of_isOpen opened file, Except.mapError, bind,
    Except.bind, if_true]
  rfl

theorem events_of_absent {s : Store} (absent : s.exists? path = .ok false) (f : Filter) :
    k.events s path f = .ok [] := by
  simp only [events, absent, Except.mapError, bind, Except.bind, Bool.false_eq_true, if_false]
  rfl

theorem events_of_error {s : Store} {e : Store.Error} (failed : s.exists? path = .error e)
    (f : Filter) : k.events s path f = .error (.file e) := by
  simp only [events, failed, Except.mapError, bind, Except.bind]

end Sink

/-! ### The way to a project -/

/-- The sink is one of the project. The way to it leads through folders that are there, and those that
the project stands in. -/
structure Serves (k : Sink) (s : Store) (home : Place) : Prop where
  place : k.project.place = home
  way : ∀ place ∈ k.project.through, place <+: home ∨ s.isFolder place = true

/-- A path without steps upwards leads straight to its project. -/
theorem serves_of_straight {k : Sink} {s : Store} (straight : ".." ∉ k.project.parts) :
    Serves k s k.project.place :=
  ⟨rfl, fun _ member => .inl (Path.prefix_of_mem_through straight member)⟩

namespace Serves

variable {k : Sink} {s after : Store} {path : Path} (serves : Serves k s home)
include serves

theorem mono (kept : ∀ place, s.isFolder place = true → after.isFolder place = true) :
    Serves k after home :=
  ⟨serves.place, fun place member => (serves.way place member).imp_right (kept place)⟩

theorem place_of_log? (isLog : IsLog which) (log : k.log? which = some path) :
    path.place = logPlace home which :=
  serves.place ▸ Sink.place_of_log? isLog log

theorem mem_through (isLog : IsLog which) (log : k.log? which = some path) {place : Place}
    (member : place ∈ path.through) :
    place <+: (logPlace home which).dropLast ∨ s.isFolder place = true := by
  rcases Sink.mem_through_of_log? isLog log member with way | inner
  · refine (serves.way place way).imp_left fun above => above.trans ?_
    cases which <;> simp [logPlace, innerFolder, List.dropLast_append_of_ne_nil]
  · exact .inl (serves.place ▸ inner)

/-- All of the way to the logs of batches are folders once their folder is there. -/
theorem isFolder_visited_iff (tree : s.IsTree) :
    (∀ place ∈ k.batchFolder.visited, s.isFolder place = true) ↔
      s.isFolder (innerFolder home) = true := by
  have inner : k.batchFolder.place = innerFolder home := by
    rw [Sink.place_batchFolder, serves.place]
  refine ⟨fun all => inner ▸ all _ (Path.place_mem_visited _), fun there place member => ?_⟩
  have above {other : Place} (higher : other <+: home) : s.isFolder other = true :=
    tree.isFolder_of_prefix there (higher.trans (List.prefix_append _ _))
  rw [Sink.visited_batchFolder, serves.place] at member
  rcases List.mem_append.mp member with way | last
  · exact (serves.way place way).elim above id
  · simp only [List.mem_cons, List.not_mem_nil, or_false] at last
    obtain rfl | rfl | rfl := last
    · exact above (List.prefix_refl _)
    · exact tree.isFolder_of_prefix there (by simp [innerFolder])
    · exact there

end Serves

/-! ### What the logs hold -/

/-- What the logs of a project hold. Files and folders are in no way of one another. -/
structure Ledger (s : Store) (home : Place) (text : Option String → Bytes) : Prop where
  tree : s.IsTree
  clear : s.IsClear (innerFolder home)
  free : ∀ which, IsLog which → s.isFolder (logPlace home which) = false
  kept : ∀ which, IsLog which → s.content (logPlace home which) = text which

namespace Ledger

variable {s : Store} {text : Option String → Bytes}

theorem congr (ledger : Ledger s home text) {text' : Option String → Bytes}
    (same : ∀ which, IsLog which → text which = text' which) : Ledger s home text' where
  tree := ledger.tree
  clear := ledger.clear
  free := ledger.free
  kept which isLog := (ledger.kept which isLog).trans (same which isLog)

section

variable (ledger : Ledger s home text) {k : Sink} (serves : Serves k s home) (isLog : IsLog which)
  {path : Path} (log : k.log? which = some path)
include ledger serves isLog log

/-- No file is on the way to a log, and no log is on the way to one. -/
theorem way_free {place : Place} (member : place ∈ path.through) :
    s.isFile place = false ∧ ∀ other, IsLog other → place ≠ logPlace home other := by
  rcases serves.mem_through isLog log member with above | there
  · have inner := above.trans (prefix_of_dropLast_logPlace home which)
    exact ⟨ledger.clear place inner, fun other _ same => not_logPlace_prefix (same ▸ inner)⟩
  · refine ⟨ledger.tree.apart place there, fun other isLog' same => ?_⟩
    exact Bool.false_ne_true ((ledger.free other isLog').symm.trans (same ▸ there))

/-- Folders on the way to a log do not change what the logs hold. -/
theorem of_grown {made : Store} (grown : Store.Grown s made path.through) :
    Ledger made home text where
  tree := grown.tree ledger.tree
  clear place above := (grown.isFile_eq place).trans (ledger.clear place above)
  free other isLog' := by
    rw [Bool.eq_false_iff]
    intro found
    rcases grown.new _ found with old | way
    · exact Bool.false_ne_true ((ledger.free other isLog').symm.trans old)
    · exact (ledger.way_free serves isLog log way).2 other isLog' rfl
  kept other isLog' := by
    rw [Store.content, grown.file?_eq]
    exact ledger.kept other isLog'

theorem isFolder_of_isFile (there : s.isFile path.place = true) :
    ∀ place ∈ path.through, s.isFolder place = true := by
  have folder := ledger.tree.inside _ (Store.has_of_isFile there)
  rw [serves.place_of_log? isLog log] at folder
  intro place member
  exact (serves.mem_through isLog log member).elim (ledger.tree.isFolder_of_prefix folder) id

variable [Limits]

theorem isOpen (fits : path.fits = true) (there : s.isFile path.place = true) : IsOpen s path := by
  have folders := ledger.isFolder_of_isFile serves isLog log there
  exact ⟨ledger.tree.refusal?_of_isFile (Store.obstacle?_eq_none_iff.mpr ⟨fits, folders⟩) there,
    there⟩

theorem exists?_eq (fits : path.fits = true) : s.exists? path = .ok (s.isFile path.place) := by
  cases there : s.isFile path.place with
  | true => exact Sink.exists?_of_isOpen (ledger.isOpen serves isLog log fits there)
  | false =>
    have free := ledger.free which isLog
    rw [← serves.place_of_log? isLog log] at free
    rw [Store.exists?_of_fits fits, Store.has, there, free, Bool.or_false, Bool.and_false]

/-- A log whose path is too long cannot be looked at, or it is not there. -/
theorem exists?_of_not_fits (long : path.fits = false) :
    s.exists? path = .error (.tooLong path.text) ∨
      s.exists? path = .ok false ∧ s.isFile path.place = false := by
  refine (Store.exists?_of_not_fits long).imp_right fun ⟨absent, place, member, missing⟩ => ?_
  refine ⟨absent, Bool.eq_false_iff.mpr fun there => Bool.false_ne_true (missing.symm.trans ?_)⟩
  exact ledger.isFolder_of_isFile serves isLog log there place member

/-- A log that is longer by some bytes holds these behind what it held, and the others hold what they
did. -/
theorem of_extended {after : Store} {bytes : Bytes} (extended : Extended s after [path] bytes) :
    Ledger after home fun other => text other ++ if other = which then bytes else [] := by
  have place := serves.place_of_log? isLog log
  refine ⟨extended.tree, fun other above => ?_, fun other isLog' => ?_, fun other isLog' => ?_⟩
  -- the only new file is a log, and new folders are on the way to it
  · have apart : other ∉ [path].map Path.place := by
      rw [List.map_singleton, List.mem_singleton, place]
      exact fun same => not_logPlace_prefix (same ▸ above)
    exact (extended.isFile_of_not_mem apart).trans (ledger.clear other above)
  · rw [Bool.eq_false_iff]
    intro found
    rcases (extended.folders _).mp found with old | ⟨_, member, way⟩
    · exact Bool.false_ne_true ((ledger.free other isLog').symm.trans old)
    · rw [List.mem_singleton.mp member] at way
      exact (ledger.way_free serves isLog log way).2 other isLog' rfl
  · by_cases same : other = which
    · rw [if_pos same, same, ← place, extended.added path List.mem_cons_self, place,
        ledger.kept which isLog]
    · have apart : logPlace home other ∉ [path].map Path.place := by
        rw [List.map_singleton, List.mem_singleton, place]
        exact fun equal => same (logPlace_inj.mp equal)
      rw [extended.content_of_not_mem apart, if_neg same, List.append_nil]
      exact ledger.kept other isLog'

/-- An append at a log goes well just if its path fits, and adds to no other log. -/
theorem append (bytes : Bytes) :
    let result := Appender.standard s path bytes
    (result.2 = none ↔ path.fits = true) ∧
      (∀ place, s.isFolder place = true → result.1.isFolder place = true) ∧
      Ledger result.1 home fun other =>
        text other ++ if other = which ∧ path.fits = true then bytes else [] := by
  have named := Sink.isNamed_of_log? isLog log
  have place := serves.place_of_log? isLog log
  have free : s.isFolder path.place = false := place ▸ ledger.free which isLog
  have apart : path.place ∉ path.through := fun way =>
    (ledger.way_free serves isLog log way).2 which isLog place
  have went : (Appender.standard s path bytes).2 = none ↔ path.fits = true := by
    rw [standard_eq_none_iff ledger.tree named]
    exact and_iff_left
      ⟨fun place member => (ledger.way_free serves isLog log member).1, free, apart⟩
  refine ⟨went, ?_⟩
  rcases appends : Appender.standard s path bytes with ⟨after, _ | e⟩
  · have extended := extended_of_standard ledger.tree named appends
    have fits : path.fits = true := went.mp (by rw [appends])
    refine ⟨fun place => extended.kept, ?_⟩
    simpa only [fits, and_true] using ledger.of_extended serves isLog log extended
  · have long : ¬ path.fits = true := fun fits => by
      have none := went.mpr fits
      rw [appends] at none
      cases none
    obtain ⟨made, e', grown, failed⟩ | ⟨_, _, _, done⟩ := standard_cases s path bytes
    · obtain ⟨rfl, -⟩ := Prod.mk.inj (appends.symm.trans failed)
      rw [named.visited_parent] at grown
      refine ⟨grown.kept, (ledger.of_grown serves isLog log grown).congr fun other _ => ?_⟩
      rw [if_neg fun both => long both.2, List.append_nil]
    · cases appends.symm.trans done

end

end Ledger

end Reckon.Log
