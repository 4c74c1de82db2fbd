import Mathlib
import Reckon.Proofs.History
import Reckon.Proofs.Recording

/-!
The order of batches. Every write makes its batch the most recent one, whatever was written before,
and leaves the others in their order; so the batches of a project are listed by the last write of
each, the latest first, and no batch is listed twice.
-/

namespace Reckon

/-! ### Entries -/

namespace Entries

variable {κ ι α β : Type} [DecidableEq κ]

/-- Where only one key is renamed to a name, setting its entry sets that of the name. -/
theorem filterMap_set [DecidableEq ι] (rename : κ → Option ι) (read : α → β) {key : κ} {name : ι}
    (only : ∀ other, rename other = some name ↔ other = key) (entry : α) (entries : List (κ × α)) :
    (set key entry entries).filterMap (fun e => (rename e.1).map (·, read e.2)) =
      set name (read entry) (entries.filterMap fun e => (rename e.1).map (·, read e.2)) := by
  have renamed := (only key).mpr rfl
  induction entries with
  | nil => simp [set, renamed]
  | cons first rest ih =>
    obtain ⟨other, old⟩ := first
    by_cases same : other = key
    · subst same
      simp [set, renamed]
    · rw [set, if_neg same, List.filterMap_cons, List.filterMap_cons, ih]
      cases found : rename other with
      | none => rfl
      | some another =>
        have apart : another ≠ name := by
          rintro rfl
          exact same ((only other).mp found)
        simp [set, apart]

theorem filterMap_set_of_none (rename : κ → Option ι) (read : α → β) {key : κ}
    (unnamed : rename key = none) (entry : α) (entries : List (κ × α)) :
    (set key entry entries).filterMap (fun e => (rename e.1).map (·, read e.2)) =
      entries.filterMap fun e => (rename e.1).map (·, read e.2) := by
  induction entries with
  | nil => simp [set, unnamed]
  | cons first rest ih =>
    obtain ⟨other, old⟩ := first
    by_cases same : other = key
    · subst same
      simp [set, unnamed]
    · rw [set, if_neg same, List.filterMap_cons, List.filterMap_cons, ih]

theorem perm_set {key : κ} {entry : α} {entries : List (κ × α)}
    (distinct : (entries.map (·.1)).Nodup) :
    (set key entry entries).Perm ((key, entry) :: entries.filter (·.1 ≠ key)) := by
  induction entries with
  | nil => exact .refl _
  | cons first rest ih =>
    obtain ⟨other, old⟩ := first
    rw [List.map_cons, List.nodup_cons] at distinct
    by_cases same : other = key
    · subst same
      have apart : rest.filter (·.1 ≠ other) = rest := by
        rw [List.filter_eq_self]
        intro e member
        have different : e.1 ≠ other := fun same =>
          distinct.1 (List.mem_map.mpr ⟨e, member, same⟩)
        simpa using different
      rw [set, if_pos rfl, List.filter_cons_of_neg (by simp), apart]
    · rw [set, if_neg same, List.filter_cons_of_pos (by simpa using same)]
      exact ((ih distinct.2).cons _).trans (.swap _ _ _)

end Entries

namespace Log

open Store (Place Path)
open Text (Bytes)

/-! ### The most recent first -/

def recent (items : List (String × Nat)) : List (String × Nat) :=
  items.foldl (fun found item => Sink.insertByStamp item found) []

section

variable {item : String × Nat} {items : List (String × Nat)}

theorem perm_insertByStamp (item : String × Nat) (items : List (String × Nat)) :
    (Sink.insertByStamp item items).Perm (item :: items) := by
  induction items with
  | nil => exact .refl _
  | cons other rest ih =>
    rw [Sink.insertByStamp]
    split
    · exact .refl _
    · exact (ih.cons other).trans (.swap item other rest)

theorem pairwise_insertByStamp (ordered : items.Pairwise fun a b => b.2 ≤ a.2) :
    (Sink.insertByStamp item items).Pairwise fun a b => b.2 ≤ a.2 := by
  induction items with
  | nil => exact List.pairwise_singleton _ _
  | cons other rest ih =>
    obtain ⟨first, others⟩ := List.pairwise_cons.mp ordered
    rw [Sink.insertByStamp]
    split
    case isTrue later =>
      refine List.pairwise_cons.mpr ⟨fun earlier member => ?_, ordered⟩
      rcases List.mem_cons.mp member with rfl | inside
      · exact later.le
      · exact (first earlier inside).trans later.le
    case isFalse earlier =>
      refine List.pairwise_cons.mpr ⟨fun another member => ?_, ih others⟩
      rcases List.mem_cons.mp ((perm_insertByStamp item rest).subset member) with rfl | inside
      · exact Nat.le_of_not_lt earlier
      · exact first another inside

theorem recent_concat (items : List (String × Nat)) (item : String × Nat) :
    recent (items ++ [item]) = Sink.insertByStamp item (recent items) := by
  rw [recent, List.foldl_append]
  rfl

theorem perm_recent (items : List (String × Nat)) : (recent items).Perm items := by
  induction items using List.reverseRecOn with
  | nil => exact .refl _
  | append_singleton items item ih =>
    rw [recent_concat]
    exact (perm_insertByStamp item _).trans
      ((ih.cons item).trans (List.perm_append_singleton item items).symm)

theorem pairwise_recent (items : List (String × Nat)) :
    (recent items).Pairwise fun a b => b.2 ≤ a.2 := by
  induction items using List.reverseRecOn with
  | nil => exact .nil
  | append_singleton items item ih =>
    rw [recent_concat]
    exact pairwise_insertByStamp ih

/-- Stamps that differ tell the order. -/
theorem eq_of_stamps {others : List (String × Nat)} (same : others.Perm items)
    (ordered : others.Pairwise fun a b => b.2 ≤ a.2)
    (strict : items.Pairwise fun a b => b.2 < a.2) : others = items := by
  have distinct : (items.map (·.2)).Nodup :=
    List.pairwise_map.mpr (strict.imp fun later => later.ne')
  refine List.Perm.eq_of_pairwise ?_ ordered (strict.imp fun later => later.le) same
  intro a b left right earlier later
  exact List.inj_on_of_nodup_map distinct (same.subset left) right (later.antisymm earlier)

end

/-! ### Names of logs -/

theorem batchOfFile?_eq_some_iff {name batch : String} (usable : isBatchName batch = true) :
    Sink.batchOfFile? name = some batch ↔ name = batch ++ Sink.batchSuffix := by
  have ends_iff : name.endsWith Sink.batchSuffix = true ↔ Sink.batchSuffix.toList <:+ name.toList := by
    rw [String.endsWith_eq_endsWith_toSlice, String.Slice.endsWith_string_iff, String.copy_toSlice]
  have stem (stem : String) :
      String.ofList ((stem ++ Sink.batchSuffix).toList.take
        ((stem ++ Sink.batchSuffix).length - Sink.batchSuffix.length)) = stem := by
    rw [String.length_append, Nat.add_sub_cancel, String.toList_append,
      List.take_left' String.length_toList, String.ofList_toList]
  constructor
  · intro found
    unfold Sink.batchOfFile? at found
    split at found
    case isFalse => cases found
    case isTrue ends =>
      split at found
      case isTrue same =>
        cases found
        exact absurd usable (by rw [same]; decide)
      case isFalse =>
        obtain ⟨first, same⟩ := ends_iff.mp ends
        obtain rfl : String.ofList first ++ Sink.batchSuffix = name := by
          rw [← String.toList_inj, ← same, String.toList_append, String.toList_ofList]
        rw [stem, Option.some.injEq] at found
        rw [found]
  · rintro rfl
    have ends := ends_iff.mpr ⟨batch.toList, (String.toList_append).symm⟩
    have filled : batch ++ Sink.batchSuffix ≠ Sink.batchSuffix := by
      intro same
      rw [String.append_eq_right_iff] at same
      exact absurd usable (by rw [same]; decide)
    rw [Sink.batchOfFile?, if_pos ends, if_neg filled, stem]

variable {home place : Place} {s after : Store} {batch : String} {names : List String}
  {items : List (String × Nat)}

def batchAt? (home place : Place) : Option String :=
  if place.dropLast = innerFolder home then place.getLast?.bind Sink.batchOfFile? else none

theorem batchAt?_eq_some_iff (usable : isBatchName batch = true) :
    batchAt? home place = some batch ↔ place = logPlace home (some batch) := by
  constructor
  · intro found
    unfold batchAt? at found
    split at found
    case isFalse => cases found
    case isTrue folder =>
      obtain ⟨name, last, same⟩ := Option.bind_eq_some_iff.mp found
      rw [← List.dropLast_append_getLast? name last, folder,
        (batchOfFile?_eq_some_iff usable).mp same, logPlace]
  · rintro rfl
    rw [batchAt?, logPlace, List.dropLast_concat, if_pos rfl, List.getLast?_concat]
    exact (batchOfFile?_eq_some_iff usable).mpr rfl

theorem batchAt?_own : batchAt? home (logPlace home none) = none := by
  simp [batchAt?, logPlace, innerFolder, List.dropLast_append_of_ne_nil]

/-! ### Stamps of logs -/

def logStamps (s : Store) (home : Place) : List (String × Nat) :=
  s.files.filterMap fun e => (batchAt? home e.1).map (·, e.2.stamp)

theorem filterMap_filesIn (s : Store) (home : Place) :
    (s.filesIn (innerFolder home)).filterMap (fun f => (Sink.batchOfFile? f.1).map (·, f.2)) =
      logStamps s home := by
  rw [Store.filesIn, List.filterMap_filterMap, logStamps]
  refine List.filterMap_congr fun e _ => ?_
  obtain ⟨place, stored⟩ := e
  dsimp only
  cases last : place.getLast? with
  | none => simp [batchAt?, last]
  | some name =>
    by_cases folder : place.dropLast = innerFolder home <;> simp [batchAt?, last, folder]

theorem logStamps_put_batch (usable : isBatchName batch = true) (bytes : Bytes) :
    logStamps (s.put (logPlace home (some batch)) bytes) home =
      Entries.set batch s.clock (logStamps s home) :=
  Entries.filterMap_set (batchAt? home) Stored.stamp (fun _ => batchAt?_eq_some_iff usable) _ s.files

theorem logStamps_put_own (bytes : Bytes) :
    logStamps (s.put (logPlace home none) bytes) home = logStamps s home :=
  Entries.filterMap_set_of_none (batchAt? home) Stored.stamp batchAt?_own _ s.files

/-- The batches that have a log and the stamps of their logs, the latest first. No stamp is given
twice, and later ones are to come. -/
structure Stamped (s : Store) (home : Place) (items : List (String × Nat)) : Prop where
  same : (logStamps s home).Perm items
  strict : items.Pairwise fun a b => b.2 < a.2
  past : ∀ item ∈ items, item.2 < s.clock
  distinct : (items.map (·.1)).Nodup

namespace Stamped

variable (stamped : Stamped s home items)
include stamped

theorem recent_eq :
    (recent (s.filesIn (innerFolder home))).filterMap (fun f => Sink.batchOfFile? f.1) =
      items.map (·.1) := by
  have listed : (recent (s.filesIn (innerFolder home))).filterMap (fun f => Sink.batchOfFile? f.1) =
      ((recent (s.filesIn (innerFolder home))).filterMap fun f =>
        (Sink.batchOfFile? f.1).map (·, f.2)).map (·.1) := by
    rw [List.map_filterMap]
    simp only [Option.map_map, Function.comp_def, Option.map_id']
  have same := ((perm_recent (s.filesIn (innerFolder home))).filterMap fun f =>
    (Sink.batchOfFile? f.1).map (·, f.2)).trans (filterMap_filesIn s home ▸ stamped.same)
  rw [listed, eq_of_stamps same ?_ stamped.strict]
  refine (pairwise_recent _).filterMap _ fun a b later found named other further => ?_
  obtain ⟨-, -, rfl⟩ := Option.map_eq_some_iff.mp named
  obtain ⟨-, -, rfl⟩ := Option.map_eq_some_iff.mp further
  exact later

theorem put_own (bytes : Bytes) : Stamped (s.put (logPlace home none) bytes) home items where
  same := by
    rw [logStamps_put_own]
    exact stamped.same
  strict := stamped.strict
  past item member := (stamped.past item member).trans (Nat.lt_succ_self _)
  distinct := stamped.distinct

theorem put_batch (usable : isBatchName batch = true) (bytes : Bytes) :
    Stamped (s.put (logPlace home (some batch)) bytes) home
      ((batch, s.clock) :: items.filter (·.1 ≠ batch)) where
  same := by
    have distinct := (stamped.same.map (·.1)).nodup_iff.mpr stamped.distinct
    rw [logStamps_put_batch usable]
    exact (Entries.perm_set distinct).trans ((stamped.same.filter _).cons _)
  strict := List.pairwise_cons.mpr
    ⟨fun item member => stamped.past item (List.mem_of_mem_filter member), stamped.strict.filter _⟩
  past := by
    refine List.forall_mem_cons.mpr ⟨Nat.lt_succ_self _, fun item member => ?_⟩
    exact (stamped.past item (List.mem_of_mem_filter member)).trans (Nat.lt_succ_self _)
  distinct := by
    have others := stamped.distinct.filter (· ≠ batch)
    rw [List.filter_map] at others
    refine List.nodup_cons.mpr ⟨fun member => ?_, others⟩
    obtain ⟨item, kept, same⟩ := List.mem_map.mp member
    exact of_decide_eq_true (List.mem_filter.mp kept).2 same

end Stamped

/-! ### Batches as they are listed -/

/-- A write to the log of a batch makes the batch the first one. -/
def touch (which : Option String) (names : List String) : List String :=
  match which with
  | some batch => batch :: names.filter (· ≠ batch)
  | none => names

/-- Where there is no folder of the batches there is no log of one. -/
theorem logStamps_of_not_isFolder (tree : s.IsTree) (missing : s.isFolder (innerFolder home) = false) :
    logStamps s home = [] := by
  refine List.filterMap_eq_nil_iff.mpr fun e member => ?_
  have outside : e.1.dropLast ≠ innerFolder home := by
    intro inside
    have file : s.isFile e.1 = true :=
      List.lookup_isSome_iff.mpr ⟨e, member, beq_self_eq_true e.1⟩
    exact Bool.false_ne_true (missing.symm.trans (inside ▸ tree.inside _ (Store.has_of_isFile file)))
  rw [batchAt?, if_neg outside]
  rfl

section

variable [Limits]

theorem batches_eq (tree : s.IsTree) {reader : Sink} (there : Serves reader s home)
    (short : reader.fits none = true) :
    reader.batches s =
      .ok ((recent (s.filesIn (innerFolder home))).filterMap fun f => Sink.batchOfFile? f.1) := by
  have place : reader.batchFolder.place = innerFolder home := by
    rw [Sink.place_batchFolder, there.place]
  rw [Sink.batches, Store.exists?_of_fits (Sink.fits_batchFolder short), place]
  cases seen : reader.batchFolder.through.all s.isFolder && s.has (innerFolder home) with
  | true => rfl
  | false =>
    have missing : s.isFolder (innerFolder home) = false := by
      rw [Bool.eq_false_iff]
      intro found
      have all := (there.isFolder_visited_iff tree).mpr found
      have way : reader.batchFolder.through.all s.isFolder = true :=
        List.all_eq_true.mpr fun place member => all place (List.mem_append_left _ member)
      rw [way, Store.has_of_isFolder found] at seen
      cases seen
    have none := logStamps_of_not_isFolder tree missing
    rw [← filterMap_filesIn, List.filterMap_eq_nil_iff] at none
    refine congrArg Except.ok (List.filterMap_eq_nil_iff.mpr fun f member => ?_).symm
    exact Option.map_eq_none_iff.mp (none f ((perm_recent _).mem_iff.mp member))

/-- The names are those of the batches, and writes can go on. The reader finds its way. -/
structure Listed (reader : Sink) (s : Store) (home : Place) (names : List String) : Prop where
  tree : s.IsTree
  serves : Serves reader s home
  stamped : ∃ items, Stamped s home items ∧ items.map (·.1) = names

variable {reader : Sink}

/-- A project that lists no batch has no log of one. -/
theorem listed_nil (tree : s.IsTree) (there : Serves reader s home) (short : reader.fits none = true)
    (none : reader.batches s = .ok []) : Listed reader s home [] := by
  rw [batches_eq tree there short] at none
  have unnamed : ∀ f ∈ s.filesIn (innerFolder home), Sink.batchOfFile? f.1 = .none :=
    fun f member => List.filterMap_eq_nil_iff.mp (Except.ok.inj none) f
      ((perm_recent _).mem_iff.mpr member)
  have empty : logStamps s home = [] := by
    rw [← filterMap_filesIn, List.filterMap_eq_nil_iff]
    intro f member
    rw [unnamed f member]
    rfl
  exact ⟨tree, there, [], ⟨empty ▸ .refl _, .nil, by simp, by simp⟩, rfl⟩

namespace Listed

variable (listed : Listed reader s home names)
include listed

theorem batches (short : reader.fits none = true) : reader.batches s = .ok names := by
  obtain ⟨items, stamped, rfl⟩ := listed.stamped
  rw [batches_eq listed.tree listed.serves short, stamped.recent_eq]

/-- An append touches the log that it is made to, if it goes well. -/
theorem standard {which : Option String} (isLog : IsLog which) {path : Path}
    (there : path.place = logPlace home which) (bytes : Bytes) :
    let result := Appender.standard s path bytes
    Listed reader result.1 home (if result.2.isNone then touch which names else names) := by
  obtain ⟨tree, kept⟩ := tree_of_standard listed.tree path bytes
  refine ⟨tree, listed.serves.mono kept, ?_⟩
  obtain ⟨items, stamped, rfl⟩ := listed.stamped
  have grown {made : Store} {places : List Place} (grown : Store.Grown s made places) :
      Stamped made home items := by
    have same : logStamps made home = logStamps s home := by rw [logStamps, grown.files, logStamps]
    exact ⟨same ▸ stamped.same, stamped.strict, grown.clock.symm ▸ stamped.past, stamped.distinct⟩
  rcases standard_cases s path bytes with ⟨made, e, makes, failed⟩ | ⟨made, makes, -, done⟩
  · rw [failed]
    exact ⟨items, grown makes, rfl⟩
  · have more := Store.grown_makeFolder s path.parent
    rw [makes] at more
    rw [done, there]
    cases which with
    | none => exact ⟨items, (grown more).put_own _, rfl⟩
    | some batch =>
      refine ⟨_, (grown more).put_batch isLog _, ?_⟩
      rw [List.map_cons, touch, List.filter_map]
      rfl

/-- An event touches the log of its batch, if all goes well. The project's own log is no log of a
batch. -/
theorem appendAll {k : Sink} (here : k.project.place = home) (batch : Option String) (bytes : Bytes) :
    let result := Sink.appendAll .standard bytes s (k.targets batch)
    Listed reader result.1 home
      (if result.2.isNone then touch (batch.filter isBatchName) names else names) := by
  have own : k.log.place = logPlace home none := here ▸ Sink.place_of_log? isLog_own rfl
  have first := listed.standard isLog_own own bytes
  unfold Sink.targets Sink.appendAll
  cases appends : Appender.standard s k.log bytes with | mk mid failure
  rw [appends] at first
  cases failure with
  | some e => exact first
  | none =>
    cases batch with
    | none => exact first
    | some batch =>
      by_cases usable : isBatchName batch = true
      · have isLog := isLog_of_isBatchName usable
        obtain ⟨folder, name, log, -⟩ := k.log?_eq isLog
        have target : k.batchLog? batch = some (folder.child name) := log
        have second := Listed.standard first isLog (here ▸ Sink.place_of_log? isLog log) bytes
        simp only [target, Option.toList_some, Sink.appendAll]
        rw [Option.filter_some_pos usable]
        cases appends' : Appender.standard mid (folder.child name) bytes with | mk last failure
        rw [appends'] at second
        cases failure <;> exact second
      · have target : k.batchLog? batch = none := if_neg usable
        simp only [target, Option.toList_none, Sink.appendAll]
        rw [Option.filter_some_neg (Bool.eq_false_iff.mpr usable)]
        exact first

theorem write {k : Sink} (here : k.project.place = home) (e : Event) (batch : Option String) :
    let result := k.write .standard s e batch
    Listed reader result.1 home
      (if result.2.isNone then touch (batch.filter isBatchName) names else names) := by
  unfold Sink.write
  cases e.printed with
  | error failure => exact listed
  | ok fields =>
    have appended := listed.appendAll here batch (Sink.line fields)
    simpa only [Option.isNone_map] using appended

end Listed

end

/-! ### The last write of a batch -/

def usedAt (written : List Call) (index : Nat) : Option String :=
  written[index]?.bind (·.batch)

structure IsLast (written : List Call) (batch : String) (index : Nat) : Prop where
  used : usedAt written index = some batch
  last : ∀ later, usedAt written later = some batch → later ≤ index

/-- The names are those of all batches that were used, each once, and each before those whose last
call came earlier. -/
structure ByRecency (written : List Call) (names : List String) : Prop where
  nodup : names.Nodup
  mem_iff : ∀ batch, batch ∈ names ↔
    isBatchName batch = true ∧ ∃ c ∈ written, c.batch = some batch
  latest_first : names.Pairwise fun batch other =>
    ∃ latest earlier, IsLast written batch latest ∧ IsLast written other earlier ∧ earlier < latest

section

variable {written : List Call} {c : Call} {index : Nat}

theorem usedAt_concat : usedAt (written ++ [c]) index =
    if index = written.length then c.batch else usedAt written index := by
  unfold usedAt
  split
  case isTrue last => rw [last, List.getElem?_concat_length, Option.bind_some]
  case isFalse other =>
    rcases Nat.lt_or_ge index written.length with inside | beyond
    · rw [List.getElem?_append_left inside]
    · rw [List.getElem?_eq_none beyond, List.getElem?_eq_none (by simp; omega)]

theorem lt_of_usedAt (used : usedAt written index = some batch) : index < written.length := by
  obtain ⟨c, found, -⟩ := Option.bind_eq_some_iff.mp used
  exact (List.getElem?_eq_some_iff.mp found).1

theorem isLast_concat_self (written : List Call) (used : c.batch = some batch) :
    IsLast (written ++ [c]) batch written.length where
  used := by rw [usedAt_concat, if_pos rfl, used]
  last later found := by
    have inside := lt_of_usedAt found
    rw [List.length_append, List.length_singleton] at inside
    omega

theorem IsLast.concat (last : IsLast written batch index) (unused : c.batch ≠ some batch) :
    IsLast (written ++ [c]) batch index where
  used := by rw [usedAt_concat, if_neg (lt_of_usedAt last.used).ne, last.used]
  last later found := by
    rw [usedAt_concat] at found
    split at found
    case isTrue => exact absurd found unused
    case isFalse => exact last.last later found

theorem IsLast.eq {other : Nat} (last : IsLast written batch index) (last' : IsLast written batch other) :
    index = other :=
  (last'.last _ last.used).antisymm (last.last _ last'.used)

theorem exists_isLast (used : ∃ c ∈ written, c.batch = some batch) :
    ∃ index, IsLast written batch index := by
  induction written using List.reverseRecOn with
  | nil =>
    obtain ⟨c, member, -⟩ := used
    cases member
  | append_singleton written c ih =>
    by_cases same : c.batch = some batch
    · exact ⟨_, isLast_concat_self _ same⟩
    · have earlier : ∃ c ∈ written, c.batch = some batch := by
        obtain ⟨d, member, found⟩ := used
        rcases List.mem_append.mp member with inside | last
        · exact ⟨d, inside, found⟩
        · exact absurd (List.mem_singleton.mp last ▸ found) same
      obtain ⟨index, last⟩ := ih earlier
      exact ⟨index, last.concat same⟩

namespace ByRecency

theorem empty : ByRecency [] [] where
  nodup := .nil
  mem_iff := by simp
  latest_first := .nil

theorem unique {others : List String} (ordered : ByRecency written names)
    (ordered' : ByRecency written others) : names = others := by
  have same : names.Perm others := (List.perm_ext_iff_of_nodup ordered.nodup ordered'.nodup).mpr
    fun batch => (ordered.mem_iff batch).trans (ordered'.mem_iff batch).symm
  refine same.eq_of_pairwise ?_ ordered.latest_first ordered'.latest_first
  rintro a b - - ⟨latest, earlier, lastA, lastB, before⟩ ⟨latest', earlier', lastB', lastA', before'⟩
  have first := lastA.eq lastA'
  have second := lastB.eq lastB'
  omega

/-- One more call brings its batch to the front, and leaves the order of the others. -/
theorem concat (ordered : ByRecency written names) (c : Call) :
    ByRecency (written ++ [c]) (touch (c.batch.filter isBatchName) names) := by
  cases which : c.batch.filter isBatchName with
  | none =>
    have unused (batch : String) (usable : isBatchName batch = true) : c.batch ≠ some batch := by
      intro used
      rw [used, Option.filter_some_pos usable] at which
      cases which
    refine ⟨ordered.nodup, fun batch => ?_, ?_⟩
    · rw [touch, ordered.mem_iff]
      refine and_congr_right fun usable => ?_
      simp [or_and_right, exists_or, unused batch usable]
    · refine ordered.latest_first.imp_of_mem fun {batch other} member member' found => ?_
      obtain ⟨latest, earlier, last, last', before⟩ := found
      have usable := ((ordered.mem_iff batch).mp member).1
      have usable' := ((ordered.mem_iff other).mp member').1
      exact ⟨latest, earlier, last.concat (unused _ usable), last'.concat (unused _ usable'), before⟩
  | some batch =>
    obtain ⟨used, usable⟩ := Option.filter_eq_some_iff.mp which
    have apart {other : String} (different : other ≠ batch) : c.batch ≠ some other := by
      rw [used]
      simpa using different.symm
    have kept {other : String} (member : other ∈ names.filter (· ≠ batch)) :
        other ∈ names ∧ other ≠ batch := by
      simpa using member
    refine ⟨?_, fun other => ?_, List.pairwise_cons.mpr ⟨fun other member => ?_, ?_⟩⟩
    · exact List.nodup_cons.mpr ⟨by simp, ordered.nodup.filter _⟩
    · by_cases same : other = batch
      · simp [touch, same, usable, used]
      · simp [touch, same, ordered.mem_iff, or_and_right, exists_or, apart same]
    · obtain ⟨inside, different⟩ := kept member
      obtain ⟨earlier, last⟩ := exists_isLast ((ordered.mem_iff other).mp inside).2
      exact ⟨_, earlier, isLast_concat_self _ used, last.concat (apart different),
        lt_of_usedAt last.used⟩
    · refine (ordered.latest_first.filter _).imp_of_mem fun {first second} member member' found => ?_
      obtain ⟨latest, earlier, last, last', before⟩ := found
      exact ⟨latest, earlier, last.concat (apart (kept member).2), last'.concat (apart (kept member').2),
        before⟩

end ByRecency

end

/-! ### Calls in a row -/

section

variable [Limits]

/-- Batches are listed in the order of their last calls, whatever was called before. -/
theorem Listed.writeAll {reader : Sink} {before calls : List Call}
    (listed : Listed reader s home names) (ordered : ByRecency before names)
    (here : ∀ c ∈ calls, c.sink.project.place = home) :
    ∃ listing, Listed reader (writeAll s calls).1 home listing ∧
      ByRecency (before ++ (writeAll s calls).2) listing := by
  -- a call that went well goes over to those before, and one that failed leaves the order
  induction calls generalizing s before names with
  | nil => exact ⟨names, listed, by rwa [Log.writeAll, List.append_nil]⟩
  | cons c rest ih =>
    obtain ⟨first, others⟩ := List.forall_mem_cons.mp here
    have later := listed.write first c.event c.batch
    cases writes : c.sink.write .standard s c.event c.batch with | mk after failure
    rw [writes] at later
    cases failure with
    | none =>
      obtain ⟨listing, last, order⟩ := ih later (ordered.concat c) others
      rw [List.append_assoc, List.singleton_append] at order
      exact ⟨listing, by simpa only [Log.writeAll, writes] using last,
        by simpa only [Log.writeAll, writes] using order⟩
    | some e =>
      obtain ⟨listing, last, order⟩ := ih later ordered others
      exact ⟨listing, by simpa only [Log.writeAll, writes] using last,
        by simpa only [Log.writeAll, writes] using order⟩

/-- A project that listed no batch lists, after any calls to write through any of its sinks, the
batches of the calls that went well, and does so by their last calls. If nothing is in the way of the
logs, these are the calls whose events can be printed, and whose logs have no paths that are too
long. -/
theorem batches_eq_iff_byRecency {calls written : List Call} {reader : Sink}
    (run : writeAll s calls = (after, written)) (tree : s.IsTree)
    (here : ∀ c ∈ calls, c.sink.project.place = home) (there : Serves reader s home)
    (short : reader.fits none = true) (fresh : reader.batches s = .ok []) :
    (Unlogged s home → (∀ c ∈ calls, Serves c.sink s home) →
      written = (printed calls).filter Call.fits) ∧
      ∀ names, reader.batches after = .ok names ↔ ByRecency written names := by
  obtain ⟨listing, listed, ordered⟩ :=
    (listed_nil tree there short fresh).writeAll ByRecency.empty here
  rw [run, List.nil_append] at ordered
  rw [run] at listed
  refine ⟨fun unlogged serves => ?_, fun names => ?_⟩
  · have went := (unlogged.ledger.writeAll serves).1
    rwa [run] at went
  · rw [listed.batches short, Except.ok.injEq]
    exact ⟨fun same => same ▸ ordered, ordered.unique⟩

end

section

attribute [local instance] Limits.standard

def callOf (batch : String) : Call :=
  { completedCall with batch := some batch }

/-- The batch that is used again comes first, and a refused name is no batch. -/
theorem batches_eq_iff_byRecency_repeated :
    let reader : Sink := ⟨⟨false, ["p"]⟩, .standard⟩
    reader.batches (writeAll {} (["a", "b", "a", "../c"].map callOf)).1 = .ok ["a", "b"] := by
  intro reader
  have here : ∀ c ∈ ["a", "b", "a", "../c"].map callOf, c.sink.project.place = ["p"] := by decide
  have serves : ∀ c ∈ ["a", "b", "a", "../c"].map callOf, Serves c.sink {} ["p"] := by
    rw [List.forall_mem_map]
    exact fun _ _ => serves_completedCall {}
  have kept : (printed (["a", "b", "a", "../c"].map callOf)).filter Call.fits =
      ["a", "b", "a", "../c"].map callOf := by
    rw [printed, List.filter_filter, List.filter_eq_self]
    decide +kernel
  have there : Serves reader {} ["p"] := serves_of_straight (by decide)
  have empty := unlogged_empty ["p"]
  obtain ⟨written, listed⟩ :=
    batches_eq_iff_byRecency rfl empty.tree here there (by decide) rfl
  have used (batch : String) : (∃ c ∈ ["a", "b", "a", "../c"].map callOf, c.batch = some batch) ↔
      batch ∈ ["a", "b", "a", "../c"] := by
    simp [callOf, eq_comm]
  rw [listed, written empty serves, kept]
  refine ⟨by decide, fun batch => ?_, List.pairwise_pair.mpr ⟨2, 1, ?_, ?_, by decide⟩⟩
  · rw [used]
    constructor
    · intro member
      simp only [List.mem_cons, List.not_mem_nil, or_false] at member
      rcases member with rfl | rfl <;> exact ⟨by decide, by simp⟩
    · rintro ⟨usable, member⟩
      simp only [List.mem_cons, List.not_mem_nil, or_false] at member
      rcases member with rfl | rfl | rfl | rfl
      · simp
      · simp
      · simp
      · exact absurd usable (by decide)
  · exact (isLast_concat_self [callOf "a", callOf "b"] (c := callOf "a") rfl).concat
      (c := callOf "../c") (by decide)
  · exact ((isLast_concat_self [callOf "a"] (c := callOf "b") rfl).concat
      (c := callOf "a") (by decide)).concat (c := callOf "../c") (by decide)

/-- A batch whose name is too long for a file is not listed, although the name is one of a batch. -/
theorem long_batch_is_not_listed :
    let reader : Sink := ⟨⟨false, ["p"]⟩, .standard⟩
    isBatchName longName = true ∧ longCall.batch = some longName ∧
      reader.batches (writeAll {} [longCall]).1 = .ok [] := by
  intro reader
  have here : ∀ c ∈ [longCall], c.sink.project.place = ["p"] := by decide
  have there : Serves reader {} ["p"] := serves_of_straight (by decide)
  have listed := listed_nil (unlogged_empty ["p"]).tree there (by decide) rfl
  obtain ⟨names, last, ordered⟩ := listed.writeAll ByRecency.empty here
  rw [writeAll_longCall] at ordered
  obtain rfl : names = [] := ordered.unique ByRecency.empty
  exact ⟨isBatchName_longName, rfl, last.batches (by decide)⟩

end

end Log

end Reckon
