import Mathlib.Order.Fin.Basic
import SimpleClaw.Lib.Retention
import SimpleClaw.Lib.Rfc3339
import SimpleClaw.Run.LogRotation

/-!
# What the log shows

Every byte a writer has accepted is in one file: the file of the day it was rotated to, or the
active one.  Nothing is written twice or moved behind something later, and what is lost are whole
daily files, each of which has as many later ones as are to be retained.

* `Archives`: the files a log was rotated into, kept or not, against the directory.
* `LogSound`: the invariant of one log, with the day its writer is at.
* `log_history_kept`: it holds in every state of every run, for both logs at once.
-/

namespace SimpleClaw
namespace Logging

open Retention Transition

variable {Day : Type} {format : DayFormat Day} {fs : FsAnswers}

/-! ## Names -/

/-- The file is the active one of the log, or named like a daily one. -/
def Log.Owns (log : Log) (name : Text) : Prop :=
  name = log.baseName ∨ log.baseName ++ ("." : Text) <+: name

theorem dailyDay_eq_some_iff {log : Log} {name : Text} {day : Day} :
    dailyDay format log name = some day ↔
      ∃ rest, name = log.baseName ++ ("." : Text) ++ rest ∧
        format.parseFromStr rest = some day := by
  rw [dailyDay, Option.bind_eq_some_iff]
  simp only [Text.stripPrefix_eq_some_iff]

theorem dailyDay_datedLogPath (log : Log) (day : Day) :
    dailyDay format log (datedLogPath format log day) = some day :=
  dailyDay_eq_some_iff.mpr ⟨_, rfl, format.parse_format day⟩

theorem dailyDay_baseName (log : Log) : dailyDay format log log.baseName = none := by
  rw [Option.eq_none_iff_forall_ne_some]
  intro day hday
  obtain ⟨rest, hname, -⟩ := dailyDay_eq_some_iff.mp hday
  have hlength := congrArg List.length hname
  simp only [List.length_append] at hlength
  have hdot : ("." : Text).length = 1 := by decide
  omega

theorem datedLogPath_ne_baseName (log : Log) (day : Day) :
    datedLogPath format log day ≠ log.baseName := by
  intro heq
  have hday : dailyDay format log (datedLogPath format log day) = some day :=
    dailyDay_datedLogPath log day
  rw [heq, dailyDay_baseName] at hday
  cases hday

theorem datedLogPath_injective (log : Log) : Function.Injective (datedLogPath format log) := by
  intro day day' heq
  have hday : dailyDay format log (datedLogPath format log day) = some day :=
    dailyDay_datedLogPath log day
  rw [heq, dailyDay_datedLogPath] at hday
  exact (Option.some.inj hday).symm

theorem Log.owns_baseName (log : Log) : log.Owns log.baseName := .inl rfl

theorem Log.owns_of_dailyDay {log : Log} {name : Text} {day : Day}
    (h : dailyDay format log name = some day) : log.Owns name := by
  obtain ⟨rest, hname, -⟩ := dailyDay_eq_some_iff.mp h
  exact .inr ⟨rest, hname.symm⟩

theorem Log.owns_datedLogPath (log : Log) (day : Day) :
    log.Owns (datedLogPath format log day) :=
  Log.owns_of_dailyDay (dailyDay_datedLogPath log day)

/-- The two logs have no file in common. -/
theorem Log.eq_of_owns {log log' : Log} {name : Text} (h : log.Owns name) (h' : log'.Owns name) :
    log = log' := by
  have hbegins : ∀ {log : Log}, log.Owns name → log.baseName <+: name := by
    rintro log (rfl | h)
    · exact List.prefix_refl _
    · exact (List.prefix_append _ _).trans h
  have htake : ∀ {log : Log}, log.Owns name → name.take 9 = log.baseName.take 9 := by
    intro log howns
    obtain ⟨rest, rfl⟩ := hbegins howns
    exact List.take_append_of_le_length (by cases log <;> decide)
  have hsame := (htake h).symm.trans (htake h')
  cases log <;> cases log' <;> first | rfl | exact absurd hsame (by decide)

/-! ## The directory -/

def contentOf (dir : LogDir Day) (name : Text) : Bytes :=
  ((dir.lookup name).map LogFile.content).getD []

/-- Files that are not the log's are as they were. -/
def SameOutside (log : Log) (dir dir' : LogDir Day) : Prop :=
  ∀ name, ¬ log.Owns name → dir'.lookup name = dir.lookup name

theorem SameOutside.refl (log : Log) (dir : LogDir Day) : SameOutside log dir dir :=
  fun _ _ => rfl

theorem SameOutside.trans {log : Log} {dir dir' dir'' : LogDir Day}
    (h : SameOutside log dir dir') (h' : SameOutside log dir' dir'') :
    SameOutside log dir dir'' :=
  fun name hname => (h' name hname).trans (h name hname)

theorem SameOutside.insert {log : Log} (dir : LogDir Day) {name : Text} (h : log.Owns name)
    (file : LogFile Day) : SameOutside log dir (dir.insert name file) := by
  intro other hother
  exact AList.lookup_insert_ne fun heq => hother (heq ▸ h)

theorem SameOutside.erase {log : Log} (dir : LogDir Day) {name : Text} (h : log.Owns name) :
    SameOutside log dir (dir.erase name) := by
  intro other hother
  exact AList.lookup_erase_ne fun heq => hother (heq ▸ h)

theorem mem_iff_lookup {dir : LogDir Day} {name : Text} :
    name ∈ dir ↔ ∃ file, dir.lookup name = some file := by
  rw [← AList.lookup_isSome, Option.isSome_iff_exists]

/-- What is left when some of the names are removed. -/
theorem lookup_foldl_removeFile (names : List Text) (dir : LogDir Day) (name : Text) :
    (names.foldl (removeFile fs) dir).lookup name =
      if name ∈ names ∧ fs.unremovable name = false then none else dir.lookup name := by
  induction names generalizing dir with
  | nil => simp
  | cons first names ih =>
      rw [List.foldl_cons, ih, removeFile]
      by_cases hfirst : fs.unremovable first = true
      · rw [if_pos hfirst]
        by_cases hname : name = first
        · subst hname
          simp [hfirst]
        · simp [hname]
      · rw [if_neg hfirst]
        by_cases hname : name = first
        · subst hname
          simp [hfirst, AList.lookup_erase]
        · rw [AList.lookup_erase_ne hname]
          simp [hname]

theorem mem_openAppend (name : Text) (today : Day) (dir : LogDir Day) :
    name ∈ openAppend name today dir := by
  rw [openAppend]
  split
  · assumption
  · exact (AList.mem_insert _).mpr (.inl rfl)

theorem sameOutside_openAppend (log : Log) (today : Day) (dir : LogDir Day) :
    SameOutside log dir (openAppend log.baseName today dir) := by
  rw [openAppend]
  split
  · exact SameOutside.refl log dir
  · exact SameOutside.insert dir log.owns_baseName _

theorem sameOutside_append (log : Log) (bytes : Bytes) (written : Day) (dir : LogDir Day) :
    SameOutside log dir (LogState.append log bytes written dir) := by
  rw [LogState.append]
  split
  · exact SameOutside.refl log dir
  · exact SameOutside.insert dir log.owns_baseName _

/-! ## Operations that can fail -/

/-- What holds of the directory that a failed call leaves, and of the one it ends with. -/
def FsResult.Ends (failed done : LogDir Day → Prop) : FsResult Day → Prop
  | .error dir => failed dir
  | .ok dir => done dir

theorem FsResult.Ends.mono {failed failed' done done' : LogDir Day → Prop} {r : FsResult Day}
    (h : r.Ends failed done) (hfailed : ∀ dir, failed dir → failed' dir)
    (hdone : ∀ dir, done dir → done' dir) : FsResult.Ends failed' done' r := by
  match r, h with
  | .error dir, h => exact hfailed dir h
  | .ok dir, h => exact hdone dir h

theorem FsResult.Ends.bind {failed done done' : LogDir Day → Prop} {r : FsResult Day}
    {next : LogDir Day → FsResult Day} (h : r.Ends failed done)
    (hnext : ∀ dir, done dir → (next dir).Ends failed done') :
    FsResult.Ends failed done' (Except.bind r next) := by
  match r, h with
  | .error dir, h => exact h
  | .ok dir, h => exact hnext dir h

/-! ## The daily files -/

/-- The days whose file is still there. -/
def keptDays (format : DayFormat Day) (log : Log) (dir : LogDir Day)
    (archive : List (Day × Bytes)) : List Day :=
  (archive.map Prod.fst).filter fun day => datedLogPath format log day ∈ dir

theorem mem_keptDays {log : Log} {dir : LogDir Day} {archive : List (Day × Bytes)} {day : Day} :
    day ∈ keptDays format log dir archive ↔
      day ∈ archive.map Prod.fst ∧ datedLogPath format log day ∈ dir := by
  rw [keptDays, List.mem_filter, decide_eq_true_eq]

theorem mem_readDir {dir : LogDir Day} {name : Text} : name ∈ readDir fs dir ↔ name ∈ dir :=
  (List.perm_insertionSort _ _).mem_iff

theorem nodup_listDailyLogFiles (log : Log) (dir : LogDir Day) :
    (listDailyLogFiles format fs log dir).Nodup := by
  refine List.Nodup.filterMap ?_ ((List.perm_insertionSort _ _).nodup_iff.mpr dir.keys_nodup)
  intro name name' entry hname hname'
  obtain ⟨day, -, rfl⟩ := Option.map_eq_some_iff.mp (Option.mem_def.mp hname)
  obtain ⟨day', -, heq⟩ := Option.map_eq_some_iff.mp (Option.mem_def.mp hname')
  exact (Prod.mk.inj heq).2.symm

/-! ## The files a log was rotated into -/

variable [LinearOrder Day]

/-- The archive: what was rotated to each day, in their order, whether the file is still there or
not.  With the active file it is all that was accepted. -/
structure Archives (format : DayFormat Day) (retain : Nat) (log : Log) (dir : LogDir Day)
    (accepted : Bytes) (archive : List (Day × Bytes)) : Prop where
  sorted : (archive.map Prod.fst).Pairwise (· < ·)
  complete : (archive.map Prod.snd).flatten ++ contentOf dir log.baseName = accepted
  files : ∀ name file day, dir.lookup name = some file → dailyDay format log name = some day →
    name = datedLogPath format log day ∧ (day, file.content) ∈ archive
  lost : Retains retain (archive.map Prod.fst) (keptDays format log dir archive)

section Archives

variable {retain : Nat} {log : Log} {dir dir' : LogDir Day} {accepted : Bytes}
  {archive : List (Day × Bytes)}

theorem Archives.sorted_kept (h : Archives format retain log dir accepted archive) :
    (keptDays format log dir archive).Pairwise (· < ·) :=
  h.sorted.filter _

/-- The daily files that are listed are those of the archive that are kept. -/
theorem Archives.mem_list (h : Archives format retain log dir accepted archive)
    {day : Day} {name : Text} : (day, name) ∈ listDailyLogFiles format fs log dir ↔
      day ∈ keptDays format log dir archive ∧ name = datedLogPath format log day := by
  rw [listDailyLogFiles, List.mem_filterMap]
  constructor
  · rintro ⟨name', hname, hmap⟩
    obtain ⟨day', hday, heq⟩ := Option.map_eq_some_iff.mp hmap
    obtain ⟨rfl, rfl⟩ := Prod.mk.inj heq
    have hdir := mem_readDir.mp hname
    obtain ⟨file, hfile⟩ := mem_iff_lookup.mp hdir
    obtain ⟨rfl, hmem⟩ := h.files name' file day' hfile hday
    exact ⟨mem_keptDays.mpr ⟨List.mem_map_of_mem hmem, hdir⟩, rfl⟩
  · rintro ⟨hkept, rfl⟩
    refine ⟨_, mem_readDir.mpr (mem_keptDays.mp hkept).2, ?_⟩
    rw [dailyDay_datedLogPath]
    rfl

/-- **Sorted, they are in the order of the archive**, however the directory is listed. -/
theorem Archives.sortedDailyLogFiles_eq (h : Archives format retain log dir accepted archive) :
    sortedDailyLogFiles format fs log dir =
      (keptDays format log dir archive).map fun day => (day, datedLogPath format log day) := by
  have hkept := h.sorted_kept
  have hnodup : ((keptDays format log dir archive).map
      fun day => (day, datedLogPath format log day)).Nodup :=
    List.Nodup.map (fun _ _ heq => (Prod.mk.inj heq).1) (hkept.imp fun hlt => ne_of_lt hlt)
  have hperm : (listDailyLogFiles format fs log dir).Perm
      ((keptDays format log dir archive).map fun day => (day, datedLogPath format log day)) := by
    refine (List.perm_ext_iff_of_nodup (nodup_listDailyLogFiles log dir) hnodup).mpr ?_
    rintro ⟨day, name⟩
    rw [h.mem_list, List.mem_map]
    constructor
    · rintro ⟨hday, rfl⟩
      exact ⟨day, hday, rfl⟩
    · rintro ⟨day', hday', heq⟩
      obtain ⟨rfl, rfl⟩ := Prod.mk.inj heq
      exact ⟨hday', rfl⟩
  refine @List.Perm.eq_of_pairwise _ (fun a b : Day × Text => a.1 ≤ b.1) _ _ ?_ ?_ ?_
    ((List.perm_insertionSort _ _).trans hperm)
  · -- files of one day are the same file
    rintro ⟨day, name⟩ ⟨day', name'⟩ ha hb hle hle'
    obtain ⟨-, rfl⟩ := h.mem_list.mp ((List.perm_insertionSort _ _).mem_iff.mp ha)
    obtain ⟨day'', -, heq⟩ := List.mem_map.mp hb
    obtain ⟨rfl, rfl⟩ := Prod.mk.inj heq
    obtain rfl := le_antisymm hle hle'
    rfl
  · have htotal : Std.Total fun a b : Day × Text => a.1 ≤ b.1 := ⟨fun a b => le_total a.1 b.1⟩
    have htrans : IsTrans (Day × Text) fun a b => a.1 ≤ b.1 := ⟨fun _ _ _ => le_trans⟩
    exact List.pairwise_insertionSort _ _
  · exact List.pairwise_map.mpr (hkept.imp le_of_lt)

/-- A file of the archive that is kept holds what was rotated to it. -/
theorem Archives.contentOf_kept (h : Archives format retain log dir accepted archive)
    {entry : Day × Bytes} (hentry : entry ∈ archive)
    (hkept : datedLogPath format log entry.1 ∈ dir) :
    contentOf dir (datedLogPath format log entry.1) = entry.2 := by
  obtain ⟨file, hfile⟩ := mem_iff_lookup.mp hkept
  obtain ⟨-, hmem⟩ := h.files _ file entry.1 hfile (dailyDay_datedLogPath log entry.1)
  have hnodup : (archive.map Prod.fst).Nodup := h.sorted.imp fun hlt => ne_of_lt hlt
  have hsame := List.inj_on_of_nodup_map hnodup hmem hentry rfl
  rw [contentOf, hfile, ← hsame]
  rfl

/-- **What is shown** are the files of the archive that are kept, and the active one. -/
theorem Archives.showLogs_eq (h : Archives format retain log dir accepted archive) :
    showLogs format fs log dir =
      ((archive.filter fun entry => datedLogPath format log entry.1 ∈ dir).map
        Prod.snd).flatten ++ contentOf dir log.baseName := by
  have hactive : (if log.baseName ∈ dir then [log.baseName] else []).flatMap (contentOf dir) =
      contentOf dir log.baseName := by
    split
    · exact List.flatMap_singleton _ _
    · rename_i habsent
      rw [contentOf, AList.lookup_eq_none.mpr habsent]
      rfl
  have hdaily : (archive.filter fun entry => datedLogPath format log entry.1 ∈ dir).map
      (fun entry => contentOf dir (datedLogPath format log entry.1)) =
        (archive.filter fun entry => datedLogPath format log entry.1 ∈ dir).map Prod.snd := by
    refine List.map_congr_left fun entry hentry => ?_
    obtain ⟨hmem, hkept⟩ := List.mem_filter.mp hentry
    exact h.contentOf_kept hmem (of_decide_eq_true hkept)
  rw [showLogs, collectLogHistory, List.flatMap_append]
  change _ ++ List.flatMap (contentOf dir) _ = _
  rw [hactive, h.sortedDailyLogFiles_eq, keptDays, List.filter_map, List.map_map, List.map_map,
    List.flatMap_map, ← hdaily, List.flatMap_def]
  rfl

/-- The archive is about the files of the log only. -/
theorem Archives.congr (h : Archives format retain log dir accepted archive)
    (hsame : ∀ name, log.Owns name → dir'.lookup name = dir.lookup name) :
    Archives format retain log dir' accepted archive where
  sorted := h.sorted
  complete := by
    rw [contentOf, hsame _ log.owns_baseName]
    exact h.complete
  files := by
    intro name file day hfile hday
    rw [hsame name (Log.owns_of_dailyDay hday)] at hfile
    exact h.files name file day hfile hday
  lost := by
    have hkept : keptDays format log dir' archive = keptDays format log dir archive := by
      refine List.filter_congr fun day _ => decide_eq_decide.mpr ?_
      rw [mem_iff_lookup, mem_iff_lookup, hsame _ (Log.owns_datedLogPath log day)]
    rw [hkept]
    exact h.lost

/-- The active file has a new content. -/
theorem Archives.insert_active (h : Archives format retain log dir accepted archive)
    (file : LogFile Day) : Archives format retain log (dir.insert log.baseName file)
      ((archive.map Prod.snd).flatten ++ file.content) archive where
  sorted := h.sorted
  complete := by
    rw [contentOf, AList.lookup_insert]
    rfl
  files := by
    intro name file' day hfile hday
    have hne : name ≠ log.baseName := by
      rintro rfl
      rw [dailyDay_baseName] at hday
      cases hday
    rw [AList.lookup_insert_ne hne] at hfile
    exact h.files name file' day hfile hday
  lost := by
    have hkept : keptDays format log (dir.insert log.baseName file) archive =
        keptDays format log dir archive := by
      refine List.filter_congr fun day _ => decide_eq_decide.mpr ?_
      rw [AList.mem_insert, or_iff_right (datedLogPath_ne_baseName log day)]
    rw [hkept]
    exact h.lost

/-- **A rotation**: the active file is the last one of the archive. -/
theorem Archives.rename (h : Archives format retain log dir accepted archive)
    {active : LogFile Day} (hactive : dir.lookup log.baseName = some active) {day : Day}
    (hlast : ∀ entry ∈ archive, entry.1 < day) :
    Archives format retain log
      ((dir.erase log.baseName).insert (datedLogPath format log day) active) accepted
      (archive ++ [(day, active.content)]) where
  sorted := by
    rw [List.map_append, List.map_singleton]
    refine List.pairwise_append.mpr ⟨h.sorted, List.pairwise_singleton _ _, ?_⟩
    intro earlier hearlier day' hday'
    obtain ⟨entry, hentry, rfl⟩ := List.mem_map.mp hearlier
    rw [List.mem_singleton.mp hday']
    exact hlast entry hentry
  complete := by
    have hactive' : contentOf dir log.baseName = active.content := by
      rw [contentOf, hactive]
      rfl
    have hgone : contentOf ((dir.erase log.baseName).insert (datedLogPath format log day) active)
        log.baseName = [] := by
      rw [contentOf, AList.lookup_insert_ne (datedLogPath_ne_baseName log day).symm,
        AList.lookup_erase]
      rfl
    rw [hgone, List.append_nil, List.map_append, List.flatten_append, List.map_singleton,
      List.flatten_singleton, ← h.complete, hactive']
  files := by
    intro name file day' hfile hday
    by_cases hname : name = datedLogPath format log day
    · rw [hname, AList.lookup_insert] at hfile
      rw [hname, dailyDay_datedLogPath] at hday
      obtain rfl := Option.some.inj hfile
      obtain rfl := Option.some.inj hday
      exact ⟨hname, List.mem_append_right _ (List.mem_singleton_self _)⟩
    · have hne : name ≠ log.baseName := by
        rintro rfl
        rw [dailyDay_baseName] at hday
        cases hday
      rw [AList.lookup_insert_ne hname, AList.lookup_erase_ne hne] at hfile
      obtain ⟨hdated, hmem⟩ := h.files name file day' hfile hday
      exact ⟨hdated, List.mem_append_left _ hmem⟩
  lost := by
    have hkept : keptDays format log
        ((dir.erase log.baseName).insert (datedLogPath format log day) active)
        (archive ++ [(day, active.content)]) = keptDays format log dir archive ++ [day] := by
      rw [keptDays, List.map_append, List.filter_append, List.map_singleton]
      congr 1
      · refine List.filter_congr fun earlier hearlier => decide_eq_decide.mpr ?_
        obtain ⟨entry, hentry, rfl⟩ := List.mem_map.mp hearlier
        have hne : datedLogPath format log entry.1 ≠ datedLogPath format log day := fun heq =>
          ne_of_lt (hlast entry hentry) (datedLogPath_injective log heq)
        rw [AList.mem_insert, or_iff_right hne, AList.mem_erase,
          and_iff_right (datedLogPath_ne_baseName log entry.1)]
      · refine List.filter_eq_self.mpr fun newest hnewest => decide_eq_true ?_
        rw [List.mem_singleton.mp hnewest]
        exact (AList.mem_insert _).mpr (.inl rfl)
    rw [hkept, List.map_append, List.map_singleton]
    exact h.lost.push day

/-- What pruning leaves: names of the archive that are not among the latest can be gone. -/
theorem Archives.prune (h : Archives format retain log dir accepted archive)
    (hlong : retain < (keptDays format log dir archive).length)
    (hbase : dir'.lookup log.baseName = dir.lookup log.baseName)
    (hsub : ∀ name file, dir'.lookup name = some file → dir.lookup name = some file)
    (hlatest : ∀ day ∈ (keptDays format log dir archive).drop
      ((keptDays format log dir archive).length - retain), datedLogPath format log day ∈ dir') :
    Archives format retain log dir' accepted archive where
  sorted := h.sorted
  complete := by
    rw [contentOf, hbase]
    exact h.complete
  files := fun name file day hfile hday => h.files name file day (hsub name file hfile) hday
  lost := by
    refine h.lost.prune h.sorted_kept ?_ (by omega)
    have hfilter : ((keptDays format log dir archive).drop
          ((keptDays format log dir archive).length - retain)).filter
        (fun day => datedLogPath format log day ∈ dir') =
          (keptDays format log dir archive).drop
            ((keptDays format log dir archive).length - retain) :=
      List.filter_eq_self.mpr fun day hday => decide_eq_true (hlatest day hday)
    have hkept : (keptDays format log dir archive).filter
        (fun day => datedLogPath format log day ∈ dir') = keptDays format log dir' archive := by
      rw [keptDays, List.filter_filter]
      refine List.filter_congr fun day _ => ?_
      rw [Bool.and_eq_left_iff_imp]
      intro hday
      obtain ⟨file, hfile⟩ := mem_iff_lookup.mp (of_decide_eq_true hday)
      exact decide_eq_true (mem_iff_lookup.mpr ⟨file, hsub _ file hfile⟩)
    rw [← hfilter, ← hkept]
    exact (List.drop_sublist _ _).filter _

end Archives

/-! ## The operations -/

/-- The days of the archive are over, and an active file that holds anything was written on a later
day. -/
structure LogSound (format : DayFormat Day) (retain : Nat) (log : Log) (dir : LogDir Day)
    (now : Day) (accepted : Bytes) (archive : List (Day × Bytes)) : Prop where
  archives : Archives format retain log dir accepted archive
  past : ∀ entry ∈ archive, entry.1 < now
  modified : ∀ active, dir.lookup log.baseName = some active → active.content ≠ [] →
    ∀ entry ∈ archive, entry.1 < active.modifiedDay

section Operations

variable {retain : Nat} {log : Log} {dir dir' : LogDir Day} {now today : Day} {accepted : Bytes}
  {archive : List (Day × Bytes)}

theorem LogSound.mono (h : LogSound format retain log dir now accepted archive)
    (hle : now ≤ today) : LogSound format retain log dir today accepted archive where
  archives := h.archives
  past := fun entry hentry => (h.past entry hentry).trans_le hle
  modified := h.modified

theorem LogSound.congr (h : LogSound format retain log dir now accepted archive)
    (hsame : ∀ name, log.Owns name → dir'.lookup name = dir.lookup name) :
    LogSound format retain log dir' now accepted archive where
  archives := h.archives.congr hsame
  past := h.past
  modified := by
    rw [hsame _ log.owns_baseName]
    exact h.modified

theorem LogSound.openAppend (h : LogSound format retain log dir now accepted archive)
    (today : Day) :
    LogSound format retain log (openAppend log.baseName today dir) now accepted archive := by
  rw [Logging.openAppend]
  split
  · exact h
  · rename_i habsent
    have hempty : accepted = (archive.map Prod.snd).flatten ++ [] := by
      rw [← h.archives.complete, contentOf, AList.lookup_eq_none.mpr habsent]
      rfl
    refine ⟨?_, h.past, ?_⟩
    · rw [hempty]
      exact h.archives.insert_active ⟨[], today⟩
    · intro active hactive hcontent
      rw [AList.lookup_insert] at hactive
      obtain rfl := Option.some.inj hactive
      exact absurd rfl hcontent

/-- **Rotating the active file** to a day after those of the archive. -/
theorem LogSound.rotateActiveLogToDay (h : LogSound format retain log dir today accepted archive)
    {day : Day} (hlast : log.baseName ∈ dir → ∀ entry ∈ archive, entry.1 < day)
    (hover : day < today) :
    (rotateActiveLogToDay format fs log day today dir).Ends (fun dir' => dir' = dir) fun dir' =>
      SameOutside log dir dir' ∧ log.baseName ∉ dir' ∧
        ∃ archive, LogSound format retain log dir' today accepted archive := by
  rw [Logging.rotateActiveLogToDay]
  match hactive : dir.lookup log.baseName with
  | none =>
      exact ⟨SameOutside.refl log dir, AList.lookup_eq_none.mp hactive, archive, h⟩
  | some active =>
      have hlast := hlast (mem_iff_lookup.mpr ⟨active, hactive⟩)
      -- there is no file of this day yet
      have htarget : dir.lookup (datedLogPath format log day) = none := by
        rw [Option.eq_none_iff_forall_ne_some]
        intro file hfile
        obtain ⟨-, hmem⟩ := h.archives.files _ file day hfile (dailyDay_datedLogPath log day)
        exact absurd (hlast _ hmem) (lt_irrefl day)
      simp only [htarget]
      split
      · rfl
      · have hgone : ((dir.erase log.baseName).insert (datedLogPath format log day)
            active).lookup log.baseName = none := by
          rw [AList.lookup_insert_ne (datedLogPath_ne_baseName log day).symm, AList.lookup_erase]
        refine ⟨?_, AList.lookup_eq_none.mp hgone, _, h.archives.rename hactive hlast, ?_, ?_⟩
        · exact (SameOutside.erase dir log.owns_baseName).trans
            (SameOutside.insert _ (Log.owns_datedLogPath log day) active)
        · intro entry hentry
          rcases List.mem_append.mp hentry with hentry | hentry
          · exact h.past entry hentry
          · rw [List.mem_singleton.mp hentry]
            exact hover
        · intro active' hactive'
          rw [hgone] at hactive'
          cases hactive'

/-- **Pruning** leaves the archive as it is, and the active file. -/
theorem LogSound.pruneDailyLogs (h : LogSound format retain log dir now accepted archive) :
    (pruneDailyLogs format fs log retain dir).Ends (fun dir' => dir' = dir) fun dir' =>
      SameOutside log dir dir' ∧ dir'.lookup log.baseName = dir.lookup log.baseName ∧
        LogSound format retain log dir' now accepted archive := by
  rw [Logging.pruneDailyLogs, h.archives.sortedDailyLogFiles_eq]
  split
  · rfl
  · dsimp only
    rw [List.length_map]
    split
    · exact ⟨SameOutside.refl log dir, rfl, h⟩
    · rename_i hlong
      rw [← List.map_take, List.map_map]
      generalize hkept : keptDays format log dir archive = kept at *
      generalize hnames : ((kept.take (kept.length - retain)).map
        (Prod.snd ∘ fun day => (day, datedLogPath format log day))) = names
      have hdated : ∀ name ∈ names, ∃ day ∈ kept.take (kept.length - retain),
          datedLogPath format log day = name := by
        intro name hname
        rw [← hnames] at hname
        exact List.mem_map.mp hname
      have howns : ∀ name ∈ names, log.Owns name := by
        intro name hname
        obtain ⟨day, -, rfl⟩ := hdated name hname
        exact Log.owns_datedLogPath log day
      have hbase : (names.foldl (removeFile fs) dir).lookup log.baseName =
          dir.lookup log.baseName := by
        rw [lookup_foldl_removeFile, if_neg]
        rintro ⟨hname, -⟩
        obtain ⟨day, -, heq⟩ := hdated _ hname
        exact datedLogPath_ne_baseName log day heq
      refine ⟨?_, hbase, ?_, h.past, ?_⟩
      · intro name hname
        rw [lookup_foldl_removeFile, if_neg]
        exact fun hremoved => hname (howns name hremoved.1)
      · refine h.archives.prune (by rw [hkept]; omega) hbase ?_ ?_
        · intro name file hfile
          rw [lookup_foldl_removeFile] at hfile
          split at hfile
          · cases hfile
          · exact hfile
        · rw [hkept]
          intro day hday
          have hthere : datedLogPath format log day ∈ dir := by
            have hmem := List.mem_of_mem_drop hday
            rw [← hkept] at hmem
            exact (mem_keptDays.mp hmem).2
          obtain ⟨file, hfile⟩ := mem_iff_lookup.mp hthere
          refine mem_iff_lookup.mpr ⟨file, ?_⟩
          rw [lookup_foldl_removeFile, if_neg]
          · exact hfile
          · rintro ⟨hname, -⟩
            obtain ⟨day', hday', heq⟩ := hdated _ hname
            obtain rfl := datedLogPath_injective log heq
            have hnodup : kept.Nodup := by
              rw [← hkept]
              exact h.archives.sorted_kept.imp fun hlt => ne_of_lt hlt
            exact List.disjoint_take_drop hnodup le_rfl hday' hday
      · intro active hactive
        rw [hbase] at hactive
        exact h.modified active hactive

/-- Pruning, and opening the active file again. -/
theorem LogSound.reopen (h : LogSound format retain log dir now accepted archive) :
    FsResult.Ends
      (fun dir' => SameOutside log dir dir' ∧ (log.baseName ∈ dir' ↔ log.baseName ∈ dir) ∧
        LogSound format retain log dir' now accepted archive)
      (fun dir' => SameOutside log dir dir' ∧ log.baseName ∈ dir' ∧
        LogSound format retain log dir' now accepted archive)
      ((Logging.pruneDailyLogs format fs log retain dir).bind fun dir =>
        if fs.fails .reopen then .error dir
        else .ok (Logging.openAppend log.baseName today dir)) := by
  refine FsResult.Ends.bind (h.pruneDailyLogs.mono ?_ fun _ hdone => hdone) ?_
  · rintro dir' rfl
    exact ⟨SameOutside.refl log dir', Iff.rfl, h⟩
  · rintro dir' ⟨hsame, hbase, hsound⟩
    split
    · refine ⟨hsame, ?_, hsound⟩
      rw [mem_iff_lookup, mem_iff_lookup, hbase]
    · exact ⟨hsame.trans (sameOutside_openAppend log today dir'), mem_openAppend _ _ _,
        hsound.openAppend today⟩

end Operations

/-! ## Runs -/

/-- The writer has its file open since that day, or could not open the next one yet. -/
def WriterAt (log : Log) (dir : LogDir Day) (now : Day) (archive : List (Day × Bytes))
    (day : Day) : Prop :=
  (log.baseName ∈ dir ∧ day ≤ now ∧ ∀ entry ∈ archive, entry.1 < day) ∨
    (log.baseName ∉ dir ∧ day < now)

/-- The invariant of one log. -/
def LogHolds (format : DayFormat Day) (retain : Nat) (log : Log) (dir : LogDir Day) (now : Day)
    (currentDay : Option Day) (accepted : Bytes) : Prop :=
  ∃ archive, LogSound format retain log dir now accepted archive ∧
    ∀ day, currentDay = some day → WriterAt log dir now archive day

section Holds

variable {retain : Nat} {log : Log} {dir dir' : LogDir Day} {now today written : Day}
  {currentDay : Option Day} {accepted : Bytes}

theorem LogHolds.mono (h : LogHolds format retain log dir now currentDay accepted)
    (hle : now ≤ today) : LogHolds format retain log dir today currentDay accepted := by
  obtain ⟨archive, hsound, hwriter⟩ := h
  refine ⟨archive, hsound.mono hle, fun day hday => ?_⟩
  rcases hwriter day hday with ⟨hbase, hday, hlast⟩ | ⟨hbase, hday⟩
  · exact .inl ⟨hbase, hday.trans hle, hlast⟩
  · exact .inr ⟨hbase, hday.trans_le hle⟩

theorem LogHolds.exit (h : LogHolds format retain log dir now currentDay accepted) :
    LogHolds format retain log dir now none accepted := by
  obtain ⟨archive, hsound, -⟩ := h
  exact ⟨archive, hsound, fun day hday => by cases hday⟩

theorem LogHolds.congr (h : LogHolds format retain log dir now currentDay accepted)
    (hsame : ∀ name, log.Owns name → dir'.lookup name = dir.lookup name) :
    LogHolds format retain log dir' now currentDay accepted := by
  obtain ⟨archive, hsound, hwriter⟩ := h
  refine ⟨archive, hsound.congr hsame, fun day hday => ?_⟩
  have hbase : log.baseName ∈ dir' ↔ log.baseName ∈ dir := by
    rw [mem_iff_lookup, mem_iff_lookup, hsame _ log.owns_baseName]
  rw [WriterAt, hbase]
  exact hwriter day hday

/-- What one log does does not reach the other one. -/
theorem LogHolds.other {other : Log} (hne : log ≠ other) (hsame : SameOutside other dir dir')
    (h : LogHolds format retain log dir now currentDay accepted) :
    LogHolds format retain log dir' now currentDay accepted :=
  h.congr fun name howns => hsame name fun hother => hne (Log.eq_of_owns howns hother)

/-- A writer that has its file open at this day. -/
theorem LogSound.holds {archive : List (Day × Bytes)}
    (h : LogSound format retain log dir today accepted archive) (hbase : log.baseName ∈ dir) :
    LogHolds format retain log dir today (some today) accepted := by
  refine ⟨archive, h, ?_⟩
  intro day hday
  obtain rfl := Option.some.inj hday
  exact .inl ⟨hbase, le_rfl, h.past⟩

/-- **The start of a writer**, whatever is in the way of it. -/
theorem LogHolds.newWriter (h : LogHolds format retain log dir today currentDay accepted) :
    (newWriter format fs log retain today dir).Ends
      (fun dir' => SameOutside log dir dir' ∧
        LogHolds format retain log dir' today none accepted)
      fun dir' => SameOutside log dir dir' ∧
        LogHolds format retain log dir' today (some today) accepted := by
  obtain ⟨archive, hsound, -⟩ := h
  have hopened := hsound.openAppend today
  have houtside := sameOutside_openAppend log today dir
  have hnone : ∀ {dir' : LogDir Day} {archive' : List (Day × Bytes)},
      LogSound format retain log dir' today accepted archive' →
        LogHolds format retain log dir' today none accepted :=
    fun hsound => ⟨_, hsound, fun day hday => by cases hday⟩
  rw [Logging.newWriter]
  split
  · exact ⟨SameOutside.refl log dir, hnone hsound⟩
  · generalize openAppend log.baseName today dir = opened at *
    have hstale : (rotateStaleActiveLogIfNeeded format fs log today opened).Ends
        (fun dir' => SameOutside log dir dir' ∧
          LogHolds format retain log dir' today none accepted)
        fun dir' => SameOutside log dir dir' ∧
          ∃ archive, LogSound format retain log dir' today accepted archive := by
      rw [rotateStaleActiveLogIfNeeded]
      match hactive : opened.lookup log.baseName with
      | none => exact ⟨houtside, archive, hopened⟩
      | some active =>
          dsimp only
          split
          · exact ⟨houtside, hnone hopened⟩
          · split
            · exact ⟨houtside, archive, hopened⟩
            · rename_i hcontent
              split
              · exact ⟨houtside, hnone hopened⟩
              · split
                · rename_i hover
                  have hlast := hopened.modified active hactive hcontent
                  refine (hopened.rotateActiveLogToDay (fun _ => hlast) hover).mono ?_ ?_
                  · rintro dir' rfl
                    exact ⟨houtside, hnone hopened⟩
                  · rintro dir' ⟨hsame, -, hrotated⟩
                    exact ⟨houtside.trans hsame, hrotated⟩
                · exact ⟨houtside, archive, hopened⟩
    refine FsResult.Ends.bind hstale ?_
    rintro dir' ⟨hsame, archive', hsound'⟩
    refine hsound'.reopen.mono ?_ ?_
    · rintro dir'' ⟨hsame', -, hsound''⟩
      exact ⟨hsame.trans hsame', hnone hsound''⟩
    · rintro dir'' ⟨hsame', hbase, hsound''⟩
      exact ⟨hsame.trans hsame', hsound''.holds hbase⟩

/-- **The check before a write**: if it fails, the next one takes it up again. -/
theorem LogHolds.rotateIfNeeded {day : Day}
    (h : LogHolds format retain log dir today (some day) accepted) :
    (rotateIfNeeded format fs log retain day today dir).Ends
      (fun dir' => SameOutside log dir dir' ∧
        LogHolds format retain log dir' today (some day) accepted)
      fun dir' => SameOutside log dir dir' ∧ log.baseName ∈ dir' ∧
        LogHolds format retain log dir' today (some today) accepted := by
  have hbefore := h
  obtain ⟨archive, hsound, hwriter⟩ := h
  have hwriter := hwriter day rfl
  rw [Logging.rotateIfNeeded]
  split
  · rename_i hsame
    rcases hwriter with ⟨hbase, -, -⟩ | ⟨-, hover⟩
    · exact ⟨SameOutside.refl log dir, hbase, hsound.holds hbase⟩
    · exact absurd hsame hover.ne'
  · rename_i hdiffers
    have hover : day < today := by
      rcases hwriter with ⟨-, hle, -⟩ | ⟨-, hover⟩
      · exact lt_of_le_of_ne hle (Ne.symm hdiffers)
      · exact hover
    have hlast : log.baseName ∈ dir → ∀ entry ∈ archive, entry.1 < day := by
      intro hbase
      rcases hwriter with ⟨-, -, hlast⟩ | ⟨habsent, -⟩
      · exact hlast
      · exact absurd hbase habsent
    split
    · exact ⟨SameOutside.refl log dir, hbefore⟩
    · refine FsResult.Ends.bind ((hsound.rotateActiveLogToDay hlast hover).mono ?_
        fun _ hdone => hdone) ?_
      · rintro dir' rfl
        exact ⟨SameOutside.refl log dir', hbefore⟩
      · rintro dir' ⟨hsame, habsent, archive', hsound'⟩
        refine hsound'.reopen.mono ?_ ?_
        · rintro dir'' ⟨hsame', hbase, hsound''⟩
          refine ⟨hsame.trans hsame', archive', hsound'', ?_⟩
          intro day' hday'
          obtain rfl := Option.some.inj hday'
          exact .inr ⟨mt hbase.mp habsent, hover⟩
        · rintro dir'' ⟨hsame', hbase, hsound''⟩
          exact ⟨hsame.trans hsame', hbase, hsound''.holds hbase⟩

/-- **A write** goes to the end. -/
theorem LogHolds.append (h : LogHolds format retain log dir today (some today) accepted)
    (hbase : log.baseName ∈ dir) (hle : today ≤ written) (bytes : Bytes) :
    LogHolds format retain log (LogState.append log bytes written dir) written (some today)
      (accepted ++ bytes) := by
  obtain ⟨archive, hsound, hwriter⟩ := h
  obtain ⟨active, hactive⟩ := mem_iff_lookup.mp hbase
  have haccepted : accepted ++ bytes =
      (archive.map Prod.snd).flatten ++ (active.content ++ bytes) := by
    rw [← hsound.archives.complete, contentOf, hactive, List.append_assoc]
    rfl
  have hlast : ∀ entry ∈ archive, entry.1 < today := by
    rcases hwriter today rfl with ⟨-, -, hlast⟩ | ⟨habsent, -⟩
    · exact hlast
    · exact absurd hbase habsent
  rw [LogState.append, hactive, haccepted]
  refine ⟨archive, ⟨hsound.archives.insert_active ⟨_, written⟩, ?_, ?_⟩, ?_⟩
  · exact fun entry hentry => (hlast entry hentry).trans_le hle
  · intro active' hactive' _ entry hentry
    rw [AList.lookup_insert] at hactive'
    obtain rfl := Option.some.inj hactive'
    exact (hlast entry hentry).trans_le hle
  · intro day hday
    obtain rfl := Option.some.inj hday
    exact .inl ⟨(AList.mem_insert _).mpr (.inl rfl), hle, hlast⟩

end Holds

/-- The invariant of the process: both logs, and every file that is neither's. -/
structure LogsHold (format : DayFormat Day) (retain : Nat) (dir : LogDir Day) (s : LogState Day) :
    Prop where
  logs : ∀ log, LogHolds format retain log s.dir s.now (s.currentDay log) (s.accepted log)
  others : ∀ name, (∀ log : Log, ¬ log.Owns name) → s.dir.lookup name = dir.lookup name

/-- One of the logs and its writer change, or the writers end. -/
theorem LogsHold.update {retain : Nat} {dir : LogDir Day} {s s' : LogState Day}
    (h : LogsHold format retain dir s) {log : Log} (hnow : s.now ≤ s'.now)
    (hsame : SameOutside log s.dir s'.dir)
    (hlog : LogHolds format retain log s'.dir s'.now (s'.currentDay log) (s'.accepted log))
    (hday : ∀ other, other ≠ log →
      s'.currentDay other = s.currentDay other ∨ s'.currentDay other = none)
    (haccepted : ∀ other, other ≠ log → s'.accepted other = s.accepted other) :
    LogsHold format retain dir s' where
  logs := by
    intro other
    rcases eq_or_ne other log with rfl | hne
    · exact hlog
    · have hother := ((h.logs other).mono hnow).other hne hsame
      rw [haccepted other hne]
      rcases hday other hne with hkept | hnone
      · rw [hkept]
        exact hother
      · rw [hnone]
        exact hother.exit
  others := fun name hname => (hsame name (hname log)).trans (h.others name hname)

theorem logsHold_step {retain : Nat} {dir : LogDir Day} {s s' : LogState Day}
    {a : LogAction Day} (h : LogsHold format retain dir s)
    (hstep : LogState.step format retain s a = some s') : LogsHold format retain dir s' := by
  match a with
  | .exit =>
      obtain rfl := Option.some.inj hstep
      exact ⟨fun log => (h.logs log).exit, h.others⟩
  | .start log today fs =>
      rw [LogState.step] at hstep
      split at hstep
      · rename_i hclock
        have hspec : (newWriter format fs log retain today s.dir).Ends _ _ :=
          ((h.logs log).mono hclock.1).newWriter
        split at hstep
        · rename_i dir' hresult
          rw [hresult] at hspec
          obtain rfl := Option.some.inj hstep
          exact h.update hclock.1 hspec.1 hspec.2 (fun _ _ => .inr rfl) fun _ _ => rfl
        · rename_i dir' hresult
          rw [hresult] at hspec
          obtain rfl := Option.some.inj hstep
          refine h.update hclock.1 hspec.1 ?_ ?_ fun _ _ => rfl
          · simpa using hspec.2
          · exact fun other hne => .inl (Function.update_of_ne hne _ _)
      · cases hstep
  | .write log bytes today written fs =>
      rw [LogState.step] at hstep
      match hday : s.currentDay log with
      | none =>
          rw [hday] at hstep
          cases hstep
      | some day =>
          simp only [hday] at hstep
          split at hstep
          · rename_i hclock
            obtain ⟨hnow, hle⟩ := hclock
            have hlog := h.logs log
            rw [hday] at hlog
            have hspec : (rotateIfNeeded format fs log retain day today s.dir).Ends _ _ :=
              (hlog.mono hnow).rotateIfNeeded
            split at hstep
            · rename_i dir' hresult
              rw [hresult] at hspec
              obtain ⟨hsame, hlog⟩ := hspec
              obtain rfl := Option.some.inj hstep
              refine h.update (hnow.trans hle) hsame ?_ (fun _ _ => .inl rfl) fun _ _ => rfl
              simpa [hday] using hlog.mono hle
            · rename_i dir' hresult
              rw [hresult] at hspec
              obtain ⟨hsame, hbase, hlog⟩ := hspec
              split at hstep
              · obtain rfl := Option.some.inj hstep
                refine h.update (hnow.trans hle) hsame ?_ ?_ fun _ _ => rfl
                · simpa using hlog.mono hle
                · exact fun other hne => .inl (Function.update_of_ne hne _ _)
              · obtain rfl := Option.some.inj hstep
                refine h.update (hnow.trans hle)
                  (hsame.trans (sameOutside_append log bytes written dir')) ?_ ?_ ?_
                · simpa using hlog.append hbase hle bytes
                · exact fun other hne => .inl (Function.update_of_ne hne _ _)
                · exact fun other hne => Function.update_of_ne hne _ _
          · cases hstep

/-- A directory in which there is no log yet. -/
theorem logsHold_start (format : DayFormat Day) (retain : Nat) {dir : LogDir Day} (now : Day)
    (hfresh : ∀ log : Log, log.baseName ∉ dir ∧
      ∀ name ∈ dir, dailyDay format log name = none) :
    LogsHold format retain dir (LogState.start dir now) where
  logs := by
    intro log
    obtain ⟨hbase, hnames⟩ := hfresh log
    have hlookup := AList.lookup_eq_none.mpr hbase
    refine ⟨[], ⟨⟨List.Pairwise.nil, ?_, ?_, retains_nil retain⟩, ?_, ?_⟩, ?_⟩
    · change contentOf dir log.baseName = []
      rw [contentOf, hlookup]
      rfl
    · intro name file day hfile hday
      rw [hnames name (mem_iff_lookup.mpr ⟨file, hfile⟩)] at hday
      cases hday
    · intro entry hentry
      cases hentry
    · intro active hactive
      exact absurd (hactive.symm.trans hlookup) (by simp)
    · intro day hday
      cases hday
  others := fun _ _ => rfl

/-- **The log history.**  In a directory without logs, take any run of the service: any starts and
ends of its process, any writes to its two logs, over any days, and whatever the file system fails
at.  Then what a log has accepted is what it was rotated into, in the order of the days, and the
active file after it; what is shown is that, less the days that are gone; and each day that is gone
has as many later ones that are there as are to be retained.  Nothing else in the directory has
changed. -/
theorem log_history_kept (format : DayFormat Day) (retain : Nat) {dir : LogDir Day} (now : Day)
    (hfresh : ∀ log : Log, log.baseName ∉ dir ∧
      ∀ name ∈ dir, dailyDay format log name = none)
    {tr : List (LogAction Day × LogState Day)}
    (hrun : Run (LogState.step format retain) (LogState.start dir now) tr) :
    ∀ x ∈ tr,
      (∀ log, ∃ archive : List (Day × Bytes),
        (archive.map Prod.fst).Pairwise (· < ·) ∧
        (archive.map Prod.snd).flatten ++ contentOf x.2.dir log.baseName = x.2.accepted log ∧
        (∀ fs, showLogs format fs log x.2.dir =
          ((archive.filter fun entry =>
            datedLogPath format log entry.1 ∈ x.2.dir).map Prod.snd).flatten ++
              contentOf x.2.dir log.baseName) ∧
        ∀ entry ∈ archive, datedLogPath format log entry.1 ∉ x.2.dir →
          retain ≤ (archive.filter fun later =>
            entry.1 < later.1 ∧ datedLogPath format log later.1 ∈ x.2.dir).length) ∧
      ∀ name, (∀ log : Log, ¬ log.Owns name) → x.2.dir.lookup name = dir.lookup name := by
  intro x hx
  have hholds := Run.invariant (J := LogsHold format retain dir)
    (fun _ _ _ h hstep => logsHold_step h hstep) hrun (logsHold_start format retain now hfresh) x hx
  refine ⟨fun log => ?_, hholds.others⟩
  obtain ⟨archive, hsound, -⟩ := hholds.logs log
  have harchives := hsound.archives
  refine ⟨archive, harchives.sorted, harchives.complete, fun fs => harchives.showLogs_eq,
    fun entry hentry hgone => ?_⟩
  have hlost := harchives.lost entry.1 (List.mem_map_of_mem hentry)
    fun hkept => hgone (mem_keptDays.mp hkept).2
  rw [keptDays, List.filter_map, List.countP_map, List.countP_filter,
    List.countP_eq_length_filter] at hlost
  simpa using hlost

section FourDays

private def calendar : DayFormat (Fin Rfc3339.lastDay) where
  format day := Rfc3339.dateText day
  parseFromStr text :=
    if h : Rfc3339.dayOfText text < Rfc3339.lastDay ∧
      Rfc3339.dateText (Rfc3339.dayOfText text) = text then some ⟨_, h.1⟩ else none
  parse_format day := by
    have hread := Rfc3339.dayOfText_dateText day.isLt
    rw [dif_pos ⟨hread.symm ▸ day.isLt, by rw [hread]⟩]
    exact congrArg some (Fin.ext hread)

private def dayAt (n : Fin 10) : Fin Rfc3339.lastDay :=
  ⟨20500 + n, by unfold Rfc3339.lastDay; omega⟩

private def workingDisk : FsAnswers := ⟨fun _ => false, 0, fun _ => false, List.length⟩

private def workingDiskExcept (call : FsCall) : FsAnswers :=
  { workingDisk with fails := (· == call) }

/-- On the second day the file that was rotated cannot be replaced at once; on the fourth the
service is started again. -/
private def fourDays : List (LogAction (Fin Rfc3339.lastDay)) :=
  [.start .service (dayAt 0) workingDisk,
    .start .json (dayAt 0) workingDisk,
    .write .service [1] (dayAt 0) (dayAt 0) workingDisk,
    .write .service [2] (dayAt 1) (dayAt 1) (workingDiskExcept .reopen),
    .write .service [2] (dayAt 1) (dayAt 1) workingDisk,
    .write .json [7] (dayAt 1) (dayAt 2) workingDisk,
    .write .service [3] (dayAt 2) (dayAt 2) workingDisk,
    .exit,
    .start .service (dayAt 3) workingDisk]

private def showsLastTwo (s : LogState (Fin Rfc3339.lastDay)) : Bool :=
  s.accepted .service == [1, 2, 3] && showLogs calendar workingDisk .service s.dir == [2, 3]

theorem log_history_kept_four_days : ∃ tr,
    Run (LogState.step calendar 2) (LogState.start ∅ (dayAt 0)) tr ∧
      (∃ x ∈ tr, showsLastTwo x.2 = true) ∧ ∀ x ∈ tr,
        (∀ log, ∃ archive : List (Fin Rfc3339.lastDay × Bytes),
          (archive.map Prod.fst).Pairwise (· < ·) ∧
          (archive.map Prod.snd).flatten ++ contentOf x.2.dir log.baseName =
            x.2.accepted log ∧
          (∀ fs, showLogs calendar fs log x.2.dir =
            ((archive.filter fun entry =>
              datedLogPath calendar log entry.1 ∈ x.2.dir).map Prod.snd).flatten ++
                contentOf x.2.dir log.baseName) ∧
          ∀ entry ∈ archive, datedLogPath calendar log entry.1 ∉ x.2.dir →
            2 ≤ (archive.filter fun later =>
              entry.1 < later.1 ∧ datedLogPath calendar log later.1 ∈ x.2.dir).length) ∧
        ∀ name, (∀ log : Log, ¬ log.Owns name) →
          x.2.dir.lookup name = (∅ : LogDir (Fin Rfc3339.lastDay)).lookup name := by
  obtain ⟨tr, hrun, hshown⟩ := exists_run_of_exec (LogState.step calendar 2)
    (LogState.start ∅ (dayAt 0)) fourDays showsLastTwo (by decide +kernel)
  refine ⟨tr, hrun, hshown, log_history_kept calendar 2 (dayAt 0) (fun log => ⟨?_, ?_⟩) hrun⟩
  · exact AList.notMem_empty _
  · exact fun name hname => absurd hname (AList.notMem_empty _)

end FourDays

end Logging
end SimpleClaw
