import SimpleClaw.Lib.GroupedSort
import SimpleClaw.Tools.Read
import SimpleClaw.Tools.SearchWalk

/-!
# The searches

`glob` lists the entries below a directory whose path matches a pattern, and `grep` the lines of the
files there that match a regular expression, both with the newest first and at most a hundred of
them.  What they use of the crates for patterns and regular expressions is given, and so is what the
file system says of an entry.

* `runGlob`, `runGrep`: the searches.
* `glob_lists`, `grep_shows`: what they come to, for any tree.
-/

namespace SimpleClaw
namespace Tools

open GroupedSort

/-! ## The searches -/

/-- What the file system says of what is below the root: the directories that cannot be read, the
contents of the files that can be read as text, and the times of change. -/
structure SearchFs where
  unreadable : List FileName → Option Text
  content : List FileName → Option Text
  modified : List FileName → Nat

/-- What the tool uses of the regex crate. -/
structure RegexCrate (Regex : Type) where
  new : Text → Except Text Regex
  isMatch : Regex → Text → Bool

def searchLimit : Nat := 100

/-- The path of an entry below the root. -/
def entryPath (root : PathBuf) (names : List FileName) : PathBuf :=
  ⟨root.isAbsolute, root.parts ++ names.map Part.normal⟩

def relativePath (names : List FileName) : PathBuf := PathBuf.ofNames false names

def readFailure (tool : Text) (root : PathBuf) (failure : List FileName × Text) :
    FrameworkError :=
  .tool (tool ++ (" failed to read " : Text) ++ (entryPath root failure.1).display ++
    (": " : Text) ++ failure.2)

/-- The newest first; what was changed at the same time stays in its order. -/
def newer (time time' : Nat) : Prop := time' ≤ time

instance : DecidableRel newer := fun time time' => inferInstanceAs (Decidable (time' ≤ time))

variable {Pattern Regex : Type} (glob : GlobCrate Pattern) (regex : RegexCrate Regex)

def sortNewest (fs : SearchFs) (names : List (List FileName)) : List (List FileName) :=
  names.insertionSort fun a b => newer (fs.modified a) (fs.modified b)

def globText (root : PathBuf) (sorted : List (List FileName)) : Text :=
  if sorted = [] then "No files found"
  else
    Text.joinWith '\n' ((sorted.take searchLimit).map fun names => (entryPath root names).display)

/-- `run_glob` -/
def runGlob (fs : SearchFs) (root : PathBuf) (tree : List FsNode) (pattern : Text) :
    Except FrameworkError Text := do
  let pattern ← (glob.new pattern).mapError fun e =>
    .tool (("glob pattern is invalid: " : Text) ++ e)
  let entries ← (searchWalk fs.unreadable [([], tree)]).mapError (readFailure "glob" root)
  let found := (entries.map Prod.fst).filter fun names =>
    glob.matchesPath pattern (relativePath names)
  return globText root (sortNewest fs found)

structure GrepMatch where
  names : List FileName
  lineNumber : Nat
  lineText : Text
  modified : Nat

/-- The lines of a content that match, with their numbers; a long one is cut. -/
def matchingLines (pattern : Regex) (content : Text) : List (Nat × Text) :=
  content.lines.zipIdx.filterMap fun line =>
    if regex.isMatch pattern line.1 then some (line.2 + 1, shownLine line.1) else none

/-- What is found in a file; one that cannot be read as text is passed over. -/
def fileLines (fs : SearchFs) (pattern : Regex) (names : List FileName) : List (Nat × Text) :=
  match fs.content names with
  | none => []
  | some content => matchingLines regex pattern content

def fileMatches (fs : SearchFs) (pattern : Regex) (names : List FileName) : List GrepMatch :=
  (fileLines regex fs pattern names).map fun line => ⟨names, line.1, line.2, fs.modified names⟩

def fileHeader (root : PathBuf) (names : List FileName) : Text :=
  (entryPath root names).display ++ (":" : Text)

def grepLine (line : Nat × Text) : Text :=
  ("  Line " : Text) ++ Text.decimal line.1 ++ (": " : Text) ++ line.2

/-- The lines of the output, with the path wherever it changes. -/
def renderMatches (root : PathBuf) : Option (List FileName) → List GrepMatch → List Text
  | _, [] => []
  | current, item :: items =>
      if current = some item.names then
        grepLine (item.lineNumber, item.lineText) :: renderMatches root current items
      else
        (if current.isSome then [[]] else []) ++ fileHeader root item.names ::
          grepLine (item.lineNumber, item.lineText) ::
            renderMatches root (some item.names) items

def grepHeader (total : Nat) : Text :=
  ("Found " : Text) ++ Text.decimal total ++ (" matches" : Text) ++
    if searchLimit < total then
      (" (showing first " : Text) ++ Text.decimal searchLimit ++ (")" : Text)
    else []

/-- `collect_files` keeps the regular files. -/
def collectFiles (found : List FoundEntry) : List (List FileName) :=
  found.filterMap fun entry =>
    match entry.2 with
    | .file _ => some entry.1
    | .dir _ _ | .other _ => none

def compileInclude : Option Text → Except FrameworkError (Option Pattern)
  | none => .ok none
  | some includePattern => ((glob.new includePattern).map some).mapError fun e =>
      .tool (("grep include pattern is invalid: " : Text) ++ e)

def included (includePattern : Option Pattern) (names : List FileName) : Bool :=
  match includePattern with
  | none => true
  | some pattern => glob.matchesPath pattern (relativePath names)

def grepText (root : PathBuf) (found : List GrepMatch) : Text :=
  if found = [] then "No files found"
  else
    let sorted := found.insertionSort fun a b => newer a.modified b.modified
    Text.joinWith '\n'
      (grepHeader sorted.length :: renderMatches root none (sorted.take searchLimit))

/-- `run_grep` -/
def runGrep (fs : SearchFs) (root : PathBuf) (tree : List FsNode) (pattern : Text)
    (includePattern : Option Text) : Except FrameworkError Text := do
  let pattern ← (regex.new pattern).mapError fun e =>
    .tool (("grep pattern is invalid regex: " : Text) ++ e)
  let includePattern ← compileInclude glob includePattern
  let entries ← (searchWalk fs.unreadable [([], tree)]).mapError (readFailure "grep" root)
  let files := (collectFiles entries).filter (included glob includePattern)
  return grepText root (files.flatMap (fileMatches regex fs pattern))

/-! ## What they come to -/

instance : Std.Total newer := ⟨fun time time' => Nat.le_total time' time⟩

instance : IsTrans Nat newer := ⟨fun _ _ _ h h' => Nat.le_trans h' h⟩

theorem perm_sortNewest (fs : SearchFs) (names : List (List FileName)) :
    (sortNewest fs names).Perm names :=
  List.perm_insertionSort _ names

theorem sorted_sortNewest (fs : SearchFs) (names : List (List FileName)) :
    (sortNewest fs names).Pairwise fun a b => fs.modified b ≤ fs.modified a := by
  have htotal : Std.Total fun a b => newer (fs.modified a) (fs.modified b) :=
    ⟨fun a b => Std.Total.total (r := newer) (fs.modified a) (fs.modified b)⟩
  have htrans : IsTrans (List FileName) fun a b => newer (fs.modified a) (fs.modified b) :=
    ⟨fun _ _ _ hab hbc => trans_of newer hab hbc⟩
  exact List.pairwise_insertionSort _ names

/-- The directories that are read: the root and those below it. -/
def readDirs (tree : List FsNode) : List (List FileName) := [] :: foundDirs (foundBelow [] tree)

/-- The walk from the root. -/
theorem searchWalk_root (unreadable : List FileName → Option Text) (tree : List FsNode) :
    match searchWalk unreadable [([], tree)] with
    | .ok found => found.Perm (foundBelow [] tree) ∧ ∀ dir ∈ readDirs tree, unreadable dir = none
    | .error failure => failure.1 ∈ readDirs tree ∧ unreadable failure.1 = some failure.2 := by
  have hbelow : stackBelow [([], tree)] = foundBelow [] tree := List.flatMap_singleton _ _
  have hdirs : stackDirs [([], tree)] = readDirs tree := by
    rw [stackDirs, hbelow]
    rfl
  have hspec := searchWalk_spec unreadable [([], tree)]
  rw [hbelow, hdirs] at hspec
  exact hspec

/-- The search ends at a directory that cannot be read. -/
def FailsToRead (tool : Text) (fs : SearchFs) (root : PathBuf) (tree : List FsNode)
    (err : FrameworkError) : Prop :=
  ∃ dir ∈ readDirs tree, ∃ message, fs.unreadable dir = some message ∧
    err = readFailure tool root (dir, message)

/-- **What `glob` lists**: of everything below the root whose path matches, the hundred newest, in
their order. -/
theorem glob_lists (fs : SearchFs) (root : PathBuf) (tree : List FsNode) (pattern : Text) :
    match runGlob glob fs root tree pattern with
    | .error err =>
        (∃ e, glob.new pattern = .error e ∧
          err = .tool (("glob pattern is invalid: " : Text) ++ e)) ∨
        FailsToRead "glob" fs root tree err
    | .ok out => ∃ compiled, glob.new pattern = .ok compiled ∧
        (∀ dir ∈ readDirs tree, fs.unreadable dir = none) ∧
        ∃ names : List (List FileName),
          names.Perm (((foundBelow [] tree).map Prod.fst).filter fun names =>
            glob.matchesPath compiled (relativePath names)) ∧
          names.Pairwise (fun a b => fs.modified b ≤ fs.modified a) ∧
          (names = [] → out = "No files found") ∧
          (names ≠ [] → out = Text.joinWith '\n' ((names.take searchLimit).map fun names =>
            (entryPath root names).display)) := by
  have hwalk := searchWalk_root fs.unreadable tree
  cases hpattern : glob.new pattern with
  | error e =>
      have hrun : runGlob glob fs root tree pattern =
          .error (.tool (("glob pattern is invalid: " : Text) ++ e)) := by
        rw [runGlob, hpattern]
        rfl
      rw [hrun]
      exact .inl ⟨e, rfl, rfl⟩
  | ok compiled =>
      cases hfound : searchWalk fs.unreadable [([], tree)] with
      | error failure =>
          have hrun : runGlob glob fs root tree pattern =
              .error (readFailure "glob" root failure) := by
            rw [runGlob, hpattern, hfound]
            rfl
          rw [hrun]
          rw [hfound] at hwalk
          exact .inr ⟨failure.1, hwalk.1, failure.2, hwalk.2, rfl⟩
      | ok entries =>
          have hrun : runGlob glob fs root tree pattern =
              .ok (globText root (sortNewest fs ((entries.map Prod.fst).filter fun names =>
                glob.matchesPath compiled (relativePath names)))) := by
            rw [runGlob, hpattern, hfound]
            rfl
          rw [hrun]
          rw [hfound] at hwalk
          obtain ⟨hperm, hreadable⟩ := hwalk
          refine ⟨compiled, rfl, hreadable, sortNewest fs ((entries.map Prod.fst).filter
            fun names => glob.matchesPath compiled (relativePath names)), ?_,
            sorted_sortNewest fs _, fun hnil => if_pos hnil, fun hne => if_neg hne⟩
          exact (perm_sortNewest fs _).trans ((hperm.map Prod.fst).filter _)

/-! ## The output of `grep` -/

/-- A file with the lines found in it. -/
abbrev GrepGroup := List FileName × List (Nat × Text)

def groupBlock (root : PathBuf) (group : GrepGroup) : List Text :=
  fileHeader root group.1 :: group.2.map grepLine

/-- Blocks with an empty line between them. -/
def separated : List (List Text) → List Text
  | [] => []
  | block :: blocks => block ++ blocks.flatMap fun block => [] :: block

def groupBlocks (root : PathBuf) (groups : List GrepGroup) : List (List Text) :=
  (groups.filter fun group => !group.2.isEmpty).map (groupBlock root)

def matchOf (fs : SearchFs) (names : List FileName) (line : Nat × Text) : GrepMatch :=
  ⟨names, line.1, line.2, fs.modified names⟩

/-- The rest of a file. -/
theorem renderMatches_same (fs : SearchFs) (root : PathBuf) (names : List FileName)
    (lines : List (Nat × Text)) (items : List GrepMatch) :
    renderMatches root (some names) (lines.map (matchOf fs names) ++ items) =
      lines.map grepLine ++ renderMatches root (some names) items := by
  induction lines with
  | nil => rfl
  | cons line lines ih =>
      have hsame : some names = some (matchOf fs names line).names := rfl
      rw [List.map_cons, List.cons_append, renderMatches, if_pos hsame, ih]
      rfl

/-- Another file. -/
theorem renderMatches_other (fs : SearchFs) (root : PathBuf) {current : Option (List FileName)}
    {group : GrepGroup} (hne : current ≠ some group.1) (hlines : group.2 ≠ [])
    (items : List GrepMatch) :
    renderMatches root current (group.2.map (matchOf fs group.1) ++ items) =
      (if current.isSome then [[]] else []) ++ groupBlock root group ++
        renderMatches root (some group.1) items := by
  obtain ⟨names, lines⟩ := group
  match lines, hlines with
  | line :: lines, _ =>
      have hother : current ≠ some (matchOf fs names line).names := hne
      rw [List.map_cons, List.cons_append, renderMatches, if_neg hother]
      change (if current.isSome then [[]] else []) ++ fileHeader root names ::
        grepLine line :: renderMatches root (some names) (lines.map (matchOf fs names) ++ items) = _
      rw [renderMatches_same, List.append_assoc]
      rfl

theorem renderMatches_groups (fs : SearchFs) (root : PathBuf) {current : List FileName}
    {groups : List GrepGroup} (hcurrent : current ∉ groups.map Prod.fst)
    (hdistinct : (groups.map Prod.fst).Nodup) :
    renderMatches root (some current)
        (groups.flatMap fun group => group.2.map (matchOf fs group.1)) =
      (groupBlocks root groups).flatMap fun block => [] :: block := by
  induction groups generalizing current with
  | nil => rfl
  | cons group groups ih =>
      obtain ⟨hgroup, hgroups⟩ := List.nodup_cons.mp hdistinct
      rw [List.map_cons, List.mem_cons, not_or] at hcurrent
      rw [List.flatMap_cons]
      by_cases hlines : group.2 = []
      · rw [hlines, List.map_nil, List.nil_append, ih hcurrent.2 hgroups, groupBlocks, groupBlocks,
          List.filter_cons_of_neg (by simp [hlines])]
      · rw [renderMatches_other fs root (fun heq => hcurrent.1 (Option.some.inj heq)) hlines,
          ih hgroup hgroups, groupBlocks, groupBlocks,
          List.filter_cons_of_pos (by simp [hlines]), List.map_cons, List.flatMap_cons]
        rfl

/-- **Every file has its header once**, over its lines. -/
theorem renderMatches_none (fs : SearchFs) (root : PathBuf) {groups : List GrepGroup}
    (hdistinct : (groups.map Prod.fst).Nodup) :
    renderMatches root none (groups.flatMap fun group => group.2.map (matchOf fs group.1)) =
      separated (groupBlocks root groups) := by
  induction groups with
  | nil => rfl
  | cons group groups ih =>
      obtain ⟨hgroup, hgroups⟩ := List.nodup_cons.mp hdistinct
      rw [List.flatMap_cons]
      by_cases hlines : group.2 = []
      · rw [hlines, List.map_nil, List.nil_append, ih hgroups, groupBlocks, groupBlocks,
          List.filter_cons_of_neg (by simp [hlines])]
      · rw [renderMatches_other fs root (fun heq => by cases heq) hlines,
          renderMatches_groups fs root hgroup hgroups, groupBlocks, groupBlocks,
          List.filter_cons_of_pos (by simp [hlines]), List.map_cons, separated]
        rfl

theorem collectFiles_sublist (found : List FoundEntry) :
    (collectFiles found).Sublist (found.map Prod.fst) := by
  induction found with
  | nil => exact List.Sublist.refl _
  | cons entry found ih =>
      obtain ⟨names, node⟩ := entry
      cases node with
      | file name => exact ih.cons_cons _
      | dir name children => exact ih.cons _
      | other name => exact ih.cons _

/-- The files of a list, in their groups. -/
def grepGroups (fs : SearchFs) (pattern : Regex) (files : List (List FileName)) :
    List GrepGroup :=
  files.map fun names => (names, fileLines regex fs pattern names)

theorem length_flatMap_fileMatches (fs : SearchFs) (pattern : Regex)
    (files : List (List FileName)) :
    (files.flatMap (fileMatches regex fs pattern)).length =
      (files.flatMap (fileLines regex fs pattern)).length := by
  induction files with
  | nil => rfl
  | cons names files ih =>
      rw [List.flatMap_cons, List.flatMap_cons, List.length_append, List.length_append, ih,
        fileMatches, List.length_map]

theorem grepText_eq (fs : SearchFs) (root : PathBuf) (pattern : Regex)
    {files : List (List FileName)} (hdistinct : files.Nodup)
    (hfound : files.flatMap (fileMatches regex fs pattern) ≠ []) :
    grepText root (files.flatMap (fileMatches regex fs pattern)) =
      Text.joinWith '\n' (grepHeader (files.flatMap (fileLines regex fs pattern)).length ::
        separated (groupBlocks root
          (takeAcross searchLimit (grepGroups regex fs pattern (sortNewest fs files))))) := by
  have hsorted : (files.flatMap (fileMatches regex fs pattern)).insertionSort
      (fun a b => newer a.modified b.modified) =
        (sortNewest fs files).flatMap (fileMatches regex fs pattern) := by
    have hmodified : ∀ names, ∀ item ∈ fileMatches regex fs pattern names,
        item.modified = fs.modified names := by
      intro names item hitem
      obtain ⟨line, -, rfl⟩ := List.mem_map.mp hitem
      rfl
    exact insertionSort_flatMap hmodified files
  have hgroups : (sortNewest fs files).flatMap (fileMatches regex fs pattern) =
      (grepGroups regex fs pattern (sortNewest fs files)).flatMap fun group =>
        group.2.map (matchOf fs group.1) := by
    rw [grepGroups, List.flatMap_map]
    rfl
  have hnodup : ((takeAcross searchLimit
      (grepGroups regex fs pattern (sortNewest fs files))).map Prod.fst).Nodup := by
    rw [map_fst_takeAcross, grepGroups, List.map_map]
    exact ((perm_sortNewest fs files).nodup_iff.mpr hdistinct).map fun _ _ heq => heq
  rw [grepText, if_neg hfound]
  dsimp only
  rw [List.length_insertionSort, length_flatMap_fileMatches, hsorted, hgroups,
    ← flatMap_takeAcross, renderMatches_none fs root hnodup]

/-- What a search comes to: of every file below the root that is included and can be read as text,
every line that matches, with the files from the newest to the oldest and the lines of each under
its path; how many there are, and the first hundred. -/
def GrepResult (fs : SearchFs) (root : PathBuf) (tree : List FsNode) (pattern : Text)
    (includePattern : Option Text) : Except FrameworkError Text → Prop
  | .error err =>
      (∃ e, regex.new pattern = .error e ∧
        err = .tool (("grep pattern is invalid regex: " : Text) ++ e)) ∨
      compileInclude glob includePattern = .error err ∨ FailsToRead "grep" fs root tree err
  | .ok out => ∃ compiled, regex.new pattern = .ok compiled ∧
      ∃ selected, compileInclude glob includePattern = .ok selected ∧
      (∀ dir ∈ readDirs tree, fs.unreadable dir = none) ∧
      ∃ files : List (List FileName),
        files.Perm ((collectFiles (foundBelow [] tree)).filter (included glob selected)) ∧
        files.Pairwise (fun a b => fs.modified b ≤ fs.modified a) ∧
        (files.flatMap (fileLines regex fs compiled) = [] → out = "No files found") ∧
        (files.flatMap (fileLines regex fs compiled) ≠ [] → out =
          Text.joinWith '\n' (grepHeader (files.flatMap (fileLines regex fs compiled)).length ::
            separated (groupBlocks root
              (takeAcross searchLimit (grepGroups regex fs compiled files)))))

/-- **`grep`** comes to this for any tree in which no two entries of a directory have one name. -/
theorem grep_shows (fs : SearchFs) (root : PathBuf) {tree : List FsNode}
    (hdistinct : DistinctNames tree) (pattern : Text) (includePattern : Option Text) :
    GrepResult glob regex fs root tree pattern includePattern
      (runGrep glob regex fs root tree pattern includePattern) := by
  have hwalk := searchWalk_root fs.unreadable tree
  cases hpattern : regex.new pattern with
  | error e =>
      have hrun : runGrep glob regex fs root tree pattern includePattern =
          .error (.tool (("grep pattern is invalid regex: " : Text) ++ e)) := by
        rw [runGrep, hpattern]
        rfl
      rw [hrun]
      exact .inl ⟨e, hpattern, rfl⟩
  | ok compiled =>
      cases hselected : compileInclude glob includePattern with
      | error err =>
          have hrun : runGrep glob regex fs root tree pattern includePattern = .error err := by
            rw [runGrep, hpattern, hselected]
            rfl
          rw [hrun]
          exact .inr (.inl hselected)
      | ok selected =>
          cases hfound : searchWalk fs.unreadable [([], tree)] with
          | error failure =>
              have hrun : runGrep glob regex fs root tree pattern includePattern =
                  .error (readFailure "grep" root failure) := by
                rw [runGrep, hpattern, hselected, hfound]
                rfl
              rw [hrun]
              rw [hfound] at hwalk
              exact .inr (.inr ⟨failure.1, hwalk.1, failure.2, hwalk.2, rfl⟩)
          | ok entries =>
              rw [hfound] at hwalk
              obtain ⟨hperm, hreadable⟩ := hwalk
              generalize hfiles : (collectFiles entries).filter (included glob selected) = files
              have hrun : runGrep glob regex fs root tree pattern includePattern =
                  .ok (grepText root (files.flatMap (fileMatches regex fs compiled))) := by
                rw [runGrep, hpattern, hselected, hfound, ← hfiles]
                rfl
              have hfilesPerm : files.Perm
                  ((collectFiles (foundBelow [] tree)).filter (included glob selected)) := by
                rw [← hfiles]
                exact (hperm.filterMap _).filter _
              have hnodup : files.Nodup := hfilesPerm.nodup_iff.mpr
                (((collectFiles_sublist _).nodup (nodup_foundBelow hdistinct [])).filter _)
              have hlines : ((sortNewest fs files).flatMap (fileLines regex fs compiled)).Perm
                  (files.flatMap (fileLines regex fs compiled)) :=
                (perm_sortNewest fs files).flatMap_right _
              have hempty : files.flatMap (fileMatches regex fs compiled) = [] ↔
                  files.flatMap (fileLines regex fs compiled) = [] := by
                rw [← List.length_eq_zero_iff, length_flatMap_fileMatches,
                  List.length_eq_zero_iff]
              rw [hrun]
              refine ⟨compiled, hpattern, selected, hselected, hreadable, sortNewest fs files,
                (perm_sortNewest fs files).trans hfilesPerm, sorted_sortNewest fs files,
                fun hnil => ?_, fun hne => ?_⟩
              · rw [hnil] at hlines
                exact if_pos (hempty.mpr (List.nil_perm.mp hlines))
              · rw [hlines.length_eq]
                refine grepText_eq regex fs root compiled hnodup fun hnil => hne ?_
                rw [hempty.mp hnil] at hlines
                exact List.perm_nil.mp hlines

section TwoFiles

private def substrings : RegexCrate Text where
  new pattern := .ok pattern
  isMatch pattern line := line.tails.any fun rest => pattern.isPrefixOf rest

private def everyPath : GlobCrate Unit where
  new _ := .ok ()
  matchesPath _ _ := true

private def oldNote : FsNode := .file ⟨"b.txt", by decide⟩

private def noteFolder : FsNode := .dir ⟨"d", by decide⟩ [oldNote]

private def noteFs : SearchFs where
  unreadable _ := none
  content names := if names.length = 1 then some "old line\n" else some "first\nnew line\n"
  modified := List.length

theorem grep_shows_two_files :
    GrepResult everyPath substrings noteFs ⟨true, []⟩ [oldNote, noteFolder] "line" none
        (runGrep everyPath substrings noteFs ⟨true, []⟩ [oldNote, noteFolder] "line" none) ∧
      runGrep everyPath substrings noteFs ⟨true, []⟩ [oldNote, noteFolder] "line" none =
        .ok (("Found 2 matches\n/d/b.txt:\n  Line 2: new line\n\n" : Text) ++
          ("/b.txt:\n  Line 1: old line" : Text)) := by
  refine ⟨grep_shows everyPath substrings noteFs ⟨true, []⟩ ?_ "line" none, by decide +kernel⟩
  refine ⟨?_, trivial, by simp, ⟨by simp, trivial, trivial⟩, trivial⟩
  intro other hother
  rw [List.mem_singleton.mp hother]
  decide

end TwoFiles

end Tools
end SimpleClaw
