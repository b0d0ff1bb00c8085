import Mathlib.Data.Char
import Mathlib.Data.List.Lex
import Mathlib.Data.List.Sort
import SimpleClaw.Error
import SimpleClaw.Path

/-!
# The list tool

`list` walks the tree below a directory on a stack, collects the directories and the files of each
directory under their paths relative to the root, and renders both as an indented tree.  The host
and the guest have a copy each.  The copies differ in the header line and in the key under which a
top-level entry finds its parent: the relative path of its parent is the empty path, which the
guest normalizes to `.` and the host does not, while both start rendering at `.`.

A call begins here once the root has been resolved, with the tree below it in the order in which
the directories are read; everything can be read and every name is UTF-8.

* `collect`: the walk; `Collected.Named`: what it collects is named by paths of names.
* `renderDir`, `runList`, `Guest.runList`: the rendering and the two copies.
* `Shows`: the lines of a complete listing.
* `listsTree_iff`: the host lists a tree completely only where there is nothing to list.
-/

namespace SimpleClaw
namespace Tools

/-! ## The tree and the patterns -/

/-- An entry below the root: a regular file, a directory with its entries in the order in which
they are read, or anything else, such as a symbolic link. -/
inductive FsNode where
  | file (name : FileName)
  | dir (name : FileName) (children : List FsNode)
  | other (name : FileName)

def FsNode.name : FsNode → FileName
  | .file name => name
  | .dir name _ => name
  | .other name => name

mutual

/-- How many directories there are in an entry. -/
def FsNode.dirCount : FsNode → Nat
  | .dir _ children => dirCounts children + 1
  | .file _ => 0
  | .other _ => 0

def dirCounts : List FsNode → Nat
  | [] => 0
  | node :: nodes => node.dirCount + dirCounts nodes

end

/-- What the tool uses of the glob crate. -/
structure GlobCrate (Pattern : Type) where
  new : Text → Except Text Pattern
  matchesPath : Pattern → PathBuf → Bool

def listLimit : Nat := 100

def ignorePatterns : List Text :=
  ["node_modules/**", "__pycache__/**", ".git/**", "dist/**", "build/**", "target/**",
    "vendor/**", "bin/**", "obj/**", ".idea/**", ".vscode/**", ".cache/**", "cache/**",
    "logs/**", ".venv/**", "venv/**", "env/**"]

/-- The built-in patterns and those of the call, compiled. -/
def compileIgnore {Pattern : Type} (glob : GlobCrate Pattern) (ignore : List Text) :
    Except Text (List Pattern) := do
  let builtin ← ignorePatterns.mapM fun pattern =>
    (glob.new pattern).mapError fun e => ("invalid built-in ignore pattern: " : Text) ++ e
  let called ← ignore.mapM fun pattern =>
    (glob.new pattern).mapError fun e =>
      ("invalid ignore pattern '" : Text) ++ pattern ++ ("': " : Text) ++ e
  return builtin ++ called

def isIgnored {Pattern : Type} (glob : GlobCrate Pattern) (patterns : List Pattern)
    (path : PathBuf) : Bool :=
  patterns.any fun pattern => glob.matchesPath pattern path

/-- `file_name` as it is printed. -/
def fileNameText (path : PathBuf) : Text := (path.fileName.map FileName.text).getD []

/-! ## The walk -/

/-- The component order of paths: a root first, then `.`, `..` and the names by their text. -/
def partOrder : Part → List Nat
  | .curDir => [1]
  | .parentDir => [2]
  | .normal name => 3 :: name.text.map Char.toNat

def pathOrder (p : PathBuf) : List (List Nat) :=
  (if p.isAbsolute then [[0]] else []) ++ p.parts.map partOrder

/-- Inserting into the ordered set of directories. -/
def insertDir (path : PathBuf) (dirs : List PathBuf) : List PathBuf :=
  if path ∈ dirs then dirs
  else dirs.orderedInsert (fun p q => pathOrder p ≤ pathOrder q) path

/-- Every path above a directory is inserted too, the empty one as `.`. -/
def insertParents (path : PathBuf) (dirs : List PathBuf) : List PathBuf :=
  match _h : path.parent with
  | none => dirs
  | some next =>
      insertParents next (insertDir (if next = PathBuf.empty then PathBuf.current else next) dirs)
termination_by path.parts.length
decreasing_by
  have := PathBuf.parent_length _h
  omega

/-- The state of the walk: the directories still to be read, each with its names below the root
and its entries, the next one first; the directories seen; and the files seen, each with the key
of its directory, in the order in which they are pushed. -/
structure Collected where
  stack : List (List FileName × List FsNode)
  dirs : List PathBuf
  files : List (PathBuf × Text)
  filesSeen : Nat

section Walk

variable (dirKey : Option PathBuf → PathBuf) (ignored : PathBuf → Bool)

/-- The entries of one directory; the loop ends when the limit is reached. -/
def visitEntries (dir : List FileName) : List FsNode → Collected → Collected
  | [], c => c
  | entry :: entries, c =>
      if listLimit ≤ c.filesSeen then c
      else
        let relative := PathBuf.ofNames false (dir ++ [entry.name])
        if ignored relative then visitEntries dir entries c
        else
          match entry with
          | .dir name children =>
              visitEntries dir entries
                { c with
                  stack := (dir ++ [name], children) :: c.stack
                  dirs := insertParents relative (insertDir relative c.dirs) }
          | .file _ =>
              visitEntries dir entries
                { c with
                  files := c.files ++ [(dirKey relative.parent, fileNameText relative)]
                  filesSeen := c.filesSeen + 1 }
          | .other _ => visitEntries dir entries c

/-- How many directories the stack still holds, at any depth. -/
def pending : List (List FileName × List FsNode) → Nat
  | [] => 0
  | frame :: stack => dirCounts frame.2 + 1 + pending stack

theorem pending_visitEntries (dir : List FileName) (entries : List FsNode) (c : Collected) :
    pending (visitEntries dirKey ignored dir entries c).stack ≤
      pending c.stack + dirCounts entries := by
  induction entries generalizing c with
  | nil => simp [visitEntries]
  | cons entry entries ih =>
      simp only [visitEntries, dirCounts]
      split
      · omega
      · split
        · exact (ih c).trans (by omega)
        · cases entry with
          | dir name children =>
              refine (ih _).trans ?_
              simp only [pending, FsNode.dirCount]
              omega
          | file name => exact (ih _).trans (by simp only [FsNode.dirCount]; omega)
          | other name => exact (ih c).trans (by simp only [FsNode.dirCount]; omega)

/-- The walk: the directory on top of the stack is read next. -/
def walkDirs (c : Collected) : Collected :=
  match _h : c.stack with
  | [] => c
  | (dir, entries) :: stack =>
      walkDirs (visitEntries dirKey ignored dir entries { c with stack })
termination_by pending c.stack
decreasing_by
  have := pending_visitEntries dirKey ignored dir entries { c with stack }
  simp only [_h, pending] at this ⊢
  omega

/-- What is collected below a root with these entries. -/
def collect (tree : List FsNode) : Collected :=
  walkDirs dirKey ignored ⟨[([], tree)], [PathBuf.current], [], 0⟩

end Walk

/-! ## The rendering -/

/-- How deep a directory is rendered below `.`. -/
def level (path : PathBuf) : Nat := if path = PathBuf.current then 0 else path.parts.length + 1

/-- A copy of the tool: the key under which the parent of a path is looked up.  It lies above the
path, so that the rendering comes to an end. -/
structure ListCopy where
  dirKey : Option PathBuf → PathBuf
  level_dirKey : ∀ path ≠ PathBuf.current, level (dirKey path.parent) < level path

theorem level_le (path : PathBuf) : level path ≤ path.parts.length + 1 := by
  unfold level
  split <;> omega

/-- A key that is the parent or `.` lies above the path. -/
theorem level_lt_of_parent {path key : PathBuf} (hpath : path ≠ PathBuf.current)
    (hkey : key = PathBuf.current ∨ path.parent = some key) : level key < level path := by
  have hlevel : level path = path.parts.length + 1 := if_neg hpath
  rcases hkey with rfl | hparent
  · rw [hlevel, level, if_pos rfl]
    omega
  · have hlength := PathBuf.parent_length hparent
    have := level_le key
    omega

/-- `unwrap_or_else(|| Path::new("."))`: the host's key. -/
def hostDirKey (parent : Option PathBuf) : PathBuf := parent.getD PathBuf.current

/-- `normalize_dir_key`: the guest's key. -/
def normalizeDirKey (path : Option PathBuf) : PathBuf :=
  match path with
  | some parent => if parent ≠ PathBuf.empty then parent else PathBuf.current
  | none => PathBuf.current

def hostList : ListCopy where
  dirKey := hostDirKey
  level_dirKey path hpath := by
    refine level_lt_of_parent hpath ?_
    cases h : path.parent with
    | none => exact .inl rfl
    | some parent => exact .inr rfl

def guestList : ListCopy where
  dirKey := normalizeDirKey
  level_dirKey path hpath := by
    refine level_lt_of_parent hpath ?_
    cases h : path.parent with
    | none => exact .inl rfl
    | some parent =>
        by_cases hempty : parent = PathBuf.empty
        · exact .inl (if_neg (not_not.mpr hempty))
        · exact .inr (congrArg some (if_pos hempty).symm)

/-- `"  ".repeat(depth)`. -/
def indent (depth : Nat) : Text := (List.replicate depth ("  " : Text)).flatten

def dirLine (depth : Nat) (name : Text) : Text := indent depth ++ name ++ ("/\n" : Text)

def fileLine (depth : Nat) (name : Text) : Text := indent depth ++ name ++ ("\n" : Text)

/-- The directories rendered below a directory, in the order of the set. -/
def childDirs (copy : ListCopy) (dirs : List PathBuf) (dir : PathBuf) : List PathBuf :=
  dirs.filter fun candidate =>
    candidate ≠ PathBuf.current ∧ copy.dirKey candidate.parent = dir

/-- The names of the files of a directory, sorted. -/
def filesOf (files : List (PathBuf × Text)) (dir : PathBuf) : List Text :=
  ((files.filter fun file => file.1 = dir).map Prod.snd).insertionSort fun a b => a ≤ b

def maxLevel (dirs : List PathBuf) : Nat := (dirs.map level).foldr max 0

theorem level_le_maxLevel {dirs : List PathBuf} {dir : PathBuf} (h : dir ∈ dirs) :
    level dir ≤ maxLevel dirs := by
  induction dirs with
  | nil => cases h
  | cons d dirs ih =>
      have hmax : maxLevel (d :: dirs) = max (level d) (maxLevel dirs) := rfl
      rcases List.mem_cons.mp h with rfl | h
      · omega
      · have := ih h
        omega

/-- `render_dir`: the line of the directory unless it is the root, the directories below it, then
its files. -/
def renderDir (copy : ListCopy) (dirs : List PathBuf) (files : List (PathBuf × Text))
    (dir : PathBuf) (depth : Nat) : Text :=
  (if 0 < depth then dirLine depth (fileNameText dir) else []) ++
    ((childDirs copy dirs dir).attach.flatMap fun child =>
      renderDir copy dirs files child.1 (depth + 1)) ++
    (filesOf files dir).flatMap (fileLine (depth + 1))
termination_by maxLevel dirs - level dir
decreasing_by
  obtain ⟨hmem, hchild⟩ := List.mem_filter.mp child.2
  obtain ⟨hcurrent, hkey⟩ := of_decide_eq_true hchild
  have hlevel := copy.level_dirKey child.1 hcurrent
  have hmax := level_le_maxLevel hmem
  rw [hkey] at hlevel
  omega

/-- What stands below the header line. -/
def listBody (copy : ListCopy) (ignored : PathBuf → Bool) (tree : List FsNode) : Text :=
  let collected := collect copy.dirKey ignored tree
  renderDir copy collected.dirs collected.files PathBuf.current 0

variable {Pattern : Type} (glob : GlobCrate Pattern)

/-- `run_list` on the host. -/
def runList (root : PathBuf) (tree : List FsNode) (ignore : List Text) :
    Except FrameworkError Text := do
  let patterns ← (compileIgnore glob ignore).mapError FrameworkError.tool
  return root.display ++ ("/\n" : Text) ++ listBody hostList (isIgnored glob patterns) tree

/-- `run_list` in the guest. -/
def Guest.runList (displayRoot : Text) (tree : List FsNode) (ignore : List Text) :
    Except Text Text := do
  let patterns ← compileIgnore glob ignore
  return displayRoot ++ ("\n" : Text) ++ listBody guestList (isIgnored glob patterns) tree

/-! ## A complete listing -/

/-- An entry is listed when it is a directory or a regular file and is not ignored. -/
def FsNode.Visible (ignored : PathBuf → Bool) (dir : List FileName) : FsNode → Prop
  | .file name => ignored (PathBuf.ofNames false (dir ++ [name])) = false
  | .dir name _ => ignored (PathBuf.ofNames false (dir ++ [name])) = false
  | .other _ => False

/-- **A complete listing** of the entries of a directory: every visible entry once, in any order,
a directory directly followed by the listing of its own entries, indented one step further. -/
inductive Shows (ignored : PathBuf → Bool) : List FileName → Nat → List FsNode → List Text → Prop
  | nil (dir : List FileName) (depth : Nat) : Shows ignored dir depth [] []
  | hidden {dir : List FileName} {depth : Nat} {entry : FsNode} {entries : List FsNode}
      {blocks : List Text} (hhidden : ¬ entry.Visible ignored dir)
      (hrest : Shows ignored dir depth entries blocks) :
      Shows ignored dir depth (entry :: entries) blocks
  | file {dir : List FileName} {depth : Nat} {name : FileName} {entries : List FsNode}
      {before after : List Text} (hvisible : (FsNode.file name).Visible ignored dir)
      (hrest : Shows ignored dir depth entries (before ++ after)) :
      Shows ignored dir depth (.file name :: entries)
        (before ++ fileLine depth name.text :: after)
  | dir {dir : List FileName} {depth : Nat} {name : FileName} {children entries : List FsNode}
      {inner before after : List Text} (hvisible : (FsNode.dir name children).Visible ignored dir)
      (hinner : Shows ignored (dir ++ [name]) (depth + 1) children inner)
      (hrest : Shows ignored dir depth entries (before ++ after)) :
      Shows ignored dir depth (.dir name children :: entries)
        (before ++ (dirLine depth name.text ++ inner.flatten) :: after)

/-- The host's output lists the tree completely, and the guest's output is the same below its own
header line. -/
def ListsTree (root : PathBuf) (displayRoot : Text) (tree : List FsNode) (ignore : List Text)
    (ignored : PathBuf → Bool) : Prop :=
  ∃ blocks : List Text,
    Shows ignored [] 1 tree blocks ∧
    runList glob root tree ignore = .ok (root.display ++ ("/\n" : Text) ++ blocks.flatten) ∧
    Guest.runList glob displayRoot tree ignore =
      .ok (displayRoot ++ ("\n" : Text) ++ blocks.flatten)

theorem Shows.file_single {ignored : PathBuf → Bool} {dir : List FileName} {depth : Nat}
    {name : FileName} (hvisible : (FsNode.file name).Visible ignored dir) :
    Shows ignored dir depth [.file name] [fileLine depth name.text] :=
  have hnil : Shows ignored dir depth [] ([] ++ []) := .nil dir depth
  .file hvisible hnil

/-! ## What the walk collects -/

/-- The directories are `.` or named below it, and every file stands under the key of a path
with a name. -/
structure Collected.Named (dirKey : Option PathBuf → PathBuf) (c : Collected) : Prop where
  dirs : ∀ dir ∈ c.dirs, dir = PathBuf.current ∨
    ∃ names name, dir = PathBuf.ofNames false (names ++ [name])
  files : ∀ file ∈ c.files, ∃ names, file.1 = dirKey (some (PathBuf.ofNames false names))

theorem mem_insertDir {path dir : PathBuf} {dirs : List PathBuf} :
    dir ∈ insertDir path dirs ↔ dir = path ∨ dir ∈ dirs := by
  unfold insertDir
  split
  · rename_i hmem
    constructor
    · exact .inr
    · rintro (rfl | h)
      · exact hmem
      · exact h
  · exact List.mem_orderedInsert _

/-- Only `.` and paths of names are inserted above a path of names. -/
theorem mem_insertParents {names : List FileName} {dirs : List PathBuf} {dir : PathBuf}
    (h : dir ∈ insertParents (PathBuf.ofNames false names) dirs) :
    dir ∈ dirs ∨ dir = PathBuf.current ∨
      ∃ names name, dir = PathBuf.ofNames false (names ++ [name]) := by
  induction names using List.reverseRecOn generalizing dirs with
  | nil =>
      have hparent : (PathBuf.ofNames false []).parent = none := rfl
      rw [insertParents, hparent] at h
      exact .inl h
  | append_singleton names name ih =>
      rw [insertParents, PathBuf.parent_ofNames_concat] at h
      rcases ih h with h | h
      · rcases mem_insertDir.mp h with rfl | h
        · refine .inr ?_
          split
          · exact .inl rfl
          · rename_i hempty
            refine .inr ?_
            induction names using List.reverseRecOn with
            | nil => exact absurd rfl hempty
            | append_singleton names name => exact ⟨names, name, rfl⟩
        · exact .inl h
      · exact .inr h

section Walk

variable {dirKey : Option PathBuf → PathBuf} {ignored : PathBuf → Bool}

/-- One directory read. -/
theorem Collected.Named.visitEntries {c : Collected} (h : c.Named dirKey) (dir : List FileName)
    (entries : List FsNode) : (visitEntries dirKey ignored dir entries c).Named dirKey := by
  fun_induction Tools.visitEntries dirKey ignored dir entries c with
  | case1 c => exact h
  | case2 entry entries c hlimit => exact h
  | case3 entry entries c hlimit relative hignored ih => exact ih h
  | case4 entries c hlimit name children relative hignored ih =>
      refine ih ⟨fun d hd => ?_, h.files⟩
      rcases mem_insertParents hd with hd | hd
      · rcases mem_insertDir.mp hd with rfl | hd
        · exact .inr ⟨dir, name, rfl⟩
        · exact h.dirs d hd
      · exact hd
  | case5 entries c hlimit name relative hignored ih =>
      refine ih ⟨h.dirs, fun file hfile => ?_⟩
      rcases List.mem_append.mp hfile with hfile | hfile
      · exact h.files file hfile
      · obtain rfl := List.mem_singleton.mp hfile
        exact ⟨dir, congrArg dirKey (PathBuf.parent_ofNames_concat false dir name)⟩
  | case6 entries c hlimit name relative hignored ih => exact ih h

/-- The whole walk. -/
theorem Collected.Named.walkDirs {c : Collected} (h : c.Named dirKey) :
    (walkDirs dirKey ignored c).Named dirKey := by
  fun_induction Tools.walkDirs dirKey ignored c with
  | case1 c hstack => exact h
  | case2 c dir entries stack hstack ih =>
      exact ih (Collected.Named.visitEntries (c := { c with stack }) ⟨h.dirs, h.files⟩ dir entries)

variable (dirKey ignored)

theorem named_collect (tree : List FsNode) : (collect dirKey ignored tree).Named dirKey := by
  refine Collected.Named.walkDirs ⟨fun dir hdir => .inl (List.mem_singleton.mp hdir), ?_⟩
  intro file hfile
  cases hfile

end Walk

/-! ## The two bodies -/

theorem renderDir_eq (copy : ListCopy) (dirs : List PathBuf) (files : List (PathBuf × Text))
    (dir : PathBuf) (depth : Nat) :
    renderDir copy dirs files dir depth =
      (if 0 < depth then dirLine depth (fileNameText dir) else []) ++
        ((childDirs copy dirs dir).flatMap fun child =>
          renderDir copy dirs files child (depth + 1)) ++
        (filesOf files dir).flatMap (fileLine (depth + 1)) := by
  rw [renderDir]
  simp only [List.flatMap_subtype, List.unattach_attach]

/-- Nothing is rendered below `.` when nothing stands under its key. -/
theorem renderDir_current_eq_nil {copy : ListCopy} {dirs : List PathBuf}
    {files : List (PathBuf × Text)}
    (hdirs : ∀ dir ∈ dirs, dir ≠ PathBuf.current → copy.dirKey dir.parent ≠ PathBuf.current)
    (hfiles : ∀ file ∈ files, file.1 ≠ PathBuf.current) :
    renderDir copy dirs files PathBuf.current 0 = [] := by
  have hchildren : childDirs copy dirs PathBuf.current = [] := by
    refine List.filter_eq_nil_iff.mpr fun dir hdir h => ?_
    obtain ⟨hcurrent, hkey⟩ := of_decide_eq_true h
    exact hdirs dir hdir hcurrent hkey
  have hnone : files.filter (fun file => file.1 = PathBuf.current) = [] :=
    List.filter_eq_nil_iff.mpr fun file hfile h => hfiles file hfile (of_decide_eq_true h)
  rw [renderDir_eq, hchildren, filesOf, hnone]
  rfl

/-- **The host's body is empty**, whatever there is to list: no directory and no file stands
under `.`. -/
theorem listBody_hostList (ignored : PathBuf → Bool) (tree : List FsNode) :
    listBody hostList ignored tree = [] := by
  have hnamed := named_collect hostDirKey ignored tree
  refine renderDir_current_eq_nil ?_ ?_
  · intro dir hdir hcurrent
    rcases hnamed.dirs dir hdir with rfl | ⟨names, name, rfl⟩
    · exact absurd rfl hcurrent
    · have hkey : hostList.dirKey (PathBuf.ofNames false (names ++ [name])).parent =
          PathBuf.ofNames false names := by
        rw [PathBuf.parent_ofNames_concat]
        rfl
      rw [hkey]
      exact PathBuf.ofNames_ne_current false names
  · intro file hfile
    obtain ⟨names, hkey⟩ := hnamed.files file hfile
    rw [hkey]
    exact PathBuf.ofNames_ne_current false names

section Hidden

variable {dirKey : Option PathBuf → PathBuf} {ignored : PathBuf → Bool}

/-- Entries that are not visible leave the walk as it is. -/
theorem visitEntries_of_hidden {dir : List FileName} {entries : List FsNode}
    (h : ∀ entry ∈ entries, ¬ entry.Visible ignored dir) (c : Collected) :
    visitEntries dirKey ignored dir entries c = c := by
  fun_induction visitEntries dirKey ignored dir entries c with
  | case1 c => rfl
  | case2 entry entries c hlimit => rfl
  | case3 entry entries c hlimit relative hignored ih =>
      exact ih fun e he => h e (List.mem_cons_of_mem _ he)
  | case4 entries c hlimit name children relative hignored ih =>
      exact absurd (eq_false_of_ne_true hignored) (h _ List.mem_cons_self)
  | case5 entries c hlimit name relative hignored ih =>
      exact absurd (eq_false_of_ne_true hignored) (h _ List.mem_cons_self)
  | case6 entries c hlimit name relative hignored ih =>
      exact ih fun e he => h e (List.mem_cons_of_mem _ he)

theorem listBody_of_hidden (copy : ListCopy) {tree : List FsNode}
    (h : ∀ entry ∈ tree, ¬ entry.Visible ignored []) : listBody copy ignored tree = [] := by
  have hcollect : collect copy.dirKey ignored tree = ⟨[], [PathBuf.current], [], 0⟩ := by
    rw [collect, walkDirs]
    simp only [visitEntries_of_hidden h]
    rw [walkDirs]
  rw [listBody, hcollect]
  refine renderDir_current_eq_nil (fun dir hdir hcurrent => ?_) fun file hfile => ?_
  · exact absurd (List.mem_singleton.mp hdir) hcurrent
  · cases hfile

/-- The listing of entries that are not visible is empty. -/
theorem shows_of_hidden {dir : List FileName} {entries : List FsNode} (depth : Nat)
    (h : ∀ entry ∈ entries, ¬ entry.Visible ignored dir) :
    Shows ignored dir depth entries [] := by
  induction entries with
  | nil => exact .nil dir depth
  | cons entry entries ih =>
      exact .hidden (h entry List.mem_cons_self)
        (ih fun e he => h e (List.mem_cons_of_mem _ he))

/-- Only then is it empty. -/
theorem Shows.hidden_of_flatten_eq_nil {dir : List FileName} {depth : Nat} {entries : List FsNode}
    {blocks : List Text} (h : Shows ignored dir depth entries blocks)
    (hblocks : blocks.flatten = []) : ∀ entry ∈ entries, ¬ entry.Visible ignored dir := by
  induction h with
  | nil => simp
  | hidden hhidden hrest ih =>
      intro e he
      rcases List.mem_cons.mp he with rfl | he
      · exact hhidden
      · exact ih hblocks e he
  | file hvisible hrest =>
      simp [fileLine] at hblocks
  | dir hvisible hinner hrest =>
      simp [dirLine] at hblocks

end Hidden

variable {glob}

/-- **The host lists a tree completely exactly when there is nothing to list**: no directory and
no regular file directly below the root that is not ignored. -/
theorem listsTree_iff (root : PathBuf) (displayRoot : Text) (tree : List FsNode)
    {ignore : List Text} {patterns : List Pattern}
    (hpatterns : compileIgnore glob ignore = .ok patterns) :
    ListsTree glob root displayRoot tree ignore (isIgnored glob patterns) ↔
      ∀ entry ∈ tree, ¬ entry.Visible (isIgnored glob patterns) [] := by
  have hhost : runList glob root tree ignore = .ok (root.display ++ ("/\n" : Text) ++ []) := by
    rw [runList, hpatterns, ← listBody_hostList (isIgnored glob patterns) tree]
    rfl
  constructor
  · rintro ⟨blocks, hshows, hrun, -⟩
    refine hshows.hidden_of_flatten_eq_nil ?_
    have heq := Except.ok.inj (hhost.symm.trans hrun)
    exact (List.append_cancel_left heq).symm
  · intro h
    refine ⟨[], shows_of_hidden 1 h, hhost, ?_⟩
    rw [Guest.runList, hpatterns]
    exact congrArg (fun body => Except.ok (displayRoot ++ ("\n" : Text) ++ body))
      (listBody_of_hidden guestList h)

/-- Patterns of the form `name/**`, as all built-in ones are: they match what lies below a name. -/
def belowGlob : GlobCrate Text where
  new pattern := .ok pattern
  matchesPath pattern path :=
    match path.parts with
    | first :: _ :: _ => first.text ++ ("/**" : Text) = pattern
    | _ => false

theorem compileIgnore_belowGlob : compileIgnore belowGlob [] = .ok ignorePatterns := rfl

def noteFile : FsNode := .file ⟨"a.txt", by decide⟩

/-- A single file. -/
theorem listsTree_noteFile :
    ListsTree belowGlob (PathBuf.ofText "/home/a") "./" [noteFile] []
        (isIgnored belowGlob ignorePatterns) ↔
      ∀ entry ∈ [noteFile], ¬ entry.Visible (isIgnored belowGlob ignorePatterns) [] :=
  listsTree_iff (PathBuf.ofText "/home/a") "./" [noteFile] compileIgnore_belowGlob

/-- The guest lists a single file and the host does not. -/
theorem noteFile_not_listed :
    runList belowGlob (PathBuf.ofText "/home/a") [noteFile] [] = .ok "/home/a/\n" ∧
      Guest.runList belowGlob "./" [noteFile] [] = .ok "./\n  a.txt\n" ∧
      Shows (isIgnored belowGlob ignorePatterns) [] 1 [noteFile] ["  a.txt\n"] ∧
      ¬ ListsTree belowGlob (PathBuf.ofText "/home/a") "./" [noteFile] []
        (isIgnored belowGlob ignorePatterns) := by
  have hguest : Guest.runList belowGlob "./" [noteFile] [] = .ok "./\n  a.txt\n" := by
    decide +kernel
  have hhost : runList belowGlob (PathBuf.ofText "/home/a") [noteFile] [] = .ok "/home/a/\n" := by
    decide +kernel
  have hline : fileLine 1 "a.txt" = ("  a.txt\n" : Text) := by decide +kernel
  have hvisible : noteFile.Visible (isIgnored belowGlob ignorePatterns) [] := by
    show isIgnored belowGlob ignorePatterns _ = false
    decide +kernel
  refine ⟨hhost, hguest, ?_, ?_⟩
  · rw [← hline]
    exact Shows.file_single hvisible
  · rintro ⟨blocks, -, hrun, hrun'⟩
    have hheader : (PathBuf.ofText "/home/a").display ++ ("/\n" : Text) = "/home/a/\n" := by
      decide +kernel
    have hnil : blocks.flatten = [] :=
      List.append_right_eq_self.mp
        ((Except.ok.inj (hhost.symm.trans hrun)).symm.trans hheader.symm)
    have hguestBody := Except.ok.inj (hguest.symm.trans hrun')
    rw [hnil] at hguestBody
    exact absurd hguestBody (by decide +kernel)

end Tools
end SimpleClaw
