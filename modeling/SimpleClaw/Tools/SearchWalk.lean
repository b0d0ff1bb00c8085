import SimpleClaw.Tools.ListTree

/-!
# The walk of the searches

`grep` and `glob` go through everything below a directory on a stack.  A directory that cannot be
read ends the search.  As for `list`, a search begins here with the tree below its root, in the
order in which the directories are read.

* `searchWalk`: the loop, with every entry that it comes across.
* `foundBelow`: the entries below a directory, without a loop.
* `searchWalk_spec`: the loop comes across each of them once, or fails at a directory among them.
-/

namespace SimpleClaw
namespace Tools

/-- An entry, with its names below the root. -/
abbrev FoundEntry := List FileName × FsNode

/-- A directory that is still to be read. -/
abbrev SearchFrame := List FileName × List FsNode

/-! ## The loop -/

def pushDir (dir : List FileName) (stack : List SearchFrame) : FsNode → List SearchFrame
  | .dir name children => (dir ++ [name], children) :: stack
  | .file _ | .other _ => stack

/-- The directories among the entries are put on the stack, the last one on top. -/
def pushDirs (dir : List FileName) (entries : List FsNode) (stack : List SearchFrame) :
    List SearchFrame :=
  entries.foldl (pushDir dir) stack

theorem pending_pushDirs (dir : List FileName) (entries : List FsNode)
    (stack : List SearchFrame) :
    pending (pushDirs dir entries stack) = pending stack + dirCounts entries := by
  induction entries generalizing stack with
  | nil => rfl
  | cons entry entries ih =>
      rw [pushDirs, List.foldl_cons]
      change pending (pushDirs dir entries (pushDir dir stack entry)) = _
      rw [ih, dirCounts]
      cases entry with
      | dir name children =>
          simp only [pushDir, pending, FsNode.dirCount]
          omega
      | file name =>
          simp only [pushDir, FsNode.dirCount]
          omega
      | other name =>
          simp only [pushDir, FsNode.dirCount]
          omega

/-- Every entry in the order in which the loop comes across it, or the first directory that cannot
be read, with the message. -/
def searchWalk (unreadable : List FileName → Option Text) (stack : List SearchFrame) :
    Except (List FileName × Text) (List FoundEntry) :=
  match _h : stack with
  | [] => .ok []
  | (dir, entries) :: stack =>
      match unreadable dir with
      | some message => .error (dir, message)
      | none =>
          (searchWalk unreadable (pushDirs dir entries stack)).map fun found =>
            entries.map (fun entry => (dir ++ [entry.name], entry)) ++ found
termination_by pending stack
decreasing_by
  rw [pending_pushDirs, pending]
  dsimp only
  omega

/-! ## Everything below a directory -/

mutual

/-- The entry and everything below it. -/
def FsNode.withBelow (dir : List FileName) : FsNode → List FoundEntry
  | .file name => [(dir ++ [name], .file name)]
  | .other name => [(dir ++ [name], .other name)]
  | .dir name children => (dir ++ [name], .dir name children) :: foundBelow (dir ++ [name]) children

def foundBelow (dir : List FileName) : List FsNode → List FoundEntry
  | [] => []
  | entry :: entries => entry.withBelow dir ++ foundBelow dir entries

end

/-- The directories among the entries. -/
def foundDirs (found : List FoundEntry) : List (List FileName) :=
  found.filterMap fun entry =>
    match entry.2 with
    | .dir _ _ => some entry.1
    | .file _ | .other _ => none

/-- Everything below what is on the stack. -/
def stackBelow (stack : List SearchFrame) : List FoundEntry :=
  stack.flatMap fun frame => foundBelow frame.1 frame.2

/-- The directories that are on the stack or below one that is. -/
def stackDirs (stack : List SearchFrame) : List (List FileName) :=
  stack.map Prod.fst ++ foundDirs (stackBelow stack)

theorem foundDirs_append (found found' : List FoundEntry) :
    foundDirs (found ++ found') = foundDirs found ++ foundDirs found' :=
  List.filterMap_append

/-- Reading a directory turns what is below it into its entries and what is below these. -/
theorem stackBelow_pushDirs (dir : List FileName) (entries : List FsNode)
    (stack : List SearchFrame) :
    (entries.map (fun entry => (dir ++ [entry.name], entry)) ++
      stackBelow (pushDirs dir entries stack)).Perm
        (foundBelow dir entries ++ stackBelow stack) := by
  induction entries generalizing stack with
  | nil => exact List.Perm.refl _
  | cons entry entries ih =>
      have hrest := ih (pushDir dir stack entry)
      rw [List.map_cons, List.cons_append, pushDirs, List.foldl_cons, foundBelow, List.append_assoc]
      change List.Perm (_ :: (_ ++ stackBelow (pushDirs dir entries (pushDir dir stack entry)))) _
      cases entry with
      | file name => exact hrest.cons _
      | other name => exact hrest.cons _
      | dir name children =>
          refine (hrest.cons _).trans ?_
          rw [FsNode.withBelow, List.cons_append]
          refine List.Perm.cons _ ?_
          change (foundBelow dir entries ++ (foundBelow (dir ++ [name]) children ++
            stackBelow stack)).Perm _
          rw [← List.append_assoc, ← List.append_assoc]
          exact List.perm_append_comm.append_right _

/-- The same directories are left to be read, less the one that has been. -/
theorem mem_stackDirs_pushDirs {dir : List FileName} {entries : List FsNode}
    {stack : List SearchFrame} {names : List FileName} :
    names ∈ stackDirs (pushDirs dir entries stack) ↔
      names ∈ stack.map Prod.fst ++ foundDirs (foundBelow dir entries ++ stackBelow stack) := by
  have hpushed : names ∈ (pushDirs dir entries stack).map Prod.fst ↔
      names ∈ foundDirs (entries.map fun entry => (dir ++ [entry.name], entry)) ∨
        names ∈ stack.map Prod.fst := by
    induction entries generalizing stack with
    | nil => simp [pushDirs, foundDirs]
    | cons entry entries ih =>
        rw [pushDirs, List.foldl_cons]
        change names ∈ (pushDirs dir entries (pushDir dir stack entry)).map Prod.fst ↔ _
        rw [ih]
        cases entry with
        | file name => exact Iff.rfl
        | other name => exact Iff.rfl
        | dir name children =>
            change _ ∨ names ∈ (dir ++ [name]) :: stack.map Prod.fst ↔
              names ∈ (dir ++ [name]) :: foundDirs _ ∨ _
            rw [List.mem_cons, List.mem_cons, or_left_comm, or_assoc]
  have hfound := ((stackBelow_pushDirs dir entries stack).filterMap fun entry : FoundEntry =>
    match entry.2 with
    | .dir _ _ => some entry.1
    | .file _ | .other _ => none).mem_iff (a := names)
  change names ∈ foundDirs _ ↔ names ∈ foundDirs _ at hfound
  rw [foundDirs_append, List.mem_append] at hfound
  rw [stackDirs, List.mem_append, hpushed, List.mem_append, ← hfound,
    or_comm (a := _ ∈ foundDirs _), or_assoc]

/-- **The walk** comes across everything once, unless a directory cannot be read. -/
theorem searchWalk_spec (unreadable : List FileName → Option Text) (stack : List SearchFrame) :
    match searchWalk unreadable stack with
    | .ok found => found.Perm (stackBelow stack) ∧ ∀ dir ∈ stackDirs stack, unreadable dir = none
    | .error failure => failure.1 ∈ stackDirs stack ∧ unreadable failure.1 = some failure.2 := by
  induction stack using searchWalk.induct unreadable with
  | case1 =>
      rw [searchWalk]
      exact ⟨List.Perm.refl _, fun _ hdir => by cases hdir⟩
  | case2 dir entries stack message hmessage =>
      rw [searchWalk, hmessage]
      exact ⟨List.mem_cons_self, hmessage⟩
  | case3 dir entries stack hreadable ih =>
      rw [searchWalk, hreadable]
      have hdirs : ∀ names, names ∈ stackDirs ((dir, entries) :: stack) ↔
          names = dir ∨ names ∈ stackDirs (pushDirs dir entries stack) := by
        intro names
        rw [mem_stackDirs_pushDirs]
        exact List.mem_cons
      cases hrest : searchWalk unreadable (pushDirs dir entries stack) with
      | error failure =>
          rw [hrest] at ih
          exact ⟨(hdirs _).mpr (.inr ih.1), ih.2⟩
      | ok found =>
          rw [hrest] at ih
          refine ⟨?_, fun names hnames => ?_⟩
          · exact (ih.1.append_left _).trans (stackBelow_pushDirs dir entries stack)
          · rcases (hdirs names).mp hnames with rfl | hnames
            · exact hreadable
            · exact ih.2 names hnames

/-! ## Names -/

mutual

/-- Entries of one directory have different names. -/
def FsNode.Distinct : FsNode → Prop
  | .file _ | .other _ => True
  | .dir _ children => DistinctNames children

def DistinctNames : List FsNode → Prop
  | [] => True
  | entry :: entries =>
      (∀ other ∈ entries, other.name ≠ entry.name) ∧ entry.Distinct ∧ DistinctNames entries

end

mutual

theorem FsNode.exists_of_mem_withBelow {dir : List FileName} {entry : FsNode} {found : FoundEntry}
    (h : found ∈ entry.withBelow dir) : ∃ names, found.1 = dir ++ entry.name :: names := by
  match entry with
  | .file name =>
      obtain rfl := List.mem_singleton.mp h
      exact ⟨[], rfl⟩
  | .other name =>
      obtain rfl := List.mem_singleton.mp h
      exact ⟨[], rfl⟩
  | .dir name children =>
      rcases List.mem_cons.mp h with rfl | h
      · exact ⟨[], rfl⟩
      · obtain ⟨child, -, names, hnames⟩ := exists_of_mem_foundBelow h
        exact ⟨child.name :: names, by rw [hnames, List.append_assoc]; rfl⟩

/-- What is below a directory is named by one of its entries first. -/
theorem exists_of_mem_foundBelow {dir : List FileName} {entries : List FsNode}
    {found : FoundEntry} (h : found ∈ foundBelow dir entries) :
    ∃ entry ∈ entries, ∃ names, found.1 = dir ++ entry.name :: names := by
  match entries with
  | [] => cases h
  | entry :: entries =>
      rcases List.mem_append.mp h with h | h
      · exact ⟨entry, List.mem_cons_self, FsNode.exists_of_mem_withBelow h⟩
      · obtain ⟨other, hother, hnames⟩ := exists_of_mem_foundBelow h
        exact ⟨other, List.mem_cons_of_mem _ hother, hnames⟩

end

mutual

theorem FsNode.nodup_withBelow {entry : FsNode} (h : entry.Distinct) (dir : List FileName) :
    ((entry.withBelow dir).map Prod.fst).Nodup := by
  match entry, h with
  | .file name, _ => exact List.nodup_singleton _
  | .other name, _ => exact List.nodup_singleton _
  | .dir name children, h =>
      refine List.nodup_cons.mpr ⟨?_, nodup_foundBelow h (dir ++ [name])⟩
      intro hmem
      obtain ⟨found, hfound, heq⟩ := List.mem_map.mp hmem
      obtain ⟨child, -, names, hnames⟩ := exists_of_mem_foundBelow hfound
      rw [hnames] at heq
      have hlength := congrArg List.length heq
      simp only [List.length_append, List.length_cons] at hlength
      omega

/-- **Below a directory there are no two entries of the same names.** -/
theorem nodup_foundBelow {entries : List FsNode} (h : DistinctNames entries)
    (dir : List FileName) : ((foundBelow dir entries).map Prod.fst).Nodup := by
  match entries, h with
  | [], _ => exact List.nodup_nil
  | entry :: entries, ⟨hname, hentry, hentries⟩ =>
      rw [foundBelow, List.map_append]
      refine (FsNode.nodup_withBelow hentry dir).append (nodup_foundBelow hentries dir) ?_
      intro path hpath hpath'
      obtain ⟨found, hfound, rfl⟩ := List.mem_map.mp hpath
      obtain ⟨found', hfound', heq⟩ := List.mem_map.mp hpath'
      obtain ⟨names, hnames⟩ := FsNode.exists_of_mem_withBelow hfound
      obtain ⟨other, hother, names', hnames'⟩ := exists_of_mem_foundBelow hfound'
      rw [hnames, hnames'] at heq
      exact hname other hother (List.cons.inj (List.append_cancel_left heq)).1

end

end Tools
end SimpleClaw
