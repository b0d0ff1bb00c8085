import Mathlib.Data.Char
import Mathlib.Data.List.Lex
import Mathlib.Data.List.Sort
import SimpleClaw.Error
import SimpleClaw.Lib.Paging
import SimpleClaw.Path

/-!
# The read tool

`read` shows the lines of a file or the entries of a directory from an offset on, as many as its
limit allows, and ends with a footer that says at which offset to go on.  The host and the guest
have a copy each, which differ in how they word what the file system refuses.

A call begins here once its path has been resolved, with what is at the path.  Offsets and limits
are natural numbers, as they are once the arguments have been deserialized.

* `executeDirect`, `Guest.run`: a call on the host and in the guest.
* `readFooters`: what the end of an output says; `clear_readFooters`: it says one thing.
* `windowed_executeDirect`, `windowed_guest`: every output shows the items from its offset on.
* `read_covers`: following the offsets shows everything once and in order, on both sides alike.
-/

namespace SimpleClaw
namespace Tools

/-! ## What is read -/

/-- An entry of a directory: its name and whether it is a directory itself, or why it cannot be
said. -/
inductive DirEntry where
  | entry (name : Text) (isDir : Bool)
  | notUtf8
  | unreadable (error : Text)
  deriving DecidableEq

/-- What is at a path: a file with its text, or a directory with its entries in no order. -/
inductive ReadTarget where
  | file (content : Except Text Text)
  | directory (entries : Except Text (List DirEntry))

/-- How a copy of the tool words its errors. -/
structure ReadErrors (ε : Type) where
  unread : PathBuf → Text → ε
  unlisted : PathBuf → Text → ε
  entry : Text → ε
  tool : Text → ε

def hostErrors : ReadErrors FrameworkError where
  unread _ e := .io e
  unlisted _ e := .io e
  entry e := .io e
  tool message := .tool message

def guestErrors : ReadErrors Text where
  unread path e := ("failed to read " : Text) ++ path.display ++ (": " : Text) ++ e
  unlisted path e := ("failed to list " : Text) ++ path.display ++ (": " : Text) ++ e
  entry e := e
  tool message := message

def defaultReadLimit : Nat := 2000

def maxLineLength : Nat := 2000

/-! ## Files -/

/-- A line as it is shown, cut if it is too long. -/
def shownLine (line : Text) : Text :=
  if maxLineLength < line.length then line.take maxLineLength ++ ("..." : Text) else line

def numberedLine (number : Nat) (line : Text) : Text :=
  Text.decimal number ++ (": " : Text) ++ shownLine line

def outOfRange (offset totalLines : Nat) : Text :=
  ("Offset " : Text) ++ Text.decimal offset ++ (" is out of range for this file (" : Text) ++
    Text.decimal totalLines ++ (" lines)" : Text)

def fileOutput (path : PathBuf) (selected : List Text) (footer : Text) : Text :=
  Text.joinWith '\n'
    ([("<path>" : Text) ++ path.display ++ ("</path>" : Text), "<type>file</type>", "<content>"] ++
      selected ++ [[], footer, "</content>"])

/-- The last words of a footer that says where to go on. -/
def useOffset (offset : Nat) : Text :=
  ("Use offset=" : Text) ++ Text.decimal offset ++ (" to continue.)" : Text)

/-- The footer of a file's output. -/
def fileFooter (offset lastReadLine totalLines : Nat) : Text :=
  if lastReadLine < totalLines then
    ("(Showing lines " : Text) ++ Text.decimal offset ++ ("-" : Text) ++
      Text.decimal lastReadLine ++ (" of " : Text) ++ Text.decimal totalLines ++ (". " : Text) ++
      useOffset (lastReadLine + 1)
  else ("(End of file - total " : Text) ++ Text.decimal totalLines ++ (" lines)" : Text)

/-- `render_file_output` -/
def renderFile {ε : Type} (errors : ReadErrors ε) (path : PathBuf) (offset limit : Nat)
    (content : Except Text Text) : Except ε Text :=
  match content with
  | .error e => .error (errors.unread path e)
  | .ok content =>
      let lines := Text.lines content
      let totalLines := lines.length
      if totalLines = 0 ∧ offset ≠ 1 then .error (errors.tool (outOfRange offset 0))
      else if totalLines ≠ 0 ∧ totalLines < offset then
        .error (errors.tool (outOfRange offset totalLines))
      else
        let start := offset - 1
        let selected := ((lines.drop start).take limit).mapIdx fun idx line =>
          numberedLine (idx + offset) line
        let lastReadLine := if selected = [] then offset - 1 else offset + selected.length - 1
        .ok (fileOutput path selected (fileFooter offset lastReadLine totalLines))

def renderFileOutput : PathBuf → Nat → Nat → Except Text Text → Except FrameworkError Text :=
  renderFile hostErrors

def Guest.renderFileOutput : PathBuf → Nat → Nat → Except Text Text → Except Text Text :=
  renderFile guestErrors

/-! ## Directories -/

/-- The name of an entry as it is shown. -/
def entryName {ε : Type} (errors : ReadErrors ε) : DirEntry → Except ε Text
  | .entry name isDir => .ok (if isDir then name ++ ("/" : Text) else name)
  | .notUtf8 => .error (errors.tool "directory entry is not utf-8")
  | .unreadable e => .error (errors.entry e)

def sortNames (names : List Text) : List Text := names.insertionSort fun a b => a ≤ b

/-- The names of the entries, or the first error there is. -/
def entryNames {ε : Type} (errors : ReadErrors ε) (path : PathBuf)
    (entries : Except Text (List DirEntry)) : Except ε (List Text) :=
  match entries with
  | .error e => .error (errors.unlisted path e)
  | .ok entries => (entries.mapM (entryName errors)).map sortNames

def directoryOutput (path : PathBuf) (selected : List Text) (footer : Text) : Text :=
  Text.joinWith '\n'
    [("<path>" : Text) ++ path.display ++ ("</path>" : Text), "<type>directory</type>",
      "<entries>", Text.joinWith '\n' selected, '\n' :: footer, "</entries>"]

/-- The footer of a directory's output. -/
def directoryFooter (offset selected total : Nat) : Text :=
  if offset - 1 + selected < total then
    ("(Showing " : Text) ++ Text.decimal selected ++ (" of " : Text) ++ Text.decimal total ++
      (" entries. " : Text) ++ useOffset (offset + selected)
  else ("(" : Text) ++ Text.decimal total ++ (" entries)" : Text)

def directoryPage (path : PathBuf) (offset limit : Nat) (entries : List Text) : Text :=
  let selected := (entries.drop (offset - 1)).take limit
  directoryOutput path selected (directoryFooter offset selected.length entries.length)

/-- The host's copy checks the offset a second time. -/
def renderDirectoryOutput (path : PathBuf) (offset limit : Nat)
    (entries : Except Text (List DirEntry)) : Except FrameworkError Text :=
  match entryNames hostErrors path entries with
  | .error e => .error e
  | .ok names =>
      if offset = 0 then .error (.tool "read offset must be greater than or equal to 1")
      else .ok (directoryPage path offset limit names)

def Guest.renderDirectoryOutput (path : PathBuf) (offset limit : Nat)
    (entries : Except Text (List DirEntry)) : Except Text Text :=
  (entryNames guestErrors path entries).map (directoryPage path offset limit)

/-! ## Calls -/

/-- The checks of the arguments, with their defaults. -/
def readWindow {ε : Type} (errors : ReadErrors ε) (offset limit : Option Nat) :
    Except ε (Nat × Nat) :=
  if offset.getD 1 = 0 then
    .error (errors.tool "read offset must be greater than or equal to 1")
  else if limit.getD defaultReadLimit = 0 then
    .error (errors.tool "read limit must be greater than or equal to 1")
  else .ok (offset.getD 1, limit.getD defaultReadLimit)

/-- A call of the host's tool. -/
def executeDirect (path : PathBuf) (target : ReadTarget) (offset limit : Option Nat) :
    Except FrameworkError Text :=
  match readWindow hostErrors offset limit with
  | .error e => .error e
  | .ok (offset, limit) =>
      match target with
      | .directory entries => renderDirectoryOutput path offset limit entries
      | .file content => renderFileOutput path offset limit content

/-- A call of the guest's tool. -/
def Guest.run (path : PathBuf) (target : ReadTarget) (offset limit : Option Nat) :
    Except Text Text :=
  match readWindow guestErrors offset limit with
  | .error e => .error e
  | .ok (offset, limit) =>
      match target with
      | .directory entries => Guest.renderDirectoryOutput path offset limit entries
      | .file content => Guest.renderFileOutput path offset limit content

example : executeDirect (PathBuf.ofText "/n") (.file (.ok "a\nb\nc\n")) (some 2) (some 1) =
    .ok "<path>/n</path>\n<type>file</type>\n<content>\n2: b\n\n(Showing lines 2-2 of 3. Use offset=3 to continue.)\n</content>".toList := by
  decide +kernel

/-! ## What the end of an output says -/

/-- The output says at which offset to go on. -/
def SaysMore (out : Text) (offset : Nat) : Prop :=
  useOffset offset ++ '\n' :: ("</content>" : Text) <:+ out ∨
    useOffset offset ++ '\n' :: ("</entries>" : Text) <:+ out

/-- The output says that there is no more. -/
def SaysEnd (out : Text) : Prop :=
  ∃ total, ("(End of file - total " : Text) ++ Text.decimal total ++ (" lines)" : Text) ++
      '\n' :: ("</content>" : Text) <:+ out ∨
    ("(" : Text) ++ Text.decimal total ++ (" entries)" : Text) ++
      '\n' :: ("</entries>" : Text) <:+ out

/-- What an output says of the ones after it, by its last words. -/
def readFooters : Paging.Footers Text where
  continues := SaysMore
  ends := SaysEnd

section LastWords

variable {s t out closing closing' : Text}

/-- A text has one ending of each length. -/
theorem eq_of_suffix (hs : s <:+ out) (ht : t <:+ out) (hlength : s.length = t.length) : s = t :=
  (List.suffix_of_suffix_length_le hs ht hlength.le).eq_of_length hlength

/-- Outputs with closings of one length that end alike have one closing. -/
theorem closing_unique (h : s ++ '\n' :: closing <:+ out) (h' : t ++ '\n' :: closing' <:+ out)
    (hlength : closing.length = closing'.length) : closing = closing' := by
  have hend (a b : Text) : b <:+ a ++ '\n' :: b :=
    (List.suffix_cons '\n' b).trans (List.suffix_append a _)
  exact eq_of_suffix ((hend s closing).trans h) ((hend t closing').trans h') hlength

/-- The last characters before one closing are the same. -/
theorem stop_unique {a b stop stop' : Text} (h : (a ++ stop) ++ '\n' :: closing <:+ out)
    (h' : (b ++ stop') ++ '\n' :: closing <:+ out) (hlength : stop.length = stop'.length) :
    stop = stop' := by
  have hend (front stop : Text) :
      stop ++ '\n' :: closing <:+ (front ++ stop) ++ '\n' :: closing := by
    rw [List.append_assoc]
    exact List.suffix_append front _
  have heq := eq_of_suffix ((hend a stop).trans h) ((hend b stop').trans h')
    (by rw [List.length_append, List.length_append, hlength])
  exact List.append_cancel_right heq

/-- What comes after the last equals sign is the same. -/
theorem number_unique {a b word : Text} (hnumber : '=' ∉ s ++ word) (hnumber' : '=' ∉ t ++ word)
    (hclosing : '=' ∉ closing)
    (h : ((a ++ ['=']) ++ s ++ word) ++ '\n' :: closing <:+ out)
    (h' : ((b ++ ['=']) ++ t ++ word) ++ '\n' :: closing <:+ out) : s = t := by
  have hshape (front a s : Text) : front ++ (((a ++ ['=']) ++ s ++ word) ++ '\n' :: closing) =
      (front ++ a) ++ '=' :: (s ++ word ++ '\n' :: closing) := by simp
  obtain ⟨front, hfront⟩ := h
  obtain ⟨front', hfront'⟩ := h'
  have heq := hfront.trans hfront'.symm
  rw [hshape, hshape] at heq
  have htail (n : Text) (hn : '=' ∉ n ++ word) : '=' ∉ n ++ word ++ '\n' :: closing := by
    rw [List.mem_append, List.mem_cons, not_or, not_or]
    exact ⟨hn, by decide, hclosing⟩
  have hrest := (Text.append_cons_inj_of_notMem (htail s hnumber) (htail t hnumber') heq).2
  exact List.append_cancel_right (List.append_cancel_right hrest)

end LastWords

/-- The last words of the outputs, taken apart. -/
theorem lastWords :
    ("Use offset=" : Text) = ("Use offset" : Text) ++ ['='] ∧
      (" to continue.)" : Text) = (" to continue" : Text) ++ (".)" : Text) ∧
      (" lines)" : Text) = (" line" : Text) ++ ("s)" : Text) ∧
      (" entries)" : Text) = (" entrie" : Text) ++ ("s)" : Text) := by
  decide +kernel

/-- There is one equals sign, the one before the offset. -/
theorem equals_notMem :
    '=' ∉ (" to continue.)" : Text) ∧ '=' ∉ ("</content>" : Text) ∧
      '=' ∉ ("</entries>" : Text) := by
  decide +kernel

/-- The two closings are of one length and not the same. -/
theorem closings_apart : ("</content>" : Text).length = ("</entries>" : Text).length ∧
    ("</content>" : Text) ≠ ("</entries>" : Text) := by
  decide +kernel

/-- Whether there is more shows in the last two characters before the closing. -/
theorem stops_apart : (".)" : Text).length = ("s)" : Text).length ∧
    (".)" : Text) ≠ ("s)" : Text) := by
  decide +kernel

theorem useOffset_eq (offset : Nat) : useOffset offset =
    ((("Use offset" : Text) ++ ['=']) ++ Text.decimal offset) ++ (" to continue.)" : Text) :=
  congrArg (fun word => word ++ Text.decimal offset ++ (" to continue.)" : Text)) lastWords.1

theorem useOffset_stop (offset : Nat) : useOffset offset =
    (("Use offset=" : Text) ++ Text.decimal offset ++ (" to continue" : Text)) ++
      (".)" : Text) :=
  (congrArg (fun word => ("Use offset=" : Text) ++ Text.decimal offset ++ word)
    lastWords.2.1).trans (List.append_assoc _ _ _).symm

theorem fileEnd_stop (total : Nat) :
    ("(End of file - total " : Text) ++ Text.decimal total ++ (" lines)" : Text) =
      (("(End of file - total " : Text) ++ Text.decimal total ++ (" line" : Text)) ++
        ("s)" : Text) :=
  (congrArg (fun word => ("(End of file - total " : Text) ++ Text.decimal total ++ word)
    lastWords.2.2.1).trans (List.append_assoc _ _ _).symm

theorem directoryEnd_stop (total : Nat) :
    ("(" : Text) ++ Text.decimal total ++ (" entries)" : Text) =
      (("(" : Text) ++ Text.decimal total ++ (" entrie" : Text)) ++ ("s)" : Text) :=
  (congrArg (fun word => ("(" : Text) ++ Text.decimal total ++ word)
    lastWords.2.2.2).trans (List.append_assoc _ _ _).symm

theorem offset_unique {closing out : Text} (hclosing : '=' ∉ closing) {k k' : Nat}
    (h : useOffset k ++ '\n' :: closing <:+ out) (h' : useOffset k' ++ '\n' :: closing <:+ out) :
    k = k' := by
  rw [useOffset_eq] at h h'
  have hnumber (n : Nat) : '=' ∉ Text.decimal n ++ (" to continue.)" : Text) := by
    rw [List.mem_append, not_or]
    exact ⟨Text.notMem_decimal (show ('=' : Char).isDigit = false from rfl) n, equals_notMem.1⟩
  exact Text.decimal_injective (number_unique (hnumber k) (hnumber k') hclosing h h')

/-- **The end of an output says one thing.** -/
theorem clear_readFooters : readFooters.Clear where
  unique out k k' h h' := by
    rcases h with h | h <;> rcases h' with h' | h'
    · exact offset_unique equals_notMem.2.1 h h'
    · exact absurd (closing_unique h h' closings_apart.1) closings_apart.2
    · exact absurd (closing_unique h' h closings_apart.1) closings_apart.2
    · exact offset_unique equals_notMem.2.2 h h'
  apart out k h hends := by
    obtain ⟨total, h' | h'⟩ := hends <;> rcases h with h | h
    · rw [useOffset_stop] at h
      rw [fileEnd_stop] at h'
      exact absurd (stop_unique h h' stops_apart.1) stops_apart.2
    · exact absurd (closing_unique h' h closings_apart.1) closings_apart.2
    · exact absurd (closing_unique h h' closings_apart.1) closings_apart.2
    · rw [useOffset_stop] at h
      rw [directoryEnd_stop] at h'
      exact absurd (stop_unique h h' stops_apart.1) stops_apart.2

/-- An output of a file ends with its footer. -/
theorem suffix_fileOutput (path : PathBuf) (selected : List Text) (footer : Text) :
    footer ++ '\n' :: ("</content>" : Text) <:+ fileOutput path selected footer := by
  have hsplit : [("<path>" : Text) ++ path.display ++ ("</path>" : Text), "<type>file</type>",
      "<content>"] ++ selected ++ [[], footer, "</content>"] =
        ([("<path>" : Text) ++ path.display ++ ("</path>" : Text), "<type>file</type>",
          "<content>"] ++ selected ++ [[]]) ++ [footer, "</content>"] := by simp
  rw [fileOutput, hsplit, Text.joinWith_append '\n' (by simp) (by simp), Text.joinWith_cons_cons,
    Text.joinWith_singleton]
  exact (List.suffix_cons _ _).trans (List.suffix_append _ _)

theorem suffix_directoryOutput (path : PathBuf) (selected : List Text) (footer : Text) :
    footer ++ '\n' :: ("</entries>" : Text) <:+ directoryOutput path selected footer := by
  simp only [directoryOutput, Text.joinWith_cons_cons, Text.joinWith_singleton]
  refine List.IsSuffix.trans ?_ (List.suffix_append _ _)
  refine List.IsSuffix.trans ?_ (List.suffix_cons _ _)
  refine List.IsSuffix.trans ?_ (List.suffix_append _ _)
  refine List.IsSuffix.trans ?_ (List.suffix_cons _ _)
  refine List.IsSuffix.trans ?_ (List.suffix_append _ _)
  refine List.IsSuffix.trans ?_ (List.suffix_cons _ _)
  refine List.IsSuffix.trans ?_ (List.suffix_append _ _)
  exact (List.suffix_cons _ _).trans (List.suffix_cons _ _)

/-- What a footer ends with, its output ends with. -/
theorem suffix_append_of_suffix {s footer : Text} (h : s <:+ footer) (closing : Text) :
    s ++ '\n' :: closing <:+ footer ++ '\n' :: closing := by
  obtain ⟨front, rfl⟩ := h
  rw [List.append_assoc]
  exact List.suffix_append front _

/-- A footer of a file that has more lines says so. -/
theorem saysMore_fileOutput {path : PathBuf} {selected : List Text} {offset last total : Nat}
    (h : last < total) :
    SaysMore (fileOutput path selected (fileFooter offset last total)) (last + 1) := by
  have hfooter : useOffset (last + 1) <:+ fileFooter offset last total := by
    rw [fileFooter, if_pos h]
    exact List.suffix_append _ _
  exact .inl ((suffix_append_of_suffix hfooter _).trans (suffix_fileOutput path selected _))

theorem saysEnd_fileOutput {path : PathBuf} {selected : List Text} {offset last total : Nat}
    (h : total ≤ last) : SaysEnd (fileOutput path selected (fileFooter offset last total)) := by
  refine ⟨total, .inl ?_⟩
  have hend := suffix_fileOutput path selected (fileFooter offset last total)
  rwa [fileFooter, if_neg (not_lt.mpr h)] at hend ⊢

theorem saysMore_directoryOutput {path : PathBuf} {names : List Text}
    {offset selected total : Nat} (h : offset - 1 + selected < total) :
    SaysMore (directoryOutput path names (directoryFooter offset selected total))
      (offset + selected) := by
  have hfooter : useOffset (offset + selected) <:+ directoryFooter offset selected total := by
    rw [directoryFooter, if_pos h]
    exact List.suffix_append _ _
  exact .inr ((suffix_append_of_suffix hfooter _).trans (suffix_directoryOutput path names _))

theorem saysEnd_directoryOutput {path : PathBuf} {names : List Text} {offset selected total : Nat}
    (h : total ≤ offset - 1 + selected) :
    SaysEnd (directoryOutput path names (directoryFooter offset selected total)) := by
  refine ⟨total, .inr ?_⟩
  have hend := suffix_directoryOutput path names (directoryFooter offset selected total)
  rwa [directoryFooter, if_neg (not_lt.mpr h)] at hend ⊢

/-! ## Windows -/

/-- The lines of a file as they are shown, each with its number. -/
def numberedLines (content : Text) : List Text :=
  (Text.lines content).mapIdx fun idx line => numberedLine (idx + 1) line

theorem length_numberedLines (content : Text) :
    (numberedLines content).length = (Text.lines content).length := List.length_mapIdx

/-- Numbering from the first line that is shown numbers all lines alike. -/
theorem mapIdx_window (lines : List Text) (start limit : Nat) :
    ((lines.drop start).take limit).mapIdx (fun idx line => numberedLine (idx + (start + 1)) line) =
      ((lines.mapIdx fun idx line => numberedLine (idx + 1) line).drop start).take limit := by
  refine List.ext_getElem (by simp) fun n h h' => ?_
  simp only [List.getElem_mapIdx, List.getElem_take, List.getElem_drop]
  exact congrArg (fun number => numberedLine number _) (by omega)

/-- **Every output of a file shows the lines from its offset on.** -/
theorem windowed_renderFile {ε : Type} (errors : ReadErrors ε) (path : PathBuf) (content : Text)
    (limit : Nat) : Paging.Windowed readFooters
      (fun chunk out => ∃ footer, out = fileOutput path chunk footer)
      (fun offset => renderFile errors path offset limit (.ok content)) (numberedLines content)
      limit where
  window := by
    intro start hstart
    rw [length_numberedLines] at hstart ⊢
    have hempty : ¬ ((Text.lines content).length = 0 ∧ start + 1 ≠ 1) := by omega
    have hinside : ¬ ((Text.lines content).length ≠ 0 ∧
        (Text.lines content).length < start + 1) := by omega
    have hselected := mapIdx_window (Text.lines content) start limit
    have hlength : (((numberedLines content).drop start).take limit).length =
        min limit ((Text.lines content).length - start) := by
      rw [List.length_take, List.length_drop, length_numberedLines]
    have hlast : (if ((numberedLines content).drop start).take limit = [] then start + 1 - 1
        else start + 1 + (((numberedLines content).drop start).take limit).length - 1) =
          start + min limit ((Text.lines content).length - start) := by
      rw [← hlength]
      split
      · next hnil => rw [hnil, List.length_nil]; omega
      · omega
    refine ⟨fileOutput path (((numberedLines content).drop start).take limit)
      (fileFooter (start + 1) (start + min limit ((Text.lines content).length - start))
        (Text.lines content).length), ?_, ⟨_, rfl⟩, fun hmore => ?_, fun hend => ?_⟩
    · simp only [renderFile, if_neg hempty, if_neg hinside, Nat.add_sub_cancel, hselected]
      exact congrArg (fun last => Except.ok (fileOutput path _ (fileFooter (start + 1) last _)))
        hlast
    · have hfull : min limit ((Text.lines content).length - start) = limit := by omega
      rw [hfull]
      exact saysMore_fileOutput hmore
    · exact saysEnd_fileOutput (by omega)

/-- **Every output of a directory shows the entries from its offset on.** -/
theorem windowed_directoryPage {ε : Type} (path : PathBuf) (names : List Text) (limit : Nat) :
    Paging.Windowed readFooters (fun chunk out => ∃ footer, out = directoryOutput path chunk footer)
      (fun offset => (.ok (directoryPage path offset limit names) : Except ε Text)) names
      limit where
  window := by
    intro start hstart
    have hlength : ((names.drop start).take limit).length = min limit (names.length - start) := by
      rw [List.length_take, List.length_drop]
    have hpage : directoryPage path (start + 1) limit names =
        directoryOutput path ((names.drop start).take limit)
          (directoryFooter (start + 1) (min limit (names.length - start)) names.length) := by
      rw [← hlength]
      rfl
    rw [hpage]
    refine ⟨_, rfl, ⟨_, rfl⟩, fun hmore => ?_, fun hend => ?_⟩
    · have hfull : min limit (names.length - start) = limit := by omega
      have hoffset : start + limit + 1 = start + 1 + min limit (names.length - start) := by omega
      rw [hoffset]
      exact saysMore_directoryOutput (by omega)
    · exact saysEnd_directoryOutput (by omega)

/-! ## Everything is read -/

/-- An entry as it is shown, if it can be. -/
def DirEntry.shown : DirEntry → Option Text
  | .entry name isDir => some (if isDir then name ++ ("/" : Text) else name)
  | .notUtf8 => none
  | .unreadable _ => none

/-- All there is to show: the numbered lines of a file, or the sorted entries of a directory. -/
def ReadTarget.items : ReadTarget → Option (List Text)
  | .file content => content.toOption.map numberedLines
  | .directory entries =>
      entries.toOption.bind fun entries => (entries.mapM DirEntry.shown).map sortNames

/-- The output shows exactly these lines or entries. -/
def ReadTarget.Shows (target : ReadTarget) (path : PathBuf) (chunk : List Text) (out : Text) :
    Prop :=
  match target with
  | .file _ => ∃ footer, out = fileOutput path chunk footer
  | .directory _ => ∃ footer, out = directoryOutput path chunk footer

theorem mapM_entryName {ε : Type} (errors : ReadErrors ε) {entries : List DirEntry}
    {names : List Text} (h : entries.mapM DirEntry.shown = some names) :
    entries.mapM (entryName errors) = .ok names := by
  induction entries generalizing names with
  | nil =>
      obtain rfl : [] = names := by simpa using h
      rfl
  | cons e entries ih =>
      rw [List.mapM_cons] at h ⊢
      cases e with
      | entry name isDir =>
          cases hrest : entries.mapM DirEntry.shown with
          | none => simp [hrest, DirEntry.shown] at h
          | some rest =>
              rw [ih hrest]
              simp only [hrest, DirEntry.shown] at h
              exact congrArg Except.ok (Option.some.inj h)
      | notUtf8 => simp [DirEntry.shown] at h
      | unreadable e => simp [DirEntry.shown] at h

/-- **Following the offsets**: there is one way to do so, and the outputs show these chunks. -/
structure PagesCover {ε : Type} (shows : List Text → Text → Prop) (read : Nat → Except ε Text)
    (chunks : List (List Text)) (pages : List (Nat × Text)) : Prop where
  followed : Paging.Followed readFooters read 1 pages
  only : ∀ pages', Paging.Followed readFooters read 1 pages' → pages' = pages
  shown : List.Forall₂ (fun page chunk => shows chunk page.2) pages chunks

theorem exists_covers {ε : Type} {shows : List Text → Text → Prop} {read : Nat → Except ε Text}
    {items : List Text} {limit : Nat} (hlimit : 0 < limit)
    (h : Paging.Windowed readFooters shows read items limit) :
    ∃ pages, PagesCover shows read (Paging.pagesOf limit items) pages ∧
      pages.map Prod.fst = Paging.positions limit 1 (Paging.pagesOf limit items).length := by
  obtain ⟨pages, hfollowed, hpositions, hshown⟩ := h.followed hlimit
  exact ⟨pages, ⟨hfollowed, fun _ h => h.unique clear_readFooters hfollowed, hshown⟩, hpositions⟩

theorem readWindow_some {ε : Type} (errors : ReadErrors ε) (start : Nat) {limit : Nat}
    (hlimit : 0 < limit) :
    readWindow errors (some (start + 1)) (some limit) = .ok (start + 1, limit) := by
  simp [readWindow, hlimit.ne']

/-- **The outputs of the host's tool show what is there.** -/
theorem windowed_executeDirect (path : PathBuf) {target : ReadTarget} {items : List Text}
    (hitems : target.items = some items) {limit : Nat} (hlimit : 0 < limit) :
    Paging.Windowed readFooters (target.Shows path)
      (fun offset => executeDirect path target (some offset) (some limit)) items limit := by
  cases target with
  | file content =>
      cases content with
      | error e => cases hitems
      | ok content =>
          obtain rfl := Option.some.inj hitems
          refine (windowed_renderFile hostErrors path content limit).congr fun start => ?_
          simp only [executeDirect, readWindow_some _ _ hlimit, renderFileOutput]
  | directory entries =>
      cases entries with
      | error e => cases hitems
      | ok entries =>
          obtain ⟨names, hnames, rfl⟩ := Option.map_eq_some_iff.mp hitems
          refine (windowed_directoryPage path (sortNames names) limit).congr fun start => ?_
          simp only [executeDirect, readWindow_some _ _ hlimit, renderDirectoryOutput, entryNames,
            mapM_entryName hostErrors hnames]
          rfl

/-- **The outputs of the guest's tool show what is there.** -/
theorem windowed_guest (path : PathBuf) {target : ReadTarget} {items : List Text}
    (hitems : target.items = some items) {limit : Nat} (hlimit : 0 < limit) :
    Paging.Windowed readFooters (target.Shows path)
      (fun offset => Guest.run path target (some offset) (some limit)) items limit := by
  cases target with
  | file content =>
      cases content with
      | error e => cases hitems
      | ok content =>
          obtain rfl := Option.some.inj hitems
          refine (windowed_renderFile guestErrors path content limit).congr fun start => ?_
          simp only [Guest.run, readWindow_some _ _ hlimit, Guest.renderFileOutput]
  | directory entries =>
      cases entries with
      | error e => cases hitems
      | ok entries =>
          obtain ⟨names, hnames, rfl⟩ := Option.map_eq_some_iff.mp hitems
          refine (windowed_directoryPage path (sortNames names) limit).congr fun start => ?_
          simp only [Guest.run, readWindow_some _ _ hlimit, Guest.renderDirectoryOutput, entryNames,
            mapM_entryName guestErrors hnames]
          rfl

/-- **Reading page by page shows everything once and in order**, each line of a file with its
number, and the host and the guest show the same from the same offsets. -/
theorem read_covers (hostPath guestPath : PathBuf) {target : ReadTarget} {items : List Text}
    (hitems : target.items = some items) {limit : Nat} (hlimit : 0 < limit) :
    ∃ chunks hostPages guestPages, chunks.flatten = items ∧
      PagesCover (target.Shows hostPath)
        (fun offset => executeDirect hostPath target (some offset) (some limit)) chunks hostPages ∧
      PagesCover (target.Shows guestPath)
        (fun offset => Guest.run guestPath target (some offset) (some limit)) chunks guestPages ∧
      hostPages.map Prod.fst = guestPages.map Prod.fst := by
  obtain ⟨hostPages, hhost, hpositions⟩ :=
    exists_covers hlimit (windowed_executeDirect hostPath hitems hlimit)
  obtain ⟨guestPages, hguest, hpositions'⟩ :=
    exists_covers hlimit (windowed_guest guestPath hitems hlimit)
  exact ⟨_, hostPages, guestPages, Paging.flatten_pagesOf hlimit items, hhost, hguest,
    hpositions.trans hpositions'.symm⟩

/-- Five lines, two at a time. -/
theorem read_covers_five :
    ∃ chunks hostPages guestPages, chunks.flatten = numberedLines "a\nb\nc\nd\ne" ∧
      PagesCover (ReadTarget.Shows (.file (.ok "a\nb\nc\nd\ne")) (PathBuf.ofText "/home/a/n"))
        (fun offset => executeDirect (PathBuf.ofText "/home/a/n") (.file (.ok "a\nb\nc\nd\ne"))
          (some offset) (some 2)) chunks hostPages ∧
      PagesCover (ReadTarget.Shows (.file (.ok "a\nb\nc\nd\ne")) (PathBuf.ofText "/workspace/n"))
        (fun offset => Guest.run (PathBuf.ofText "/workspace/n") (.file (.ok "a\nb\nc\nd\ne"))
          (some offset) (some 2)) chunks guestPages ∧
      hostPages.map Prod.fst = guestPages.map Prod.fst :=
  read_covers (PathBuf.ofText "/home/a/n") (PathBuf.ofText "/workspace/n") rfl (by decide)

/-- A directory in which a name is not UTF-8 cannot be read at all. -/
theorem notUtf8_not_covered :
    ¬ ∀ (path : PathBuf) (entries : List DirEntry) (limit : Nat), 0 < limit →
      (∀ e ∈ entries, ∀ error, e ≠ .unreadable error) →
        ∃ pages, Paging.Followed readFooters
          (fun offset => executeDirect path (.directory (.ok entries)) (some offset) (some limit))
          1 pages := by
  intro h
  obtain ⟨pages, hpages⟩ := h (PathBuf.ofText "/home/a") [.notUtf8] 1 (by decide) (by simp)
  have herror (position : Nat) (hposition : position = 1) : executeDirect (PathBuf.ofText "/home/a")
      (.directory (.ok [.notUtf8])) (some position) (some 1) =
        .error (.tool "directory entry is not utf-8") := by
    rw [hposition]
    rfl
  cases hpages with
  | last hread hends => exact absurd ((herror 1 rfl).symm.trans hread) (by simp)
  | more hread hnext hrest => exact absurd ((herror 1 rfl).symm.trans hread) (by simp)

end Tools
end SimpleClaw
