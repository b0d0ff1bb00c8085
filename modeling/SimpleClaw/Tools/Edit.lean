import Mathlib.Data.List.Nodup
import Mathlib.Data.List.Permutation
import SimpleClaw.Host
import SimpleClaw.Lib.Runs
import SimpleClaw.Lib.Tables

/-!
# The edit tool

`apply_edit_at_path`, the same in the guest and on the host, reads the file, replaces the old
text by the new one and writes the file back.  The calls of one model step run concurrently,
and so do turns of different sessions in one workspace, so between the reading and the writing
of one call another may write.

* `applyEditAtPath`: what a call makes of the file, if it runs alone.
* `EditState.step`: calls on one file, each in its two steps, in any order.
* `EditState.Serializable`: if all calls report success, the file is what they make of it one
  after the other.
* `serializable_of_writesOverRead`: it is, if no call writes over a file that has changed since
  it was read.
-/

namespace SimpleClaw
namespace Tools

open Transition Table

structure EditArgs where
  filePath : Text
  oldString : Text
  newString : Text
  replaceAll : Bool
  deriving DecidableEq

/-! ## One edit -/

def normalizeLineEndings (text : Text) : Text := Text.replace text "\r\n" "\n"

def detectLineEnding (text : Text) : Text :=
  if Text.contains text "\r\n" then "\r\n" else "\n"

def convertToLineEnding (text ending : Text) : Text :=
  if ending = ("\n" : Text) then text else Text.replace text "\n" "\r\n"

/-- What is made of the text of the file. -/
def editText (args : EditArgs) (original : Text) : Except FrameworkError Text :=
  let ending := detectLineEnding original
  let oldString := convertToLineEnding (normalizeLineEndings args.oldString) ending
  let newString := convertToLineEnding (normalizeLineEndings args.newString) ending
  let occurrences := Text.matchCount original oldString
  if occurrences = 0 then
    .error (.tool "Could not find oldString in the file. It must match exactly, including whitespace, indentation, and line endings.")
  else if occurrences > 1 ∧ args.replaceAll = false then
    .error (.tool "Found multiple matches for oldString. Provide more surrounding context to make the match unique.")
  else if args.replaceAll then .ok (Text.replace original oldString newString)
  else .ok (Text.replacen original oldString newString 1)

/-- A file: its text, or why it cannot be read as one. -/
abbrev FileText := Except Text Text

/-- `apply_edit_at_path`, with the file before it and the text it writes.  Without an old string
the file is written as it stands, and not read. -/
def applyEditAtPath (path : PathBuf) (args : EditArgs) (file : FileText) :
    Except FrameworkError Text :=
  if args.oldString = [] then .ok args.newString
  else
    match file with
    | .error e =>
        .error (.tool (("File " : Text) ++ path.display ++ (" not found: " : Text) ++ e))
    | .ok original => editText args original

/-- The edits one after the other. -/
def applyEdits (path : PathBuf) : List EditArgs → FileText → Except FrameworkError FileText
  | [], file => .ok file
  | args :: edits, file =>
      match applyEditAtPath path args file with
      | .error e => .error e
      | .ok updated => applyEdits path edits (.ok updated)

theorem applyEdits_append {path : PathBuf} {edits later : List EditArgs} {file between : FileText}
    (h : applyEdits path edits file = .ok between) :
    applyEdits path (edits ++ later) file = applyEdits path later between := by
  induction edits generalizing file with
  | nil =>
      obtain rfl : file = between := Except.ok.inj h
      rfl
  | cons args edits ih =>
      rw [applyEdits] at h
      rw [List.cons_append, applyEdits]
      cases hargs : applyEditAtPath path args file with
      | error e =>
          rw [hargs] at h
          cases h
      | ok updated =>
          rw [hargs] at h
          exact ih h

/-! ## Edits at the same time -/

/-- Where a call is: not begun, with the text it has read and the one it will write, or over.
An attempt that the sandbox denies leaves the file as it is, and the call where it was. -/
inductive EditPhase where
  | pending
  | computed (original : FileText) (updated : Text)
  | succeeded
  | failed (error : FrameworkError)
  deriving DecidableEq

/-- The file with the calls that work on it, each named by its index. -/
structure EditState where
  file : FileText
  phases : List EditPhase
  deriving DecidableEq

/-- The atomic steps.  A write that fails may leave anything behind. -/
inductive EditAction where
  | read (call : Nat)
  | write (call : Nat)
  | writeFails (call : Nat) (error : FrameworkError) (file : FileText)

namespace EditState

variable (path : PathBuf) (edits : List EditArgs)

/-- No call has begun. -/
def start (file : FileText) : EditState := ⟨file, edits.map fun _ => .pending⟩

/-- The text a call is about to write. -/
def toWrite (args : EditArgs) (phase : EditPhase) : Option Text :=
  match phase with
  | .pending => if args.oldString = [] then some args.newString else none
  | .computed _ updated => some updated
  | .succeeded | .failed _ => none

/-- One atomic step of the calls. -/
def step (s : EditState) : EditAction → Option EditState
  | .read c =>
      match edits[c]?, s.phases[c]? with
      | some args, some .pending =>
          if args.oldString = [] then none
          else
            match applyEditAtPath path args s.file with
            | .ok updated => some { s with phases := s.phases.set c (.computed s.file updated) }
            | .error e => some { s with phases := s.phases.set c (.failed e) }
      | _, _ => none
  | .write c =>
      match edits[c]?, s.phases[c]? with
      | some args, some phase =>
          (toWrite args phase).map fun updated =>
            ⟨.ok updated, s.phases.set c .succeeded⟩
      | _, _ => none
  | .writeFails c e file =>
      match edits[c]?, s.phases[c]? with
      | some args, some phase =>
          (toWrite args phase).map fun _ => ⟨file, s.phases.set c (.failed e)⟩
      | _, _ => none

/-- **No lost edits.**  If all calls report success, the file is what they make of it one after
the other, in some order. -/
def Serializable (file : FileText) (s : EditState) : Prop :=
  (∀ phase ∈ s.phases, phase = .succeeded) →
    ∃ order : List EditArgs, order.Perm edits ∧ applyEdits path order file = .ok s.file

/-- A call that has read the file writes only if the file still is as it was read. -/
def WritesOverRead (s : EditState) (a : EditAction) : Prop :=
  ∀ c original updated, a = .write c → s.phases[c]? = some (.computed original updated) →
    s.file = original

/-! ## What a step can do -/

section Steps

variable {path : PathBuf} {edits : List EditArgs}

/-- The steps as a relation, one constructor for each outcome. -/
inductive Step (path : PathBuf) (edits : List EditArgs) (s : EditState) :
    EditAction → EditState → Prop where
  | computed {c args updated} (hargs : edits[c]? = some args)
      (hphase : s.phases[c]? = some .pending)
      (hupdated : applyEditAtPath path args s.file = .ok updated) :
      Step path edits s (.read c) { s with phases := s.phases.set c (.computed s.file updated) }
  | written {c args phase updated} (hargs : edits[c]? = some args)
      (hphase : s.phases[c]? = some phase) (hupdated : toWrite args phase = some updated) :
      Step path edits s (.write c) ⟨.ok updated, s.phases.set c .succeeded⟩
  | failed {a c phase e file} (hphase : s.phases[c]? = some phase) :
      Step path edits s a ⟨file, s.phases.set c (.failed e)⟩

/-- **Every computed step is one of the listed outcomes.** -/
theorem step_spec {s s' : EditState} {a : EditAction} (h : step path edits s a = some s') :
    Step path edits s a s' := by
  cases a with
  | read c =>
      simp only [step] at h
      split at h
      · rename_i args hargs hphase
        split at h
        · cases h
        · split at h
          · cases h
            exact .computed hargs hphase ‹_›
          · cases h
            exact .failed hphase
      · cases h
  | write c =>
      simp only [step] at h
      split at h
      · rename_i args phase hargs hphase
        obtain ⟨updated, hupdated, rfl⟩ := Option.map_eq_some_iff.mp h
        exact .written hargs hphase hupdated
      · cases h
  | writeFails c e file =>
      simp only [step] at h
      split at h
      · rename_i args phase hargs hphase
        obtain ⟨-, -, rfl⟩ := Option.map_eq_some_iff.mp h
        exact .failed hphase
      · cases h

/-- The edits of the calls in a list. -/
def editsOf (edits : List EditArgs) (calls : List Nat) : List EditArgs :=
  calls.filterMap fun c => edits[c]?

theorem editsOf_range (edits : List EditArgs) :
    editsOf edits (List.range edits.length) = edits := by
  induction edits with
  | nil => rfl
  | cons args edits ih =>
      have hrest : editsOf (args :: edits) ((List.range edits.length).map Nat.succ) = edits := by
        rw [editsOf, List.filterMap_map]
        exact ih
      rw [List.length_cons, List.range_succ_eq_map]
      exact congrArg (args :: ·) hrest

/-- The invariant: the calls that have succeeded have written one after the other, and what the
others will write is what they make of the text they have read. -/
structure Serial (path : PathBuf) (edits : List EditArgs) (file : FileText) (s : EditState) :
    Prop where
  length : s.phases.length = edits.length
  computed : ∀ (c : Nat) (args : EditArgs) (original : FileText) (updated : Text),
    edits[c]? = some args → s.phases[c]? = some (.computed original updated) →
      applyEditAtPath path args original = .ok updated
  written : (∀ (c : Nat) (e : FrameworkError), s.phases[c]? ≠ some (.failed e)) →
    ∃ order : List Nat, order.Nodup ∧
      (∀ c : Nat, c ∈ order ↔ s.phases[c]? = some .succeeded) ∧
        applyEdits path (editsOf edits order) file = .ok s.file

theorem serial_start (file : FileText) : Serial path edits file (start edits file) where
  length := by simp [start]
  computed := by
    intro c args original updated hargs hphase
    rw [start, List.getElem?_map, hargs] at hphase
    cases hphase
  written := by
    intro _
    refine ⟨[], List.nodup_nil, fun c => ?_, rfl⟩
    rw [start, List.getElem?_map]
    cases edits[c]? <;> simp

/-- Text a call is about to write is what it makes of the file, if the file is as it was read. -/
theorem Serial.applyEditAtPath_of_toWrite {file : FileText} {s : EditState}
    (hs : Serial path edits file s) {c : Nat} {args : EditArgs} {phase : EditPhase}
    {updated : Text} (hargs : edits[c]? = some args) (hphase : s.phases[c]? = some phase)
    (hupdated : toWrite args phase = some updated) (hC : WritesOverRead s (.write c)) :
    applyEditAtPath path args s.file = .ok updated := by
  cases phase with
  | pending =>
      rw [toWrite] at hupdated
      split at hupdated
      · rename_i hempty
        cases hupdated
        exact if_pos hempty
      · cases hupdated
  | computed original updated' =>
      obtain rfl : updated' = updated := Option.some.inj hupdated
      rw [hC c original updated' rfl hphase]
      exact hs.computed c args original updated' hargs hphase
  | succeeded => cases hupdated
  | failed e => cases hupdated

/-- What the calls have computed stays so when one of them goes on. -/
theorem Serial.computed_set {file : FileText} {s : EditState} (hs : Serial path edits file s)
    {c : Nat} {phase : EditPhase}
    (hnew : ∀ args original updated, edits[c]? = some args → phase = .computed original updated →
      applyEditAtPath path args original = .ok updated)
    (i : Nat) (args : EditArgs) (original : FileText) (updated : Text)
    (hargs : edits[i]? = some args)
    (hphase : (s.phases.set c phase)[i]? = some (.computed original updated)) :
    applyEditAtPath path args original = .ok updated := by
  rcases getElem?_set_cases hphase with ⟨rfl, heq⟩ | ⟨-, hold⟩
  · exact hnew args original updated hargs heq.symm
  · exact hs.computed i args original updated hargs hold

/-- **A write over the text that was read keeps the writes in a row.** -/
theorem Serial.step {file : FileText} {s s' : EditState} {a : EditAction}
    (hs : Serial path edits file s) (hC : WritesOverRead s a)
    (h : EditState.step path edits s a = some s') : Serial path edits file s' := by
  cases step_spec h with
  | @computed c args updated hargs hphase hupdated =>
      refine ⟨by rw [List.length_set]; exact hs.length, hs.computed_set ?_, fun hfailed => ?_⟩
      · rintro args' original updated' hargs' ⟨⟩
        rw [hargs] at hargs'
        cases hargs'
        exact hupdated
      · obtain ⟨order, hnodup, hmem, hfile⟩ := hs.written fun i e hi => by
          by_cases hci : c = i
          · rw [← hci, hphase] at hi
            cases hi
          · exact hfailed i e (getElem?_set_of_getElem? hi hci)
        refine ⟨order, hnodup, fun i => (hmem i).trans ?_, hfile⟩
        by_cases hci : c = i
        · subst hci
          rw [hphase, getElem?_set_self_of_getElem? hphase]
          simp
        · rw [List.getElem?_set_ne hci]
  | @written c args phase updated hargs hphase hupdated =>
      refine ⟨by rw [List.length_set]; exact hs.length, hs.computed_set ?_, fun hfailed => ?_⟩
      · rintro args' original updated' - ⟨⟩
      · have hnot : phase ≠ .succeeded := by
          rintro rfl
          cases hupdated
        obtain ⟨order, hnodup, hmem, hfile⟩ := hs.written fun i e hi => by
          by_cases hci : c = i
          · rw [← hci, hphase] at hi
            cases hi
            cases hupdated
          · exact hfailed i e (getElem?_set_of_getElem? hi hci)
        have hnew : c ∉ order := fun hc => by
          rw [hmem, hphase] at hc
          exact hnot (Option.some.inj hc)
        refine ⟨order ++ [c], ?_, fun i => ?_, ?_⟩
        · exact List.Nodup.append hnodup (List.nodup_singleton c)
            (List.disjoint_singleton.mpr hnew)
        · rw [List.mem_append, List.mem_singleton, hmem]
          by_cases hci : c = i
          · subst hci
            rw [getElem?_set_self_of_getElem? hphase]
            simp
          · rw [List.getElem?_set_ne hci]
            simp [Ne.symm hci]
        · -- the call writes what it makes of the file as it is
          have hedits : editsOf edits (order ++ [c]) = editsOf edits order ++ [args] := by
            rw [editsOf, List.filterMap_append]
            simp [editsOf, hargs]
          rw [hedits, applyEdits_append hfile, applyEdits,
            hs.applyEditAtPath_of_toWrite hargs hphase hupdated hC]
          rfl
  | @failed a c phase e file' hphase =>
      refine ⟨by rw [List.length_set]; exact hs.length, hs.computed_set ?_, fun hfailed => ?_⟩
      · rintro args' original updated' - ⟨⟩
      · exact absurd (getElem?_set_self_of_getElem? hphase) (hfailed c e)

/-- The writes in a row are an order of all the edits, once all calls have succeeded. -/
theorem Serial.serializable {file : FileText} {s : EditState} (hs : Serial path edits file s) :
    Serializable path edits file s := by
  intro hall
  obtain ⟨order, hnodup, hmem, hfile⟩ := hs.written fun c e hc => by
    cases hall _ (List.mem_of_getElem? hc)
  have hrange : order.Perm (List.range edits.length) := by
    refine (List.perm_ext_iff_of_nodup hnodup List.nodup_range).mpr fun c => ?_
    rw [hmem, List.mem_range, ← hs.length]
    constructor
    · intro hc
      exact (List.getElem?_eq_some_iff.mp hc).1
    · intro hc
      rw [List.getElem?_eq_getElem hc, hall _ (List.getElem_mem hc)]
  refine ⟨editsOf edits order, ?_, hfile⟩
  have hperm : (editsOf edits order).Perm (editsOf edits (List.range edits.length)) :=
    hrange.filterMap _
  rwa [editsOf_range] at hperm

end Steps

end EditState

/-- **In a run in which every call that has read the file writes over the text it read, no edit
is lost.** -/
theorem serializable_of_writesOverRead {path : PathBuf} {edits : List EditArgs} {file : FileText}
    {tr : List (EditAction × EditState)}
    (hrun : Run (EditState.step path edits) (EditState.start edits file) tr)
    (hC : Run.StepsMeet EditState.WritesOverRead (EditState.start edits file) tr) :
    ∀ x ∈ tr, x.2.Serializable path edits file := by
  intro x hx
  have hserial := Run.invariant_of_stepsMeet (J := EditState.Serial path edits file)
    (fun _ _ _ hs hC h => hs.step hC h) hrun (EditState.serial_start file) hC
  exact (hserial x hx).serializable

/-- `WritesOverRead`, computed. -/
def EditState.writesOverRead (s : EditState) : EditAction → Bool
  | .write c =>
      match s.phases[c]? with
      | some (.computed original _) => s.file = original
      | _ => true
  | _ => true

theorem writesOverRead_of_check (s : EditState) (a : EditAction)
    (h : s.writesOverRead a = true) : s.WritesOverRead a := by
  rintro c original updated rfl hphase
  simp only [EditState.writesOverRead, hphase] at h
  exact of_decide_eq_true h

/-- Two calls change one word each of a line. -/
def wordEdits : List EditArgs :=
  [⟨"notes.txt", "red", "blue", false⟩, ⟨"notes.txt", "cat", "dog", false⟩]

def notesPath : PathBuf := PathBuf.ofText "/work/notes.txt"

theorem serializable_one_by_one : ∃ tr,
    exec (EditState.step notesPath wordEdits) (EditState.start wordEdits (.ok "red cat"))
      [.read 0, .write 0, .read 1, .write 1] = some tr ∧
    ∀ x ∈ tr, x.2.Serializable notesPath wordEdits (.ok "red cat") := by
  obtain ⟨tr, htr, hrun, hC⟩ :=
    exists_guarded_run_of_exec (EditState.step notesPath wordEdits)
      (EditState.start wordEdits (.ok "red cat")) [.read 0, .write 0, .read 1, .write 1]
      writesOverRead_of_check (by decide)
  exact ⟨tr, htr, serializable_of_writesOverRead hrun hC⟩

/-- Both calls have succeeded, and the word the first one wrote is gone. -/
theorem red_cat_loses_an_edit :
    ¬ ∀ tr, Run (EditState.step notesPath wordEdits)
        (EditState.start wordEdits (.ok "red cat")) tr →
      ∀ x ∈ tr, x.2.Serializable notesPath wordEdits (.ok "red cat") := by
  intro hall
  obtain ⟨tr, hrun, x, hx, hlost⟩ :=
    exists_run_of_exec (EditState.step notesPath wordEdits)
      (EditState.start wordEdits (.ok "red cat")) [.read 0, .read 1, .write 0, .write 1]
      (fun s => decide (s = ⟨.ok "red dog", [.succeeded, .succeeded]⟩)) (by decide)
  have hallSucceeded : ∀ phase ∈ x.2.phases, phase = EditPhase.succeeded := by
    rw [of_decide_eq_true hlost]
    decide
  obtain ⟨order, hperm, hfile⟩ := hall tr hrun x hx hallSucceeded
  rw [of_decide_eq_true hlost] at hfile
  -- neither order of the two edits leaves the file like this
  have hneither : ∀ order ∈ wordEdits.permutations',
      applyEdits notesPath order (.ok "red cat") ≠ .ok (.ok "red dog") := by
    decide
  exact hneither order (List.mem_permutations'.mpr hperm) hfile

end Tools
end SimpleClaw
