import SimpleClaw.Lib.LineBreaks
import SimpleClaw.Tools.Edit

/-!
# What an edit matches

`apply_edit_at_path` on the host and in the guest, on a file whose text is read and written back.
The old string is searched for from left to right with its line endings converted to those of the
file, so what counts as one match depends on how occurrences overlap and on how the file's line
breaks are mixed.

* `editFile`, `Guest.editFile`: a call with what it reports and the file it leaves.
* `editsUniquely_iff`: the call is right about a unique occurrence exactly when occurrences that
  overlap are not the only ones.
* `replacesAt_iff`: an old string that is in the file once is found exactly when the conversion
  leaves it as it is.
* `lineEndings_stay_uniform`: what an edit writes has the line breaks of the file.
-/

namespace SimpleClaw
namespace Tools

open Text (OccursAt LeftmostSplit AllCrlf LfAfterCr CrBeforeLf)

/-! ## The strings an edit works with -/

/-- The old string with the line endings of the file. -/
def EditArgs.oldIn (args : EditArgs) (original : Text) : Text :=
  convertToLineEnding (normalizeLineEndings args.oldString) (detectLineEnding original)

/-- The new string with the line endings of the file. -/
def EditArgs.newIn (args : EditArgs) (original : Text) : Text :=
  convertToLineEnding (normalizeLineEndings args.newString) (detectLineEnding original)

theorem convertToLineEnding_of_crlf {original : Text}
    (h : Text.contains original "\r\n" = true) (text : Text) :
    convertToLineEnding (normalizeLineEndings text) (detectLineEnding original) =
      Text.withCrlf (Text.withLf text) := by
  rw [detectLineEnding, if_pos h]
  rfl

theorem convertToLineEnding_of_lf {original : Text}
    (h : Text.contains original "\r\n" = false) (text : Text) :
    convertToLineEnding (normalizeLineEndings text) (detectLineEnding original) =
      Text.withLf text := by
  rw [detectLineEnding, if_neg (by rw [h]; simp)]
  rfl

/-- A string that is not empty stays so. -/
theorem EditArgs.oldIn_ne_nil {args : EditArgs} (hold : args.oldString ≠ []) (original : Text) :
    args.oldIn original ≠ [] := by
  rw [EditArgs.oldIn]
  cases h : Text.contains original "\r\n" with
  | true =>
      rw [convertToLineEnding_of_crlf h]
      exact Text.withCrlf_ne_nil (Text.withLf_ne_nil hold)
  | false =>
      rw [convertToLineEnding_of_lf h]
      exact Text.withLf_ne_nil hold

/-! ## The call and the file -/

namespace Guest

/-- `apply_edit_at_path` in the guest, which reports its errors as texts. -/
def applyEditAtPath (path : PathBuf) (args : EditArgs) (file : FileText) : Except Text Text :=
  if args.oldString = [] then .ok args.newString
  else
    match file with
    | .error e => .error (("File " : Text) ++ path.display ++ (" not found: " : Text) ++ e)
    | .ok original =>
        let ending := detectLineEnding original
        let oldString := convertToLineEnding (normalizeLineEndings args.oldString) ending
        let newString := convertToLineEnding (normalizeLineEndings args.newString) ending
        let occurrences := Text.matchCount original oldString
        if occurrences = 0 then
          .error "Could not find oldString in the file. It must match exactly, including whitespace, indentation, and line endings."
        else if occurrences > 1 ∧ args.replaceAll = false then
          .error "Found multiple matches for oldString. Provide more surrounding context to make the match unique."
        else if args.replaceAll then .ok (Text.replace original oldString newString)
        else .ok (Text.replacen original oldString newString 1)

end Guest

/-- **The host and the guest make the same of a file**, and word their errors alike. -/
theorem applyEditAtPath_eq_guest (path : PathBuf) (args : EditArgs) (file : FileText) :
    applyEditAtPath path args file = (Guest.applyEditAtPath path args file).mapError .tool := by
  by_cases hold : args.oldString = []
  · simp only [applyEditAtPath, Guest.applyEditAtPath, if_pos hold]
    rfl
  · cases file with
    | error e =>
        simp only [applyEditAtPath, Guest.applyEditAtPath, if_neg hold]
        rfl
    | ok original =>
        simp only [applyEditAtPath, Guest.applyEditAtPath, if_neg hold, editText]
        split
        · rfl
        · split
          · rfl
          · split <;> rfl

/-- A call on a file that can be written: what it reports, and the file it leaves. -/
def reported {ε : Type} (message : Text) (outcome : Except ε Text) (file : FileText) :
    Except ε Text × FileText :=
  match outcome with
  | .error e => (.error e, file)
  | .ok updated => (.ok message, .ok updated)

def editFile (path : PathBuf) (args : EditArgs) (file : FileText) :
    Except FrameworkError Text × FileText :=
  reported "Edit applied successfully." (applyEditAtPath path args file) file

def Guest.editFile (path : PathBuf) (args : EditArgs) (file : FileText) :
    Except Text Text × FileText :=
  reported "Edit applied successfully." (Guest.applyEditAtPath path args file) file

section Call

variable {ε : Type} {message : Text} {outcome : Except ε Text} {file : FileText}

/-- A call that succeeds leaves what it has made of the file. -/
theorem reported_ok_iff {updated : Text} :
    reported message outcome file = (.ok message, .ok updated) ↔ outcome = .ok updated := by
  cases outcome <;> simp [reported]

/-- A call that fails leaves the file as it was. -/
theorem reported_error {e : ε} (h : (reported message outcome file).1 = .error e) :
    (reported message outcome file).2 = file := by
  cases outcome with
  | error e' => rfl
  | ok updated => cases h

theorem isOk_reported : (reported message outcome file).1.isOk = outcome.isOk := by
  cases outcome <;> rfl

theorem isOk_eq_isSome_toOption : outcome.isOk = outcome.toOption.isSome := by
  cases outcome <;> rfl

end Call

/-- What an edit of one place comes to, where the old string is not empty. -/
theorem applyEditAtPath_ok (path : PathBuf) {args : EditArgs} (hold : args.oldString ≠ [])
    (original : Text) : applyEditAtPath path args (.ok original) = editText args original := by
  rw [applyEditAtPath, if_neg hold]

/-- **An edit of one place succeeds exactly where the search finds one match.** -/
theorem isOk_editText_iff (args : EditArgs) (original : Text) (hall : args.replaceAll = false) :
    (editText args original).isOk = true ↔
      Text.matchCount original (args.oldIn original) = 1 := by
  simp only [editText, EditArgs.oldIn, hall]
  split
  · rename_i hzero
    rw [hzero]
    simp [Except.isOk, Except.toBool]
  · split
    · rename_i hmany
      refine iff_of_false (by simp [Except.isOk, Except.toBool]) ?_
      exact ne_of_gt hmany.1
    · rename_i hzero hmany
      refine iff_of_true rfl ?_
      simp only [and_true, gt_iff_lt, not_lt] at hmany
      omega

/-- One match is replaced where the old string stands for the first time. -/
theorem editText_of_leftmostSplit {args : EditArgs} {original before after : Text}
    (hold : args.oldString ≠ []) (hall : args.replaceAll = false)
    (hone : Text.matchCount original (args.oldIn original) = 1)
    (hsplit : LeftmostSplit original (args.oldIn original) before after) :
    editText args original = .ok (before ++ (args.newIn original ++ after)) := by
  have hreplaced := hsplit.replacen_one (args.oldIn_ne_nil hold original) (args.newIn original)
  simp only [EditArgs.oldIn] at hone
  simp only [editText, hone, hall]
  exact congrArg Except.ok hreplaced

/-- Where the old string stands at one position only, it is replaced there. -/
theorem editText_of_unique {args : EditArgs} {original : Text} (hold : args.oldString ≠ [])
    (hall : args.replaceAll = false) {i : Nat} (hi : OccursAt original (args.oldIn original) i)
    (hunique : ∀ j, OccursAt original (args.oldIn original) j → j = i) :
    editText args original = .ok (original.take i ++
      (args.newIn original ++ original.drop (i + (args.oldIn original).length))) := by
  have hne := args.oldIn_ne_nil hold original
  obtain ⟨before, after, hsplit⟩ := Text.exists_leftmostSplit hne ⟨i, hi⟩
  obtain rfl : before.length = i := hunique _ hsplit.occursAt
  rw [hsplit.take_eq, hsplit.drop_eq]
  exact editText_of_leftmostSplit hold hall (Text.matchCount_eq_one_of_unique hne hi hunique) hsplit

/-! ## Uniqueness -/

/-- **Edit uniqueness**, for a call that turns a text into a report and the file it leaves: it
succeeds exactly when the old string stands at one position, then the new string has taken its
place, and a call that fails changes nothing. -/
structure EditsUniquely {ε : Type} (call : FileText → Except ε Text × FileText)
    (original old new : Text) : Prop where
  succeeds_iff : (call (.ok original)).1.isOk = true ↔ ∃! i, OccursAt original old i
  replaced : (call (.ok original)).1.isOk = true → ∀ i, OccursAt original old i →
    (call (.ok original)).2 = .ok (original.take i ++ (new ++ original.drop (i + old.length)))
  unchanged : ∀ e, (call (.ok original)).1 = .error e → (call (.ok original)).2 = .ok original

/-- If a fragment stands at two positions, it stands at two that keep clear of each other. -/
def StandsClear (t fragment : Text) : Prop :=
  (∃ i j, i ≠ j ∧ OccursAt t fragment i ∧ OccursAt t fragment j) →
    ∃ i j, OccursAt t fragment i ∧ OccursAt t fragment j ∧ i + fragment.length ≤ j

/-- The search finds one match exactly where the fragment stands once, or only overlaps itself. -/
theorem matchCount_eq_one_iff_unique_iff {t fragment : Text} (hne : fragment ≠ []) :
    (Text.matchCount t fragment = 1 ↔ ∃! i, OccursAt t fragment i) ↔
      StandsClear t fragment := by
  have hzero := Text.matchCount_eq_zero_iff hne (t := t)
  have hmany := Text.one_lt_matchCount_iff hne (t := t)
  constructor
  · rintro h ⟨i, j, hij, hi, hj⟩
    rw [← hmany]
    have hsome : Text.matchCount t fragment ≠ 0 := fun h0 => hzero.mp h0 ⟨i, hi⟩
    have hnotOne : Text.matchCount t fragment ≠ 1 := by
      intro hone
      obtain ⟨k, -, hk⟩ := h.mp hone
      exact hij ((hk i hi).trans (hk j hj).symm)
    omega
  · intro hclear
    constructor
    · intro hone
      obtain ⟨i, hi⟩ : ∃ i, OccursAt t fragment i := by
        by_contra hnone
        rw [hzero.mpr hnone] at hone
        exact absurd hone (by omega)
      refine ⟨i, hi, fun j hj => ?_⟩
      by_contra hji
      have := hmany.mpr (hclear ⟨j, i, hji, hj, hi⟩)
      omega
    · rintro ⟨i, hi, hunique⟩
      exact Text.matchCount_eq_one_of_unique hne hi hunique

/-- A call that makes of a file what `editText` makes of its text is right about a unique
occurrence exactly where occurrences stand clear. -/
theorem editsUniquely_reported_iff {ε : Type} (message : Text) {args : EditArgs} {original : Text}
    (hold : args.oldString ≠ []) (hall : args.replaceAll = false)
    {apply : FileText → Except ε Text}
    (happly : (apply (.ok original)).toOption = (editText args original).toOption) :
    EditsUniquely (fun file => reported message (apply file) file) original (args.oldIn original)
      (args.newIn original) ↔ StandsClear original (args.oldIn original) := by
  have hne := args.oldIn_ne_nil hold original
  have hok : (apply (.ok original)).isOk = (editText args original).isOk := by
    rw [isOk_eq_isSome_toOption, isOk_eq_isSome_toOption, happly]
  have hsucceeds : (reported message (apply (.ok original)) (.ok original)).1.isOk = true ↔
      Text.matchCount original (args.oldIn original) = 1 := by
    rw [isOk_reported, hok, isOk_editText_iff args original hall]
  constructor
  · intro h
    rw [← matchCount_eq_one_iff_unique_iff hne, ← h.succeeds_iff, hsucceeds]
  · intro hclear
    have hiff := (matchCount_eq_one_iff_unique_iff hne).mpr hclear
    refine ⟨hsucceeds.trans hiff, fun hsuccess i hi => ?_, fun e he => reported_error he⟩
    obtain ⟨k, hk, hunique⟩ := hiff.mp (hsucceeds.mp hsuccess)
    have hi' : ∀ j, OccursAt original (args.oldIn original) j → j = i := fun j hj =>
      (hunique j hj).trans (hunique i hi).symm
    have htext := editText_of_unique hold hall hi hi'
    rw [htext] at happly
    cases h : apply (.ok original) with
    | error e =>
        rw [h] at happly
        cases happly
    | ok updated =>
        rw [h] at happly
        simp only [reported]
        exact congrArg Except.ok (Option.some.inj happly)

theorem toOption_guest (path : PathBuf) (args : EditArgs) (file : FileText) :
    (Guest.applyEditAtPath path args file).toOption =
      (applyEditAtPath path args file).toOption := by
  rw [applyEditAtPath_eq_guest]
  cases Guest.applyEditAtPath path args file <;> rfl

/-- **An edit is right about a unique occurrence exactly when occurrences that overlap are not
the only ones.** -/
theorem editsUniquely_iff (path : PathBuf) (args : EditArgs) (original : Text)
    (hold : args.oldString ≠ []) (hall : args.replaceAll = false) :
    (EditsUniquely (editFile path args) original (args.oldIn original) (args.newIn original) ∧
      EditsUniquely (Guest.editFile path args) original (args.oldIn original)
        (args.newIn original)) ↔ StandsClear original (args.oldIn original) := by
  have htext : (applyEditAtPath path args (.ok original)).toOption =
      (editText args original).toOption := by rw [applyEditAtPath_ok path hold]
  have hhost := editsUniquely_reported_iff "Edit applied successfully." hold hall htext
  have hguest := editsUniquely_reported_iff "Edit applied successfully." hold hall
    ((toOption_guest path args (.ok original)).trans htext)
  exact ⟨fun h => hhost.mp h.1, fun h => ⟨hhost.mpr h, hguest.mpr h⟩⟩

/-- A word that stands in the file once. -/
theorem editsUniquely_word :
    EditsUniquely (editFile notesPath ⟨"notes.txt", "cat", "dog", false⟩) "red cat" "cat" "dog" ∧
      EditsUniquely (Guest.editFile notesPath ⟨"notes.txt", "cat", "dog", false⟩)
        "red cat" "cat" "dog" := by
  refine (editsUniquely_iff notesPath ⟨"notes.txt", "cat", "dog", false⟩ "red cat" (by decide)
    rfl).mpr ?_
  have honly : ∀ i < 7, OccursAt "red cat" "cat" i → i = 4 := by decide
  rintro ⟨i, j, hij, hi, hj⟩
  have hi4 := honly i (hi.lt_length (by decide)) hi
  have hj4 := honly j (hj.lt_length (by decide)) hj
  exact absurd (hi4.trans hj4.symm) hij

/-- In `aaa` the two occurrences of `aa` overlap, so the search finds one match. -/
theorem overlapping_edited :
    ¬ ∀ (path : PathBuf) (args : EditArgs) (original : Text), args.oldString ≠ [] →
      args.replaceAll = false →
        EditsUniquely (editFile path args) original (args.oldIn original) (args.newIn original) ∧
          EditsUniquely (Guest.editFile path args) original (args.oldIn original)
            (args.newIn original) := by
  intro h
  have hhost := (h notesPath ⟨"notes.txt", "aa", "b", false⟩ "aaa" (by decide) rfl).1
  obtain ⟨i, -, hunique⟩ := hhost.succeeds_iff.mp (by decide)
  have h01 := (hunique 0 (by decide)).trans (hunique 1 (by decide)).symm
  exact absurd h01 (by decide)

/-! ## What is there is found -/

/-- In a file that does not mix its line breaks with the old string's, the conversion leaves an
old string from the file as it is. -/
theorem oldIn_eq_self {args : EditArgs} {original : Text} {i : Nat}
    (hi : OccursAt original args.oldString i)
    (h : Text.contains original "\r\n" = false ∨ CrBeforeLf args.oldString) :
    args.oldIn original = args.oldString := by
  rw [EditArgs.oldIn]
  cases hcrlf : Text.contains original "\r\n" with
  | true =>
      rw [convertToLineEnding_of_crlf hcrlf]
      exact Text.withCrlf_withLf_eq_self_iff.mpr (h.resolve_left (by rw [hcrlf]; simp))
  | false =>
      rw [convertToLineEnding_of_lf hcrlf]
      refine Text.withLf_of_not_contains ?_
      rw [← Bool.not_eq_true, Text.contains_iff] at hcrlf ⊢
      exact fun hinside =>
        hcrlf (hinside.trans (hi.isInfix.trans (List.drop_suffix i original).isInfix))

/-- Both copies of the tool put the new string where the old string stands as it was given, and
say so. -/
def ReplacesAt (path : PathBuf) (args : EditArgs) (original : Text) (i : Nat) : Prop :=
  let updated := original.take i ++
    (args.newIn original ++ original.drop (i + args.oldString.length))
  editFile path args (.ok original) = (.ok "Edit applied successfully.", .ok updated) ∧
    Guest.editFile path args (.ok original) = (.ok "Edit applied successfully.", .ok updated)

theorem guest_applyEditAtPath_ok_iff {path : PathBuf} {args : EditArgs} {file : FileText}
    {updated : Text} :
    Guest.applyEditAtPath path args file = .ok updated ↔
      applyEditAtPath path args file = .ok updated := by
  rw [applyEditAtPath_eq_guest]
  cases Guest.applyEditAtPath path args file with
  | error e => exact iff_of_false (by simp) (by simp [Except.mapError])
  | ok updated' => exact ⟨fun h => congrArg Except.ok (Except.ok.inj h), fun h => congrArg _
      (Except.ok.inj h)⟩

/-- An old string that the conversion makes longer is not replaced where it stands: the occurrence
that is found is longer than it. -/
theorem editText_ne_of_lone_lf {args : EditArgs} {original : Text} (hold : args.oldString ≠ [])
    (hall : args.replaceAll = false) {i : Nat} (hi : OccursAt original args.oldString i)
    (hcrlf : Text.contains original "\r\n" = true) (hlone : ¬ CrBeforeLf args.oldString) :
    editText args original ≠ .ok (original.take i ++
      (args.newIn original ++ original.drop (i + args.oldString.length))) := by
  intro htext
  have hlonger : args.oldString.length < (args.oldIn original).length := by
    rw [EditArgs.oldIn, convertToLineEnding_of_crlf hcrlf]
    exact Text.length_lt_withCrlf_withLf hlone
  have hone := (isOk_editText_iff args original hall).mp (by rw [htext]; rfl)
  have hne := args.oldIn_ne_nil hold original
  obtain ⟨before, after, hsplit⟩ := Text.exists_leftmostSplit hne (by
    by_contra hnone
    rw [(Text.matchCount_eq_zero_iff hne).mpr hnone] at hone
    exact absurd hone (by omega))
  rw [editText_of_leftmostSplit hold hall hone hsplit] at htext
  obtain ⟨front, back, hfront, rfl⟩ := hi.exists_split hold
  -- both texts are what is left of the original, with the new string in the place of another
  have htotal := congrArg List.length hsplit.eq
  have htotal' := congrArg List.length hfront
  have hlength := congrArg List.length (Except.ok.inj htext)
  simp only [List.length_append, List.length_take, List.length_drop] at htotal htotal' hlength
  omega

/-- **An old string that is in the file once is found and replaced exactly when the file has no
carriage return before a line feed, or every line feed of the old string has one.** -/
theorem replacesAt_iff (path : PathBuf) (args : EditArgs) (original : Text)
    (hold : args.oldString ≠ []) (hall : args.replaceAll = false) {i : Nat}
    (hi : OccursAt original args.oldString i)
    (hunique : ∀ j, OccursAt original args.oldString j → j = i) :
    ReplacesAt path args original i ↔
      (Text.contains original "\r\n" = false ∨ CrBeforeLf args.oldString) := by
  simp only [ReplacesAt, editFile, Guest.editFile, reported_ok_iff, guest_applyEditAtPath_ok_iff,
    and_self, applyEditAtPath_ok path hold]
  constructor
  · intro htext
    by_contra hnot
    rw [not_or, Bool.not_eq_false] at hnot
    exact editText_ne_of_lone_lf hold hall hi hnot.1 hnot.2 htext
  · intro h
    have hself := oldIn_eq_self hi h
    have htext := editText_of_unique hold hall (i := i) (by rwa [hself]) (by rwa [hself])
    rwa [hself] at htext

/-- A line of a file with carriage returns, given with its own. -/
theorem replacesAt_crlf :
    ReplacesAt notesPath ⟨"notes.txt", "cat\r\n", "dog\n", false⟩ "red\r\ncat\r\n" 5 := by
  have honly : ∀ i < 10, OccursAt "red\r\ncat\r\n" "cat\r\n" i → i = 5 := by decide
  exact (replacesAt_iff notesPath ⟨"notes.txt", "cat\r\n", "dog\n", false⟩ "red\r\ncat\r\n"
    (by decide) rfl (i := 5) (by decide)
    fun j hj => honly j (hj.lt_length (by decide)) hj).mpr (.inr ⟨by decide, by decide⟩)

/-- In a file that mixes its line breaks, a line that ends without a carriage return is not
found. -/
theorem mixed_line_breaks_not_found :
    ¬ ∀ (path : PathBuf) (args : EditArgs) (original : Text) (i : Nat), args.oldString ≠ [] →
      args.replaceAll = false → OccursAt original args.oldString i →
        (∀ j, OccursAt original args.oldString j → j = i) → ReplacesAt path args original i := by
  intro h
  have honly : ∀ i < 5, OccursAt "a\nb\r\n" "a\nb" i → i = 0 := by decide
  have hfound := h notesPath ⟨"notes.txt", "a\nb", "c", false⟩ "a\nb\r\n" 0 (by decide) rfl
    (by decide) fun j hj => honly j (hj.lt_length (by decide)) hj
  exact absurd hfound.1 (by decide)

/-! ## Line endings -/

/-- Strings without lone carriage returns have the line breaks of the file after conversion. -/
theorem allCrlf_convert {original text : Text} (h : Text.contains original "\r\n" = true)
    (htext : LfAfterCr text) :
    AllCrlf (convertToLineEnding (normalizeLineEndings text) (detectLineEnding original)) := by
  rw [convertToLineEnding_of_crlf h]
  exact Text.allCrlf_withCrlf (Text.notMem_withLf htext)

theorem notMem_convert {original text : Text} (h : Text.contains original "\r\n" = false)
    (htext : LfAfterCr text) :
    '\r' ∉ convertToLineEnding (normalizeLineEndings text) (detectLineEnding original) := by
  rw [convertToLineEnding_of_lf h]
  exact Text.notMem_withLf htext

/-- What an edit writes is the text of the file with some occurrences replaced. -/
theorem exists_replaceFrom_of_editText {args : EditArgs} {original updated : Text}
    (h : editText args original = .ok updated) :
    ∃ limit, updated =
      Text.replaceFrom (args.oldIn original) (args.newIn original) limit 0 original := by
  simp only [editText] at h
  split at h
  · cases h
  · split at h
    · cases h
    · split at h
      · exact ⟨none, (Except.ok.inj h).symm⟩
      · exact ⟨some 1, (Except.ok.inj h).symm⟩

/-- **Edits keep the line breaks of a file that has only one kind of them.** -/
theorem lineEndings_stay_uniform (path : PathBuf) (args : EditArgs) (original updated : Text)
    (hold : args.oldString ≠ []) (hOldCr : LfAfterCr args.oldString)
    (hNewCr : LfAfterCr args.newString)
    (h : applyEditAtPath path args (.ok original) = .ok updated ∨
      Guest.applyEditAtPath path args (.ok original) = .ok updated) :
    (AllCrlf original → '\n' ∈ original → AllCrlf updated) ∧
      ('\r' ∉ original → '\r' ∉ updated) := by
  have htext : editText args original = .ok updated := by
    rw [← applyEditAtPath_ok path hold]
    rcases h with h | h
    · exact h
    · rw [applyEditAtPath_eq_guest, h]
      rfl
  obtain ⟨limit, rfl⟩ := exists_replaceFrom_of_editText htext
  have hne := args.oldIn_ne_nil hold original
  constructor
  · intro hall hmem
    have hcrlf := Text.contains_crlf_of_allCrlf hall hmem
    exact (allCrlf_convert hcrlf hOldCr).replaceFrom hne (allCrlf_convert hcrlf hNewCr) limit hall
  · intro hall
    have hlf := Text.not_contains_crlf_of_notMem hall
    exact Text.notMem_replaceFrom hne (notMem_convert hlf hNewCr) limit hall

/-- Every line of a file with carriage returns, given without. -/
theorem lineEndings_of_crlf_file :
    (AllCrlf "a\r\nb\r\n" → '\n' ∈ ("a\r\nb\r\n" : Text) → AllCrlf "a-\r\nb-\r\n") ∧
      ('\r' ∉ ("a\r\nb\r\n" : Text) → '\r' ∉ ("a-\r\nb-\r\n" : Text)) :=
  lineEndings_stay_uniform notesPath ⟨"notes.txt", "\n", "-\n", true⟩ "a\r\nb\r\n"
    "a-\r\nb-\r\n" (by decide) ⟨by decide, by decide⟩ ⟨by decide, by decide⟩
    (.inl (by decide))

/-- A file without line breaks gets line feeds alone. -/
theorem breakless_file_gets_lf :
    ¬ ∀ (path : PathBuf) (args : EditArgs) (original updated : Text), args.oldString ≠ [] →
      LfAfterCr args.oldString → LfAfterCr args.newString →
        (applyEditAtPath path args (.ok original) = .ok updated ∨
          Guest.applyEditAtPath path args (.ok original) = .ok updated) →
            (AllCrlf original → AllCrlf updated) ∧ ('\r' ∉ original → '\r' ∉ updated) := by
  intro h
  have hall := (h notesPath ⟨"notes.txt", "a", "x\ny", false⟩ "a" "x\ny" (by decide)
    ⟨by decide, by decide⟩ ⟨by decide, by decide⟩ (.inl (by decide))).1
    ⟨⟨by decide, by decide⟩, ⟨by decide, by decide⟩⟩
  exact absurd hall.crBeforeLf.chain (by decide)

end Tools
end SimpleClaw
