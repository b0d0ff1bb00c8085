import SimpleClaw.Lib.EventStream
import SimpleClaw.Lib.Gaps
import SimpleClaw.Lib.Utf8Encode

/-!
# Writing server-sent events

A stream is written line by line: data lines, lines of other fields or comments, and empty lines,
each ended in one of two ways, the last one perhaps not at all.  An event is the data lines between
two empty lines.

* `EventReader.streamLines`, `EventReader.decode_encode_eq`: the events that are read from a text.
* `EventText`: a stream as it is written.
* `EventText.groups`, `EventText.decode_eq`: its events, which are those that are read.
-/

namespace Text

theorem withoutCr_of_notMem {t : Text} (h : '\r' ∉ t) : withoutCr t = t := by
  rw [withoutCr, if_neg fun hlast => h (List.mem_of_getLast? hlast)]

theorem withoutCr_append_cr (t : Text) : withoutCr (t ++ ['\r']) = t := by
  rw [withoutCr, List.getLast?_concat, if_pos rfl, List.dropLast_concat]

/-- The lines of texts on one line each, one after the other. -/
theorem lines_joinWith {ps : List Text} (hn : ∀ p ∈ ps, '\n' ∉ p) (hr : ∀ p ∈ ps, '\r' ∉ p)
    {last : Text} (hlast : ps.getLast? = some last) (hne : last ≠ []) :
    lines (joinWith '\n' ps) = ps := by
  have hps : ps ≠ [] := by
    rintro rfl
    cases hlast
  have hcr : ps.dropLast.map withoutCr = ps.dropLast :=
    (List.map_congr_left fun p hp => withoutCr_of_notMem (hr p (List.dropLast_subset _ hp))).trans
      (List.map_id _)
  simp only [lines, splitOn_joinWith hn hps, hcr, hlast]
  rw [Option.filter_some, if_pos (by simpa using hne), Option.toList_some]
  exact List.dropLast_append_getLast? last hlast

/-- Trimming keeps a first line that begins with no white space, and something of what follows. -/
theorem exists_trim_append_newline {u rest : Text} (hu : trimStart u = u) (hne : u ≠ [])
    (hrest : trim rest ≠ []) :
    ∃ rest', trim (u ++ '\n' :: rest) = u ++ '\n' :: rest' ∧ trim rest' ≠ [] := by
  obtain ⟨c, hc, hwhite⟩ : ∃ c ∈ rest, isWhiteSpace c = false := by
    by_contra hnone
    refine hrest (trim_eq_nil_iff.mpr fun c hc => ?_)
    by_contra hwhite
    exact hnone ⟨c, hc, by simpa using hwhite⟩
  obtain ⟨before, after, rfl⟩ := List.append_of_mem hc
  refine ⟨before ++ c :: trimEnd after, ?_, ?_⟩
  · have hstart : trimStart (u ++ '\n' :: (before ++ c :: after)) =
        u ++ '\n' :: (before ++ c :: after) := by
      rw [trimStart, List.dropWhile_append, if_neg]
      · exact congrArg (· ++ _) hu
      · rw [← trimStart, hu]
        simpa using hne
    have hsplit : ∀ t : Text, u ++ '\n' :: (before ++ t) = (u ++ '\n' :: before) ++ t := by simp
    rw [trim, hstart, hsplit, hsplit, trimEnd_append_cons hwhite]
  · rw [Ne, trim_eq_nil_iff]
    intro hblank
    rw [hblank c (by simp)] at hwhite
    cases hwhite

end Text

namespace EventReader

variable {σ ω ε : Type} {handle : σ → Text → Sends ω ε σ} {invalid : Utf8.Error → ε}
  {last : σ → List ω}

/-! ## The events of a text -/

/-- The lines of a text, the first one begun with `line`; the last one need not have ended. -/
def streamLines : Text → Text → List Text
  | line, [] => if line = [] then [] else [Text.withoutCr line]
  | line, c :: rest =>
      if c = '\n' then Text.withoutCr line :: streamLines [] rest
      else streamLines (line ++ [c]) rest

/-- A line hands on the payload that it completes. -/
theorem processLine_eq (r : EventReader σ) (line : Text) :
    processLine handle r line = (payloadAt r.eventDataLines line).toList.foldlM handle r.state >>=
      fun state =>
        pure { r with eventDataLines := dataAfter r.eventDataLines line, state := state } := by
  rw [processLine, payloadAt, dataAfter]
  by_cases hline : line = []
  · rw [if_pos hline, if_pos hline, flushEvent]
    by_cases hdata : r.eventDataLines = []
    · obtain ⟨buffer, data, state⟩ := r
      obtain rfl : data = [] := hdata
      rw [if_pos rfl, if_neg fun h => h.2 rfl]
      rfl
    · rw [if_neg hdata, if_pos ⟨hline, hdata⟩, Option.toList_some, List.foldlM_cons]
      simp
  · rw [if_neg hline, if_neg hline, if_neg fun h => hline h.1, Option.toList_none,
      List.foldlM_nil, pure_bind]
    cases Text.stripPrefix line "data:" with
    | none => simp
    | some data => rfl

theorem foldlM_payloads_cons (data : List Text) (line : Text) (lines : List Text) (s : σ) :
    (payloads data (line :: lines)).foldlM handle s =
      (payloadAt data line).toList.foldlM handle s >>= fun s =>
        (payloads (dataAfter data line) lines).foldlM handle s := by
  rw [payloads, List.foldlM_append]

/-- **A text is decoded event by event**, the end of the stream being one more empty line. -/
theorem pushStr_finish_eq (r : EventReader σ) (t : Text) :
    (pushStr handle r t >>= finish handle last) =
      (payloads r.eventDataLines (streamLines r.lineBuffer.text t ++ [[]])).foldlM handle
        r.state >>= fun s => tell (last s) := by
  rw [pushStr_eq_foldlM]
  induction t generalizing r with
  | nil =>
      rw [List.foldlM_nil, pure_bind, finish, streamLines]
      have hflush : ∀ r : EventReader σ, (flushEvent handle r >>= fun r => tell (last r.state)) =
          (payloads r.eventDataLines [[]]).foldlM handle r.state >>= fun s => tell (last s) := by
        intro r
        have hline : flushEvent handle r = processLine handle r [] := rfl
        rw [hline, processLine_eq, foldlM_payloads_cons, bind_assoc, bind_assoc]
        simp [payloads]
      by_cases hbuffer : r.lineBuffer.text = []
      · rw [if_pos hbuffer, if_pos hbuffer, pure_bind, List.nil_append]
        exact hflush r
      · rw [if_neg hbuffer, if_neg hbuffer, List.singleton_append, foldlM_payloads_cons,
          processLine_eq, bind_assoc, bind_assoc]
        simp [hflush]
  | cons c t ih =>
      rw [List.foldlM_cons, pushChar, streamLines]
      by_cases hc : c = '\n'
      · rw [dif_pos hc, if_pos hc, List.cons_append, foldlM_payloads_cons, processLine_eq]
        simp [ih, OpenLine.empty]
      · rw [dif_neg hc, if_neg hc, pure_bind, ih]
        rfl

/-- The bytes of a text are decoded event by event. -/
theorem decode_encode_eq (s : σ) (t : Text) :
    decode handle invalid last ⟨.empty, [], s⟩ [Utf8.encode t] =
      (payloads [] (streamLines [] t ++ [[]])).foldlM handle s >>= fun s => tell (last s) := by
  simp only [decode, List.foldlM_cons, List.foldlM_nil, pushBytes, Utf8.read_encode, bind_pure]
  exact pushStr_finish_eq ⟨.empty, [], s⟩ t

end EventReader

/-! ## Streams as they are written -/

inductive LineEnd where
  | lf
  | crlf
  deriving DecidableEq

def LineEnd.text : LineEnd → Text
  | .lf => ['\n']
  | .crlf => ['\r', '\n']

/-- A line of a stream. -/
inductive StreamLine where
  | data (spaces : Nat) (text : Text)
  /-- another field, or a comment -/
  | other (text : Text)
  | blank
  deriving DecidableEq

namespace StreamLine

def text : StreamLine → Text
  | .data spaces text => ("data:" : Text) ++ (List.replicate spaces ' ' ++ text)
  | .other text => text
  | .blank => []

/-- A text on one line. -/
def OneLine (t : Text) : Prop := '\n' ∉ t ∧ '\r' ∉ t

/-- The line is one line, and is what it is said to be. -/
def Sound : StreamLine → Prop
  | .data _ text => OneLine text
  | .other text => OneLine text ∧ text ≠ [] ∧ Text.stripPrefix text "data:" = none
  | .blank => True

instance (t : Text) : Decidable (OneLine t) := inferInstanceAs (Decidable (_ ∧ _))

instance : DecidablePred Sound
  | .data _ text => inferInstanceAs (Decidable (OneLine text))
  | .other text => inferInstanceAs (Decidable (OneLine text ∧ text ≠ [] ∧ _))
  | .blank => inferInstanceAs (Decidable True)

/-- The text of a data line. -/
def data? : StreamLine → Option Text
  | .data _ text => some text
  | .other _ | .blank => none

theorem oneLine_text {line : StreamLine} (h : line.Sound) : OneLine line.text := by
  cases line with
  | data spaces text =>
      obtain ⟨hn, hr⟩ := h
      constructor
      · simp [StreamLine.text, hn]
      · simp [StreamLine.text, hr]
  | other text => exact h.1
  | blank => exact ⟨List.not_mem_nil, List.not_mem_nil⟩

end StreamLine

/-- A stream as it is written; the last line has not ended. -/
structure EventText where
  lines : List (StreamLine × LineEnd)
  last : Option StreamLine
  sound : ∀ line ∈ lines.map Prod.fst ++ last.toList, line.Sound

namespace EventText

open EventReader StreamLine

variable {σ ω ε : Type} {handle : σ → Text → Sends ω ε σ} {invalid : Utf8.Error → ε}
  {last : σ → List ω}

def allLines (stream : EventText) : List StreamLine :=
  stream.lines.map Prod.fst ++ stream.last.toList

def text (stream : EventText) : Text :=
  stream.lines.flatMap (fun line => line.1.text ++ line.2.text) ++
    (stream.last.map StreamLine.text).getD []

/-- The texts of the data lines. -/
def dataTexts (stream : EventText) : List Text := stream.allLines.filterMap data?

/-- A text without a newline goes on with the line. -/
theorem streamLines_append {t : Text} (h : '\n' ∉ t) (line rest : Text) :
    streamLines line (t ++ rest) = streamLines (line ++ t) rest := by
  induction t generalizing line with
  | nil => rw [List.nil_append, List.append_nil]
  | cons c t ih =>
      have hc : c ≠ '\n' := fun heq => h (heq ▸ List.mem_cons_self)
      rw [List.cons_append, streamLines, if_neg hc, ih fun hmem => h (List.mem_cons_of_mem _ hmem),
        List.append_assoc, List.singleton_append]

/-- A line that has ended is read first. -/
theorem streamLines_ended {t : Text} (h : OneLine t) (lineEnd : LineEnd) (rest : Text) :
    streamLines [] (t ++ lineEnd.text ++ rest) = t :: streamLines [] rest := by
  rw [List.append_assoc, streamLines_append h.1, List.nil_append]
  cases lineEnd with
  | lf =>
      show (if '\n' = '\n' then _ else _) = _
      rw [if_pos rfl, Text.withoutCr_of_notMem h.2]
      rfl
  | crlf =>
      show (if '\r' = '\n' then _ else
        if '\n' = '\n' then Text.withoutCr (t ++ ['\r']) :: streamLines [] rest else _) = _
      rw [if_neg (by decide), if_pos rfl, Text.withoutCr_append_cr]

theorem streamLines_lines {lines : List (StreamLine × LineEnd)}
    (h : ∀ line ∈ lines.map Prod.fst, line.Sound) (rest : Text) :
    streamLines [] (lines.flatMap (fun line => line.1.text ++ line.2.text) ++ rest) =
      (lines.map Prod.fst).map StreamLine.text ++ streamLines [] rest := by
  induction lines with
  | nil => rfl
  | cons line lines ih =>
      rw [List.map_cons, List.forall_mem_cons] at h
      rw [List.flatMap_cons, List.append_assoc, streamLines_ended (oneLine_text h.1), ih h.2]
      rfl

/-! ### The events -/

/-- The events of lines, after these data lines. -/
def groupsAfter : List Text → List StreamLine → List (List Text)
  | pending, [] => if pending = [] then [] else [pending]
  | pending, .data _ text :: lines => groupsAfter (pending ++ [Text.trimStart text]) lines
  | pending, .other _ :: lines => groupsAfter pending lines
  | pending, .blank :: lines =>
      (if pending = [] then [] else [pending]) ++ groupsAfter [] lines

/-- The data lines of each event. -/
def groups (stream : EventText) : List (List Text) := groupsAfter [] stream.allLines

theorem trimStart_spaces (n : Nat) (t : Text) :
    Text.trimStart (List.replicate n ' ' ++ t) = Text.trimStart t := by
  induction n with
  | zero => rfl
  | succ n ih =>
      have hspace : Text.isWhiteSpace ' ' = true := by decide
      rw [List.replicate_succ, List.cons_append, Text.trimStart, List.dropWhile_cons_of_pos hspace]
      exact ih

theorem stripPrefix_append (fragment t : Text) :
    Text.stripPrefix (fragment ++ t) fragment = some t := by
  rw [Text.stripPrefix, if_pos (List.isPrefixOf_iff_prefix.mpr (List.prefix_append _ _)),
    List.drop_left]

theorem dataAfter_text {line : StreamLine} (h : line.Sound) (hne : line ≠ .blank)
    (data : List Text) :
    dataAfter data line.text = data ++ (line.data?.map Text.trimStart).toList ∧ line.text ≠ [] := by
  cases line with
  | data spaces text =>
      have hne : (StreamLine.data spaces text).text ≠ [] := List.cons_ne_nil _ _
      rw [dataAfter, if_neg hne]
      refine ⟨?_, hne⟩
      rw [StreamLine.text, stripPrefix_append, Option.map_some, trimStart_spaces]
      rfl
  | other text =>
      obtain ⟨-, hne, hstrip⟩ := h
      rw [StreamLine.text, dataAfter, if_neg hne, hstrip]
      exact ⟨rfl, hne⟩
  | blank => exact absurd rfl hne

theorem payloadAt_of_ne {data : List Text} {line : Text} (h : line ≠ []) :
    payloadAt data line = none :=
  if_neg fun hboth => h hboth.1

theorem payloadAt_nil (data : List Text) : (payloadAt data []).toList =
    (if data = [] then [] else [data]).map (Text.joinWith '\n') := by
  rw [payloadAt]
  by_cases hdata : data = []
  · rw [if_neg fun h => h.2 hdata, if_pos hdata]
    rfl
  · rw [if_pos ⟨rfl, hdata⟩, if_neg hdata]
    rfl

/-- The payloads of lines are the events, joined. -/
theorem payloads_eq_groupsAfter {lines : List StreamLine} (h : ∀ line ∈ lines, line.Sound)
    (data : List Text) :
    payloads data (lines.map StreamLine.text ++ [[]]) =
      (groupsAfter data lines).map (Text.joinWith '\n') := by
  induction lines generalizing data with
  | nil =>
      rw [List.map_nil, List.nil_append, payloads, payloads, List.append_nil, payloadAt_nil]
      rfl
  | cons line lines ih =>
      rw [List.forall_mem_cons] at h
      rw [List.map_cons, List.cons_append, payloads]
      cases line with
      | blank =>
          rw [groupsAfter, List.map_append, StreamLine.text, payloadAt_nil, dataAfter, if_pos rfl,
            ih h.2]
      | data spaces text =>
          obtain ⟨hdata, hne⟩ := dataAfter_text h.1 (by simp) data
          rw [payloadAt_of_ne hne, hdata, ih h.2]
          rfl
      | other text =>
          obtain ⟨hdata, hne⟩ := dataAfter_text h.1 (by simp) data
          rw [payloadAt_of_ne hne, hdata, ih h.2, data?, Option.map_none, Option.toList_none,
            List.append_nil]
          rfl

/-- One more empty line at the end changes nothing. -/
theorem payloads_concat_nil (data : List Text) (lines : List Text) :
    payloads data (lines ++ [[]] ++ [[]]) = payloads data (lines ++ [[]]) := by
  induction lines generalizing data with
  | nil => simp [payloads, dataAfter, payloadAt]
  | cons line lines ih => rw [List.cons_append, List.cons_append, payloads, ih]; rfl

theorem payloads_text (stream : EventText) :
    payloads [] (streamLines [] stream.text ++ [[]]) =
      stream.groups.map (Text.joinWith '\n') := by
  obtain ⟨lines, lastLine, hsound⟩ := stream
  rw [groups, allLines, ← payloads_eq_groupsAfter hsound, text, List.map_append,
    streamLines_lines fun line hline => hsound line (List.mem_append_left _ hline)]
  cases lastLine with
  | none => rfl
  | some line =>
      obtain ⟨hn, hr⟩ := oneLine_text
        (hsound line (List.mem_append_right _ (List.mem_singleton_self line)))
      have hlast : streamLines [] line.text =
          if line.text = [] then [] else [line.text] := by
        rw [← List.append_nil line.text, streamLines_append hn, List.nil_append, List.append_nil,
          streamLines, Text.withoutCr_of_notMem hr]
      show payloads [] (_ ++ streamLines [] line.text ++ [[]]) = _
      rw [hlast]
      split
      · next hnil =>
        show _ = payloads [] (_ ++ [line.text] ++ [[]])
        rw [hnil, payloads_concat_nil, List.append_nil]
      · rfl

theorem flatten_groupsAfter (data : List Text) (lines : List StreamLine) :
    (groupsAfter data lines).flatten = data ++ (lines.filterMap data?).map Text.trimStart := by
  have hgroup : ∀ data : List Text, (if data = [] then [] else [data]).flatten = data := by
    intro data
    split
    · next hdata => rw [hdata, List.flatten_nil]
    · rw [List.flatten_singleton]
  induction lines generalizing data with
  | nil => rw [groupsAfter, hgroup, List.filterMap_nil, List.map_nil, List.append_nil]
  | cons line lines ih =>
      cases line with
      | data spaces text => rw [groupsAfter, ih, List.append_assoc]; rfl
      | other text => rw [groupsAfter, ih]; rfl
      | blank => rw [groupsAfter, List.flatten_append, hgroup, ih]; rfl

/-- Every data line is in an event. -/
theorem flatten_groups (stream : EventText) :
    stream.groups.flatten = stream.dataTexts.map Text.trimStart :=
  flatten_groupsAfter [] stream.allLines

theorem ne_nil_of_mem_groupsAfter {data : List Text} {lines : List StreamLine} {group : List Text}
    (h : group ∈ groupsAfter data lines) : group ≠ [] := by
  have hgroup : ∀ data : List Text, group ∈ (if data = [] then [] else [data]) → group ≠ [] := by
    intro data hmem
    split at hmem
    · cases hmem
    · next hdata => exact List.mem_singleton.mp hmem ▸ hdata
  induction lines generalizing data with
  | nil => exact hgroup data h
  | cons line lines ih =>
      cases line with
      | data spaces text => exact ih h
      | other text => exact ih h
      | blank => exact (List.mem_append.mp h).elim (hgroup data) ih

/-! ### Events apart -/

/-- There is an empty line between any two data lines; `isOpen`: a data line has come since the last
empty line. -/
def separatedAfter : Bool → List StreamLine → Bool
  | _, [] => true
  | isOpen, .data _ _ :: lines => !isOpen && separatedAfter true lines
  | isOpen, .other _ :: lines => separatedAfter isOpen lines
  | _, .blank :: lines => separatedAfter false lines

def separated (stream : EventText) : Bool := separatedAfter false stream.allLines

theorem length_of_mem_groupsAfter {lines : List StreamLine} {data : List Text}
    (hdata : data.length ≤ 1) (h : separatedAfter (data ≠ []) lines = true) {group : List Text}
    (hgroup : group ∈ groupsAfter data lines) : group.length ≤ 1 := by
  have hone : ∀ data : List Text, data.length ≤ 1 → group ∈ (if data = [] then [] else [data]) →
      group.length ≤ 1 := by
    intro data hdata hmem
    split at hmem
    · cases hmem
    · exact List.mem_singleton.mp hmem ▸ hdata
  induction lines generalizing data with
  | nil => exact hone data hdata hgroup
  | cons line lines ih =>
      cases line with
      | data spaces text =>
          rw [separatedAfter, Bool.and_eq_true, Bool.not_eq_true', decide_eq_false_iff_not,
            not_not] at h
          obtain rfl := h.1
          exact ih (by simp) (by simpa using h.2) hgroup
      | other text => exact ih hdata h hgroup
      | blank =>
          refine (List.mem_append.mp hgroup).elim (hone data hdata) fun hmem => ?_
          exact ih (by simp) (by simpa [separatedAfter] using h) hmem

theorem length_of_mem_groups {stream : EventText} (h : stream.separated = true)
    {group : List Text} (hgroup : group ∈ stream.groups) : group.length = 1 := by
  have hle := length_of_mem_groupsAfter (by simp) (by simpa [separated] using h) hgroup
  have hpos := List.length_pos_of_ne_nil (ne_nil_of_mem_groupsAfter hgroup)
  omega

/-! ### What is made of the events -/

/-- **The events are decoded one after the other** by a handler that makes of each what it makes of
the values of its lines. -/
theorem decode_eq {ι : Type} (process : σ → ι → Sends ω ε σ) (values : Text → List ι)
    (stream : EventText)
    (hhandle : ∀ group ∈ stream.groups, ∀ s,
      handle s (Text.joinWith '\n' group) = (group.flatMap values).foldlM process s) (s : σ) :
    decode handle invalid last ⟨.empty, [], s⟩ [Utf8.encode stream.text] =
      ((stream.dataTexts.map Text.trimStart).flatMap values).foldlM process s >>= fun s =>
        tell (last s) := by
  rw [decode_encode_eq, payloads_text, ← flatten_groups]
  congr 1
  generalize stream.groups = groups at hhandle
  induction groups generalizing s with
  | nil => rfl
  | cons group groups ih =>
      rw [List.forall_mem_cons] at hhandle
      rw [List.map_cons, List.foldlM_cons, hhandle.1, List.flatten_cons, List.flatMap_append,
        List.foldlM_append]
      exact bind_congr fun s => ih s hhandle.2

end EventText
