import SimpleClaw.Lib.EventEncoding
import SimpleClaw.Providers.Chunking
import SimpleClaw.Providers.StreamedCalls

/-!
# Events on the wire

A provider writes each event as a data line, and empty lines between the events.  Gemini reads what
is between two empty lines as one value.  Codex does so, too, but where that is none it reads the
lines one by one, so that the empty lines may be missing.

* `SerdeJson.ReadsValues`: what is documented of reading values.
* `dataValue`: the value of a data line.
* `decode_eq_processEvents`: the events that are written are processed, in this order.
-/

namespace SimpleClaw
namespace Providers

open StreamLine (OneLine)

/-- White space around a value does not matter, and nothing else may come after it. -/
structure SerdeJson.ReadsValues (json : SerdeJson) : Prop where
  trim : ∀ t v, json.fromStr t = .ok v → json.fromStr (Text.trim t) = .ok v
  trimStart : ∀ t v, json.fromStr t = .ok v → json.fromStr (Text.trimStart t) = .ok v
  empty : ∀ v, json.fromStr [] ≠ .ok v
  bareWord : ∀ v, json.fromStr "[DONE]" ≠ .ok v
  trailing : ∀ t v rest, json.fromStr t = .ok v → Text.trim rest ≠ [] →
    ∀ v', json.fromStr (t ++ '\n' :: rest) ≠ .ok v'

/-- The value of a data line, unless it is empty, the end or no value. -/
def dataValue (json : SerdeJson) (line : Text) : Option Value :=
  let line := Text.trim line
  if line = [] ∨ line = "[DONE]" then none else (json.fromStr line).toOption

section Data

variable {json : SerdeJson}

theorem dataValue_done (json : SerdeJson) : dataValue json "[DONE]" = none := by
  have htrim : Text.trim "[DONE]" = "[DONE]" := by decide
  simp only [dataValue]
  rw [if_pos (.inr htrim)]

/-- A text that is read as a value shows, and is not the end. -/
theorem SerdeJson.ReadsValues.trim_ne (hjson : json.ReadsValues) {t : Text} {v : Value}
    (h : json.fromStr t = .ok v) : ¬ (Text.trim t = [] ∨ Text.trim t = "[DONE]") := by
  have htrim := hjson.trim t v h
  rintro (hnil | hdone)
  · exact hjson.empty v (hnil ▸ htrim)
  · exact hjson.bareWord v (hdone ▸ htrim)

theorem SerdeJson.ReadsValues.dataValue_eq (hjson : json.ReadsValues) {t : Text} {v : Value}
    (h : json.fromStr t = .ok v) : dataValue json t = some v := by
  simp only [dataValue]
  rw [if_neg (hjson.trim_ne h), hjson.trim t v h]
  rfl

/-- What is left of a data line after the white space at its start: the end, or a value. -/
structure IsData (json : SerdeJson) (line : Text) : Prop where
  oneLine : OneLine line
  trimmed : Text.trimStart line = line
  read : line = "[DONE]" ∨ ∃ v, json.fromStr line = .ok v

theorem IsData.trim_ne_nil (hjson : json.ReadsValues) {line : Text} (h : IsData json line) :
    Text.trim line ≠ [] := by
  obtain rfl | ⟨v, hv⟩ := h.read
  · decide
  · exact fun hnil => hjson.trim_ne hv (.inl hnil)

theorem trim_joinWith_ne_nil {line : Text} (h : Text.trim line ≠ []) (rest : List Text) :
    Text.trim (Text.joinWith '\n' (line :: rest)) ≠ [] := by
  rw [Ne, Text.trim_eq_nil_iff] at h ⊢
  rw [Text.joinWith_cons_eq_flatMap]
  exact fun hblank => h fun c hc => hblank c (List.mem_append_left _ hc)

theorem ne_nil_of_trim_ne_nil {t : Text} (h : Text.trim t ≠ []) : t ≠ [] := by
  rintro rfl
  exact h rfl

/-- The lines of an event. -/
theorem lines_joinWith_of_isData (hjson : json.ReadsValues) {group : List Text}
    (hne : group ≠ []) (h : ∀ line ∈ group, IsData json line) :
    Text.lines (Text.joinWith '\n' group) = group := by
  refine Text.lines_joinWith (fun line hline => (h line hline).oneLine.1)
    (fun line hline => (h line hline).oneLine.2) (List.getLast?_eq_some_getLast hne) ?_
  exact ne_nil_of_trim_ne_nil ((h _ (List.getLast_mem hne)).trim_ne_nil hjson)

end Data

/-! ## One event -/

/-- The end comes last, if it comes. -/
def DoneLast (lines : List Text) : Prop := lines.Pairwise fun line _ => line ≠ ("[DONE]" : Text)

namespace OpenaiCodex

variable {json : SerdeJson}

/-- **The data lines of an event are processed one by one.** -/
theorem handlePayload_joinWith (hjson : json.ReadsValues) {group : List Text} (hne : group ≠ [])
    (h : ∀ line ∈ group, IsData json line) (hdone : DoneLast group) (s : CodexState) :
    handlePayload json s (Text.joinWith '\n' group) =
      (group.flatMap fun line => (dataValue json line).toList).foldlM (processEvent json) s := by
  rw [← List.filterMap_eq_flatMap_toList]
  cases group with
  | nil => exact absurd rfl hne
  | cons line rest =>
      cases rest with
      | nil =>
          rw [Text.joinWith_singleton]
          obtain rfl | ⟨v, hv⟩ := (h line List.mem_cons_self).read
          · rw [List.filterMap_cons_none (dataValue_done json), handlePayload]
            exact if_pos (.inr (by decide))
          · rw [List.filterMap_cons_some (hjson.dataValue_eq hv), handlePayload, eventValues,
              hjson.trim line v hv]
            exact if_neg (hjson.trim_ne hv)
      | cons line' rest =>
          -- the first line is a value, and something follows it
          obtain ⟨v, hv⟩ := (h line List.mem_cons_self).read.resolve_left
            ((List.pairwise_cons.mp hdone).1 line' List.mem_cons_self)
          have hline := h line List.mem_cons_self
          have hshows := (h line' (by simp)).trim_ne_nil hjson
          obtain ⟨rest', htrim, hrest'⟩ := Text.exists_trim_append_newline hline.trimmed
            (ne_nil_of_trim_ne_nil (hline.trim_ne_nil hjson))
            (trim_joinWith_ne_nil hshows rest)
          rw [← Text.joinWith_cons_cons] at htrim
          have hlines := lines_joinWith_of_isData hjson hne h
          generalize Text.joinWith '\n' (line :: line' :: rest) = payload at htrim hlines
          have hnot : ¬ (Text.trim payload = [] ∨ Text.trim payload = "[DONE]") := by
            rw [htrim]
            rintro (hnil | hend)
            · exact absurd (List.append_eq_nil_iff.mp hnil).2 (List.cons_ne_nil _ _)
            · have hmem : '\n' ∈ (("[DONE]" : Text)) := by
                rw [← hend]
                simp
              exact absurd hmem (by decide)
          have hvalues : eventValues json payload =
              (Text.lines payload).filterMap (dataValue json) := by
            rw [eventValues]
            cases hread : json.fromStr (Text.trim payload) with
            | error e => rfl
            | ok v' =>
                rw [htrim] at hread
                exact absurd hread (hjson.trailing line v rest' hv hrest' v')
          rw [handlePayload, hvalues, hlines]
          exact if_neg hnot

end OpenaiCodex

namespace Gemini

variable {json : SerdeJson}

/-- The one data line of an event is processed. -/
theorem handlePayload_joinWith (hjson : json.ReadsValues) {group : List Text}
    (hone : group.length = 1) (h : ∀ line ∈ group, IsData json line) (table : ToolCallTable) :
    handlePayload json table (Text.joinWith '\n' group) =
      (group.flatMap fun line => (dataValue json line).toList).foldlM (processValue json)
        table := by
  rw [← List.filterMap_eq_flatMap_toList]
  obtain ⟨line, rfl⟩ := List.length_eq_one_iff.mp hone
  rw [Text.joinWith_singleton]
  obtain rfl | ⟨v, hv⟩ := (h line List.mem_cons_self).read
  · rw [List.filterMap_cons_none (dataValue_done json), handlePayload]
    exact if_pos (by decide)
  · rw [List.filterMap_cons_some (hjson.dataValue_eq hv),
      handlePayload_eq (fun hdone => hjson.trim_ne hv (.inr hdone)) hv, List.filterMap_nil,
      List.foldlM_cons]
    exact (bind_pure _).symm

end Gemini

/-! ## A whole stream -/

section Stream

variable {json : SerdeJson} {stream : EventText} {texts ending : List Text} {values : List Value}

/-- The data lines are those of the events, and perhaps the end. -/
theorem isData_of_mem_dataTexts (hjson : json.ReadsValues)
    (hdata : stream.dataTexts = texts ++ ending)
    (hending : ending = [] ∨ ending = [("[DONE]" : Text)])
    (hread : texts.map json.fromStr = values.map .ok) {line : Text}
    (hline : line ∈ stream.dataTexts.map Text.trimStart) : IsData json line := by
  obtain ⟨text, htext, rfl⟩ := List.mem_map.mp hline
  refine ⟨?_, List.dropWhile_idempotent _ _, ?_⟩
  · obtain ⟨streamLine, hmem, hsome⟩ := List.mem_filterMap.mp htext
    cases streamLine with
    | data spaces text' =>
        obtain rfl := Option.some.inj hsome
        have hsub := (List.dropWhile_sublist (l := text') Text.isWhiteSpace).subset
        obtain ⟨hn, hr⟩ : OneLine text' := stream.sound _ hmem
        exact ⟨fun hmem => hn (hsub hmem), fun hmem => hr (hsub hmem)⟩
    | other text' => cases hsome
    | blank => cases hsome
  · rw [hdata, List.mem_append] at htext
    obtain htext | htext := htext
    · have hmem := List.mem_map_of_mem (f := json.fromStr) htext
      rw [hread] at hmem
      obtain ⟨v, -, hv⟩ := List.mem_map.mp hmem
      exact .inr ⟨v, hjson.trimStart text v hv.symm⟩
    · obtain rfl | rfl := hending
      · cases htext
      · obtain rfl := List.mem_singleton.mp htext
        exact .inl (by decide)

/-- No event comes after the end. -/
theorem doneLast_dataTexts (hjson : json.ReadsValues)
    (hdata : stream.dataTexts = texts ++ ending)
    (hending : ending = [] ∨ ending = [("[DONE]" : Text)])
    (hread : texts.map json.fromStr = values.map .ok) :
    DoneLast (stream.dataTexts.map Text.trimStart) := by
  have htexts : ∀ text ∈ texts, Text.trimStart text ≠ "[DONE]" := by
    intro text htext hdone
    have hmem := List.mem_map_of_mem (f := json.fromStr) htext
    rw [hread] at hmem
    obtain ⟨v, -, hv⟩ := List.mem_map.mp hmem
    exact hjson.bareWord v (hdone ▸ hjson.trimStart text v hv.symm)
  rw [hdata, DoneLast, List.pairwise_map, List.pairwise_append]
  refine ⟨?_, ?_, fun text htext _ _ => htexts text htext⟩
  · exact List.pairwise_of_forall_mem_list fun text htext _ _ => htexts text htext
  · obtain rfl | rfl := hending
    · exact .nil
    · exact List.pairwise_singleton _ _

/-- The values of the data lines are the events. -/
theorem flatMap_dataValue_dataTexts (hjson : json.ReadsValues)
    (hdata : stream.dataTexts = texts ++ ending)
    (hending : ending = [] ∨ ending = [("[DONE]" : Text)])
    (hread : texts.map json.fromStr = values.map .ok) :
    (stream.dataTexts.map Text.trimStart).flatMap (fun line => (dataValue json line).toList) =
      values := by
  have hends : (ending.map Text.trimStart).filterMap (dataValue json) = [] := by
    obtain rfl | rfl := hending
    · rfl
    · have htrim : Text.trimStart "[DONE]" = "[DONE]" := by decide
      rw [List.map_singleton, htrim, List.filterMap_cons_none (dataValue_done json)]
      rfl
  have htexts : (texts.map Text.trimStart).filterMap (dataValue json) = values := by
    clear hdata
    induction texts generalizing values with
    | nil =>
        cases values with
        | nil => rfl
        | cons v values => cases hread
    | cons text texts ih =>
        cases values with
        | nil => cases hread
        | cons v values =>
            obtain ⟨hv, hread⟩ := List.cons.inj hread
            rw [List.map_cons, List.filterMap_cons_some
              (hjson.dataValue_eq (hjson.trimStart text v hv)), ih hread]
  rw [← List.filterMap_eq_flatMap_toList, hdata, List.map_append, List.filterMap_append, htexts,
    hends, List.append_nil]

/-- **The events that are written are processed, in this order**: by Codex always, and by Gemini if
there are empty lines between them. -/
theorem decode_eq_processEvents (json : SerdeJson) (hjson : json.ReadsValues) (stream : EventText)
    (texts ending : List Text) (values : List Value)
    (hdata : stream.dataTexts = texts ++ ending)
    (hending : ending = [] ∨ ending = [("[DONE]" : Text)])
    (hread : texts.map json.fromStr = values.map .ok) :
    OpenaiCodex.CodexStreamAccumulator.decode json [Utf8.encode stream.text] =
        OpenaiCodex.processEvents json values ∧
      (stream.separated = true →
        Gemini.GeminiStreamAccumulator.decode json [Utf8.encode stream.text] =
          Gemini.processEvents json values) := by
  have hisData : ∀ group ∈ stream.groups, ∀ line ∈ group, IsData json line := by
    intro group hgroup line hline
    refine isData_of_mem_dataTexts hjson hdata hending hread ?_
    rw [← EventText.flatten_groups]
    exact List.mem_flatten_of_mem hgroup hline
  have hvalues := flatMap_dataValue_dataTexts hjson hdata hending hread
  constructor
  · refine (EventText.decode_eq (OpenaiCodex.processEvent json)
      (fun line => (dataValue json line).toList) stream (fun group hgroup s => ?_) _).trans ?_
    · refine OpenaiCodex.handlePayload_joinWith hjson
        (EventText.ne_nil_of_mem_groupsAfter hgroup) (hisData group hgroup) ?_ s
      have hlast := doneLast_dataTexts hjson hdata hending hread
      rw [← EventText.flatten_groups] at hlast
      exact hlast.sublist (List.sublist_flatten_of_mem hgroup)
    · rw [hvalues]
      rfl
  · intro hseparated
    refine (EventText.decode_eq (Gemini.processValue json)
      (fun line => (dataValue json line).toList) stream (fun group hgroup s => ?_) _).trans ?_
    · exact Gemini.handlePayload_joinWith hjson (EventText.length_of_mem_groups hseparated hgroup)
        (hisData group hgroup) s
    · rw [hvalues]
      rfl

end Stream

/-! ## Deltas on the wire -/

theorem eq_of_fromStr_deltaJson {t : Text} {v : Value} (h : deltaJson.fromStr t = .ok v) :
    t = codexDelta ∨ t = geminiDelta := by
  have hread : readDelta t = .ok v := h
  rw [readDelta] at hread
  split at hread
  · next heq => exact .inl heq
  · split at hread
    · next heq => exact .inr heq
    · cases hread

theorem deltaJson_readsValues : deltaJson.ReadsValues where
  trim t v h := by
    obtain rfl | rfl := eq_of_fromStr_deltaJson h
    · exact h
    · exact h
  trimStart t v h := by
    obtain rfl | rfl := eq_of_fromStr_deltaJson h
    · exact h
    · exact h
  empty v h := by
    rcases eq_of_fromStr_deltaJson h with hnil | hnil
    · exact absurd hnil (by decide)
    · exact absurd hnil (by decide)
  bareWord v h := by
    rcases eq_of_fromStr_deltaJson h with hdone | hdone
    · exact absurd hdone (by decide)
    · exact absurd hdone (by decide)
  trailing t v rest h hrest v' h' := by
    -- a newline is in neither of the texts
    have hmem : '\n' ∈ t ++ '\n' :: rest := List.mem_append_right _ List.mem_cons_self
    rcases eq_of_fromStr_deltaJson h' with heq | heq
    · rw [heq] at hmem
      exact absurd hmem (by decide)
    · rw [heq] at hmem
      exact absurd hmem (by decide)

/-- Two events without an empty line between them, and the end without one after it. -/
def codexStream : EventText where
  lines := [(.other ": ping", .lf), (.data 1 codexDelta, .crlf), (.data 0 codexDelta, .lf)]
  last := some (.data 2 "[DONE]")
  sound := by decide +kernel

/-- Two events and the end, apart. -/
def geminiStream : EventText where
  lines := [(.data 1 geminiDelta, .lf), (.blank, .lf), (.other "event: message", .crlf),
    (.data 0 geminiDelta, .crlf), (.blank, .crlf), (.data 3 "[DONE]", .lf)]
  last := none
  sound := by decide +kernel

theorem decode_eq_processEvents_deltas :
    OpenaiCodex.CodexStreamAccumulator.decode deltaJson [Utf8.encode codexStream.text] =
        OpenaiCodex.processEvents deltaJson
          (List.replicate 2 (.object [("delta".toList, .string "é"),
            ("type".toList, .string "response.output_text.delta")])) ∧
      Gemini.GeminiStreamAccumulator.decode deltaJson [Utf8.encode geminiStream.text] =
        Gemini.processEvents deltaJson
          (List.replicate 2 (.object [("candidates".toList, .array [.object [("content".toList,
            .object [("parts".toList, .array [.object [("text".toList, .string "é")]])])]])])) :=
  ⟨(decode_eq_processEvents deltaJson deltaJson_readsValues codexStream
      [codexDelta, codexDelta] [("[DONE]" : Text)] _ rfl (.inr rfl) rfl).1,
    (decode_eq_processEvents deltaJson deltaJson_readsValues geminiStream
      [geminiDelta, geminiDelta] [("[DONE]" : Text)] _ rfl (.inr rfl) rfl).2 rfl⟩

end Providers
end SimpleClaw
