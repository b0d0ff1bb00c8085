import SimpleClaw.Providers.Gemini
import SimpleClaw.Providers.OpenaiCodex

/-!
# Streams in chunks

The network splits a stream into chunks where it likes, and each chunk is read as text by itself.
A chunk that ends within a character is no text, and the stream fails there, although it is text
as a whole.

* `SplitSafely`: every chunk is text by itself, or the stream fails before the first that is not.
* `decode_chunks_iff`: just then both accumulators decode the chunks as they decode the stream.
* `decode_chunks_counterexample`: a letter of two bytes in two chunks.
-/

namespace SimpleClaw
namespace Providers

open OpenaiCodex Gemini

/-- Every chunk is text by itself, or the text before the first one that is not completes an event
whose payload fails. -/
def SplitSafely (fails : Text → Bool) (chunks : List (List UInt8)) : Prop :=
  (EventReader.textBefore chunks).2 = true ∨
    ∃ payload ∈ EventReader.payloads []
      (EventReader.endedLines [] (EventReader.textBefore chunks).1), fails payload = true

/-- **Both accumulators decode a stream in chunks as they decode the stream** exactly if it is
split safely. -/
theorem decode_chunks_iff (json : SerdeJson) (chunks : List (List UInt8)) (whole : Text)
    (h : Utf8.read chunks.flatten = .ok whole) :
    (CodexStreamAccumulator.decode json chunks =
        CodexStreamAccumulator.decode json [chunks.flatten] ↔
      SplitSafely (OpenaiCodex.payloadFails json) chunks) ∧
    (GeminiStreamAccumulator.decode json chunks =
        GeminiStreamAccumulator.decode json [chunks.flatten] ↔
      SplitSafely (Gemini.payloadFails json) chunks) :=
  ⟨EventReader.decode_eq_iff (OpenaiCodex.handlePayload_fails_iff json)
      (CodexStreamAccumulator.handlePayload_avoids json) CodexStreamAccumulator.default h,
    EventReader.decode_eq_iff (Gemini.handlePayload_fails_iff json)
      (GeminiStreamAccumulator.handlePayload_avoids json) GeminiStreamAccumulator.default h⟩

/-! ## A letter in two chunks -/

/-- A value as both providers send it, as text. -/
def codexDelta : Text := "\x7b\"type\":\"response.output_text.delta\",\"delta\":\"é\"\x7d"

def geminiDelta : Text :=
  "\x7b\"candidates\":[\x7b\"content\":\x7b\"parts\":[\x7b\"text\":\"é\"\x7d]\x7d\x7d]\x7d"

/-- What these texts are read as. -/
def readDelta (t : Text) : Except Text Value :=
  if t = codexDelta then
    .ok (.object [("delta".toList, .string "é"),
      ("type".toList, .string "response.output_text.delta")])
  else if t = geminiDelta then
    .ok (.object [("candidates".toList, .array [.object [("content".toList,
      .object [("parts".toList, .array [.object [("text".toList, .string "é")]])])]])])
  else .error "expected value at line 1 column 1"

def deltaJson : SerdeJson where
  fromStr := readDelta
  toString := fun _ => "\x7b\x7d"

/-- The event of a delta as bytes. -/
def deltaBytes (delta : Text) : List UInt8 :=
  (("data: " : Text) ++ delta ++ ("\n\n" : Text)).flatMap String.utf8EncodeChar

/-- The stream in two chunks, the first one of this length. -/
def inTwo (n : Nat) (bytes : List UInt8) : List (List UInt8) := [bytes.take n, bytes.drop n]

theorem decode_chunks_iff_delta :
    (CodexStreamAccumulator.decode deltaJson (inTwo 30 (deltaBytes codexDelta)) =
        CodexStreamAccumulator.decode deltaJson [(inTwo 30 (deltaBytes codexDelta)).flatten] ↔
      SplitSafely (OpenaiCodex.payloadFails deltaJson) (inTwo 30 (deltaBytes codexDelta))) ∧
    (GeminiStreamAccumulator.decode deltaJson (inTwo 30 (deltaBytes codexDelta)) =
        GeminiStreamAccumulator.decode deltaJson [(inTwo 30 (deltaBytes codexDelta)).flatten] ↔
      SplitSafely (Gemini.payloadFails deltaJson) (inTwo 30 (deltaBytes codexDelta))) :=
  decode_chunks_iff deltaJson (inTwo 30 (deltaBytes codexDelta))
    (("data: " : Text) ++ codexDelta ++ ("\n\n" : Text)) (by decide +kernel)

/-- **A letter of two bytes in two chunks** makes both accumulators fail on a stream that they
decode as a whole. -/
theorem decode_chunks_counterexample :
    (¬ ∀ (json : SerdeJson) (chunks : List (List UInt8)) (whole : Text),
      Utf8.read chunks.flatten = .ok whole →
        CodexStreamAccumulator.decode json chunks =
          CodexStreamAccumulator.decode json [chunks.flatten]) ∧
    ¬ ∀ (json : SerdeJson) (chunks : List (List UInt8)) (whole : Text),
      Utf8.read chunks.flatten = .ok whole →
        GeminiStreamAccumulator.decode json chunks =
          GeminiStreamAccumulator.decode json [chunks.flatten] := by
  constructor
  · intro h
    have hdecode := congrArg WriterT.run (h deltaJson (inTwo 53 (deltaBytes codexDelta))
      (("data: " : Text) ++ codexDelta ++ ("\n\n" : Text)) (by decide +kernel))
    exact absurd hdecode (by decide +kernel)
  · intro h
    have hdecode := congrArg WriterT.run (h deltaJson (inTwo 52 (deltaBytes geminiDelta))
      (("data: " : Text) ++ geminiDelta ++ ("\n\n" : Text)) (by decide +kernel))
    exact absurd hdecode (by decide +kernel)

end Providers
end SimpleClaw
