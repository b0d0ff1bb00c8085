import Mathlib.Control.Monad.Writer
import SimpleClaw.Lib.Utf8

/-!
# Server-sent events

A stream of server-sent events arrives in chunks of bytes.  Each chunk is read as text, the text
is taken apart into lines, the data lines up to an empty line are the payload of an event, and the
payload is handed on to whoever makes something of it.  That may fail, and it may send something.

* `Sends`: computations that fail or return, and send on the way.
* `EventReader.pushBytes`, `EventReader.finish`: one chunk, and the end of the stream.
* `EventReader.pushStr_append`: text pushed in two parts is text pushed at once.
* `EventReader.decode_eq_iff`: when a stream in chunks is decoded as the whole stream is.
-/

/-- Computations that fail or return, with what they have sent. -/
abbrev Sends (ω ε : Type) := WriterT (List ω) (Except ε)

namespace Sends

variable {ω ε α β : Type} {x : Sends ω ε α} {f : α → Sends ω ε β}

instance : LawfulMonad (Sends ω ε) := by
  refine LawfulMonad.mk' _ ?_ ?_ ?_ (fun _ _ => rfl) (fun _ _ => rfl) (fun _ _ => rfl) ?_
    (fun _ _ => rfl)
  · intro α x
    ext
    simp
  · intro α β x f
    ext
    simp
  · intro α β γ x f g
    ext
    simp
  · intro α β f x
    ext
    simp

/-- The computation fails at once. -/
def fail (e : ε) : Sends ω ε α := WriterT.mk (.error e)

@[simp] theorem run_fail (e : ε) : (fail e : Sends ω ε α).run = .error e := rfl

@[simp] theorem fail_bind (e : ε) : (fail e : Sends ω ε α) >>= f = fail e := rfl

theorem bind_of_error {e : ε} (h : x.run = .error e) : x >>= f = fail e := by
  ext
  rw [WriterT.run_bind, h]
  rfl

/-- Both parts have run, or one of them has failed. -/
theorem run_bind_eq_error_iff {e : ε} : (x >>= f).run = .error e ↔
    x.run = .error e ∨ ∃ a out, x.run = .ok (a, out) ∧ (f a).run = .error e := by
  rw [WriterT.run_bind]
  cases x.run with
  | error e' => simp [bind, Except.bind]
  | ok r =>
      obtain ⟨a, out⟩ := r
      cases hf : (f a).run <;> simp [bind, Except.bind, hf, Functor.map, Except.map]

/-- Both parts have run, and what they have sent is in this order. -/
theorem run_bind_eq_ok_iff {b : β} {out : List ω} : (x >>= f).run = .ok (b, out) ↔
    ∃ a out₁ out₂, x.run = .ok (a, out₁) ∧ (f a).run = .ok (b, out₂) ∧ out = out₁ ++ out₂ := by
  rw [WriterT.run_bind]
  cases x.run with
  | error e => simp [bind, Except.bind]
  | ok r =>
      obtain ⟨a, out₁⟩ := r
      cases hf : (f a).run with
      | error e => simp [bind, Except.bind, hf, Functor.map, Except.map]
      | ok r' =>
          obtain ⟨b', out₂⟩ := r'
          simp [bind, Except.bind, hf, Functor.map, Except.map, eq_comm]

theorem run_pure_eq_ok_iff {a b : α} {out : List ω} :
    (pure a : Sends ω ε α).run = .ok (b, out) ↔ b = a ∧ out = [] := by
  constructor
  · intro h
    cases h
    exact ⟨rfl, rfl⟩
  · rintro ⟨rfl, rfl⟩
    rfl

/-- The computation fails. -/
def Fails (x : Sends ω ε α) : Prop := ∃ e, x.run = .error e

theorem fails_bind_iff : (x >>= f).Fails ↔
    x.Fails ∨ ∃ a out, x.run = .ok (a, out) ∧ (f a).Fails := by
  simp only [Fails, run_bind_eq_error_iff, exists_or]
  constructor
  · rintro (h | ⟨e, a, out, hx, hf⟩)
    · exact .inl h
    · exact .inr ⟨a, out, hx, e, hf⟩
  · rintro (h | ⟨a, out, hx, e, hf⟩)
    · exact .inl h
    · exact .inr ⟨e, a, out, hx, hf⟩

/-- A computation that does not fail returns. -/
theorem exists_run_of_not_fails (h : ¬ x.Fails) : ∃ a out, x.run = .ok (a, out) := by
  cases hx : x.run with
  | error e => exact absurd ⟨e, hx⟩ h
  | ok r => exact ⟨r.1, r.2, rfl⟩

theorem not_fails_pure (a : α) : ¬ (pure a : Sends ω ε α).Fails := by
  rintro ⟨e, h⟩
  cases h

@[simp] theorem fails_fail (e : ε) : (fail e : Sends ω ε α).Fails := ⟨e, rfl⟩

theorem not_fails_tell (out : List ω) : ¬ (tell out : Sends ω ε PUnit).Fails := by
  rintro ⟨e, h⟩
  cases h

theorem not_fails_bind (hx : ¬ x.Fails) (hf : ∀ a, ¬ (f a).Fails) : ¬ (x >>= f).Fails := by
  intro h
  rcases fails_bind_iff.mp h with h | ⟨a, -, -, h⟩
  · exact hx h
  · exact hf a h

/-- Steps one after the other fail exactly if one of them does, where the state does not matter
for that. -/
theorem foldlM_fails_iff {ι : Type} {step : α → ι → Sends ω ε α} {bad : ι → Prop}
    (hstep : ∀ a i, (step a i).Fails ↔ bad i) (is : List ι) (a : α) :
    (is.foldlM step a).Fails ↔ ∃ i ∈ is, bad i := by
  induction is generalizing a with
  | nil => simp [not_fails_pure]
  | cons i is ih =>
      rw [List.foldlM_cons, fails_bind_iff, hstep, List.exists_mem_cons_iff]
      constructor
      · rintro (h | ⟨a', out, -, h⟩)
        · exact .inl h
        · exact .inr ((ih a').mp h)
      · rintro (h | h)
        · exact .inl h
        · by_cases hi : bad i
          · exact .inl hi
          · obtain ⟨a', out, hrun⟩ := exists_run_of_not_fails fun hfail => hi ((hstep a i).mp hfail)
            exact .inr ⟨a', out, hrun, (ih a').mpr h⟩

/-- Steps that return send one after the other. -/
theorem run_foldlM {ι : Type} {step : α → ι → Sends ω ε α} {next : α → ι → α} {out : ι → List ω}
    (hstep : ∀ a i, (step a i).run = .ok (next a i, out i)) (is : List ι) (a : α) :
    (is.foldlM step a).run = .ok (is.foldl next a, is.flatMap out) := by
  induction is generalizing a with
  | nil => rfl
  | cons i is ih =>
      rw [List.foldlM_cons, List.foldl_cons, List.flatMap_cons]
      exact run_bind_eq_ok_iff.mpr ⟨_, _, _, hstep a i, ih _, rfl⟩

/-- Groups of steps that return send one after the other. -/
theorem run_foldlM_flatMap {ι κ : Type} {steps : ι → List κ} {step : α → κ → Sends ω ε α}
    {next : α → ι → α} {out : ι → List ω}
    (hsteps : ∀ a i, ((steps i).foldlM step a).run = .ok (next a i, out i)) (is : List ι) (a : α) :
    ((is.flatMap steps).foldlM step a).run = .ok (is.foldl next a, is.flatMap out) := by
  induction is generalizing a with
  | nil => rfl
  | cons i is ih =>
      rw [List.flatMap_cons, List.foldlM_append, List.foldl_cons, List.flatMap_cons]
      exact run_bind_eq_ok_iff.mpr ⟨_, _, _, hsteps a i, ih _, rfl⟩

/-- What a computation returns is so, and so is everything it sends. -/
def Ensures (q : α → Prop) (p : ω → Prop) (x : Sends ω ε α) : Prop :=
  ∀ a out, x.run = .ok (a, out) → q a ∧ ∀ w ∈ out, p w

section Ensures

variable {q : α → Prop} {q' : β → Prop} {p : ω → Prop}

theorem ensures_pure {a : α} (h : q a) : (pure a : Sends ω ε α).Ensures q p := by
  intro a' out hrun
  obtain ⟨rfl, rfl⟩ := run_pure_eq_ok_iff.mp hrun
  exact ⟨h, by simp⟩

theorem ensures_fail (e : ε) : (fail e : Sends ω ε α).Ensures q p := by
  intro a out hrun
  cases hrun

theorem ensures_tell {out : List ω} (h : ∀ w ∈ out, p w) :
    (tell out : Sends ω ε PUnit).Ensures (fun _ => True) p := by
  intro a out' hrun
  cases hrun
  exact ⟨trivial, h⟩

theorem Ensures.bind (hx : x.Ensures q p) (hf : ∀ a, q a → (f a).Ensures q' p) :
    (x >>= f).Ensures q' p := by
  intro b out hrun
  obtain ⟨a, out₁, out₂, hxrun, hfrun, rfl⟩ := run_bind_eq_ok_iff.mp hrun
  obtain ⟨ha, hout₁⟩ := hx a out₁ hxrun
  obtain ⟨hb, hout₂⟩ := hf a ha b out₂ hfrun
  exact ⟨hb, List.forall_mem_append.mpr ⟨hout₁, hout₂⟩⟩

/-- What each step makes of a part of the state, all of them make in turn. -/
theorem Ensures.foldlM {ι : Type} {step : α → ι → Sends ω ε α} (view : α → β) (next : β → ι → β)
    (hstep : ∀ a i, (step a i).Ensures (fun a' => view a' = next (view a) i) p) (is : List ι)
    (a : α) : (is.foldlM step a).Ensures (fun a' => view a' = is.foldl next (view a)) p := by
  induction is generalizing a with
  | nil => exact ensures_pure rfl
  | cons i is ih =>
      rw [List.foldlM_cons, List.foldl_cons]
      exact (hstep a i).bind fun a' ha' => ha' ▸ ih a'

end Ensures

/-- The computation does not fail with such an error. -/
def Avoids (p : ε → Prop) (x : Sends ω ε α) : Prop := ∀ e, x.run = .error e → ¬ p e

variable {p : ε → Prop}

theorem avoids_pure (a : α) : (pure a : Sends ω ε α).Avoids p := by
  intro e h
  cases h

theorem avoids_of_not_fails (h : ¬ x.Fails) : x.Avoids p := fun e he => absurd ⟨e, he⟩ h

theorem avoids_fail {e : ε} (h : ¬ p e) : (fail e : Sends ω ε α).Avoids p := by
  intro e' he
  obtain rfl := Except.error.inj he
  exact h

theorem Avoids.bind (hx : x.Avoids p) (hf : ∀ a, (f a).Avoids p) : (x >>= f).Avoids p := by
  intro e h
  rcases run_bind_eq_error_iff.mp h with h | ⟨a, out, -, h⟩
  · exact hx e h
  · exact hf a e h

theorem Avoids.foldlM {ι : Type} {step : α → ι → Sends ω ε α}
    (hstep : ∀ a i, (step a i).Avoids p) (is : List ι) (a : α) : (is.foldlM step a).Avoids p := by
  induction is generalizing a with
  | nil => exact avoids_pure a
  | cons i is ih =>
      rw [List.foldlM_cons]
      exact (hstep a i).bind ih

end Sends

/-! ## The reader -/

/-- A line that has not ended yet. -/
structure OpenLine where
  text : Text
  noNewline : '\n' ∉ text

namespace OpenLine

def empty : OpenLine := ⟨[], List.not_mem_nil⟩

/-- The line with one more character. -/
def push (line : OpenLine) (c : Char) (h : c ≠ '\n') : OpenLine where
  text := line.text ++ [c]
  noNewline := by
    intro hmem
    rcases List.mem_append.mp hmem with hmem | hmem
    · exact line.noNewline hmem
    · exact h (List.mem_singleton.mp hmem).symm

end OpenLine

/-- What is kept between chunks: the line that has not ended, the data lines of the event that has
not, and the state of whoever handles the payloads. -/
structure EventReader (σ : Type) where
  lineBuffer : OpenLine
  eventDataLines : List Text
  state : σ

namespace EventReader

variable {σ ω ε : Type}

section Handle

variable (handle : σ → Text → Sends ω ε σ)

/-- Hands on the payload of the event, if there is any. -/
def flushEvent (r : EventReader σ) : Sends ω ε (EventReader σ) :=
  if r.eventDataLines = [] then pure r
  else do
    let state ← handle r.state (Text.joinWith '\n' r.eventDataLines)
    pure { r with eventDataLines := [], state := state }

def processLine (r : EventReader σ) (line : Text) : Sends ω ε (EventReader σ) :=
  if line = [] then flushEvent handle r
  else
    match Text.stripPrefix line "data:" with
    | some data => pure { r with eventDataLines := r.eventDataLines ++ [Text.trimStart data] }
    | none => pure r

/-- One character more: a newline ends the line. -/
def pushChar (r : EventReader σ) (c : Char) : Sends ω ε (EventReader σ) :=
  if h : c = '\n' then
    processLine handle { r with lineBuffer := .empty } (Text.withoutCr r.lineBuffer.text)
  else pure { r with lineBuffer := r.lineBuffer.push c h }

/-- The chunk is added to the buffer, which is gone through from its start for newlines. -/
def pushStr (r : EventReader σ) (chunk : Text) : Sends ω ε (EventReader σ) :=
  (r.lineBuffer.text ++ chunk).foldlM (pushChar handle) { r with lineBuffer := .empty }

/-- A chunk of bytes; `invalid` is what is said of one that is not text. -/
def pushBytes (invalid : Utf8.Error → ε) (r : EventReader σ) (bytes : List UInt8) :
    Sends ω ε (EventReader σ) :=
  match Utf8.read bytes with
  | .error e => Sends.fail (invalid e)
  | .ok chunk => pushStr handle r chunk

/-- The end of the stream ends the line and the event; `last` is sent then. -/
def finish (last : σ → List ω) (r : EventReader σ) : Sends ω ε Unit := do
  let r ←
    if r.lineBuffer.text = [] then pure r
    else processLine handle { r with lineBuffer := .empty } (Text.withoutCr r.lineBuffer.text)
  let r ← flushEvent handle r
  tell (last r.state)

/-- The chunks one after the other, and the end of the stream. -/
def decode (invalid : Utf8.Error → ε) (last : σ → List ω) (r : EventReader σ)
    (chunks : List (List UInt8)) : Sends ω ε Unit := do
  let r ← chunks.foldlM (pushBytes handle invalid) r
  finish handle last r

variable {handle} {invalid : Utf8.Error → ε} {last : σ → List ω}

/-! ## Pushing in parts -/

/-- Text without a newline goes to the end of the buffer. -/
theorem foldlM_pushChar_of_noNewline (t : Text) (r : EventReader σ)
    (h : '\n' ∉ r.lineBuffer.text ++ t) :
    t.foldlM (pushChar handle) r = pure { r with lineBuffer := ⟨r.lineBuffer.text ++ t, h⟩ } := by
  induction t generalizing r with
  | nil =>
      obtain ⟨⟨text, hline⟩, data, state⟩ := r
      simp
  | cons c t ih =>
      have hc : c ≠ '\n' := by
        rintro rfl
        exact h (by simp)
      have hrest : '\n' ∉ (r.lineBuffer.push c hc).text ++ t := by
        rw [OpenLine.push, List.append_assoc]
        exact h
      rw [List.foldlM_cons, pushChar, dif_neg hc, pure_bind, ih _ hrest]
      simp [OpenLine.push]

/-- The buffer is not gone through in vain: it holds no newline. -/
theorem pushStr_eq_foldlM (r : EventReader σ) (chunk : Text) :
    pushStr handle r chunk = chunk.foldlM (pushChar handle) r := by
  have hnone : '\n' ∉ OpenLine.empty.text ++ r.lineBuffer.text := by
    rw [OpenLine.empty, List.nil_append]
    exact r.lineBuffer.noNewline
  rw [pushStr, List.foldlM_append, foldlM_pushChar_of_noNewline _ _ hnone, pure_bind]
  rfl

@[simp] theorem pushStr_nil (r : EventReader σ) : pushStr handle r [] = pure r := by
  rw [pushStr_eq_foldlM, List.foldlM_nil]

/-- **Text pushed in two parts is text pushed at once.** -/
theorem pushStr_append (r : EventReader σ) (a b : Text) :
    pushStr handle r (a ++ b) = pushStr handle r a >>= fun r' => pushStr handle r' b := by
  simp only [pushStr_eq_foldlM, List.foldlM_append]

/-! ## What fails -/

/-- The lines of a text that have ended, the first one begun with `line`. -/
def endedLines : Text → Text → List Text
  | _, [] => []
  | line, c :: rest =>
      if c = '\n' then Text.withoutCr line :: endedLines [] rest else endedLines (line ++ [c]) rest

/-- The data lines of the event after one more line. -/
def dataAfter (data : List Text) (line : Text) : List Text :=
  if line = [] then []
  else data ++ ((Text.stripPrefix line "data:").map Text.trimStart).toList

/-- The payload that a line completes. -/
def payloadAt (data : List Text) (line : Text) : Option Text :=
  if line = [] ∧ data ≠ [] then some (Text.joinWith '\n' data) else none

/-- The payloads of the events that the lines complete, after these data lines. -/
def payloads : List Text → List Text → List Text
  | _, [] => []
  | data, line :: lines => (payloadAt data line).toList ++ payloads (dataAfter data line) lines

theorem flushEvent_ok {r r' : EventReader σ} {out : List ω}
    (h : (flushEvent handle r).run = .ok (r', out)) :
    r'.lineBuffer = r.lineBuffer ∧ r'.eventDataLines = [] := by
  rw [flushEvent] at h
  split at h
  · next hdata =>
    obtain ⟨rfl, -⟩ := Sends.run_pure_eq_ok_iff.mp h
    exact ⟨rfl, hdata⟩
  · obtain ⟨state, out₁, out₂, -, hlast, -⟩ := Sends.run_bind_eq_ok_iff.mp h
    obtain ⟨rfl, -⟩ := Sends.run_pure_eq_ok_iff.mp hlast
    exact ⟨rfl, rfl⟩

theorem processLine_ok {r r' : EventReader σ} {line : Text} {out : List ω}
    (h : (processLine handle r line).run = .ok (r', out)) :
    r'.lineBuffer = r.lineBuffer ∧ r'.eventDataLines = dataAfter r.eventDataLines line := by
  rw [processLine] at h
  rw [dataAfter]
  split at h
  · next hline =>
    rw [if_pos hline]
    exact flushEvent_ok h
  · next hline =>
    rw [if_neg hline]
    split at h
    · next data hdata =>
      obtain ⟨rfl, -⟩ := Sends.run_pure_eq_ok_iff.mp h
      rw [hdata]
      exact ⟨rfl, rfl⟩
    · next hnone =>
      obtain ⟨rfl, -⟩ := Sends.run_pure_eq_ok_iff.mp h
      rw [hnone]
      exact ⟨rfl, (List.append_nil _).symm⟩

section Fails

variable {fails : Text → Bool}

/-- A line fails exactly if it completes a payload that fails. -/
theorem processLine_fails_iff
    (hfails : ∀ state payload, (handle state payload).Fails ↔ fails payload = true)
    (r : EventReader σ) (line : Text) : (processLine handle r line).Fails ↔
      ∃ payload ∈ (payloadAt r.eventDataLines line).toList, fails payload = true := by
  rw [processLine, payloadAt]
  by_cases hline : line = []
  · rw [if_pos hline, flushEvent]
    by_cases hdata : r.eventDataLines = []
    · rw [if_pos hdata, if_neg fun h => h.2 hdata]
      simp [Sends.not_fails_pure]
    · rw [if_neg hdata, if_pos ⟨hline, hdata⟩, Sends.fails_bind_iff, hfails]
      simp [Sends.not_fails_pure]
  · rw [if_neg hline, if_neg fun h => hline h.1]
    split <;> simp [Sends.not_fails_pure]

/-- **Text fails exactly if it completes a payload that does.** -/
theorem pushStr_fails_iff
    (hfails : ∀ state payload, (handle state payload).Fails ↔ fails payload = true)
    (r : EventReader σ) (t : Text) : (pushStr handle r t).Fails ↔
      ∃ payload ∈ payloads r.eventDataLines (endedLines r.lineBuffer.text t),
        fails payload = true := by
  rw [pushStr_eq_foldlM]
  induction t generalizing r with
  | nil =>
      rw [List.foldlM_nil, endedLines, payloads]
      simp [Sends.not_fails_pure]
  | cons c t ih =>
      rw [List.foldlM_cons, pushChar, endedLines]
      by_cases hc : c = '\n'
      · rw [dif_pos hc, if_pos hc, payloads, Sends.fails_bind_iff]
        have hline := processLine_fails_iff hfails { r with lineBuffer := .empty }
          (Text.withoutCr r.lineBuffer.text)
        constructor
        · rintro (hfail | ⟨r', out, hrun, hrest⟩)
          · obtain ⟨payload, hmem, hpayload⟩ := hline.mp hfail
            exact ⟨payload, List.mem_append_left _ hmem, hpayload⟩
          · obtain ⟨hbuffer, hdata⟩ := processLine_ok hrun
            obtain ⟨payload, hmem, hpayload⟩ := (ih r').mp hrest
            rw [hbuffer, hdata] at hmem
            exact ⟨payload, List.mem_append_right _ hmem, hpayload⟩
        · rintro ⟨payload, hmem, hpayload⟩
          -- the line itself may fail before the lines after it are reached
          by_cases hfail : (processLine handle { r with lineBuffer := .empty }
              (Text.withoutCr r.lineBuffer.text)).Fails
          · exact .inl hfail
          · obtain ⟨r', out, hrun⟩ := Sends.exists_run_of_not_fails hfail
            obtain ⟨hbuffer, hdata⟩ := processLine_ok hrun
            rcases List.mem_append.mp hmem with hmem | hmem
            · exact absurd (hline.mpr ⟨payload, hmem, hpayload⟩) hfail
            · refine .inr ⟨r', out, hrun, (ih r').mpr ⟨payload, ?_, hpayload⟩⟩
              rwa [hbuffer, hdata]
      · rw [dif_neg hc, if_neg hc, pure_bind, ih]
        rfl

end Fails

/-! ## Errors of the payloads only -/

section Avoids

variable {p : ε → Prop} (havoids : ∀ state payload, (handle state payload).Avoids p)
include havoids

theorem flushEvent_avoids (r : EventReader σ) : (flushEvent handle r).Avoids p := by
  rw [flushEvent]
  split
  · exact Sends.avoids_pure r
  · exact (havoids _ _).bind fun state => Sends.avoids_pure _

theorem processLine_avoids (r : EventReader σ) (line : Text) :
    (processLine handle r line).Avoids p := by
  rw [processLine]
  split
  · exact flushEvent_avoids havoids r
  · split <;> exact Sends.avoids_pure _

/-- Reading the lines fails with errors of the payloads only. -/
theorem pushStr_avoids (r : EventReader σ) (t : Text) : (pushStr handle r t).Avoids p := by
  refine Sends.Avoids.foldlM (fun r c => ?_) _ _
  rw [pushChar]
  split
  · exact processLine_avoids havoids _ _
  · exact Sends.avoids_pure _

theorem finish_avoids (r : EventReader σ) : (finish handle last r).Avoids p := by
  have hflush : ∀ r : EventReader σ,
      (flushEvent handle r >>= fun r => tell (last r.state)).Avoids p := by
    intro r
    refine (flushEvent_avoids havoids r).bind fun r e h => ?_
    cases h
  rw [finish]
  split
  · exact (Sends.avoids_pure r).bind hflush
  · exact (processLine_avoids havoids _ _).bind hflush

end Avoids

/-! ## Chunks -/

/-- The text of the chunks up to the first that is not text by itself, and whether all are. -/
def textBefore : List (List UInt8) → Text × Bool
  | [] => ([], true)
  | chunk :: chunks =>
      match Utf8.read chunk with
      | .ok t => (t ++ (textBefore chunks).1, (textBefore chunks).2)
      | .error _ => ([], false)

/-- The chunks are pushed as far as they are text. -/
theorem foldlM_pushBytes (chunks : List (List UInt8)) : ∃ e, ∀ r : EventReader σ,
    chunks.foldlM (pushBytes handle invalid) r =
      pushStr handle r (textBefore chunks).1 >>= fun r' =>
        if (textBefore chunks).2 = true then pure r' else Sends.fail (invalid e) := by
  induction chunks with
  | nil => exact ⟨⟨0, none⟩, fun r => by simp [textBefore]⟩
  | cons chunk chunks ih =>
      obtain ⟨e, he⟩ := ih
      cases hchunk : Utf8.read chunk with
      | error e' =>
          refine ⟨e', fun r => ?_⟩
          simp only [List.foldlM_cons, pushBytes, textBefore, hchunk, Sends.fail_bind, pushStr_nil,
            pure_bind, if_neg Bool.false_ne_true]
      | ok t =>
          refine ⟨e, fun r => ?_⟩
          simp only [List.foldlM_cons, pushBytes, textBefore, hchunk, pushStr_append, bind_assoc,
            he]

/-- The whole text goes on from there, and no further if all chunks are text. -/
theorem textBefore_of_read {chunks : List (List UInt8)} {whole : Text}
    (h : Utf8.read chunks.flatten = .ok whole) :
    ∃ rest, whole = (textBefore chunks).1 ++ rest ∧ ((textBefore chunks).2 = true → rest = []) := by
  induction chunks generalizing whole with
  | nil =>
      rw [List.flatten_nil, Utf8.read_nil] at h
      exact ⟨[], (Except.ok.inj h).symm, fun _ => rfl⟩
  | cons chunk chunks ih =>
      rw [textBefore]
      cases hchunk : Utf8.read chunk with
      | error e => exact ⟨whole, rfl, fun hall => absurd hall Bool.false_ne_true⟩
      | ok t =>
          rw [List.flatten_cons, Utf8.read_append_eq_ok_iff hchunk] at h
          obtain ⟨t', ht', rfl⟩ := h
          obtain ⟨rest, rfl, hrest⟩ := ih ht'
          exact ⟨rest, (List.append_assoc _ _ _).symm, hrest⟩

/-- **A stream in chunks is decoded as the whole stream is** exactly if every chunk is text by
itself, or the text before the first that is not completes a payload that fails. -/
theorem decode_eq_iff {fails : Text → Bool}
    (hfails : ∀ state payload, (handle state payload).Fails ↔ fails payload = true)
    (havoids : ∀ state payload, (handle state payload).Avoids fun e => ∃ e', e = invalid e')
    (r : EventReader σ) {chunks : List (List UInt8)} {whole : Text}
    (h : Utf8.read chunks.flatten = .ok whole) :
    decode handle invalid last r chunks = decode handle invalid last r [chunks.flatten] ↔
      (textBefore chunks).2 = true ∨
        ∃ payload ∈ payloads r.eventDataLines
          (endedLines r.lineBuffer.text (textBefore chunks).1), fails payload = true := by
  obtain ⟨e, he⟩ : ∃ e, ∀ r : EventReader σ, chunks.foldlM (pushBytes handle invalid) r = _ :=
    foldlM_pushBytes chunks
  obtain ⟨rest, rfl, hrest⟩ := textBefore_of_read h
  have hwhole : decode handle invalid last r [chunks.flatten] =
      pushStr handle r (textBefore chunks).1 >>= fun r' =>
        pushStr handle r' rest >>= finish handle last := by
    rw [decode, List.foldlM_cons, pushBytes, h]
    simp [pushStr_append]
  rw [hwhole, decode, he, ← pushStr_fails_iff hfails]
  cases hall : (textBefore chunks).2 with
  | true =>
      obtain rfl := hrest hall
      simp
  | false =>
      simp only [Bool.false_eq_true, if_false, false_or, bind_assoc, Sends.fail_bind]
      constructor
      · intro heq
        by_contra hfail
        -- the whole stream would fail because of bytes
        obtain ⟨r', out, hrun⟩ := Sends.exists_run_of_not_fails hfail
        have hinvalid : (pushStr handle r (textBefore chunks).1 >>= fun r' =>
            pushStr handle r' rest >>= finish handle last).run = .error (invalid e) := by
          rw [← heq]
          exact Sends.run_bind_eq_error_iff.mpr (.inr ⟨r', out, hrun, rfl⟩)
        refine Sends.Avoids.bind (pushStr_avoids havoids r _) (fun r' => ?_) _ hinvalid ⟨e, rfl⟩
        exact (pushStr_avoids havoids r' rest).bind (finish_avoids havoids)
      · rintro ⟨e', hfail⟩
        rw [Sends.bind_of_error hfail, Sends.bind_of_error hfail]

end Handle

end EventReader
