import Mathlib.Data.List.Basic

/-!
# Waiting to be notified

A future waits for the notifier of a key.  It starts to listen when it is polled for the first
time, and a notification wakes exactly the futures of its key that listen then: one that comes
before the first poll is lost on them.  Several futures that are joined are polled in their order.

What is waited for is that a key is no longer `live`.

* `notify`, `pollNext`, `resume`, `expire`: what happens to the futures that are joined.
* `Listening`: a future that has not been woken has a live key.
* `Lost`: a future listens although its key is no longer live.
* `Listening.notify`: notifying keeps `Listening` when every future of the key has been polled.
* `exists_pollTimes_lost`: when one has not been polled, polling loses it.
-/

namespace Notify

universe u

/-- Where a future is: not polled yet, listening, woken, or over. -/
inductive Phase where
  | unpolled
  | waiting
  | woken
  | done
  deriving DecidableEq

/-- A future and the key it waits for. -/
structure Future (κ : Type u) where
  key : κ
  phase : Phase

variable {κ : Type u}

/-- A notification wakes a future of its key if it listens. -/
def Future.notify [DecidableEq κ] (key : κ) (f : Future κ) : Future κ :=
  if f.key = key ∧ f.phase = .waiting then { f with phase := .woken } else f

def notify [DecidableEq κ] (key : κ) (fs : List (Future κ)) : List (Future κ) :=
  fs.map (Future.notify key)

/-- The first poll of the next future; from now on it listens. -/
def pollNext : List (Future κ) → Option (List (Future κ))
  | [] => none
  | f :: fs =>
      if f.phase = .unpolled then some ({ f with phase := .waiting } :: fs)
      else (pollNext fs).map (f :: ·)

/-- A future that has been woken is over. -/
def resume (fs : List (Future κ)) (i : Nat) : Option (List (Future κ)) :=
  match fs[i]? with
  | some f => if f.phase = .woken then some (fs.set i { f with phase := .done }) else none
  | none => none

/-- A future that has been polled is over when its time is. -/
def expire (fs : List (Future κ)) (i : Nat) : Option (List (Future κ)) :=
  match fs[i]? with
  | some f =>
      if f.phase = .waiting ∨ f.phase = .woken then some (fs.set i { f with phase := .done })
      else none
  | none => none

/-- The futures are joined: all are over. -/
def allDone (fs : List (Future κ)) : Bool := fs.all fun f => f.phase = .done

/-! ## Nothing is lost -/

variable {live live' : κ → Bool} {fs fs' : List (Future κ)} {f : Future κ} {key : κ}

/-- A future that has not been woken has a live key. -/
def Future.Listening (live : κ → Bool) (f : Future κ) : Prop :=
  f.phase = .unpolled ∨ f.phase = .waiting → live f.key = true

def Listening (live : κ → Bool) (fs : List (Future κ)) : Prop := ∀ f ∈ fs, f.Listening live

/-- **A lost wakeup**: a future listens, no notification has reached it, and its key is no longer
live. -/
def Lost (live : κ → Bool) (fs : List (Future κ)) : Prop :=
  ∃ f ∈ fs, f.phase = .waiting ∧ live f.key = false

theorem Listening.not_lost (h : Listening live fs) : ¬ Lost live fs := by
  rintro ⟨f, hf, hphase, hlive⟩
  have := h f hf (.inr hphase)
  rw [hlive] at this
  cases this

/-- Keys that stay live. -/
theorem Listening.mono (h : Listening live fs) (hlive : ∀ k, live k = true → live' k = true) :
    Listening live' fs := fun f hf hphase => hlive f.key (h f hf hphase)

/-- **A notification** of a key that is live no longer, all of whose futures have been polled. -/
theorem Listening.notify [DecidableEq κ] (h : Listening live fs)
    (hpolled : ∀ f ∈ fs, f.key = key → f.phase ≠ .unpolled)
    (hlive : ∀ k ≠ key, live k = true → live' k = true) :
    Listening live' (notify key fs) := by
  intro g hg hphase
  obtain ⟨f, hf, rfl⟩ := List.mem_map.mp hg
  unfold Future.notify at hphase ⊢
  split at hphase
  · rcases hphase with hphase | hphase <;> cases hphase
  · next hnot =>
    rw [if_neg hnot]
    refine hlive f.key (fun hkey => ?_) (h f hf hphase)
    rcases hphase with hphase | hphase
    · exact hpolled f hf hkey hphase
    · exact hnot ⟨hkey, hphase⟩

/-- A first poll. -/
theorem Listening.pollNext (h : Listening live fs) (hpoll : pollNext fs = some fs') :
    Listening live fs' := by
  induction fs generalizing fs' with
  | nil => cases hpoll
  | cons f fs ih =>
      have hrest : Listening live fs := fun g hg => h g (List.mem_cons_of_mem f hg)
      rw [Notify.pollNext] at hpoll
      split at hpoll
      · next hunpolled =>
        obtain rfl := Option.some.inj hpoll
        exact List.forall_mem_cons.mpr
          ⟨fun _ => h f List.mem_cons_self (.inl hunpolled), hrest⟩
      · obtain ⟨rest, hnext, rfl⟩ := Option.map_eq_some_iff.mp hpoll
        exact List.forall_mem_cons.mpr ⟨h f List.mem_cons_self, ih hrest hnext⟩

/-- A future that is over. -/
theorem Listening.set_done (h : Listening live fs) (f : Future κ) (i : Nat) :
    Listening live (fs.set i { f with phase := .done }) := by
  intro g hg
  rcases List.mem_or_eq_of_mem_set hg with hg | rfl
  · exact h g hg
  · rintro (hphase | hphase) <;> cases hphase

theorem Listening.resume {i : Nat} (h : Listening live fs) (hresume : resume fs i = some fs') :
    Listening live fs' := by
  unfold Notify.resume at hresume
  split at hresume
  · next f _ =>
    split at hresume
    · obtain rfl := Option.some.inj hresume
      exact h.set_done f i
    · cases hresume
  · cases hresume

theorem Listening.expire {i : Nat} (h : Listening live fs) (hexpire : expire fs i = some fs') :
    Listening live fs' := by
  unfold Notify.expire at hexpire
  split at hexpire
  · next f _ =>
    split at hexpire
    · obtain rfl := Option.some.inj hexpire
      exact h.set_done f i
    · cases hexpire
  · cases hexpire

/-- Futures of live keys, none of which has been polled. -/
theorem listening_unpolled {keys : List κ} (h : ∀ k ∈ keys, live k = true) :
    Listening live (keys.map fun k => ⟨k, .unpolled⟩) := by
  intro f hf _
  obtain ⟨k, hk, rfl⟩ := List.mem_map.mp hf
  exact h k hk

/-! ## What is lost -/

/-- The futures polled one after the other, `n` times. -/
def pollTimes : Nat → List (Future κ) → Option (List (Future κ))
  | 0, fs => some fs
  | n + 1, fs => (pollNext fs).bind (pollTimes n)

theorem pollTimes_cons (hpolled : f.phase ≠ .unpolled) (n : Nat) :
    pollTimes n (f :: fs) = (pollTimes n fs).map (f :: ·) := by
  induction n generalizing fs with
  | zero => rfl
  | succ n ih =>
      rw [pollTimes, pollTimes, pollNext, if_neg hpolled]
      cases pollNext fs with
      | none => rfl
      | some fs' => exact ih

/-- A notification leaves what has not been polled as it is. -/
theorem mem_notify_of_unpolled [DecidableEq κ] (hf : f ∈ fs) (hphase : f.phase = .unpolled) :
    f ∈ notify key fs := by
  refine List.mem_map.mpr ⟨f, hf, if_neg ?_⟩
  rintro ⟨-, hwaiting⟩
  rw [hphase] at hwaiting
  cases hwaiting

/-- Every future comes to listen when the joined futures are polled often enough. -/
theorem exists_pollTimes_waiting (hf : f ∈ fs) (hphase : f.phase = .unpolled) :
    ∃ n fs', pollTimes n fs = some fs' ∧ { f with phase := .waiting } ∈ fs' := by
  induction fs with
  | nil => cases hf
  | cons g fs ih =>
      rcases List.mem_cons.mp hf with rfl | hmem
      · refine ⟨1, { f with phase := .waiting } :: fs, ?_, List.mem_cons_self⟩
        rw [pollTimes, pollNext, if_pos hphase]
        rfl
      · obtain ⟨n, fs', hpoll, hwaiting⟩ := ih hmem
        by_cases hg : g.phase = .unpolled
        · refine ⟨n + 1, { g with phase := .waiting } :: fs', ?_, List.mem_cons_of_mem _ hwaiting⟩
          rw [pollTimes, pollNext, if_pos hg]
          exact (pollTimes_cons (by simp) n).trans (congrArg _ hpoll)
        · refine ⟨n, g :: fs', ?_, List.mem_cons_of_mem _ hwaiting⟩
          rw [pollTimes_cons hg, hpoll]
          rfl

/-- **A notification before the first poll is lost** on the future: it comes to listen to a key
that is no longer live. -/
theorem exists_pollTimes_lost (hf : f ∈ fs) (hphase : f.phase = .unpolled)
    (hlive : live f.key = false) : ∃ n fs', pollTimes n fs = some fs' ∧ Lost live fs' := by
  obtain ⟨n, fs', hpoll, hwaiting⟩ := exists_pollTimes_waiting hf hphase
  exact ⟨n, fs', hpoll, _, hwaiting, rfl, hlive⟩

end Notify
