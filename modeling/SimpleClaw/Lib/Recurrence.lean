import Mathlib.Data.List.Basic
import Mathlib.Data.List.Induction
import Mathlib.Data.List.Pairwise
import Mathlib.Order.Lattice

/-!
# Firing by occurrences

Something occurs at certain instants, `occurs`, and is looked for at the ticks of a clock; at a
tick it may fire.  The log lists the ticks, each with whether it fired.

* `Due occurs last now`: some occurrence lies after `last` and not after `now`.
* `FirstExact occurs created log`: the first tick that fires is the first one at which an
  occurrence after the creation is due.
* `LaterExact occurs log`: once one has fired, a tick fires exactly if an occurrence after the
  last fire is due.
* `LaterExact.oneFireEach`: then every occurrence after a fire that a tick comes up to causes one
  fire, and one only, and those between two ticks share theirs.
-/

namespace Recurrence

universe u

variable {τ : Type u}

/-! ## Logs -/

/-- The last tick that fired. -/
def lastFire (log : List (τ × Bool)) : Option τ :=
  ((log.filter fun tick => tick.2).getLast?).map fun tick => tick.1

@[simp] theorem lastFire_nil : lastFire ([] : List (τ × Bool)) = none := rfl

@[simp] theorem lastFire_append_fired (log : List (τ × Bool)) (t : τ) :
    lastFire (log ++ [(t, true)]) = some t := by
  simp [lastFire]

@[simp] theorem lastFire_append_not_fired (log : List (τ × Bool)) (t : τ) :
    lastFire (log ++ [(t, false)]) = lastFire log := by
  simp [lastFire]

theorem lastFire_eq_none_iff {log : List (τ × Bool)} :
    lastFire log = none ↔ ∀ tick ∈ log, tick.2 = false := by
  simp [lastFire]

/-- The last fire is one of the log. -/
theorem mem_of_lastFire {log : List (τ × Bool)} {t : τ} (h : lastFire log = some t) :
    (t, true) ∈ log := by
  rw [lastFire, Option.map_eq_some_iff] at h
  obtain ⟨⟨t', fired⟩, hlast, rfl⟩ := h
  obtain ⟨hmem, hfired⟩ := List.mem_filter.mp (List.mem_of_getLast? hlast)
  obtain rfl : fired = true := hfired
  exact hmem

/-- A split of a log with one more tick is one of the log, or it splits the tick off. -/
theorem split_append_singleton {log before after : List (τ × Bool)} {tick x : τ × Bool}
    (h : log ++ [tick] = before ++ x :: after) :
    (before = log ∧ x = tick ∧ after = []) ∨ ∃ after', after = after' ++ [tick] ∧
      log = before ++ x :: after' := by
  rcases List.eq_nil_or_concat after with rfl | ⟨after', y, rfl⟩
  · obtain ⟨hlog, htick⟩ := List.append_inj' h rfl
    exact Or.inl ⟨hlog.symm, (List.cons.inj htick).1.symm, rfl⟩
  · rw [List.concat_eq_append, ← List.cons_append, ← List.append_assoc] at h
    obtain ⟨hlog, htick⟩ := List.append_inj' h rfl
    obtain rfl := (List.cons.inj htick).1
    exact Or.inr ⟨after', List.concat_eq_append, hlog⟩

/-! ## What a log should be -/

variable [LinearOrder τ]

/-- Some occurrence lies after the one instant and not after the other. -/
def Due (occurs : τ → Prop) (last now : τ) : Prop := ∃ o, occurs o ∧ last < o ∧ o ≤ now

/-- **Once one has fired, a tick fires exactly if an occurrence after the last fire is due.** -/
def LaterExact (occurs : τ → Prop) (log : List (τ × Bool)) : Prop :=
  ∀ before t fired after last, log = before ++ (t, fired) :: after → lastFire before = some last →
    (fired = true ↔ Due occurs last t)

/-- **The first tick that fires is the first one at which an occurrence after the creation is
due.** -/
def FirstExact (occurs : τ → Prop) (created : τ) (log : List (τ × Bool)) : Prop :=
  ∀ before t fired after, log = before ++ (t, fired) :: after →
    ((fired = true ∧ ∀ tick ∈ before, tick.2 = false) ↔
      (Due occurs created t ∧ ∀ tick ∈ before, ¬ Due occurs created tick.1))

/-! ## One more tick -/

variable {occurs : τ → Prop} {created : τ} {log : List (τ × Bool)} {t : τ} {fired : Bool}

theorem laterExact_nil : LaterExact occurs ([] : List (τ × Bool)) := by
  intro before t fired after last h
  simp at h

theorem firstExact_nil : FirstExact occurs created ([] : List (τ × Bool)) := by
  intro before t fired after h
  simp at h

theorem LaterExact.append (h : LaterExact occurs log)
    (htick : ∀ last, lastFire log = some last → (fired = true ↔ Due occurs last t)) :
    LaterExact occurs (log ++ [(t, fired)]) := by
  intro before t' fired' after last hsplit hlast
  rcases split_append_singleton hsplit with ⟨rfl, hx, -⟩ | ⟨after', -, hlog⟩
  · cases hx
    exact htick last hlast
  · exact h before t' fired' after' last hlog hlast

/-- As long as the first fire is where it should be, no tick has fired exactly if none has seen
an occurrence due. -/
theorem FirstExact.forall_not_fired_iff (h : FirstExact occurs created log) :
    (∀ tick ∈ log, tick.2 = false) ↔ ∀ tick ∈ log, ¬ Due occurs created tick.1 := by
  induction log using List.reverseRecOn with
  | nil => simp
  | append_singleton log tick ih =>
      obtain ⟨t, fired⟩ := tick
      have hlog : FirstExact occurs created log := by
        intro before t' fired' after hsplit
        exact h before t' fired' (after ++ [(t, fired)]) (by rw [hsplit]; simp)
      have htick := h log t fired [] rfl
      rw [← ih hlog] at htick
      constructor
      · intro hnot tick hmem
        have hnone := (ih hlog).mp fun x hx => hnot x (List.mem_append_left _ hx)
        rcases List.mem_append.mp hmem with hmem | hmem
        · exact hnone tick hmem
        · obtain rfl := List.mem_singleton.mp hmem
          intro hdue
          have hfires := (htick.mpr ⟨hdue, (ih hlog).mpr hnone⟩).1
          have hquiet := hnot (t, fired) (by simp)
          rw [show fired = false from hquiet] at hfires
          cases hfires
      · intro hnone tick hmem
        have hnot := (ih hlog).mpr fun x hx => hnone x (List.mem_append_left _ hx)
        rcases List.mem_append.mp hmem with hmem | hmem
        · exact hnot tick hmem
        · obtain rfl := List.mem_singleton.mp hmem
          cases hfired : fired with
          | false => rfl
          | true =>
              exact absurd (htick.mp ⟨hfired, hnot⟩).1 (hnone (t, fired) (by simp))

/-- **One more tick keeps the first fire exact if and only if there was a fire before, or it fires
exactly if an occurrence after the creation is due.** -/
theorem FirstExact.append_iff (h : FirstExact occurs created log) :
    FirstExact occurs created (log ++ [(t, fired)]) ↔
      ((∀ tick ∈ log, tick.2 = false) → (fired = true ↔ Due occurs created t)) := by
  constructor
  · intro hall hnot
    have htick := hall log t fired [] rfl
    rw [← h.forall_not_fired_iff] at htick
    exact ⟨fun hfired => (htick.mp ⟨hfired, hnot⟩).1, fun hdue => (htick.mpr ⟨hdue, hnot⟩).1⟩
  · intro htick before t' fired' after hsplit
    rcases split_append_singleton hsplit with ⟨rfl, hx, -⟩ | ⟨after', -, hlog⟩
    · cases hx
      rw [← h.forall_not_fired_iff]
      exact and_congr_left htick
    · exact h before t' fired' after' hlog

/-! ## Every occurrence causes one fire -/

/-- The fire that an occurrence causes: the first one at or after it that follows a fire. -/
def Causes (log : List (τ × Bool)) (o t : τ) : Prop :=
  ∃ before after last, log = before ++ (t, true) :: after ∧ lastFire before = some last ∧
    last < o ∧ o ≤ t

/-- In a log in order of time, the last fire is the latest. -/
theorem le_of_lastFire (hsorted : log.Pairwise fun x y => x.1 < y.1) {last : τ}
    (hlast : lastFire log = some last) (hmem : (t, true) ∈ log) : t ≤ last := by
  induction log using List.reverseRecOn with
  | nil => cases hmem
  | append_singleton log tick ih =>
      obtain ⟨t', fired'⟩ := tick
      obtain ⟨hlog, -, hlater⟩ := List.pairwise_append.mp hsorted
      cases fired' with
      | true =>
          rw [lastFire_append_fired] at hlast
          obtain rfl := Option.some.inj hlast
          rcases List.mem_append.mp hmem with hmem | hmem
          · exact le_of_lt (hlater _ hmem _ (List.mem_singleton_self _))
          · exact le_of_eq (Prod.ext_iff.mp (List.mem_singleton.mp hmem)).1
      | false =>
          rw [lastFire_append_not_fired] at hlast
          rcases List.mem_append.mp hmem with hmem | hmem
          · exact ih hlog hlast hmem
          · cases List.mem_singleton.mp hmem

/-- An occurrence after a fire that some tick comes up to causes a fire. -/
theorem LaterExact.exists_causes (h : LaterExact occurs log)
    (hsorted : log.Pairwise fun x y => x.1 < y.1) {o first upTo : τ} {fired : Bool}
    (ho : occurs o) (hfirst : (first, true) ∈ log) (hlt : first < o) (hmem : (upTo, fired) ∈ log)
    (hle : o ≤ upTo) : ∃ t, Causes log o t := by
  induction log using List.reverseRecOn generalizing upTo fired with
  | nil => cases hmem
  | append_singleton log tick ih =>
      obtain ⟨t, f⟩ := tick
      obtain ⟨hlog, -, hlater⟩ := List.pairwise_append.mp hsorted
      have hlt_t : ∀ x ∈ log, x.1 < t := fun x hx => hlater x hx _ (List.mem_singleton_self _)
      have hfirst' : (first, true) ∈ log := by
        rcases List.mem_append.mp hfirst with hfirst | hfirst
        · exact hfirst
        · -- the first fire is not the last tick, which is not before the occurrence
          have hft : first = t := (Prod.ext_iff.mp (List.mem_singleton.mp hfirst)).1
          have hupTo : upTo ≤ t := by
            rcases List.mem_append.mp hmem with hmem | hmem
            · exact le_of_lt (hlt_t _ hmem)
            · exact le_of_eq (Prod.ext_iff.mp (List.mem_singleton.mp hmem)).1
          exact absurd (lt_of_lt_of_le (hft ▸ hlt) (le_trans hle hupTo)) (lt_irrefl t)
      have hexact : LaterExact occurs log := by
        intro before t' fired' after last hsplit
        exact h before t' fired' (after ++ [(t, f)]) last (by rw [hsplit]; simp)
      by_cases hearlier : ∃ x ∈ log, o ≤ x.1
      · obtain ⟨⟨t', f'⟩, hx, hox⟩ := hearlier
        obtain ⟨c, before, after, last, hsplit, hrest⟩ := ih hexact hlog hfirst' hx hox
        exact ⟨c, before, after ++ [(t, f)], last, by rw [hsplit]; simp, hrest⟩
      · -- the last tick is the first one to come up to the occurrence, so it fires
        have hot : o ≤ t := by
          rcases List.mem_append.mp hmem with hmem | hmem
          · exact absurd ⟨_, hmem, hle⟩ hearlier
          · exact le_trans hle (le_of_eq (Prod.ext_iff.mp (List.mem_singleton.mp hmem)).1)
        cases hlast : lastFire log with
        | none => exact absurd (lastFire_eq_none_iff.mp hlast _ hfirst') (by simp)
        | some last =>
            have hlast_lt : last < o :=
              not_le.mp fun hle => hearlier ⟨_, mem_of_lastFire hlast, hle⟩
            have hf : f = true := (h log t f [] last rfl hlast).mpr ⟨o, ho, hlast_lt, hot⟩
            exact ⟨t, log, [], last, by rw [hf], hlast, hlast_lt, hot⟩

/-- Of two fires, the later one has the earlier one behind it. -/
theorem Causes.not_lt (hsorted : log.Pairwise fun x y => x.1 < y.1) {o t t' : τ}
    (h : Causes log o t) (h' : Causes log o t') : ¬ t < t' := by
  intro htt'
  obtain ⟨before, after, last, hsplit, -, -, hot⟩ := h
  obtain ⟨before', after', last', hsplit', hlast', hlt', -⟩ := h'
  have hmem_t : (t, true) ∈ log := by
    rw [hsplit]
    simp
  rw [hsplit'] at hsorted hmem_t
  obtain ⟨hbefore, hafter, -⟩ := List.pairwise_append.mp hsorted
  have hin : (t, true) ∈ before' := by
    rcases List.mem_append.mp hmem_t with hin | hin
    · exact hin
    · rcases List.mem_cons.mp hin with heq | hin
      · exact absurd (Prod.ext_iff.mp heq).1 (ne_of_lt htt')
      · exact absurd ((List.pairwise_cons.mp hafter).1 _ hin) (not_lt_of_gt htt')
  have hle : t ≤ last' := le_of_lastFire hbefore hlast' hin
  exact absurd (lt_of_lt_of_le hlt' hot) (not_lt_of_ge hle)

/-- **Every occurrence after a fire that some tick comes up to causes one fire, and one only.** -/
theorem LaterExact.existsUnique_causes (h : LaterExact occurs log)
    (hsorted : log.Pairwise fun x y => x.1 < y.1) {o first upTo : τ} {fired : Bool}
    (ho : occurs o) (hfirst : (first, true) ∈ log) (hlt : first < o) (hmem : (upTo, fired) ∈ log)
    (hle : o ≤ upTo) : ∃ t, Causes log o t ∧ ∀ t', Causes log o t' → t' = t := by
  obtain ⟨t, ht⟩ := h.exists_causes hsorted ho hfirst hlt hmem hle
  refine ⟨t, ht, fun t' ht' => ?_⟩
  exact le_antisymm (not_lt.mp (ht.not_lt hsorted ht')) (not_lt.mp (ht'.not_lt hsorted ht))

/-- Occurrences that no tick lies between cause one fire. -/
theorem Causes.coalesce {o o' : τ} (h : Causes log o t) (hle : o ≤ o')
    (hbetween : ∀ tick ∈ log, tick.1 < o ∨ o' ≤ tick.1) : Causes log o' t := by
  obtain ⟨before, after, last, hsplit, hlast, hlt, hot⟩ := h
  have hmem : (t, true) ∈ log := by
    rw [hsplit]
    simp
  rcases hbetween _ hmem with hto | hto
  · exact absurd hot (not_le_of_gt hto)
  · exact ⟨before, after, last, hsplit, hlast, lt_of_lt_of_le hlt hle, hto⟩

/-- **Every occurrence after the first fire has its one fire.** -/
structure OneFireEach (occurs : τ → Prop) (log : List (τ × Bool)) : Prop where
  later : LaterExact occurs log
  once : ∀ o first upTo fired, occurs o → (first, true) ∈ log → first < o →
    (upTo, fired) ∈ log → o ≤ upTo → ∃ t, Causes log o t ∧ ∀ t', Causes log o t' → t' = t
  coalesce : ∀ o o' t, Causes log o t → o ≤ o' →
    (∀ tick ∈ log, tick.1 < o ∨ o' ≤ tick.1) → Causes log o' t

theorem LaterExact.oneFireEach (h : LaterExact occurs log)
    (hsorted : log.Pairwise fun x y => x.1 < y.1) : OneFireEach occurs log where
  later := h
  once _ _ _ _ ho hfirst hlt hmem hle := h.existsUnique_causes hsorted ho hfirst hlt hmem hle
  coalesce _ _ _ hcauses hle hbetween := hcauses.coalesce hle hbetween

end Recurrence
