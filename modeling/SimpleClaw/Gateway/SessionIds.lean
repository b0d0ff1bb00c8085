import SimpleClaw.Gateway.Session
import SimpleClaw.Lib.Runs
import SimpleClaw.Lib.Tables

/-!
# Session ids

The id of a session is the key of its scope and a number, joined by colons, and an agent id may
contain colons itself.  Read from its end, the id is unambiguous all the same: the number has no
colon, and neither has what stands before `:session:`, which is `main` or the number of a channel.

* `SessionIds.step`: the operations on the store, with the ids they have returned.
* `SessionIds.Sound`: what holds of the store and of these ids.
* `formatSessionId_scope_inj`: agent, place and number are read back from the id.
* `session_ids_fresh`: along every run the active ids are those of the rows, and a rotation
  returns a new one.

The number of a session is an `i64` in the source.  It is never larger than the count of the ids
returned, so that it stays in range for as long as fewer than 2 ^ 63 of them have been.
-/

namespace SimpleClaw
namespace Gateway

open Config Transition

/-! ## Reading an id from its end -/

theorem colon_notMem_sequenceText (sequence : Int) : ':' ∉ sequenceText sequence := by
  cases sequence with
  | ofNat n => exact Text.notMem_decimal (by decide) n
  | negSucc n =>
      intro h
      rcases List.mem_cons.mp h with h | h
      · exact absurd h (by decide)
      · exact Text.notMem_decimal (by decide) (n + 1) h

theorem sequenceText_injective : Function.Injective sequenceText := by
  intro m n h
  -- a minus sign is no digit
  have hsign : ∀ k l : Nat, Text.decimal k ≠ '-' :: Text.decimal l := by
    intro k l hkl
    have hmem : '-' ∈ Text.decimal k := by
      rw [hkl]
      exact List.mem_cons_self
    exact Text.notMem_decimal (by decide) k hmem
  cases m with
  | ofNat m =>
      cases n with
      | ofNat n => rw [Text.decimal_injective h]
      | negSucc n => exact absurd h (hsign m (n + 1))
  | negSucc m =>
      cases n with
      | ofNat n => exact absurd h.symm (hsign n (m + 1))
      | negSucc n =>
          have hdigits := Text.decimal_injective (List.cons.inj h).2
          rw [Nat.succ.inj hdigits]

/-- **Scope and number are read back from the id**, whatever the scope is. -/
theorem formatSessionId_inj {scopeKey scopeKey' : Text} {sequence sequence' : Int}
    (h : formatSessionId scopeKey sequence = formatSessionId scopeKey' sequence') :
    scopeKey = scopeKey' ∧ sequence = sequence' := by
  have hsplit : ∀ (key : Text) (n : Int),
      formatSessionId key n = (key ++ (":session" : Text)) ++ ':' :: sequenceText n := by
    intro key n
    simp [formatSessionId]
  rw [hsplit, hsplit] at h
  obtain ⟨hkey, hsequence⟩ := Text.append_cons_inj_of_notMem (colon_notMem_sequenceText sequence)
    (colon_notMem_sequenceText sequence') h
  exact ⟨List.append_cancel_right hkey, sequenceText_injective hsequence⟩

/-- A channel id is a number. -/
def NumericId (channelId : Text) : Prop := channelId ≠ [] ∧ ∀ c ∈ channelId, c.isDigit = true

theorem NumericId.colon_notMem {channelId : Text} (h : NumericId channelId) :
    ':' ∉ channelId := fun hmem => absurd (h.2 ':' hmem) (by decide)

/-- The key of direct messages, split at its last colon. -/
theorem buildSessionScopeKey_dm (agentId channelId : Text) (source : GatewayChannelKind) :
    buildSessionScopeKey agentId true source channelId =
      (("agent:" : Text) ++ agentId) ++ ':' :: ("main" : Text) := by
  simp [buildSessionScopeKey]

/-- The key of a channel, split at its last colon. -/
theorem buildSessionScopeKey_channel (agentId channelId : Text) (source : GatewayChannelKind) :
    buildSessionScopeKey agentId false source channelId =
      (("agent:" : Text) ++ agentId ++ (":discord" : Text)) ++ ':' :: channelId := by
  cases source
  simp [buildSessionScopeKey]

/-- No channel id is the word that ends the key of direct messages. -/
theorem NumericId.ne_main {channelId : Text} (h : NumericId channelId) :
    channelId ≠ ("main" : Text) := by
  rintro rfl
  exact absurd (h.2 'm' (by decide)) (by decide)

/-- **Agent and place are read back from the key of a scope**, whatever the id of the agent. -/
theorem buildSessionScopeKey_inj {agentId agentId' channelId channelId' : Text}
    {isDm isDm' : Bool} {source source' : GatewayChannelKind}
    (hnumeric : isDm = false → NumericId channelId)
    (hnumeric' : isDm' = false → NumericId channelId')
    (h : buildSessionScopeKey agentId isDm source channelId =
      buildSessionScopeKey agentId' isDm' source' channelId') :
    agentId = agentId' ∧ isDm = isDm' ∧ (isDm = false → channelId = channelId') := by
  have hmain : ':' ∉ ("main" : Text) := by decide
  cases isDm with
  | true =>
      cases isDm' with
      | true =>
          rw [buildSessionScopeKey_dm, buildSessionScopeKey_dm] at h
          obtain ⟨hagent, -⟩ := Text.append_cons_inj_of_notMem hmain hmain h
          exact ⟨List.append_cancel_left hagent, rfl, nofun⟩
      | false =>
          rw [buildSessionScopeKey_dm, buildSessionScopeKey_channel] at h
          have hid := hnumeric' rfl
          exact absurd (Text.append_cons_inj_of_notMem hmain hid.colon_notMem h).2.symm hid.ne_main
  | false =>
      have hid := hnumeric rfl
      cases isDm' with
      | true =>
          rw [buildSessionScopeKey_channel, buildSessionScopeKey_dm] at h
          exact absurd (Text.append_cons_inj_of_notMem hid.colon_notMem hmain h).2 hid.ne_main
      | false =>
          rw [buildSessionScopeKey_channel, buildSessionScopeKey_channel] at h
          obtain ⟨hkey, hchannel⟩ :=
            Text.append_cons_inj_of_notMem hid.colon_notMem (hnumeric' rfl).colon_notMem h
          exact ⟨List.append_cancel_left (List.append_cancel_right hkey), rfl, fun _ => hchannel⟩

/-- Agent, place and number are read back from the id of a session. -/
def ReadsBack (agentId channelId : Text) (isDm : Bool) (source : GatewayChannelKind)
    (sequence : Int) : Prop :=
  ∀ (agentId' channelId' : Text) (isDm' : Bool) (source' : GatewayChannelKind) (sequence' : Int),
    (isDm' = false → NumericId channelId') →
    formatSessionId (buildSessionScopeKey agentId isDm source channelId) sequence =
      formatSessionId (buildSessionScopeKey agentId' isDm' source' channelId') sequence' →
    agentId = agentId' ∧ isDm = isDm' ∧ (isDm = false → channelId = channelId') ∧
      sequence = sequence'

theorem formatSessionId_scope_inj (agentId channelId : Text) (isDm : Bool)
    (source : GatewayChannelKind) (sequence : Int) (hnumeric : isDm = false → NumericId channelId) :
    ReadsBack agentId channelId isDm source sequence := by
  intro agentId' channelId' isDm' source' sequence' hnumeric' h
  obtain ⟨hkey, hsequence⟩ := formatSessionId_inj h
  obtain ⟨hagent, hdm, hchannel⟩ := buildSessionScopeKey_inj hnumeric hnumeric' hkey
  exact ⟨hagent, hdm, hchannel, hsequence⟩

/-! ## Runs of the store -/

/-- The store with the ids its operations have returned, in their order. -/
structure SessionIds where
  store : SessionStore
  returned : List Text

/-- An operation, each under the lock, or the database is opened again. -/
inductive SessionAction where
  | currentOrCreate (faults : StoreFaults) (scopeKey : Text)
  | rotate (faults : StoreFaults) (scopeKey : Text)
  | reopened

namespace SessionIds

/-- The table is empty. -/
def start : SessionIds := ⟨fun _ => none, []⟩

def step (s : SessionIds) : SessionAction → Option SessionIds
  | .currentOrCreate faults scopeKey =>
      match s.store.currentOrCreate faults scopeKey with
      | (.ok sessionId, store) => some ⟨store, s.returned ++ [sessionId]⟩
      | (.error _, store) => some { s with store }
  | .rotate faults scopeKey =>
      match s.store.rotate faults scopeKey with
      | (.ok rotation, store) =>
          some ⟨store, s.returned ++ [rotation.previousSessionId, rotation.sessionId]⟩
      | (.error _, store) => some { s with store }
  -- the table is created only if there is none
  | .reopened => some s

/-- Each row has the id of its scope and number, and each id returned is one of a row, with its
number or a lower one. -/
structure Sound (s : SessionIds) : Prop where
  row : ∀ scopeKey session, s.store scopeKey = some session →
    session.sessionId = formatSessionId scopeKey session.sequence
  range : ∀ scopeKey session, s.store scopeKey = some session →
    0 < session.sequence ∧ session.sequence ≤ s.returned.length
  issued : ∀ id ∈ s.returned, ∃ scopeKey session sequence, s.store scopeKey = some session ∧
    id = formatSessionId scopeKey sequence ∧ sequence ≤ session.sequence

theorem sound_start : Sound start := ⟨nofun, nofun, nofun⟩

/-- What an operation that writes comes to: one scope gets a higher number, whose id it
returns. -/
theorem Sound.write {s : SessionIds} (hs : Sound s) {scopeKey : Text} {sequence : Int}
    {ids : List Text} (hpos : 0 < sequence)
    (hrange : sequence ≤ s.returned.length + ids.length)
    (hlater : ∀ session, s.store scopeKey = some session → session.sequence ≤ sequence)
    (hids : ∀ id ∈ ids, ∃ n, id = formatSessionId scopeKey n ∧ n ≤ sequence) :
    Sound ⟨Function.update s.store scopeKey
      (some ⟨formatSessionId scopeKey sequence, sequence⟩), s.returned ++ ids⟩ where
  row := by
    intro key session hsession
    rcases Table.update_some_cases hsession with ⟨rfl, rfl⟩ | ⟨-, hsession⟩
    · rfl
    · exact hs.row key session hsession
  range := by
    intro key session hsession
    rw [List.length_append]
    rcases Table.update_some_cases hsession with ⟨rfl, rfl⟩ | ⟨-, hsession⟩
    · exact ⟨hpos, by push_cast; exact hrange⟩
    · obtain ⟨hpos', hle⟩ := hs.range key session hsession
      exact ⟨hpos', by omega⟩
  issued := by
    intro id hid
    rcases List.mem_append.mp hid with hid | hid
    · obtain ⟨key, session, n, hsession, rfl, hn⟩ := hs.issued id hid
      by_cases hkey : key = scopeKey
      · subst hkey
        exact ⟨key, _, n, Function.update_self .., rfl, Int.le_trans hn (hlater session hsession)⟩
      · exact ⟨key, session, n, (Function.update_of_ne hkey ..).trans hsession, rfl, hn⟩
    · obtain ⟨n, rfl, hn⟩ := hids id hid
      exact ⟨scopeKey, _, n, Function.update_self .., rfl, hn⟩

/-- The row a rotation starts from. -/
theorem Sound.previous {s : SessionIds} (hs : Sound s) (scopeKey : Text) :
    let previous := (s.store scopeKey).getD ⟨formatSessionId scopeKey 1, 1⟩
    previous.sessionId = formatSessionId scopeKey previous.sequence ∧ 0 < previous.sequence ∧
      previous.sequence ≤ s.returned.length + 1 ∧
      ∀ session, s.store scopeKey = some session → session = previous := by
  cases hrow : s.store scopeKey with
  | none =>
      refine ⟨rfl, Int.one_pos, ?_, nofun⟩
      show (1 : Int) ≤ s.returned.length + 1
      omega
  | some session =>
      obtain ⟨hpos, hle⟩ := hs.range scopeKey session hrow
      refine ⟨hs.row scopeKey session hrow, hpos, ?_, ?_⟩
      · exact Int.le_trans hle (by omega)
      · intro session' hsession
        exact (Option.some.inj hsession).symm

/-- An operation on the scope of a row gives its id again. -/
theorem Sound.again {s : SessionIds} (hs : Sound s) {scopeKey : Text} {session : ActiveSession}
    (hrow : s.store scopeKey = some session) :
    Sound { s with returned := s.returned ++ [session.sessionId] } := by
  refine ⟨hs.row, fun key row hrow' => ?_, fun id hid => ?_⟩
  · obtain ⟨hpos, hle⟩ := hs.range key row hrow'
    exact ⟨hpos, by rw [List.length_append]; omega⟩
  · rcases List.mem_append.mp hid with hid | hid
    · exact hs.issued id hid
    · obtain rfl := List.mem_singleton.mp hid
      exact ⟨scopeKey, session, _, hrow, hs.row scopeKey session hrow, Int.le_refl _⟩

theorem Sound.currentOrCreate {s s' : SessionIds} (hs : Sound s) {faults : StoreFaults}
    {scopeKey : Text} (h : SessionIds.step s (.currentOrCreate faults scopeKey) = some s') :
    Sound s' := by
  simp only [SessionIds.step, SessionStore.currentOrCreate] at h
  cases hselect : faults.select with
  | some e =>
      simp only [hselect] at h
      cases h
      exact hs
  | none =>
      cases hrow : s.store scopeKey with
      | some session =>
          simp only [hselect, hrow] at h
          cases h
          exact hs.again hrow
      | none =>
          cases hwrite : faults.write with
          | some e =>
              simp only [hselect, hrow, hwrite] at h
              cases h
              exact hs
          | none =>
              simp only [hselect, hrow, hwrite] at h
              cases h
              refine hs.write Int.one_pos ?_ ?_ ?_
              · simp only [List.length_cons, List.length_nil]
                omega
              · intro session hsession
                rw [hrow] at hsession
                cases hsession
              · intro id hid
                exact ⟨1, List.mem_singleton.mp hid, Int.le_refl _⟩

theorem Sound.rotate {s s' : SessionIds} (hs : Sound s) {faults : StoreFaults} {scopeKey : Text}
    (h : SessionIds.step s (.rotate faults scopeKey) = some s') : Sound s' := by
  obtain ⟨hid, hpos, hrange, hprevious⟩ := hs.previous scopeKey
  simp only [SessionIds.step, SessionStore.rotate] at h
  cases hselect : faults.select with
  | some e =>
      simp only [hselect] at h
      cases h
      exact hs
  | none =>
      cases hwrite : faults.write with
      | some e =>
          simp only [hselect, hwrite] at h
          cases h
          exact hs
      | none =>
          simp only [hselect, hwrite] at h
          cases h
          refine hs.write (by omega) ?_ ?_ ?_
          · simp only [List.length_cons, List.length_nil]
            omega
          · intro session hsession
            rw [hprevious session hsession]
            omega
          · intro id hmem
            rcases List.mem_cons.mp hmem with rfl | hmem
            · exact ⟨_, hid, by omega⟩
            · exact ⟨_, List.mem_singleton.mp hmem, Int.le_refl _⟩

theorem Sound.step {s s' : SessionIds} {a : SessionAction} (hs : Sound s)
    (h : SessionIds.step s a = some s') : Sound s' := by
  cases a with
  | currentOrCreate faults scopeKey => exact hs.currentOrCreate h
  | rotate faults scopeKey => exact hs.rotate h
  | reopened =>
      cases h
      exact hs

/-- A rotation returns an id that no operation on any scope has returned before. -/
theorem Sound.rotate_fresh {s : SessionIds} (hs : Sound s) {faults : StoreFaults}
    {scopeKey : Text} {rotation : SessionRotation}
    (h : (s.store.rotate faults scopeKey).1 = .ok rotation) :
    rotation.sessionId ∉ s.returned := by
  obtain ⟨-, -, -, hprevious⟩ := hs.previous scopeKey
  have hid : rotation.sessionId = formatSessionId scopeKey
      (((s.store scopeKey).getD ⟨formatSessionId scopeKey 1, 1⟩).sequence + 1) := by
    unfold SessionStore.rotate at h
    cases hselect : faults.select with
    | some e =>
        simp only [hselect] at h
        cases h
    | none =>
        cases hwrite : faults.write with
        | some e =>
            simp only [hselect, hwrite] at h
            cases h
        | none =>
            simp only [hselect, hwrite] at h
            cases h
            rfl
  intro hmem
  obtain ⟨key, session, n, hsession, hn, hle⟩ := hs.issued _ hmem
  rw [hid] at hn
  obtain ⟨rfl, rfl⟩ := formatSessionId_inj hn
  rw [hprevious session hsession] at hle
  omega

/-- The active ids are those of the rows, their numbers are in range, and the next rotation of any
scope returns a new id. -/
def Fresh (s : SessionIds) : Prop :=
  (∀ scopeKey session, s.store scopeKey = some session →
    session.sessionId = formatSessionId scopeKey session.sequence ∧
      0 < session.sequence ∧ session.sequence ≤ s.returned.length) ∧
  ∀ faults scopeKey rotation, (s.store.rotate faults scopeKey).1 = .ok rotation →
    rotation.sessionId ∉ s.returned

theorem Sound.fresh {s : SessionIds} (hs : Sound s) : Fresh s :=
  ⟨fun scopeKey session h => ⟨hs.row scopeKey session h, hs.range scopeKey session h⟩,
    fun _ _ _ h => hs.rotate_fresh h⟩

end SessionIds

/-- **Session ids are fresh across the store.**  From an empty table, after any operations and
reopenings, the active ids are those of their scopes and numbers and a rotation of any scope
returns an id never returned before; and agent, place and number are read back from the id of a
session, for all agent ids and all numeric channel ids. -/
theorem session_ids_fresh {tr : List (SessionAction × SessionIds)}
    (hrun : Run SessionIds.step SessionIds.start tr) :
    SessionIds.start.Fresh ∧ (∀ x ∈ tr, x.2.Fresh) ∧
      ∀ (agentId channelId : Text) (isDm : Bool) (source : GatewayChannelKind) (sequence : Int),
        (isDm = false → NumericId channelId) →
        ReadsBack agentId channelId isDm source sequence := by
  have hsound := Run.invariant (J := SessionIds.Sound) (fun _ _ _ hs h => hs.step h) hrun
    SessionIds.sound_start
  exact ⟨SessionIds.sound_start.fresh, fun x hx => (hsound x hx).fresh,
    formatSessionId_scope_inj⟩

/-- An agent whose id ends as the key of a channel does, next to that channel. -/
def rotations : List SessionAction :=
  let channel := buildSessionScopeKey "a" false .discord "5"
  let dm := buildSessionScopeKey "a:discord:5" true .discord "7"
  [.currentOrCreate .none channel, .rotate .none dm, .rotate lockedSelect channel, .reopened,
    .rotate .none channel, .currentOrCreate .none dm]
where
  lockedSelect : StoreFaults := ⟨some (.db "database is locked"), none⟩

theorem session_ids_fresh_rotations : ∃ tr,
    exec SessionIds.step SessionIds.start rotations = some tr ∧ tr.length = 6 ∧
      ∀ x ∈ tr, x.2.Fresh := by
  obtain ⟨tr, htr⟩ : ∃ tr, exec SessionIds.step SessionIds.start rotations = some tr :=
    ⟨_, rfl⟩
  refine ⟨tr, htr, ?_, (session_ids_fresh (run_of_exec htr)).2.1⟩
  cases htr
  rfl

end Gateway
end SimpleClaw
