import Mathlib.Logic.Function.Basic
import SimpleClaw.Config.Routing
import SimpleClaw.Error

/-!
# The session store

A scope, which is a channel or the direct messages of an agent, has one active session.  The
store is a table of the active sessions by scope; a statement on it may fail.

* `SessionStore.currentOrCreate`, `SessionStore.rotate`: the operations, each under the lock.
-/

namespace SimpleClaw
namespace Gateway

open Config

def buildSessionScopeKey (agentId : Text) (isDm : Bool) (source : GatewayChannelKind)
    (channelId : Text) : Text :=
  if isDm then ("agent:" : Text) ++ agentId ++ (":main" : Text)
  else
    match source with
    | .discord => ("agent:" : Text) ++ agentId ++ (":discord:" : Text) ++ channelId

/-- The decimal numeral of a sequence number, which a database may also hold as a negative one. -/
def sequenceText : Int → Text
  | .ofNat n => Text.decimal n
  | .negSucc n => '-' :: Text.decimal (n + 1)

def formatSessionId (scopeKey : Text) (sequence : Int) : Text :=
  scopeKey ++ (":session:" : Text) ++ sequenceText sequence

/-- A row of `active_sessions`. -/
structure ActiveSession where
  sessionId : Text
  sequence : Int
  deriving DecidableEq

/-- The rows by their scope key. -/
abbrev SessionStore := Text → Option ActiveSession

/-- How the two statements of an operation fare. -/
structure StoreFaults where
  select : Option FrameworkError
  write : Option FrameworkError
  deriving DecidableEq

/-- Nothing fails. -/
def StoreFaults.none : StoreFaults := ⟨.none, .none⟩

/-- `current_or_create`, with the store afterwards. -/
def SessionStore.currentOrCreate (store : SessionStore) (faults : StoreFaults) (scopeKey : Text) :
    Except FrameworkError Text × SessionStore :=
  match faults.select with
  | some e => (.error e, store)
  | .none =>
      match store scopeKey with
      | some session => (.ok session.sessionId, store)
      | .none =>
          match faults.write with
          | some e => (.error e, store)
          | .none =>
              let sessionId := formatSessionId scopeKey 1
              (.ok sessionId, Function.update store scopeKey (some ⟨sessionId, 1⟩))

structure SessionRotation where
  previousSessionId : Text
  sessionId : Text
  deriving DecidableEq

/-- `rotate`, with the store afterwards. -/
def SessionStore.rotate (store : SessionStore) (faults : StoreFaults) (scopeKey : Text) :
    Except FrameworkError SessionRotation × SessionStore :=
  match faults.select with
  | some e => (.error e, store)
  | .none =>
      let previous := (store scopeKey).getD ⟨formatSessionId scopeKey 1, 1⟩
      let nextSequence := previous.sequence + 1
      let sessionId := formatSessionId scopeKey nextSequence
      match faults.write with
      | some e => (.error e, store)
      | .none =>
          (.ok ⟨previous.sessionId, sessionId⟩,
            Function.update store scopeKey (some ⟨sessionId, nextSequence⟩))

/-- No statement that `current_or_create` comes to fails: it selects, and inserts only when the
scope has no session yet. -/
def StoreFaults.SparesLookup (faults : StoreFaults) (store : SessionStore) (scopeKey : Text) :
    Prop :=
  faults.select = .none ∧ (store scopeKey = .none → faults.write = .none)

instance (faults : StoreFaults) (store : SessionStore) (scopeKey : Text) :
    Decidable (faults.SparesLookup store scopeKey) :=
  inferInstanceAs
    (Decidable (faults.select = .none ∧ (store scopeKey = .none → faults.write = .none)))

/-- **A lookup succeeds if and only if no statement it comes to fails.** -/
theorem currentOrCreate_ok_iff {store : SessionStore} {faults : StoreFaults} {scopeKey : Text} :
    (∃ sessionKey, (store.currentOrCreate faults scopeKey).1 = .ok sessionKey) ↔
      faults.SparesLookup store scopeKey := by
  unfold SessionStore.currentOrCreate StoreFaults.SparesLookup
  cases faults.select with
  | some e => simp
  | none =>
      cases store scopeKey with
      | some session => simp
      | none => cases faults.write <;> simp

end Gateway
end SimpleClaw
