import SimpleClaw.Auth.Store
import SimpleClaw.Lib.Runs
import SimpleClaw.Lib.Tables

/-!
# Access tokens

`get_valid_openai_access_token` reads a profile under the lock, asks the token endpoint for new
tokens when those of the profile are about to expire, and writes the profile back under the lock.
Any number of calls are under way at a time, and logins, logouts and other reads of the store come
between their steps.

* `AccessCall`: how far a call has come, with the profile it has read.
* `AuthWorld.step`: an operation on the store, or a step of a call.

The `log` of `AuthWorld` is not part of the program: it says what has happened to the profiles, the
last event first.
-/

namespace SimpleClaw
namespace Auth

/-- `extract_account_id_from_jwt` -/
structure AuthParams where
  extractAccountIdFromJwt : Text → Option Text

inductive AccessCall where
  /-- waits for the answer of the token endpoint -/
  | refreshing (profile : AuthProfile) (refreshToken : Text)
  /-- writes the profile with the new tokens -/
  | updating (profile : AuthProfile) (refreshToken : Text)
  | returned (accessToken : Option Text)
  | failed

/-- The refresh token that the call sends to the endpoint, while it may still store the answer. -/
def AccessCall.submitted : AccessCall → Option (Text × Text)
  | .refreshing profile refreshToken | .updating profile refreshToken =>
      some (profile.id, refreshToken)
  | .returned _ | .failed => none

inductive AuthEvent where
  | login (id : Text)
  /-- a logout that removed the profile -/
  | logout (id : Text)
  /-- the call has read the profile, and asks for new tokens -/
  | read (call : Nat) (id refreshToken : Text)
  /-- the call has written the profile with the new tokens -/
  | stored (call : Nat) (id : Text)
  deriving DecidableEq

/-- The profile that is written in the event. -/
def AuthEvent.written : AuthEvent → Option Text
  | .login id | .logout id | .stored _ id => some id
  | .read _ _ _ => none

def AuthEvent.isReadOf (call : Nat) : AuthEvent → Bool
  | .read call' _ _ => decide (call' = call)
  | .login _ | .logout _ | .stored _ _ => false

inductive AuthAction where
  | login (provider profileName : Text) (tokenSet : TokenSet) (accountId : Option Text)
      (setActive : Bool) (now : Int)
  | logout (provider : Text) (profileName : Option Text) (now : Int)
  | status (provider : Text) (now : Int)
  | look (provider : Text) (profileOverride : Option Text) (now : Int)
  /-- a call of `get_valid_openai_access_token` begins -/
  | access (profileOverride : Option Text) (now : Int)
  /-- the endpoint answers a call with new tokens -/
  | answer (call : Nat) (refreshed : TokenSet) (now : Int)
  /-- a call stores the new tokens -/
  | store (call : Nat) (now : Int)
  /-- the endpoint, the lock or the file fails a call -/
  | fail (call : Nat)

structure AuthWorld where
  data : AuthData
  calls : List AccessCall
  log : List AuthEvent

/-- The profile with the tokens of the answer. -/
def refreshedProfile (params : AuthParams) (profile : AuthProfile) (refreshToken : Text)
    (refreshed : TokenSet) (now : Int) : AuthProfile :=
  let refreshed :=
    if refreshed.refreshToken = none then { refreshed with refreshToken := some refreshToken }
    else refreshed
  { profile with
    tokenSet := refreshed
    accountId := (params.extractAccountIdFromJwt refreshed.accessToken).or profile.accountId
    updatedAtUnix := now }

namespace AuthWorld

/-- A call that has read a profile, or found none. -/
def began (s : AuthWorld) (profile : Option AuthProfile) (now : Int) : AuthWorld :=
  match profile with
  | none => { s with calls := s.calls ++ [.returned none] }
  | some profile =>
      if profile.tokenSet.isExpiringWithin openaiRefreshSkewSecs now then
        match profile.tokenSet.refreshToken with
        | some refreshToken =>
            { s with
              calls := s.calls ++ [.refreshing profile refreshToken]
              log := .read s.calls.length profile.id refreshToken :: s.log }
        | none =>
            { s with calls := s.calls ++ [.returned (some profile.tokenSet.accessToken)] }
      else { s with calls := s.calls ++ [.returned (some profile.tokenSet.accessToken)] }

/-- One operation on the store, or one step of a call; an operation that fails changes nothing. -/
def step (params : AuthParams) (s : AuthWorld) : AuthAction → Option AuthWorld
  | .login provider profileName tokenSet accountId setActive now =>
      some { s with
        data := s.data.upsertOauthProfile now provider profileName tokenSet accountId setActive
        log := .login (profileId provider profileName) :: s.log }
  | .logout provider profileName now =>
      match s.data.removeProfile now provider profileName with
      | .error _ => some s
      | .ok (data, none) => some { s with data }
      | .ok (data, some id) => some { s with data, log := .logout id :: s.log }
  | .status provider now => some { s with data := (s.data.listProfiles now provider).1 }
  | .look provider profileOverride now =>
      match s.data.getProfile now provider profileOverride with
      | .error _ => some s
      | .ok (data, _) => some { s with data }
  | .access profileOverride now =>
      match s.data.getProfile now openaiCodexProvider profileOverride with
      | .error _ => some { s with calls := s.calls ++ [.failed] }
      | .ok (data, profile) => some (({ s with data } : AuthWorld).began profile now)
  | .answer call refreshed now =>
      match s.calls[call]? with
      | some (.refreshing profile refreshToken) =>
          let profile := refreshedProfile params profile refreshToken refreshed now
          some { s with calls := s.calls.set call (.updating profile refreshToken) }
      | _ => none
  | .store call now =>
      match s.calls[call]? with
      | some (.updating profile _) =>
          some { data := s.data.updateProfile now profile
                 calls := s.calls.set call (.returned (some profile.tokenSet.accessToken))
                 log := .stored call profile.id :: s.log }
      | _ => none
  | .fail call =>
      match s.calls[call]? with
      | some (.refreshing _ _) | some (.updating _ _) =>
          some { s with calls := s.calls.set call .failed }
      | _ => none

/-- The profile and the refresh token that the call goes on with. -/
def submittedBy (s : AuthWorld) (call : Nat) : Option (Text × Text) :=
  s.calls[call]?.bind AccessCall.submitted

/-! ## What a step changes -/

/-- What an action does to the profiles, the calls and the log. -/
inductive Change (s : AuthWorld) : AuthAction → AuthWorld → Prop where
  | quiet {a : AuthAction} {s' : AuthWorld} (hprofiles : s'.data.profiles = s.data.profiles)
      (hcalls : s'.calls = s.calls) (hlog : s'.log = s.log) : Change s a s'
  | login {provider profileName : Text} {tokenSet : TokenSet} {accountId : Option Text}
      {setActive : Bool} {now : Int} {s' : AuthWorld} (p : AuthProfile)
      (htokens : p.tokenSet = tokenSet)
      (hprofiles : s'.data.profiles = s.data.profiles.insert p.id p)
      (hcalls : s'.calls = s.calls) (hlog : s'.log = .login p.id :: s.log) :
      Change s (.login provider profileName tokenSet accountId setActive now) s'
  | logout {a : AuthAction} {s' : AuthWorld} (id : Text)
      (hprofiles : s'.data.profiles = s.data.profiles.erase id)
      (hcalls : s'.calls = s.calls) (hlog : s'.log = .logout id :: s.log) : Change s a s'
  | ended {a : AuthAction} {s' : AuthWorld} (c : AccessCall) (hover : c.submitted = none)
      (hprofiles : s'.data.profiles = s.data.profiles)
      (hcalls : s'.calls = s.calls ++ [c]) (hlog : s'.log = s.log) : Change s a s'
  | read {a : AuthAction} {s' : AuthWorld} (p : AuthProfile) (r : Text)
      (hp : ∃ id : Text, s.data.profiles[id]? = some p) (hr : p.tokenSet.refreshToken = some r)
      (hprofiles : s'.data.profiles = s.data.profiles)
      (hcalls : s'.calls = s.calls ++ [.refreshing p r])
      (hlog : s'.log = .read s.calls.length p.id r :: s.log) : Change s a s'
  | answered {a : AuthAction} {s' : AuthWorld} (call : Nat) (p p' : AuthProfile) (r : Text)
      (hcall : s.calls[call]? = some (.refreshing p r)) (hid : p'.id = p.id)
      (hprofiles : s'.data.profiles = s.data.profiles)
      (hcalls : s'.calls = s.calls.set call (.updating p' r)) (hlog : s'.log = s.log) :
      Change s a s'
  | stored {call : Nat} {now : Int} {s' : AuthWorld} (p : AuthProfile) (r : Text)
      (hcall : s.calls[call]? = some (.updating p r))
      (hprofiles : s'.data.profiles = s.data.profiles.insert p.id p)
      (hcalls : s'.calls = s.calls.set call (.returned (some p.tokenSet.accessToken)))
      (hlog : s'.log = .stored call p.id :: s.log) : Change s (.store call now) s'
  | failed {a : AuthAction} {s' : AuthWorld} (call : Nat) (c : AccessCall)
      (hcall : s.calls[call]? = some c) (hprofiles : s'.data.profiles = s.data.profiles)
      (hcalls : s'.calls = s.calls.set call .failed) (hlog : s'.log = s.log) : Change s a s'

variable {params : AuthParams} {s s' : AuthWorld} {a : AuthAction}

theorem change_began {data : AuthData} {profile : Option AuthProfile}
    (hprofiles : data.profiles = s.data.profiles)
    (hprofile : ∀ p : AuthProfile, profile = some p → ∃ id : Text, s.data.profiles[id]? = some p)
    (now : Int) : Change s a (({ s with data } : AuthWorld).began profile now) := by
  cases profile with
  | none => exact .ended (.returned none) rfl hprofiles rfl rfl
  | some p =>
      rw [began]
      split
      · split
        · next r hr => exact .read p r (hprofile p rfl) hr hprofiles rfl rfl
        · exact .ended _ rfl hprofiles rfl rfl
      · exact .ended _ rfl hprofiles rfl rfl

theorem change_of_step (h : step params s a = some s') : Change s a s' := by
  cases a with
  | login provider profileName tokenSet accountId setActive now =>
      obtain rfl := Option.some.inj h
      exact .login (s.data.oauthProfile now provider profileName tokenSet accountId) rfl rfl rfl rfl
  | logout provider profileName now =>
      simp only [step] at h
      split at h
      · obtain rfl := Option.some.inj h
        exact .quiet rfl rfl rfl
      · next data hremoved =>
          obtain rfl := Option.some.inj h
          obtain ⟨-, hdata⟩ | ⟨id, hid, -⟩ := AuthData.removeProfile_eq_ok hremoved
          · exact .quiet (congrArg AuthData.profiles hdata) rfl rfl
          · cases hid
      · next data id hremoved =>
          obtain rfl := Option.some.inj h
          obtain ⟨hnone, -⟩ | ⟨id', hid, hprofiles⟩ := AuthData.removeProfile_eq_ok hremoved
          · cases hnone
          · obtain rfl := Option.some.inj hid
            exact .logout id hprofiles rfl rfl
  | status provider now =>
      obtain rfl := Option.some.inj h
      exact .quiet AuthData.profiles_listProfiles rfl rfl
  | look provider profileOverride now =>
      simp only [step] at h
      split at h
      · obtain rfl := Option.some.inj h
        exact .quiet rfl rfl rfl
      · next data profile hget =>
          obtain rfl := Option.some.inj h
          exact .quiet (AuthData.getProfile_eq_ok hget).1 rfl rfl
  | access profileOverride now =>
      simp only [step] at h
      split at h
      · obtain rfl := Option.some.inj h
        exact .ended .failed rfl rfl rfl rfl
      · next data profile hget =>
          obtain rfl := Option.some.inj h
          obtain ⟨hprofiles, hprofile⟩ := AuthData.getProfile_eq_ok hget
          exact change_began hprofiles hprofile now
  | answer call refreshed now =>
      simp only [step] at h
      split at h
      · next p r hcall =>
          obtain rfl := Option.some.inj h
          exact .answered call p (refreshedProfile params p r refreshed now) r hcall rfl rfl rfl rfl
      · cases h
  | store call now =>
      simp only [step] at h
      split at h
      · next p r hcall =>
          obtain rfl := Option.some.inj h
          exact .stored p r hcall rfl rfl rfl
      · cases h
  | fail call =>
      simp only [step] at h
      split at h
      · next hcall =>
          obtain rfl := Option.some.inj h
          exact .failed call _ hcall rfl rfl rfl
      · next hcall =>
          obtain rfl := Option.some.inj h
          exact .failed call _ hcall rfl rfl rfl
      · cases h

/-! ## What the calls go on with -/

section Calls

variable {call call' : Nat} {c c' : AccessCall}

theorem submittedBy_congr (h : s'.calls = s.calls) (call : Nat) :
    s'.submittedBy call = s.submittedBy call := by
  rw [submittedBy, submittedBy, h]

theorem submittedBy_append (h : s'.calls = s.calls ++ [c]) (hne : call ≠ s.calls.length) :
    s'.submittedBy call = s.submittedBy call := by
  rw [submittedBy, submittedBy, h]
  rcases Nat.lt_or_gt_of_ne hne with hlt | hgt
  · rw [List.getElem?_append_left hlt]
  · rw [List.getElem?_eq_none (by simp; omega), List.getElem?_eq_none (by omega)]

theorem submittedBy_length (h : s'.calls = s.calls ++ [c]) :
    s'.submittedBy s.calls.length = c.submitted := by
  rw [submittedBy, h, List.getElem?_concat_length]
  rfl

theorem submittedBy_set (h : s'.calls = s.calls.set call c) (hne : call' ≠ call) :
    s'.submittedBy call' = s.submittedBy call' := by
  rw [submittedBy, submittedBy, h, List.getElem?_set_ne hne.symm]

theorem submittedBy_set_self (h : s'.calls = s.calls.set call c)
    (hcall : s.calls[call]? = some c') : s'.submittedBy call = c.submitted := by
  rw [submittedBy, h, Table.getElem?_set_self_of_getElem? hcall]
  rfl

end Calls

end AuthWorld

end Auth
end SimpleClaw
