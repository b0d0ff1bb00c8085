import Mathlib.Data.Char
import Mathlib.Data.List.Lex
import Mathlib.Data.List.Sort
import Mathlib.Tactic.Linarith
import SimpleClaw.Error
import SimpleClaw.Lib.I64

/-!
# The auth store

The profiles of all providers, by id, and the active one of each provider.  Every operation loads
the file, works on what it holds and saves it, all under one lock; here it is a function of what
the file holds and of the time.

* `AuthData`: what the file holds.
* `upsertOauthProfile`, `removeProfile`, `updateProfile`: the writes.
* `getProfile`, `listProfiles`: the reads, which repair the active profile.
* `KeyedById`: every profile is under its own id; the writes keep it.
-/

namespace SimpleClaw
namespace Auth

def openaiCodexProvider : Text := "openai_codex"

def openaiRefreshSkewSecs : Nat := 90

structure TokenSet where
  accessToken : Text
  refreshToken : Option Text
  idToken : Option Text
  expiresAtUnix : Option Int
  tokenType : Option Text
  scope : Option Text
  deriving DecidableEq

def TokenSet.isExpiringWithin (tokens : TokenSet) (skew : Nat) (now : Int) : Bool :=
  match tokens.expiresAtUnix with
  | none => false
  | some expiresAtUnix => decide (expiresAtUnix ≤ saturatingAdd now skew)

structure AuthProfile where
  id : Text
  provider : Text
  profileName : Text
  accountId : Option Text
  tokenSet : TokenSet
  createdAtUnix : Int
  updatedAtUnix : Int
  deriving DecidableEq

structure AuthData where
  updatedAtUnix : Int
  activeProfiles : Std.TreeMap Text Text
  profiles : Std.TreeMap Text AuthProfile

/-- The store when there is no file. -/
def AuthData.default (now : Int) : AuthData where
  updatedAtUnix := now
  activeProfiles := ∅
  profiles := ∅

def profileId (provider profileName : Text) : Text := provider ++ (":" : Text) ++ profileName

def normalizeProfileName (profileName : Text) : Except FrameworkError Text :=
  if profileName.trim = [] then .error (.config "profile name cannot be empty")
  else .ok profileName.trim

/-- `min_by` on the names: the first of the profiles with the smallest one. -/
def minByName : List AuthProfile → Option AuthProfile
  | [] => none
  | p :: ps =>
      some (ps.foldl (fun least q => if q.profileName < least.profileName then q else least) p)

namespace AuthData

/-- The profiles of a provider, in the order of their ids. -/
def profilesOf (data : AuthData) (provider : Text) : List AuthProfile :=
  data.profiles.values.filter fun profile => profile.provider = provider

def firstProfileIdForProvider (data : AuthData) (provider : Text) : Option Text :=
  (minByName (data.profilesOf provider)).map AuthProfile.id

/-- The store with an active profile that exists, and whether it had to be changed. -/
def repairStaleActiveProfile (data : AuthData) (provider : Text) : AuthData × Bool :=
  match data.activeProfiles[provider]? with
  | none => (data, false)
  | some activeId =>
      if data.profiles.contains activeId then (data, false)
      else
        match data.firstProfileIdForProvider provider with
        | some fallbackId =>
            ({ data with activeProfiles := data.activeProfiles.insert provider fallbackId }, true)
        | none => ({ data with activeProfiles := data.activeProfiles.erase provider }, true)

/-- What `with_exclusive_data` saves. -/
def saved (data : AuthData) (now : Int) (changed : Bool) : AuthData :=
  if changed then { data with updatedAtUnix := now } else data

def listProfiles (data : AuthData) (now : Int) (provider : Text) :
    AuthData × Option Text × List AuthProfile :=
  let (data, changed) := data.repairStaleActiveProfile provider
  let profiles := (data.profilesOf provider).insertionSort fun left right =>
    left.profileName ≤ right.profileName
  (data.saved now changed, data.activeProfiles[provider]?, profiles)

def getProfile (data : AuthData) (now : Int) (provider : Text) (profileOverride : Option Text) :
    Except FrameworkError (AuthData × Option AuthProfile) :=
  let (data, changed) := data.repairStaleActiveProfile provider
  let found := match profileOverride with
    | some profileName =>
        (normalizeProfileName profileName).map fun name => some (profileId provider name)
    | none =>
        match data.activeProfiles[provider]? with
        | some active => .ok (some active)
        | none => .ok (data.firstProfileIdForProvider provider)
  found.map fun id => (data.saved now changed, id.bind fun id => data.profiles[id]?)

/-- The profile of a login; it keeps the time of its first one. -/
def oauthProfile (data : AuthData) (now : Int) (provider profileName : Text) (tokenSet : TokenSet)
    (accountId : Option Text) : AuthProfile where
  id := profileId provider profileName
  provider := provider
  profileName := profileName
  accountId := accountId
  tokenSet := tokenSet
  createdAtUnix :=
    (data.profiles[profileId provider profileName]?.map AuthProfile.createdAtUnix).getD now
  updatedAtUnix := now

def upsertOauthProfile (data : AuthData) (now : Int) (provider profileName : Text)
    (tokenSet : TokenSet) (accountId : Option Text) (setActive : Bool) : AuthData :=
  let id := profileId provider profileName
  { updatedAtUnix := now
    activeProfiles :=
      if setActive then data.activeProfiles.insert provider id else data.activeProfiles
    profiles :=
      data.profiles.insert id (data.oauthProfile now provider profileName tokenSet accountId) }

/-- The active profile after `id` has been removed. -/
def withoutActive (data : AuthData) (provider id : Text) : Std.TreeMap Text Text :=
  if data.activeProfiles[provider]? = some id then
    match data.firstProfileIdForProvider provider with
    | some nextActive => (data.activeProfiles.erase provider).insert provider nextActive
    | none => data.activeProfiles.erase provider
  else data.activeProfiles

/-- The id of the profile that was removed; the source says whether there was one. -/
def removeProfile (data : AuthData) (now : Int) (provider : Text) (profileName : Option Text) :
    Except FrameworkError (AuthData × Option Text) :=
  let repaired := (data.repairStaleActiveProfile provider).1
  let found := match profileName with
    | some profileName =>
        (normalizeProfileName profileName).map fun name => some (profileId provider name)
    | none => .ok repaired.activeProfiles[provider]?
  found.map fun id =>
    match id with
    | none => (data, none)
    | some id =>
        if repaired.profiles.contains id then
          let removed := { repaired with profiles := repaired.profiles.erase id }
          ({ removed with
              activeProfiles := removed.withoutActive provider id
              updatedAtUnix := now }, some id)
        else (data, none)

def updateProfile (data : AuthData) (now : Int) (profile : AuthProfile) : AuthData :=
  { data with profiles := data.profiles.insert profile.id profile, updatedAtUnix := now }

/-! ## What becomes of the profiles -/

variable {data data' : AuthData} {now : Int} {provider : Text}

@[simp] theorem profiles_repairStaleActiveProfile :
    (data.repairStaleActiveProfile provider).1.profiles = data.profiles := by
  rw [repairStaleActiveProfile]
  split
  · rfl
  · split
    · rfl
    · split
      · rfl
      · rfl

@[simp] theorem profiles_saved (changed : Bool) :
    (data.saved now changed).profiles = data.profiles := by
  cases changed with
  | true => rfl
  | false => rfl

@[simp] theorem profiles_listProfiles :
    (data.listProfiles now provider).1.profiles = data.profiles := by
  rw [listProfiles, profiles_saved, profiles_repairStaleActiveProfile]

/-- A read leaves the profiles as they are, and gives one of them. -/
theorem getProfile_eq_ok {profileOverride : Option Text} {profile : Option AuthProfile}
    (h : data.getProfile now provider profileOverride = .ok (data', profile)) :
    data'.profiles = data.profiles ∧
      ∀ p : AuthProfile, profile = some p → ∃ id : Text, data.profiles[id]? = some p := by
  rw [getProfile] at h
  simp only [profiles_repairStaleActiveProfile] at h
  obtain ⟨id, -, hid⟩ := map_eq_ok_iff.mp h
  obtain ⟨rfl, rfl⟩ := Prod.mk.injEq .. ▸ hid
  refine ⟨by simp, fun p hp => ?_⟩
  obtain ⟨id, -, hget⟩ := Option.bind_eq_some_iff.mp hp
  exact ⟨id, hget⟩

/-- A removal takes away the profile it names, if any. -/
theorem removeProfile_eq_ok {profileName removed : Option Text}
    (h : data.removeProfile now provider profileName = .ok (data', removed)) :
    (removed = none ∧ data' = data) ∨
      ∃ id, removed = some id ∧ data'.profiles = data.profiles.erase id := by
  rw [AuthData.removeProfile.eq_def] at h
  simp only [profiles_repairStaleActiveProfile] at h
  obtain ⟨id, -, hid⟩ := map_eq_ok_iff.mp h
  split at hid
  · obtain ⟨rfl, rfl⟩ := Prod.mk.injEq .. ▸ hid
    exact .inl ⟨rfl, rfl⟩
  · split at hid
    · obtain ⟨rfl, rfl⟩ := Prod.mk.injEq .. ▸ hid
      exact .inr ⟨_, rfl, rfl⟩
    · obtain ⟨rfl, rfl⟩ := Prod.mk.injEq .. ▸ hid
      exact .inl ⟨rfl, rfl⟩

/-! ## Profiles under their own ids -/

section Maps

variable {profiles : Std.TreeMap Text AuthProfile} {id id' : Text}

theorem getElem?_insert_of_ne (h : id' ≠ id) (p : AuthProfile) :
    (profiles.insert id p)[id']? = profiles[id']? := by
  rw [Std.TreeMap.getElem?_insert, if_neg fun heq => h (Std.LawfulEqCmp.eq_of_compare heq).symm]

theorem getElem?_erase_of_ne (h : id' ≠ id) : (profiles.erase id)[id']? = profiles[id']? := by
  rw [Std.TreeMap.getElem?_erase, if_neg fun heq => h (Std.LawfulEqCmp.eq_of_compare heq).symm]

theorem getElem?_insert_cases {p q : AuthProfile} (h : (profiles.insert id p)[id']? = some q) :
    (id' = id ∧ q = p) ∨ (id' ≠ id ∧ profiles[id']? = some q) := by
  by_cases hid : id' = id
  · subst hid
    rw [Std.TreeMap.getElem?_insert_self] at h
    exact .inl ⟨rfl, (Option.some.inj h).symm⟩
  · exact .inr ⟨hid, getElem?_insert_of_ne hid p ▸ h⟩

theorem getElem?_erase_cases {q : AuthProfile} (h : (profiles.erase id)[id']? = some q) :
    id' ≠ id ∧ profiles[id']? = some q := by
  by_cases hid : id' = id
  · subst hid
    rw [Std.TreeMap.getElem?_erase_self] at h
    cases h
  · exact ⟨hid, getElem?_erase_of_ne hid ▸ h⟩

end Maps

/-- Every profile is under its own id. -/
def KeyedById (data : AuthData) : Prop :=
  ∀ (id : Text) (p : AuthProfile), data.profiles[id]? = some p → p.id = id

theorem keyedById_default : (AuthData.default now).KeyedById := fun id p h => by
  simp [AuthData.default] at h

theorem KeyedById.insert {profile : AuthProfile} (h : data.KeyedById)
    (hprofiles : data'.profiles = data.profiles.insert profile.id profile) : data'.KeyedById := by
  intro id p hp
  rcases getElem?_insert_cases (hprofiles ▸ hp) with ⟨rfl, rfl⟩ | ⟨-, hold⟩
  · rfl
  · exact h id p hold

theorem KeyedById.erase {removed : Text} (h : data.KeyedById)
    (hprofiles : data'.profiles = data.profiles.erase removed) : data'.KeyedById := by
  exact fun id p hp => h id p (getElem?_erase_cases (hprofiles ▸ hp)).2

theorem KeyedById.congr (h : data.KeyedById) (hprofiles : data'.profiles = data.profiles) :
    data'.KeyedById := fun id p hp => h id p (hprofiles ▸ hp)

/-! ## Refresh tokens -/

/-- No refresh token is in two profiles. -/
def DistinctTokens (data : AuthData) : Prop :=
  ∀ (id id' : Text) (p p' : AuthProfile) (r : Text), data.profiles[id]? = some p →
    data.profiles[id']? = some p' → p.tokenSet.refreshToken = some r →
    p'.tokenSet.refreshToken = some r → id = id'

/-- A profile with a refresh token that is in no other one. -/
theorem DistinctTokens.insert {p : AuthProfile} (h : data.DistinctTokens)
    (hprofiles : data'.profiles = data.profiles.insert p.id p)
    (hnew : ∀ r, p.tokenSet.refreshToken = some r → ∀ (id : Text) (q : AuthProfile),
      data.profiles[id]? = some q → q.tokenSet.refreshToken ≠ some r) : data'.DistinctTokens := by
  intro id id' q q' r hq hq' hr hr'
  rcases getElem?_insert_cases (hprofiles ▸ hq) with ⟨rfl, rfl⟩ | ⟨-, hq⟩
  · rcases getElem?_insert_cases (hprofiles ▸ hq') with ⟨rfl, -⟩ | ⟨-, hq'⟩
    · rfl
    · exact absurd hr' (hnew r hr id' q' hq')
  · rcases getElem?_insert_cases (hprofiles ▸ hq') with ⟨rfl, rfl⟩ | ⟨-, hq'⟩
    · exact absurd hr (hnew r hr' id q hq)
    · exact h id id' q q' r hq hq' hr hr'

theorem DistinctTokens.erase {removed : Text} (h : data.DistinctTokens)
    (hprofiles : data'.profiles = data.profiles.erase removed) : data'.DistinctTokens :=
  fun id id' q q' r hq hq' => h id id' q q' r (getElem?_erase_cases (hprofiles ▸ hq)).2
    (getElem?_erase_cases (hprofiles ▸ hq')).2

end AuthData

end Auth
end SimpleClaw
