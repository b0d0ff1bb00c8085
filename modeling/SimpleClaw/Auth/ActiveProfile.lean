import SimpleClaw.Auth.Store

/-!
# The active profile

The store keeps, beside the profiles, which one of each provider is active.  Whatever the
operations on a store that was empty at first, the active profile is one of its provider; the
repairs of a pointer that leads nowhere are for files that were changed by others.

An id is the provider and the name with a colon between them.  The providers that the callers pass
have no colon, so that an id belongs to one of them only; a name may have any.

* `StoreOp`, `AuthData.run`: the operations, and any number of them in turn.
* `Sound`: the invariant.
* `ActiveProfiles`, `activeProfiles_run`: what holds after every operation.
-/

namespace SimpleClaw
namespace Auth

/-- The profile is under the id that its provider and name make, and its provider is one that the
callers pass. -/
structure AuthProfile.Named (p : AuthProfile) : Prop where
  noColon : ':' ∉ p.provider
  id_eq : p.id = profileId p.provider p.profileName

/-- A provider that the callers pass. -/
abbrev ProviderName := { provider : Text // ':' ∉ provider }

/-- An operation on the store; a profile is updated that was read from a store before. -/
inductive StoreOp where
  | upsertOauthProfile (provider : ProviderName) (profileName : Text) (tokenSet : TokenSet)
      (accountId : Option Text) (setActive : Bool)
  | removeProfile (provider : ProviderName) (profileName : Option Text)
  | updateProfile (profile : { p : AuthProfile // p.Named })
  | getProfile (provider : ProviderName) (profileOverride : Option Text)
  | listProfiles (provider : ProviderName)

namespace AuthData

/-- What is saved after an operation at a time; one that fails saves nothing. -/
def apply (data : AuthData) (now : Int) : StoreOp → AuthData
  | .upsertOauthProfile provider profileName tokenSet accountId setActive =>
      data.upsertOauthProfile now provider profileName tokenSet accountId setActive
  | .removeProfile provider profileName =>
      match data.removeProfile now provider profileName with
      | .ok (data', _) => data'
      | .error _ => data
  | .updateProfile profile => data.updateProfile now profile
  | .getProfile provider profileOverride =>
      match data.getProfile now provider profileOverride with
      | .ok (data', _) => data'
      | .error _ => data
  | .listProfiles provider => (data.listProfiles now provider).1

def run (data : AuthData) (ops : List (Int × StoreOp)) : AuthData :=
  ops.foldl (fun data op => data.apply op.1 op.2) data

/-! ## Ids -/

/-- An id belongs to one provider. -/
theorem provider_eq_of_profileId_eq {provider provider' name name' : Text} (h : ':' ∉ provider)
    (h' : ':' ∉ provider') (heq : profileId provider name = profileId provider' name') :
    provider = provider' := by
  have htake : ∀ provider name : Text, ':' ∉ provider →
      (profileId provider name).takeWhile (· ≠ ':') = provider := by
    intro provider name h
    have hcolon : profileId provider name = provider ++ ':' :: name := by
      rw [profileId, List.append_assoc]
      rfl
    rw [hcolon, List.takeWhile_append_of_pos, List.takeWhile_cons_of_neg (by simp),
      List.append_nil]
    exact fun c hc => decide_eq_true fun hc' => h (hc' ▸ hc)
  rw [← htake provider name h, heq, htake provider' name' h']

/-! ## The first profile of a provider -/

theorem foldl_least {ps : List AuthProfile} {p least : AuthProfile}
    (h : ps.foldl (fun least q => if q.profileName < least.profileName then q else least) p =
      least) : least ∈ p :: ps ∧ ∀ q ∈ p :: ps, least.profileName ≤ q.profileName := by
  induction ps generalizing p with
  | nil =>
      obtain rfl : p = least := h
      exact ⟨List.mem_cons_self, fun q hq => (List.mem_singleton.mp hq ▸ le_refl _)⟩
  | cons r ps ih =>
      rw [List.foldl_cons] at h
      split at h
      · next hlt =>
        obtain ⟨hmem, hle⟩ := ih h
        refine ⟨List.mem_cons_of_mem _ hmem, List.forall_mem_cons.mpr ⟨?_, hle⟩⟩
        exact (hle r List.mem_cons_self).trans hlt.le
      · next hlt =>
        obtain ⟨hmem, hle⟩ := ih h
        rw [List.forall_mem_cons] at hle
        refine ⟨?_, List.forall_mem_cons.mpr ⟨hle.1, List.forall_mem_cons.mpr ⟨?_, hle.2⟩⟩⟩
        · exact (List.mem_cons.mp hmem).elim (fun heq => heq ▸ List.mem_cons_self) fun hmem =>
            List.mem_cons_of_mem _ (List.mem_cons_of_mem _ hmem)
        · exact hle.1.trans (not_lt.mp hlt)

/-- It is one with the smallest name. -/
theorem minByName_eq_some {ps : List AuthProfile} {p : AuthProfile} (h : minByName ps = some p) :
    p ∈ ps ∧ ∀ q ∈ ps, p.profileName ≤ q.profileName := by
  cases ps with
  | nil => cases h
  | cons first ps =>
      exact foldl_least (Option.some.inj h)

variable {data data' : AuthData} {now : Int} {provider : Text}

theorem values_eq_map_toList {β : Type} (t : Std.TreeMap Text β) :
    t.values = t.toList.map Prod.snd := by
  have hfoldr : t.values = t.foldr (fun _ v l => v :: l) [] := rfl
  rw [hfoldr, Std.TreeMap.foldr_eq_foldr_toList]
  induction t.toList with
  | nil => rfl
  | cons entry l ih => rw [List.foldr_cons, ih, List.map_cons]

theorem mem_profilesOf {p : AuthProfile} : p ∈ data.profilesOf provider ↔
    (∃ id : Text, data.profiles[id]? = some p) ∧ p.provider = provider := by
  rw [profilesOf, List.mem_filter, decide_eq_true_eq, values_eq_map_toList, List.mem_map]
  refine and_congr_left fun _ => ⟨?_, ?_⟩
  · rintro ⟨⟨id, p'⟩, hmem, rfl⟩
    exact ⟨id, Std.TreeMap.mem_toList_iff_getElem?_eq_some.mp hmem⟩
  · rintro ⟨id, hid⟩
    exact ⟨(id, p), Std.TreeMap.mem_toList_iff_getElem?_eq_some.mpr hid, rfl⟩

/-- The first of the profiles of a provider. -/
structure IsFirst (data : AuthData) (provider id : Text) (p : AuthProfile) : Prop where
  profile : data.profiles[id]? = some p
  provider_eq : p.provider = provider
  first : ∀ (other : Text) (q : AuthProfile), data.profiles[other]? = some q →
    q.provider = provider → p.profileName ≤ q.profileName

/-- A provider has no profile. -/
def HasNone (data : AuthData) (provider : Text) : Prop :=
  ∀ (id : Text) (p : AuthProfile), data.profiles[id]? = some p → p.provider ≠ provider

theorem isFirst_of_firstProfileIdForProvider (hkeyed : data.KeyedById) {id : Text}
    (h : data.firstProfileIdForProvider provider = some id) :
    ∃ p, data.IsFirst provider id p := by
  obtain ⟨p, hmin, rfl⟩ := Option.map_eq_some_iff.mp h
  obtain ⟨hmem, hle⟩ := minByName_eq_some hmin
  obtain ⟨⟨id, hid⟩, hprovider⟩ := mem_profilesOf.mp hmem
  refine ⟨p, by rw [hkeyed id p hid, hid], hprovider, fun other q hq hqprovider => ?_⟩
  exact hle q (mem_profilesOf.mpr ⟨⟨other, hq⟩, hqprovider⟩)

theorem hasNone_of_firstProfileIdForProvider
    (h : data.firstProfileIdForProvider provider = none) : data.HasNone provider := by
  rw [firstProfileIdForProvider, Option.map_eq_none_iff] at h
  intro id p hid hprovider
  have hmem := mem_profilesOf.mpr ⟨⟨id, hid⟩, hprovider⟩
  cases hprofiles : data.profilesOf provider with
  | nil =>
      rw [hprofiles] at hmem
      cases hmem
  | cons first rest =>
      rw [hprofiles] at h
      cases h

/-! ## The invariant -/

/-- Every profile is under its own id, which its provider and name make, and the active profile of
a provider is one of its profiles. -/
structure Sound (data : AuthData) : Prop where
  keyed : data.KeyedById
  named : ∀ (id : Text) (p : AuthProfile), data.profiles[id]? = some p → p.Named
  active : ∀ provider id : Text, data.activeProfiles[provider]? = some id →
    ∃ p : AuthProfile, data.profiles[id]? = some p ∧ p.provider = provider

theorem sound_default (now : Int) : (AuthData.default now).Sound where
  keyed := keyedById_default
  named id p h := by simp [AuthData.default] at h
  active provider id h := by simp [AuthData.default] at h

/-- There is nothing to repair. -/
theorem Sound.repairStaleActiveProfile (h : data.Sound) (provider : Text) :
    data.repairStaleActiveProfile provider = (data, false) := by
  rw [AuthData.repairStaleActiveProfile]
  split
  · rfl
  · next id hactive =>
    obtain ⟨p, hp, -⟩ := h.active provider id hactive
    rw [if_pos]
    rw [Std.TreeMap.contains_eq_isSome_getElem?, hp]
    rfl

/-- The provider of a profile under an id that another provider's name makes. -/
theorem Sound.provider_of_profileId (h : data.Sound) {p : AuthProfile} (hprovider : ':' ∉ provider)
    {name : Text} (hp : data.profiles[profileId provider name]? = some p) :
    p.provider = provider := by
  obtain ⟨hnoColon, hid⟩ := h.named _ p hp
  rw [h.keyed _ p hp] at hid
  exact provider_eq_of_profileId_eq hnoColon hprovider hid.symm

/-- A profile is put under its id. -/
theorem Sound.insert {p : AuthProfile} (h : data.Sound) (hp : p.Named)
    (hprofiles : data'.profiles = data.profiles.insert p.id p)
    (hactive : ∀ provider id : Text, data'.activeProfiles[provider]? = some id →
      data.activeProfiles[provider]? = some id ∨ provider = p.provider ∧ id = p.id) :
    data'.Sound := by
  refine ⟨h.keyed.insert hprofiles, fun id q hq => ?_, fun provider id hid => ?_⟩
  · rw [hprofiles] at hq
    obtain ⟨-, rfl⟩ | ⟨-, hold⟩ := getElem?_insert_cases hq
    · exact hp
    · exact h.named id q hold
  · rw [hprofiles]
    obtain hold | ⟨rfl, rfl⟩ := hactive provider id hid
    · obtain ⟨q, hq, rfl⟩ := h.active provider id hold
      by_cases hsame : id = p.id
      · subst hsame
        refine ⟨p, Std.TreeMap.getElem?_insert_self, ?_⟩
        rw [hp.id_eq] at hq
        exact (h.provider_of_profileId hp.noColon hq).symm
      · exact ⟨q, by rw [getElem?_insert_of_ne hsame, hq], rfl⟩
    · exact ⟨p, Std.TreeMap.getElem?_insert_self, rfl⟩

theorem Sound.upsertOauthProfile (h : data.Sound) (provider : ProviderName) (profileName : Text)
    (tokenSet : TokenSet) (accountId : Option Text) (setActive : Bool) :
    (data.upsertOauthProfile now provider profileName tokenSet accountId setActive).Sound := by
  refine h.insert (p := data.oauthProfile now provider profileName tokenSet accountId)
    ⟨provider.2, rfl⟩ rfl fun other id hid => ?_
  rw [AuthData.upsertOauthProfile] at hid
  cases setActive with
  | false => exact .inl hid
  | true =>
      rw [if_pos rfl, Std.TreeMap.getElem?_insert] at hid
      split at hid
      · next heq =>
        obtain rfl := Std.LawfulEqCmp.eq_of_compare heq
        exact .inr ⟨rfl, (Option.some.inj hid).symm⟩
      · exact .inl hid

theorem Sound.updateProfile (h : data.Sound) (profile : { p : AuthProfile // p.Named }) :
    (data.updateProfile now profile).Sound :=
  h.insert profile.2 rfl fun _ _ hid => .inl hid

/-! ## Reads -/

theorem Sound.listProfiles (h : data.Sound) (provider : Text) :
    (data.listProfiles now provider).1 = data := by
  rw [AuthData.listProfiles, h.repairStaleActiveProfile]
  rfl

theorem Sound.getProfile_data (h : data.Sound) {profileOverride : Option Text}
    {found : Option AuthProfile}
    (hok : data.getProfile now provider profileOverride = .ok (data', found)) : data' = data := by
  rw [AuthData.getProfile, h.repairStaleActiveProfile] at hok
  obtain ⟨id, -, hid⟩ := map_eq_ok_iff.mp hok
  exact (Prod.mk.inj hid).1.symm

/-- Without a name a profile of the provider is found, if there is one. -/
theorem Sound.getProfile_none (h : data.Sound) (now : Int) (provider : Text) :
    (∃ id p, data.getProfile now provider none = .ok (data, some p) ∧
      data.profiles[(id : Text)]? = some p ∧ p.provider = provider) ∨
    data.getProfile now provider none = .ok (data, none) ∧ data.HasNone provider := by
  rw [AuthData.getProfile, h.repairStaleActiveProfile]
  cases hactive : data.activeProfiles[provider]? with
  | some id =>
      obtain ⟨p, hp, hprovider⟩ := h.active provider id hactive
      refine .inl ⟨id, p, ?_, hp, hprovider⟩
      simp only [hactive, Except.map, Option.bind_some, hp]
      rfl
  | none =>
      cases hfirst : data.firstProfileIdForProvider provider with
      | some id =>
          obtain ⟨p, hp⟩ := isFirst_of_firstProfileIdForProvider h.keyed hfirst
          refine .inl ⟨id, p, ?_, hp.profile, hp.provider_eq⟩
          simp only [hactive, hfirst, Except.map, Option.bind_some, hp.profile]
          rfl
      | none =>
          refine .inr ⟨?_, hasNone_of_firstProfileIdForProvider hfirst⟩
          simp only [hactive, hfirst, Except.map, Option.bind_none]
          rfl

/-! ## Removals -/

/-- What a removal does, if it does anything. -/
theorem Sound.removeProfile_cases (h : data.Sound) (hprovider : ':' ∉ provider)
    {profileName removed : Option Text}
    (hok : data.removeProfile now provider profileName = .ok (data', removed)) :
    (removed = none ∧ data' = data) ∨ ∃ id p, removed = some id ∧ data.profiles[id]? = some p ∧
      p.provider = provider ∧ data'.profiles = data.profiles.erase id ∧
        data'.activeProfiles =
          { data with profiles := data.profiles.erase id }.withoutActive provider id := by
  rw [AuthData.removeProfile.eq_def, h.repairStaleActiveProfile] at hok
  obtain ⟨found, hfound, hrest⟩ := map_eq_ok_iff.mp hok
  split at hrest
  · obtain ⟨rfl, rfl⟩ := Prod.mk.inj hrest
    exact .inl ⟨rfl, rfl⟩
  · next id =>
    split at hrest
    · next hcontains =>
      obtain ⟨rfl, rfl⟩ := Prod.mk.inj hrest
      rw [Std.TreeMap.contains_eq_isSome_getElem?, Option.isSome_iff_exists] at hcontains
      obtain ⟨p, hp⟩ := hcontains
      refine .inr ⟨id, p, rfl, hp, ?_, rfl, rfl⟩
      cases profileName with
      | some profileName =>
          obtain ⟨name, -, hname⟩ := map_eq_ok_iff.mp hfound
          obtain rfl := Option.some.inj hname
          exact h.provider_of_profileId hprovider hp
      | none =>
          obtain ⟨q, hq, hqprovider⟩ := h.active provider id (Except.ok.inj hfound)
          rw [hp] at hq
          exact Option.some.inj hq ▸ hqprovider
    · obtain ⟨rfl, rfl⟩ := Prod.mk.inj hrest
      exact .inl ⟨rfl, rfl⟩

theorem withoutActive_of_ne {id other : Text} (h : other ≠ provider) :
    (data.withoutActive provider id)[other]? = data.activeProfiles[other]? := by
  have hcompare : compare provider other ≠ .eq := fun heq =>
    h (Std.LawfulEqCmp.eq_of_compare heq).symm
  rw [withoutActive]
  split
  · split
    · rw [Std.TreeMap.getElem?_insert, if_neg hcompare, Std.TreeMap.getElem?_erase,
        if_neg hcompare]
    · rw [Std.TreeMap.getElem?_erase, if_neg hcompare]
  · rfl

/-- The first of the profiles that are left is active, or none is left. -/
def FirstIsActive (data : AuthData) (provider : Text) : Prop :=
  (∃ id p, data.activeProfiles[provider]? = some id ∧ data.IsFirst provider id p) ∨
    data.activeProfiles[provider]? = none ∧ data.HasNone provider

theorem withoutActive_of_active (hkeyed : data.KeyedById) {id : Text}
    (h : data.activeProfiles[provider]? = some id) (now : Int) :
    (AuthData.mk now (data.withoutActive provider id) data.profiles).FirstIsActive provider := by
  rw [FirstIsActive, withoutActive, if_pos h]
  cases hfirst : data.firstProfileIdForProvider provider with
  | some next =>
      obtain ⟨p, hp⟩ := isFirst_of_firstProfileIdForProvider hkeyed hfirst
      exact .inl ⟨next, p, Std.TreeMap.getElem?_insert_self, hp.profile, hp.provider_eq, hp.first⟩
  | none =>
      exact .inr ⟨Std.TreeMap.getElem?_erase_self, hasNone_of_firstProfileIdForProvider hfirst⟩

/-- Who was active is followed by the first of the others. -/
theorem Sound.firstIsActive_removeProfile (h : data.Sound) (hprovider : ':' ∉ provider)
    {profileName : Option Text} {id : Text}
    (hok : data.removeProfile now provider profileName = .ok (data', some id))
    (hactive : data.activeProfiles[provider]? = some id) : data'.FirstIsActive provider := by
  obtain ⟨hnone, -⟩ | ⟨id', p, hid, -, -, hprofiles, hactives⟩ :=
    h.removeProfile_cases hprovider hok
  · cases hnone
  · obtain rfl := Option.some.inj hid
    obtain ⟨now', actives, profiles⟩ := data'
    subst hprofiles
    subst hactives
    have hkeyed : KeyedById { data with profiles := data.profiles.erase id } := h.keyed.erase rfl
    exact withoutActive_of_active hkeyed hactive now'

theorem Sound.removeProfile (h : data.Sound) (hprovider : ':' ∉ provider)
    {profileName removed : Option Text}
    (hok : data.removeProfile now provider profileName = .ok (data', removed)) : data'.Sound := by
  obtain ⟨-, rfl⟩ | ⟨id, p, rfl, hp, hpprovider, hprofiles, hactives⟩ :=
    h.removeProfile_cases hprovider hok
  · exact h
  · refine ⟨h.keyed.erase hprofiles, fun other q hq => ?_, fun other next hnext => ?_⟩
    · exact h.named other q (getElem?_erase_cases (hprofiles ▸ hq)).2
    -- a pointer that stays does not lead to the removed profile
    have hstays : ∀ other next : Text, data.activeProfiles[other]? = some next → next ≠ id →
        ∃ q : AuthProfile, data'.profiles[next]? = some q ∧ q.provider = other := by
      intro other next hold hne
      obtain ⟨q, hq, hqprovider⟩ := h.active other next hold
      exact ⟨q, by rw [hprofiles, getElem?_erase_of_ne hne, hq], hqprovider⟩
    by_cases hother : other = provider
    · subst hother
      by_cases hactive : data.activeProfiles[other]? = some id
      · obtain ⟨next', q, hnext', hfirst⟩ | ⟨hnone, -⟩ :=
          h.firstIsActive_removeProfile hprovider hok hactive
        · rw [hnext] at hnext'
          obtain rfl := Option.some.inj hnext'
          exact ⟨q, hfirst.profile, hfirst.provider_eq⟩
        · rw [hnext] at hnone
          cases hnone
      · rw [hactives, withoutActive, if_neg hactive] at hnext
        exact hstays other next hnext fun heq => hactive (heq ▸ hnext)
    · rw [hactives, withoutActive_of_ne hother] at hnext
      refine hstays other next hnext ?_
      rintro rfl
      obtain ⟨q, hq, hqprovider⟩ := h.active other next hnext
      rw [hp] at hq
      exact hother (hqprovider.symm.trans ((Option.some.inj hq) ▸ hpprovider))

/-! ## Every operation -/

/-- **Every operation keeps the store sound.** -/
theorem Sound.apply (h : data.Sound) (now : Int) (op : StoreOp) : (data.apply now op).Sound := by
  cases op with
  | upsertOauthProfile provider profileName tokenSet accountId setActive =>
      exact h.upsertOauthProfile provider profileName tokenSet accountId setActive
  | removeProfile provider profileName =>
      rw [AuthData.apply]
      split
      · next data' removed hok => exact h.removeProfile provider.2 hok
      · exact h
  | updateProfile profile => exact h.updateProfile profile
  | getProfile provider profileOverride =>
      rw [AuthData.apply]
      split
      · next data' found hok =>
        obtain rfl := h.getProfile_data hok
        exact h
      · exact h
  | listProfiles provider =>
      rw [AuthData.apply, h.listProfiles]
      exact h

theorem Sound.run (h : data.Sound) (ops : List (Int × StoreOp)) : (data.run ops).Sound := by
  induction ops generalizing data with
  | nil => exact h
  | cons op ops ih => exact ih (h.apply op.1 op.2)

/-- What is said of the active profiles: they exist, one is found where there is any, and a
removal takes no other profile with it and is followed by the first one left. -/
structure ActiveProfiles (data : AuthData) : Prop where
  exist : ∀ provider id : Text, data.activeProfiles[provider]? = some id →
    ∃ p : AuthProfile, data.profiles[id]? = some p ∧ p.provider = provider
  found : ∀ (now : Int) (provider : Text),
    (∃ data' p, data.getProfile now provider none = .ok (data', some p)) ↔
      ∃ (id : Text) (p : AuthProfile), data.profiles[id]? = some p ∧ p.provider = provider
  others : ∀ (now : Int) (provider : ProviderName) (profileName removed : Option Text)
    (data' : AuthData), data.removeProfile now provider profileName = .ok (data', removed) →
      ∀ id : Text, some id ≠ removed → data'.profiles[id]? = data.profiles[id]?
  next : ∀ (now : Int) (provider : ProviderName) (profileName : Option Text) (id : Text)
    (data' : AuthData), data.removeProfile now provider profileName = .ok (data', some id) →
      data.activeProfiles[provider.1]? = some id → data'.FirstIsActive provider

theorem Sound.activeProfiles (h : data.Sound) : data.ActiveProfiles where
  exist := h.active
  found now provider := by
    constructor
    · rintro ⟨data', p, hok⟩
      obtain ⟨id, q, -, hq, hprovider⟩ | ⟨hnone, -⟩ := h.getProfile_none now provider
      · exact ⟨id, q, hq, hprovider⟩
      · rw [hnone] at hok
        cases hok
    · rintro ⟨id, p, hp, hprovider⟩
      obtain ⟨-, q, hok, -, -⟩ | ⟨-, hnone⟩ := h.getProfile_none now provider
      · exact ⟨data, q, hok⟩
      · exact absurd hprovider (hnone id p hp)
  others now provider profileName removed data' hok id hne := by
    obtain ⟨-, rfl⟩ | ⟨id', rfl, hprofiles⟩ := removeProfile_eq_ok hok
    · rfl
    · rw [hprofiles, getElem?_erase_of_ne fun heq => hne (congrArg some heq)]
  next now provider profileName id data' hok hactive :=
    h.firstIsActive_removeProfile provider.2 hok hactive

/-- **The active profiles, after any operations on an empty store.** -/
theorem activeProfiles_run (now : Int) (ops : List (Int × StoreOp)) :
    ((AuthData.default now).run ops).ActiveProfiles :=
  ((sound_default now).run ops).activeProfiles

end AuthData
end Auth
end SimpleClaw
