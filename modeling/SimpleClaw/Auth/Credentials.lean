import SimpleClaw.Auth.Access

/-!
# Which credentials are kept

A call stores what it has read, with new tokens, whatever has happened to the profile since.  So a
profile that was removed comes back, new credentials are replaced by older ones, and a refresh
token is used twice.  None of this happens in a run where no profile has been written between the
read and the write of a call; for the refresh tokens, each of them has to be new when it comes.

* `NoResurrection`, `NoRollback`, `SingleUse`: what is to hold.
* `Unraced`, `Rotates`: the conditions on the steps.
* `credentials_kept`: in a run under these conditions it holds of every state.
-/

namespace SimpleClaw
namespace Auth

open Transition

/-! ## The log -/

/-- What has happened since the call read the profile. -/
def since (log : List AuthEvent) (call : Nat) : List AuthEvent :=
  log.takeWhile fun e => !e.isReadOf call

/-- The profile has not been written since the call read it. -/
def Untouched (log : List AuthEvent) (call : Nat) (id : Text) : Prop :=
  ∀ e ∈ since log call, e.written ≠ some id

/-- The last event that wrote the profile. -/
def lastWrite (log : List AuthEvent) (id : Text) : Option AuthEvent :=
  log.find? fun e => e.written = some id

/-- A logout has removed the profile, and there has been no login to it since. -/
def Gone (log : List AuthEvent) (id : Text) : Prop :=
  ∃ later earlier, log = later ++ .logout id :: earlier ∧ .login id ∉ later

namespace AuthWorld

/-- **A profile that was removed stays away until the next login to it.** -/
def NoResurrection (s : AuthWorld) : Prop :=
  ∀ id : Text, Gone s.log id → s.data.profiles[id]? = none

/-- **The tokens of a login are replaced only by a refresh that started from them.** -/
def NoRollback (s : AuthWorld) : Prop :=
  ∀ call id earlier, (.stored call id :: earlier) <:+ s.log →
    lastWrite earlier id = some (.login id) → .login id ∉ since earlier call

/-- The call has sent the refresh token of the profile, and has stored the answer. -/
def Used (s : AuthWorld) (call : Nat) (id refreshToken : Text) : Prop :=
  .read call id refreshToken ∈ s.log ∧ .stored call id ∈ s.log

/-- **No two refreshes that stored their result had sent the same refresh token.** -/
def SingleUse (s : AuthWorld) : Prop :=
  ∀ call call' id id' refreshToken,
    s.Used call id refreshToken → s.Used call' id' refreshToken → call = call'

/-! ## The conditions -/

/-- A call does not store its result when the profile has been written since it was read. -/
def Unraced (s : AuthWorld) (a : AuthAction) : Prop :=
  ∀ call now profile refreshToken, a = .store call now →
    s.calls[call]? = some (.updating profile refreshToken) → Untouched s.log call profile.id

/-- The refresh token is in no profile, and no call has read it. -/
def NewToken (s : AuthWorld) (refreshToken : Text) : Prop :=
  (∀ (id : Text) (p : AuthProfile), s.data.profiles[id]? = some p →
    p.tokenSet.refreshToken ≠ some refreshToken) ∧
  ∀ call id, .read call id refreshToken ∉ s.log

/-- The refresh token that a login brings is new, and so is the one that a refresh stores. -/
def Rotates (s : AuthWorld) : AuthAction → Prop
  | .login _ _ tokenSet _ _ _ => ∀ r, tokenSet.refreshToken = some r → s.NewToken r
  | .store call _ => ∀ profile refreshToken,
      s.calls[call]? = some (.updating profile refreshToken) →
        ∀ r, profile.tokenSet.refreshToken = some r → s.NewToken r
  | .logout _ _ _ | .status _ _ | .look _ _ _ | .access _ _ | .answer _ _ _ | .fail _ => True

end AuthWorld

section Log

variable {log : List AuthEvent} {e : AuthEvent} {call : Nat} {id : Text}

theorem gone_cons : Gone (e :: log) id ↔ e = .logout id ∨ (e ≠ .login id ∧ Gone log id) := by
  constructor
  · rintro ⟨later, earlier, hlog, hlogin⟩
    cases later with
    | nil => exact .inl (List.cons.inj hlog).1
    | cons e' later =>
        obtain ⟨rfl, rfl⟩ := List.cons.inj hlog
        rw [List.mem_cons, not_or] at hlogin
        exact .inr ⟨Ne.symm hlogin.1, later, earlier, rfl, hlogin.2⟩
  · rintro (rfl | ⟨he, later, earlier, rfl, hlogin⟩)
    · exact ⟨[], log, rfl, by simp⟩
    · exact ⟨e :: later, earlier, rfl, by simp [he.symm, hlogin]⟩

theorem untouched_cons (h : e.isReadOf call = false) :
    Untouched (e :: log) call id ↔ e.written ≠ some id ∧ Untouched log call id := by
  rw [Untouched, since, List.takeWhile_cons_of_pos (by simp [h]), List.forall_mem_cons]
  rfl

end Log

/-! ## What the calls know -/

namespace AuthWorld

/-- The profiles are under their ids.  A call goes on with the profile and the refresh token that
it has read, and as long as the profile has not been written since, the token is still in it. -/
structure Sound (s : AuthWorld) : Prop where
  keyed : s.data.KeyedById
  reads : ∀ call id r, .read call id r ∈ s.log → call < s.calls.length
  stores : ∀ call id, .stored call id ∈ s.log →
    call < s.calls.length ∧ s.submittedBy call = none
  submitted : ∀ call id r, s.submittedBy call = some (id, r) →
    ∀ id' r', .read call id' r' ∈ s.log → id' = id ∧ r' = r
  current : ∀ call id r, s.submittedBy call = some (id, r) → Untouched s.log call id →
    ∃ p : AuthProfile, s.data.profiles[id]? = some p ∧ p.tokenSet.refreshToken = some r

variable {s s' : AuthWorld} {a : AuthAction}

/-- What a call holds that has ended or gone on with what it had, it held before. -/
theorem submittedBy_of_eq_or_none {call : Nat} {x : Text × Text}
    (h : s'.submittedBy call = s.submittedBy call ∨ s'.submittedBy call = none)
    (hx : s'.submittedBy call = some x) : s.submittedBy call = some x := by
  rcases h with hsame | hnone
  · exact hsame ▸ hx
  · rw [hnone] at hx
    cases hx

/-- Calls that end or go on with what they have, and nothing else. -/
theorem Sound.quiet (h : s.Sound) (hprofiles : s'.data.profiles = s.data.profiles)
    (hlog : s'.log = s.log) (hlength : s.calls.length ≤ s'.calls.length)
    (hcalls : ∀ call, s'.submittedBy call = s.submittedBy call ∨ s'.submittedBy call = none) :
    s'.Sound := by
  constructor
  · exact h.keyed.congr hprofiles
  · rw [hlog]
    exact fun call id r hread => lt_of_lt_of_le (h.reads call id r hread) hlength
  · rw [hlog]
    intro call id hstored
    obtain ⟨hlt, hnone⟩ := h.stores call id hstored
    exact ⟨lt_of_lt_of_le hlt hlength, (hcalls call).elim (·.trans hnone) fun hnone => hnone⟩
  · rw [hlog]
    exact fun call id r hsubmitted =>
      h.submitted call id r (submittedBy_of_eq_or_none (hcalls call) hsubmitted)
  · rw [hlog, hprofiles]
    exact fun call id r hsubmitted =>
      h.current call id r (submittedBy_of_eq_or_none (hcalls call) hsubmitted)

/-- A profile is written. -/
theorem Sound.write (h : s.Sound) {e : AuthEvent} {id : Text}
    (hread : ∀ call, e.isReadOf call = false)
    (hwritten : e.written = some id) (hkeyed : s'.data.KeyedById)
    (hother : ∀ id' : Text, id' ≠ id → s'.data.profiles[id']? = s.data.profiles[id']?)
    (hlength : s'.calls.length = s.calls.length)
    (hcalls : ∀ call, s'.submittedBy call = s.submittedBy call ∨ s'.submittedBy call = none)
    (hstored : ∀ call id', e = .stored call id' →
      call < s.calls.length ∧ s'.submittedBy call = none)
    (hlog : s'.log = e :: s.log) : s'.Sound := by
  have hreads : ∀ call id' r, .read call id' r ∈ s'.log → .read call id' r ∈ s.log := by
    intro call id' r hmem
    rw [hlog] at hmem
    rcases List.mem_cons.mp hmem with rfl | hmem
    · have hself := hread call
      simp [AuthEvent.isReadOf] at hself
    · exact hmem
  constructor
  · exact hkeyed
  · exact fun call id' r hmem => hlength ▸ h.reads call id' r (hreads call id' r hmem)
  · intro call id' hmem
    rw [hlog] at hmem
    rcases List.mem_cons.mp hmem with heq | hmem
    · exact hlength ▸ hstored call id' heq.symm
    · obtain ⟨hlt, hnone⟩ := h.stores call id' hmem
      exact ⟨hlength ▸ hlt, (hcalls call).elim (·.trans hnone) fun hnone => hnone⟩
  · intro call id' r hsubmitted id'' r' hmem
    have hheld := submittedBy_of_eq_or_none (hcalls call) hsubmitted
    exact h.submitted call id' r hheld id'' r' (hreads call id'' r' hmem)
  · intro call id' r hsubmitted huntouched
    rw [hlog, untouched_cons (hread call), hwritten] at huntouched
    rw [hother id' fun heq => huntouched.1 (heq ▸ rfl)]
    exact h.current call id' r (submittedBy_of_eq_or_none (hcalls call) hsubmitted) huntouched.2

/-- A call reads a profile. -/
theorem Sound.read (h : s.Sound) {p : AuthProfile} {r : Text}
    (hp : ∃ id : Text, s.data.profiles[id]? = some p) (hr : p.tokenSet.refreshToken = some r)
    (hprofiles : s'.data.profiles = s.data.profiles)
    (hcalls : s'.calls = s.calls ++ [.refreshing p r])
    (hlog : s'.log = .read s.calls.length p.id r :: s.log) : s'.Sound := by
  have hlength : s'.calls.length = s.calls.length + 1 := by rw [hcalls, List.length_append]; rfl
  have hnew : s'.submittedBy s.calls.length = some (p.id, r) := submittedBy_length hcalls
  constructor
  · exact h.keyed.congr hprofiles
  · intro call id r' hmem
    rw [hlog] at hmem
    rcases List.mem_cons.mp hmem with heq | hmem
    · obtain ⟨rfl, -, -⟩ := AuthEvent.read.inj heq
      omega
    · have hlt := h.reads call id r' hmem
      omega
  · intro call id hmem
    rw [hlog] at hmem
    rcases List.mem_cons.mp hmem with heq | hmem
    · cases heq
    · obtain ⟨hlt, hnone⟩ := h.stores call id hmem
      exact ⟨by omega, (submittedBy_append hcalls (by omega)).trans hnone⟩
  · intro call id r' hsubmitted id' r'' hmem
    rw [hlog] at hmem
    by_cases hcall : call = s.calls.length
    · subst hcall
      obtain ⟨rfl, rfl⟩ := Prod.mk.inj (Option.some.inj (hnew.symm.trans hsubmitted))
      rcases List.mem_cons.mp hmem with heq | hmem
      · obtain ⟨-, rfl, rfl⟩ := AuthEvent.read.inj heq
        exact ⟨rfl, rfl⟩
      · have hlt := h.reads _ id' r'' hmem
        omega
    · rw [submittedBy_append hcalls hcall] at hsubmitted
      rcases List.mem_cons.mp hmem with heq | hmem
      · exact absurd (AuthEvent.read.inj heq).1 hcall
      · exact h.submitted call id r' hsubmitted id' r'' hmem
  · intro call id r' hsubmitted huntouched
    rw [hprofiles]
    by_cases hcall : call = s.calls.length
    · subst hcall
      obtain ⟨rfl, rfl⟩ := Prod.mk.inj (Option.some.inj (hnew.symm.trans hsubmitted))
      obtain ⟨id, hid⟩ := hp
      exact ⟨p, (h.keyed id p hid).symm ▸ hid, hr⟩
    · rw [submittedBy_append hcalls hcall] at hsubmitted
      rw [hlog, untouched_cons (by simpa [AuthEvent.isReadOf] using Ne.symm hcall)] at huntouched
      exact h.current call id r' hsubmitted huntouched.2

theorem Sound.change (h : s.Sound) (hchange : Change s a s') : s'.Sound := by
  cases hchange with
  | quiet hprofiles hcalls hlog =>
      exact h.quiet hprofiles hlog (by rw [hcalls]) fun call => .inl (submittedBy_congr hcalls call)
  | login p htokens hprofiles hcalls hlog =>
      refine h.write (fun _ => rfl) rfl (h.keyed.insert hprofiles) (fun id hid => ?_)
        (by rw [hcalls]) (fun call => .inl (submittedBy_congr hcalls call))
        (fun _ _ heq => by cases heq) hlog
      rw [hprofiles, AuthData.getElem?_insert_of_ne hid]
  | logout id hprofiles hcalls hlog =>
      refine h.write (fun _ => rfl) rfl (h.keyed.erase hprofiles) (fun id' hid => ?_)
        (by rw [hcalls]) (fun call => .inl (submittedBy_congr hcalls call))
        (fun _ _ heq => by cases heq) hlog
      rw [hprofiles, AuthData.getElem?_erase_of_ne hid]
  | ended c hended hprofiles hcalls hlog =>
      refine h.quiet hprofiles hlog (by rw [hcalls, List.length_append]; omega) fun call => ?_
      by_cases hcall : call = s.calls.length
      · exact .inr (hcall ▸ (submittedBy_length hcalls).trans hended)
      · exact .inl (submittedBy_append hcalls hcall)
  | read p r hp hr hprofiles hcalls hlog => exact h.read hp hr hprofiles hcalls hlog
  | answered call p p' r hcall hid hprofiles hcalls hlog =>
      refine h.quiet hprofiles hlog (by rw [hcalls, List.length_set]) fun call' => .inl ?_
      by_cases heq : call' = call
      · subst heq
        rw [submittedBy_set_self hcalls hcall, submittedBy, hcall]
        show some (p'.id, r) = some (p.id, r)
        rw [hid]
      · exact submittedBy_set hcalls heq
  | @stored call now _ p r hcall hprofiles hcalls hlog =>
      have hself : s'.submittedBy call = none := submittedBy_set_self hcalls hcall
      refine h.write (fun _ => rfl) rfl (h.keyed.insert hprofiles) (fun id hid => ?_)
        (by rw [hcalls, List.length_set]) (fun call' => ?_) (fun call' id heq => ?_) hlog
      · rw [hprofiles, AuthData.getElem?_insert_of_ne hid]
      · by_cases heq : call' = call
        · exact .inr (heq ▸ hself)
        · exact .inl (submittedBy_set hcalls heq)
      · obtain ⟨rfl, -⟩ := AuthEvent.stored.inj heq
        exact ⟨(List.getElem?_eq_some_iff.mp hcall).1, hself⟩
  | failed call c hcall hprofiles hcalls hlog =>
      refine h.quiet hprofiles hlog (by rw [hcalls, List.length_set]) fun call' => ?_
      by_cases heq : call' = call
      · exact .inr (heq ▸ submittedBy_set_self hcalls hcall)
      · exact .inl (submittedBy_set hcalls heq)

/-! ## Profiles that stay away, and tokens that are not replaced -/

/-- What holds when no profile is written between the read and the write of a call. -/
structure Kept (s : AuthWorld) : Prop where
  gone : s.NoResurrection
  untouched : ∀ call id earlier, (.stored call id :: earlier) <:+ s.log →
    Untouched earlier call id

theorem Kept.noRollback (h : s.Kept) : s.NoRollback :=
  fun call id earlier hsuffix _ hmem => h.untouched call id earlier hsuffix _ hmem rfl

theorem Kept.congr (h : s.Kept) (hprofiles : s'.data.profiles = s.data.profiles)
    (hlog : s'.log = s.log) : s'.Kept := by
  refine ⟨fun id hgone => ?_, ?_⟩
  · rw [hprofiles]
    exact h.gone id (hlog ▸ hgone)
  · rw [hlog]
    exact h.untouched

/-- An event that is not the end of a refresh. -/
theorem Kept.cons (h : s.Kept) {e : AuthEvent} (he : ∀ call id, e ≠ .stored call id)
    (hlog : s'.log = e :: s.log)
    (hgone : ∀ id : Text, e = .logout id ∨ (e ≠ .login id ∧ s.data.profiles[id]? = none) →
      s'.data.profiles[id]? = none) : s'.Kept := by
  refine ⟨fun id hid => hgone id ?_, fun call id earlier hsuffix => ?_⟩
  · rw [hlog, gone_cons] at hid
    exact hid.imp_right fun hrest => ⟨hrest.1, h.gone id hrest.2⟩
  · rw [hlog, List.suffix_cons_iff] at hsuffix
    rcases hsuffix with heq | hsuffix
    · exact absurd (List.cons.inj heq).1.symm (he call id)
    · exact h.untouched call id earlier hsuffix

/-- The profile that a call stores is still there. -/
theorem Sound.of_unraced (h : s.Sound) {call : Nat} {now : Int} {p : AuthProfile} {r : Text}
    (hunraced : s.Unraced (.store call now)) (hcall : s.calls[call]? = some (.updating p r)) :
    Untouched s.log call p.id ∧
      ∃ q : AuthProfile, s.data.profiles[p.id]? = some q ∧ q.tokenSet.refreshToken = some r := by
  have huntouched := hunraced call now p r rfl hcall
  have hsubmitted : s.submittedBy call = some (p.id, r) := by rw [submittedBy, hcall]; rfl
  exact ⟨huntouched, h.current call p.id r hsubmitted huntouched⟩

theorem Kept.change (h : s.Kept) (hsound : s.Sound) (hunraced : s.Unraced a)
    (hchange : Change s a s') : s'.Kept := by
  cases hchange with
  | quiet hprofiles hcalls hlog => exact h.congr hprofiles hlog
  | login p htokens hprofiles hcalls hlog =>
      refine h.cons (fun _ _ heq => by cases heq) hlog fun id hid => ?_
      obtain ⟨hne, hnone⟩ := hid.resolve_left fun heq => by cases heq
      have hid : id ≠ p.id := by
        rintro rfl
        exact hne rfl
      rw [hprofiles, AuthData.getElem?_insert_of_ne hid]
      exact hnone
  | logout removed hprofiles hcalls hlog =>
      refine h.cons (fun _ _ heq => by cases heq) hlog fun id hid => ?_
      rw [hprofiles]
      by_cases heq : id = removed
      · rw [heq, Std.TreeMap.getElem?_erase_self]
      · rw [AuthData.getElem?_erase_of_ne heq]
        exact (hid.resolve_left fun h => heq (AuthEvent.logout.inj h).symm).2
  | ended c hended hprofiles hcalls hlog => exact h.congr hprofiles hlog
  | read p r hp hr hprofiles hcalls hlog =>
      refine h.cons (fun _ _ heq => by cases heq) hlog fun id hid => ?_
      rw [hprofiles]
      exact (hid.resolve_left fun heq => by cases heq).2
  | answered call p p' r hcall hid hprofiles hcalls hlog => exact h.congr hprofiles hlog
  | @stored call now _ p r hcall hprofiles hcalls hlog =>
      obtain ⟨huntouched, q, hq, -⟩ := hsound.of_unraced hunraced hcall
      refine ⟨fun id hid => ?_, fun call' id earlier hsuffix => ?_⟩
      · rw [hlog, gone_cons] at hid
        have hnone := h.gone id (hid.resolve_left fun heq => by cases heq).2
        have hne : id ≠ p.id := by
          rintro rfl
          rw [hq] at hnone
          cases hnone
        rw [hprofiles, AuthData.getElem?_insert_of_ne hne]
        exact hnone
      · rw [hlog, List.suffix_cons_iff] at hsuffix
        rcases hsuffix with heq | hsuffix
        · obtain ⟨hevent, rfl⟩ := List.cons.inj heq
          obtain ⟨rfl, rfl⟩ := AuthEvent.stored.inj hevent
          exact huntouched
        · exact h.untouched call' id earlier hsuffix
  | failed call c hcall hprofiles hcalls hlog => exact h.congr hprofiles hlog

/-! ## Refresh tokens that are used once -/

/-- What holds, besides, when every refresh token is new when it comes: a token that has brought a
new one is in no profile any more. -/
structure Spent (s : AuthWorld) : Prop where
  distinct : s.data.DistinctTokens
  spent : ∀ call id r, s.Used call id r → ∀ (id' : Text) (p : AuthProfile),
    s.data.profiles[id']? = some p → p.tokenSet.refreshToken ≠ some r
  single : s.SingleUse

theorem NewToken.not_used {call : Nat} {id r : Text} (h : s.NewToken r) : ¬ s.Used call id r :=
  fun hused => h.2 call id hused.1

/-- A step that ends no refresh, and brings new tokens only. -/
theorem Spent.of_used (h : s.Spent) (hdistinct : s'.data.DistinctTokens)
    (hused : ∀ call id r, s'.Used call id r → s.Used call id r)
    (htokens : ∀ (id : Text) (p : AuthProfile) (r : Text), s'.data.profiles[id]? = some p →
      p.tokenSet.refreshToken = some r → s.data.profiles[id]? = some p ∨ s.NewToken r) :
    s'.Spent := by
  refine ⟨hdistinct, fun call id r hr id' p hp htoken => ?_, ?_⟩
  · rcases htokens id' p r hp htoken with hold | hnew
    · exact h.spent call id r (hused call id r hr) id' p hold htoken
    · exact hnew.not_used (hused call id r hr)
  · exact fun call call' id id' r hr hr' =>
      h.single call call' id id' r (hused call id r hr) (hused call' id' r hr')

theorem Spent.congr (h : s.Spent) (hprofiles : s'.data.profiles = s.data.profiles)
    (hlog : s'.log = s.log) : s'.Spent := by
  refine h.of_used ?_ ?_ fun id p r hp _ => .inl (hprofiles ▸ hp)
  · rw [AuthData.DistinctTokens, hprofiles]
    exact h.distinct
  · intro call id r hused
    rwa [Used, hlog] at hused

/-- An event that is part of no refresh. -/
theorem used_of_cons {e : AuthEvent} {id : Text} (he : e = .login id ∨ e = .logout id)
    (hlog : s'.log = e :: s.log) {call : Nat} {id' r : Text} (h : s'.Used call id' r) :
    s.Used call id' r := by
  rw [Used, hlog, List.mem_cons, List.mem_cons] at h
  rcases he with rfl | rfl
  · exact ⟨h.1.resolve_left (by simp), h.2.resolve_left (by simp)⟩
  · exact ⟨h.1.resolve_left (by simp), h.2.resolve_left (by simp)⟩

/-- The end of a refresh. -/
theorem Spent.stored (h : s.Spent) (hsound : s.Sound) {call : Nat} {now : Int} {p : AuthProfile}
    {r : Text} (hunraced : s.Unraced (.store call now)) (hrotates : s.Rotates (.store call now))
    (hcall : s.calls[call]? = some (.updating p r))
    (hprofiles : s'.data.profiles = s.data.profiles.insert p.id p)
    (hlog : s'.log = .stored call p.id :: s.log) : s'.Spent := by
  obtain ⟨-, q, hq, hqr⟩ := hsound.of_unraced hunraced hcall
  have hsubmitted : s.submittedBy call = some (p.id, r) := by rw [submittedBy, hcall]; rfl
  have hnew : ∀ r', p.tokenSet.refreshToken = some r' → s.NewToken r' := hrotates p r hcall
  -- a refresh that has ended is this one, or an older one
  have hused : ∀ call' id r', s'.Used call' id r' →
      (call' = call ∧ r' = r ∧ .read call id r ∈ s.log) ∨ s.Used call' id r' := by
    rintro call' id r' ⟨hsent, hstored⟩
    rw [hlog, List.mem_cons] at hsent hstored
    have hread := hsent.resolve_left (by simp)
    rcases hstored with heq | hstored
    · obtain ⟨rfl, rfl⟩ := AuthEvent.stored.inj heq
      obtain ⟨-, rfl⟩ := hsound.submitted call' p.id r hsubmitted p.id r' hread
      exact .inl ⟨rfl, rfl, hread⟩
    · exact .inr ⟨hread, hstored⟩
  refine ⟨h.distinct.insert hprofiles fun r' hr' => (hnew r' hr').1, ?_, ?_⟩
  · intro call' id r' hr' id' q' hq' htoken
    rcases AuthData.getElem?_insert_cases (hprofiles ▸ hq') with ⟨-, rfl⟩ | ⟨hne, hold⟩
    · rcases hused call' id r' hr' with ⟨rfl, rfl, hread⟩ | hold
      · exact (hnew r' htoken).2 call' id hread
      · exact (hnew r' htoken).not_used hold
    · rcases hused call' id r' hr' with ⟨rfl, rfl, -⟩ | hr'
      · exact hne (h.distinct id' p.id q' q r' hold hq htoken hqr)
      · exact h.spent call' id r' hr' id' q' hold htoken
  · intro call₁ call₂ id₁ id₂ r' h₁ h₂
    rcases hused call₁ id₁ r' h₁ with ⟨rfl, rfl, -⟩ | h₁
    · rcases hused call₂ id₂ r' h₂ with ⟨rfl, -, -⟩ | h₂
      · rfl
      · exact absurd hqr (h.spent call₂ id₂ r' h₂ p.id q hq)
    · rcases hused call₂ id₂ r' h₂ with ⟨rfl, rfl, -⟩ | h₂
      · exact absurd hqr (h.spent call₁ id₁ r' h₁ p.id q hq)
      · exact h.single call₁ call₂ id₁ id₂ r' h₁ h₂

theorem Spent.change (h : s.Spent) (hsound : s.Sound) (hunraced : s.Unraced a)
    (hrotates : s.Rotates a) (hchange : Change s a s') : s'.Spent := by
  cases hchange with
  | quiet hprofiles hcalls hlog => exact h.congr hprofiles hlog
  | login p htokens hprofiles hcalls hlog =>
      have hnew : ∀ r, p.tokenSet.refreshToken = some r → s.NewToken r :=
        fun r hr => hrotates r (htokens ▸ hr)
      refine h.of_used (h.distinct.insert hprofiles fun r hr => (hnew r hr).1)
        (fun call id r => used_of_cons (.inl rfl) hlog) fun id q r hq hr => ?_
      rcases AuthData.getElem?_insert_cases (hprofiles ▸ hq) with ⟨-, rfl⟩ | ⟨-, hq⟩
      · exact .inr (hnew r hr)
      · exact .inl hq
  | logout removed hprofiles hcalls hlog =>
      exact h.of_used (h.distinct.erase hprofiles)
        (fun call id r => used_of_cons (.inr rfl) hlog) fun id q r hq _ =>
          .inl (AuthData.getElem?_erase_cases (hprofiles ▸ hq)).2
  | ended c hended hprofiles hcalls hlog => exact h.congr hprofiles hlog
  | read p r hp hr hprofiles hcalls hlog =>
      refine h.of_used ?_ (fun call id r' hused => ?_) fun id q r' hq _ => .inl (hprofiles ▸ hq)
      · rw [AuthData.DistinctTokens, hprofiles]
        exact h.distinct
      · rw [Used, hlog, List.mem_cons, List.mem_cons] at hused
        have hstored := hused.2.resolve_left (by simp)
        have hlt := (hsound.stores call id hstored).1
        refine ⟨hused.1.resolve_left fun heq => ?_, hstored⟩
        obtain ⟨rfl, -, -⟩ := AuthEvent.read.inj heq
        omega
  | answered call p p' r hcall hid hprofiles hcalls hlog => exact h.congr hprofiles hlog
  | @stored call now _ p r hcall hprofiles hcalls hlog =>
      exact h.stored hsound hunraced hrotates hcall hprofiles hlog
  | failed call c hcall hprofiles hcalls hlog => exact h.congr hprofiles hlog

/-! ## Whole runs -/

variable {params : AuthParams} {tr : List (AuthAction × AuthWorld)}

/-- No call is under way, and nothing has happened yet. -/
structure Fresh (s : AuthWorld) : Prop where
  calls : s.calls = []
  log : s.log = []

theorem Fresh.sound (h : s.Fresh) (hkeyed : s.data.KeyedById) : s.Sound := by
  have hnone : ∀ call, s.submittedBy call = none := fun call => by
    rw [submittedBy, h.calls, List.getElem?_nil]
    rfl
  constructor
  · exact hkeyed
  · simp [h.log]
  · simp [h.log]
  · simp [h.log]
  · simp [hnone]

theorem Fresh.kept (h : s.Fresh) : s.Kept := by
  refine ⟨fun id hgone => ?_, fun call id earlier hsuffix => ?_⟩
  · obtain ⟨later, earlier, hlog, -⟩ := hgone
    rw [h.log] at hlog
    exact absurd hlog.symm (by simp)
  · rw [h.log] at hsuffix
    exact absurd (List.suffix_nil.mp hsuffix) (by simp)

theorem Fresh.spent (h : s.Fresh) (hdistinct : s.data.DistinctTokens) : s.Spent := by
  refine ⟨hdistinct, fun call id r hused => ?_, fun call call' id id' r hused => ?_⟩
  · simp [Used, h.log] at hused
  · simp [Used, h.log] at hused

/-- **Profiles that were removed stay away and new tokens are kept, in a run where no profile is
written between the read and the write of a call; and if every refresh token is new when it comes,
none is used twice.** -/
theorem credentials_kept (hrun : Run (step params) s tr) (hfresh : s.Fresh)
    (hkeyed : s.data.KeyedById) (hunraced : Run.StepsMeet Unraced s tr) :
    (∀ x ∈ tr, x.2.NoResurrection ∧ x.2.NoRollback) ∧
      (s.data.DistinctTokens → Run.StepsMeet Rotates s tr → ∀ x ∈ tr, x.2.SingleUse) := by
  constructor
  · intro x hx
    have hkept : x.2.Sound ∧ x.2.Kept := by
      refine Run.invariant_of_stepsMeet (J := fun s => s.Sound ∧ s.Kept) ?_ hrun
        ⟨hfresh.sound hkeyed, hfresh.kept⟩ hunraced x hx
      rintro s a s' ⟨hsound, hkept⟩ hunraced hstep
      have hchange := change_of_step hstep
      exact ⟨hsound.change hchange, hkept.change hsound hunraced hchange⟩
    exact ⟨hkept.2.gone, hkept.2.noRollback⟩
  · intro hdistinct hrotates x hx
    have hspent : x.2.Sound ∧ x.2.Spent := by
      refine Run.invariant_of_stepsMeet (J := fun s => s.Sound ∧ s.Spent) ?_ hrun
        ⟨hfresh.sound hkeyed, hfresh.spent hdistinct⟩
        (Run.stepsMeet_and.mpr ⟨hunraced, hrotates⟩) x hx
      rintro s a s' ⟨hsound, hspent⟩ ⟨hunraced, hrotates⟩ hstep
      have hchange := change_of_step hstep
      exact ⟨hsound.change hchange, hspent.change hsound hunraced hrotates hchange⟩
    exact hspent.2.single

end AuthWorld

/-! ## Sample runs -/

def sampleParams : AuthParams where
  extractAccountIdFromJwt _ := none

/-- Tokens that expire at once. -/
def sampleTokens (accessToken refreshToken : Text) : TokenSet where
  accessToken := accessToken
  refreshToken := some refreshToken
  idToken := none
  expiresAtUnix := some 0
  tokenType := none
  scope := none

def noProfiles : AuthWorld where
  data := AuthData.default 0
  calls := []
  log := []

def sampleLogin (accessToken refreshToken : Text) : AuthAction :=
  .login openaiCodexProvider "default" (sampleTokens accessToken refreshToken) none true 100

namespace AuthWorld

/-- The conditions on a step, as a check of the state. -/
def unracedCheck (s : AuthWorld) : AuthAction → Bool
  | .store call _ =>
      match s.calls[call]? with
      | some (.updating profile _) =>
          (since s.log call).all fun e => decide (e.written ≠ some profile.id)
      | _ => true
  | _ => true

theorem unraced_of_check {s : AuthWorld} {a : AuthAction} (h : s.unracedCheck a = true) :
    s.Unraced a := by
  rintro call now profile r rfl hcall e he
  simp only [unracedCheck, hcall, List.all_eq_true, decide_eq_true_eq] at h
  exact h e he

def newTokenCheck (s : AuthWorld) (r : Text) : Bool :=
  s.data.profiles.toList.all (fun x => decide (x.2.tokenSet.refreshToken ≠ some r)) &&
    s.log.all fun e =>
      match e with
      | .read _ _ r' => decide (r' ≠ r)
      | _ => true

theorem newToken_of_check {s : AuthWorld} {r : Text} (h : s.newTokenCheck r = true) :
    s.NewToken r := by
  rw [newTokenCheck, Bool.and_eq_true, List.all_eq_true, List.all_eq_true] at h
  refine ⟨fun id p hp => ?_, fun call id hmem => ?_⟩
  · exact of_decide_eq_true (h.1 (id, p) (Std.TreeMap.mem_toList_iff_getElem?_eq_some.mpr hp))
  · exact of_decide_eq_true (h.2 _ hmem) rfl

def rotatesCheck (s : AuthWorld) : AuthAction → Bool
  | .login _ _ tokenSet _ _ _ => tokenSet.refreshToken.all s.newTokenCheck
  | .store call _ =>
      match s.calls[call]? with
      | some (.updating profile _) => profile.tokenSet.refreshToken.all s.newTokenCheck
      | _ => true
  | _ => true

theorem rotates_of_check {s : AuthWorld} {a : AuthAction} (h : s.rotatesCheck a = true) :
    s.Rotates a := by
  cases a with
  | login provider profileName tokenSet accountId setActive now =>
      intro r hr
      rw [rotatesCheck, hr] at h
      exact newToken_of_check h
  | store call now =>
      intro profile r hcall r' hr'
      simp only [rotatesCheck, hcall, hr'] at h
      exact newToken_of_check h
  | _ => trivial

end AuthWorld

theorem fresh_noProfiles : noProfiles.Fresh := ⟨rfl, rfl⟩

/-- A refresh that nothing comes between, and then a logout. -/
def quietActions : List AuthAction :=
  [sampleLogin "a1" "r1", .access none 200, .answer 0 (sampleTokens "a2" "r2") 201, .store 0 202,
    .logout openaiCodexProvider none 300]

theorem credentials_kept_quiet :
    ∃ tr, exec (AuthWorld.step sampleParams) noProfiles quietActions = some tr ∧
      (∀ x ∈ tr, x.2.NoResurrection ∧ x.2.NoRollback) ∧ ∀ x ∈ tr, x.2.SingleUse := by
  obtain ⟨tr, hexec, hrun, hmeets⟩ := exists_guarded_run_of_exec (AuthWorld.step sampleParams)
    noProfiles quietActions (C := fun s a => s.Unraced a ∧ s.Rotates a)
    (c := fun s a => s.unracedCheck a && s.rotatesCheck a)
    (fun s a h => (Bool.and_eq_true_iff.mp h).imp AuthWorld.unraced_of_check
      AuthWorld.rotates_of_check) (by decide +kernel)
  obtain ⟨hunraced, hrotates⟩ := Run.stepsMeet_and.mp hmeets
  obtain ⟨hkept, hsingle⟩ := AuthWorld.credentials_kept hrun fresh_noProfiles
    AuthData.keyedById_default hunraced
  exact ⟨tr, hexec, hkept, hsingle (fun id id' p p' r hp => by
    simp [noProfiles, AuthData.default] at hp) hrotates⟩

def sampleId : Text := profileId openaiCodexProvider "default"

/-- A logout while a call waits for the endpoint. -/
def logoutActions : List AuthAction :=
  [sampleLogin "a1" "r1", .access none 200, .logout openaiCodexProvider none 201,
    .answer 0 (sampleTokens "a2" "r2") 202, .store 0 203]

/-- A login while a call waits for the endpoint. -/
def loginActions : List AuthAction :=
  [sampleLogin "a1" "r1", .access none 200, sampleLogin "a3" "r3",
    .answer 0 (sampleTokens "a2" "r2") 202, .store 0 203]

/-- Two calls at a time. -/
def twoCalls : List AuthAction :=
  [sampleLogin "a1" "r1", .access none 200, .access none 200,
    .answer 0 (sampleTokens "a2" "r2") 202, .store 0 203,
    .answer 1 (sampleTokens "a3" "r3") 204, .store 1 205]

/-- The profile comes back, the new tokens are replaced, and the refresh token is used twice. -/
theorem credentials_raced :
    (∃ tr, Run (AuthWorld.step sampleParams) noProfiles tr ∧ ∃ x ∈ tr, ¬ x.2.NoResurrection) ∧
    (∃ tr, Run (AuthWorld.step sampleParams) noProfiles tr ∧ ∃ x ∈ tr, ¬ x.2.NoRollback) ∧
    ∃ tr, Run (AuthWorld.step sampleParams) noProfiles tr ∧ ∃ x ∈ tr, ¬ x.2.SingleUse := by
  refine ⟨?_, ?_, ?_⟩
  · obtain ⟨tr, hrun, x, hx, hstate⟩ := exists_run_of_exec (AuthWorld.step sampleParams)
      noProfiles logoutActions (fun s => decide (s.log = [.stored 0 sampleId, .logout sampleId,
        .read 0 sampleId "r1", .login sampleId]) && s.data.profiles.contains sampleId)
      (by decide +kernel)
    obtain ⟨hlog, hcontains⟩ := Bool.and_eq_true_iff.mp hstate
    refine ⟨tr, hrun, x, hx, fun hall => ?_⟩
    have hnone := hall sampleId ⟨[.stored 0 sampleId], _, of_decide_eq_true hlog, by simp⟩
    rw [Std.TreeMap.contains_eq_isSome_getElem?, hnone] at hcontains
    cases hcontains
  · obtain ⟨tr, hrun, x, hx, hlog⟩ := exists_run_of_exec (AuthWorld.step sampleParams)
      noProfiles loginActions (fun s => decide (s.log = [.stored 0 sampleId, .login sampleId,
        .read 0 sampleId "r1", .login sampleId])) (by decide +kernel)
    refine ⟨tr, hrun, x, hx, fun hall => ?_⟩
    have hsuffix : [.stored 0 sampleId, .login sampleId, .read 0 sampleId "r1",
        .login sampleId] <:+ x.2.log := by rw [of_decide_eq_true hlog]
    exact hall 0 sampleId _ hsuffix rfl (by decide)
  · obtain ⟨tr, hrun, x, hx, hlog⟩ := exists_run_of_exec (AuthWorld.step sampleParams)
      noProfiles twoCalls (fun s => decide (s.log = [.stored 1 sampleId, .stored 0 sampleId,
        .read 1 sampleId "r1", .read 0 sampleId "r1", .login sampleId])) (by decide +kernel)
    refine ⟨tr, hrun, x, hx, fun hall => ?_⟩
    have hfirst : x.2.Used 0 sampleId "r1" := by
      rw [AuthWorld.Used, of_decide_eq_true hlog]
      decide
    have hsecond : x.2.Used 1 sampleId "r1" := by
      rw [AuthWorld.Used, of_decide_eq_true hlog]
      decide
    exact absurd (hall 0 1 sampleId sampleId "r1" hfirst hsecond) (by decide)

end Auth
end SimpleClaw
