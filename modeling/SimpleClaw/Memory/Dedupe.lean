import SimpleClaw.Memory.IndexConsistency

/-!
# Facts memorized twice

`memorize` does not store a fact that was stored less than five minutes ago, but it writes long
after it has looked: in between it embeds the fact and looks for a similar one.  Of two calls with
one fact, each may look before the other writes.

* `utcText_order_selects`: the check compares texts, and finds the facts within the window.
* `NoDuplicates`: no two facts of one kind with one content were created within the window.
* `LongTermWorld.Screened`: what the duplicate check of a call has ruled out.
* `unit_noDuplicates_iff`: which writes leave no duplicates.
* `noDuplicates_iff_unraced`: the same of whole runs.
-/

namespace SimpleClaw
namespace Memory

open Transition

/-- The instants are no further apart than the window. -/
def WithinWindow (t u : Int) : Prop := t ≤ u + memorizeDedupeWindow ∧ u ≤ t + memorizeDedupeWindow

instance (t u : Int) : Decidable (WithinWindow t u) :=
  inferInstanceAs (Decidable (t ≤ u + memorizeDedupeWindow ∧ u ≤ t + memorizeDedupeWindow))

theorem WithinWindow.symm {t u : Int} (h : WithinWindow t u) : WithinWindow u t := ⟨h.2, h.1⟩

/-- The column of the fact holds the text of the instant. -/
def Fact.CreatedAt {E : Type} (chrono : Chrono) (f : Fact E) (t : Int) : Prop :=
  FourDigitYear t ∧ f.createdAt = chrono.toRfc3339 t

/-- **No two facts of one kind with one content were created within the window of each other.** -/
def NoDuplicates {E : Type} (chrono : Chrono) (db : LongTermDb E) : Prop :=
  ∀ f ∈ db.facts, ∀ g ∈ db.facts, f.id ≠ g.id → f.kind = g.kind →
    f.content.trim = g.content.trim → ∀ t u, f.CreatedAt chrono t → g.CreatedAt chrono u →
      ¬ WithinWindow t u

/-- The stored fact is the one that the call is to write, created within the window. -/
def Clashes {E : Type} (chrono : Chrono) (req : MemorizeRequest) (g : Fact E) : Prop :=
  g.kind = req.kind ∧ g.content.trim = req.fact ∧
    ∃ u, g.CreatedAt chrono u ∧ WithinWindow req.now u

/-! ## What the duplicate check selects -/

section Window

variable {E : Type} {db : LongTermDb E}

/-- Different instants have different texts, and only those. -/
theorem utcText_eq_iff {s t : Int} (hs : FourDigitYear s) (ht : FourDigitYear t) :
    utcText s = utcText t ↔ s = t :=
  ⟨Chrono.utc_ordered.injective hs ht, congrArg utcText⟩

/-- The comparison in the statement is that of the instants. -/
theorem not_createdAt_lt_iff {f : Fact E} {t cutoff : Int} (hf : f.CreatedAt Chrono.utc t)
    (hcutoff : FourDigitYear cutoff) : ¬ f.createdAt < utcText cutoff ↔ cutoff ≤ t := by
  rw [hf.2, ← Int.not_lt]
  exact not_congr (Chrono.utc_ordered t cutoff hf.1 hcutoff)

/-- **Timestamps are in the order of the instants**, so that the duplicate check finds exactly the
facts that were created within the window. -/
theorem utcText_order_selects (req : MemorizeRequest)
    (hcutoff : FourDigitYear (req.now - memorizeDedupeWindow))
    (hcreated : ∀ f ∈ db.facts, ∃ t, f.CreatedAt Chrono.utc t) :
    (∀ s t, FourDigitYear s → FourDigitYear t →
      (utcText s < utcText t ↔ s < t) ∧ (utcText s = utcText t ↔ s = t)) ∧
    (∀ f ∈ db.facts, ∀ t, f.CreatedAt Chrono.utc t →
      (¬ f.createdAt < utcText (req.now - memorizeDedupeWindow) ↔
        req.now - memorizeDedupeWindow ≤ t)) ∧
    (hasRecentLongTermFact db req.kind req.fact
        (utcText (req.now - memorizeDedupeWindow)) = true ↔
      ∃ f ∈ db.facts, f.kind = req.kind ∧ f.content = req.fact ∧
        ∃ t, f.CreatedAt Chrono.utc t ∧ req.now - memorizeDedupeWindow ≤ t) := by
  refine ⟨fun s t hs ht => ⟨Chrono.utc_ordered s t hs ht, utcText_eq_iff hs ht⟩,
    fun f _ t ht => not_createdAt_lt_iff ht hcutoff, ?_⟩
  rw [← Bool.not_eq_false, hasRecentLongTermFact_eq_false_iff]
  constructor
  · intro hfound
    by_contra hnone
    refine hfound fun f hf hkind hcontent => ?_
    by_contra hlate
    obtain ⟨t, ht⟩ := hcreated f hf
    exact hnone ⟨f, hf, hkind, hcontent, t, ht, (not_createdAt_lt_iff ht hcutoff).mp hlate⟩
  · rintro ⟨f, hf, hkind, hcontent, t, ht, hwithin⟩ hnone
    exact (not_createdAt_lt_iff ht hcutoff).mpr hwithin (hnone f hf hkind hcontent)

/-- A fact of the instant. -/
def teaAt (id t : Int) : Fact Int where
  id := id
  sourceSessionId := "agent:a:main"
  content := "tea"
  kind := "general"
  importance := 3
  embedding := 0
  createdAt := utcText t

/-- Two facts around the cutoff, a nanosecond apart, with timestamps of different lengths. -/
theorem utcText_order_selects_teaAt :
    let req : MemorizeRequest := ⟨"agent:a:main", "tea", "general", 3, memorizeDedupeWindow⟩
    (teaAt 1 (-1)).createdAt < utcText (req.now - memorizeDedupeWindow) ∧
      hasRecentLongTermFact ⟨[teaAt 1 (-1), teaAt 2 0], [], 2⟩ req.kind req.fact
        (utcText (req.now - memorizeDedupeWindow)) = true := by
  intro req
  have hold : (teaAt 1 (-1)).CreatedAt Chrono.utc (-1) := ⟨by decide, rfl⟩
  have hnew : (teaAt 2 0).CreatedAt Chrono.utc 0 := ⟨by decide, rfl⟩
  let db : LongTermDb Int := ⟨[teaAt 1 (-1), teaAt 2 0], [], 2⟩
  have hfacts : ∀ f ∈ db.facts, ∃ at_, f.CreatedAt Chrono.utc at_ :=
    List.forall_mem_cons.mpr ⟨⟨-1, hold⟩, List.forall_mem_singleton.mpr ⟨0, hnew⟩⟩
  obtain ⟨-, hselects, hrecent⟩ := utcText_order_selects req (by decide) hfacts
  constructor
  · by_contra hlate
    have hwithin := (hselects _ List.mem_cons_self (-1) hold).mp hlate
    exact absurd hwithin (by decide)
  · exact hrecent.mpr
      ⟨teaAt 2 0, List.mem_cons_of_mem _ List.mem_cons_self, rfl, rfl, 0, hnew, by decide⟩

end Window

/-! ## Writing a fact -/

section Write

variable {E D F : Type} [LinearOrder D] [LinearOrder F] {config : LongTermConfig E D F}
  {db : LongTermDb E} {req : MemorizeRequest} {blob : E}

/-- What a request says is in range. -/
structure MemorizeRequest.Sound (req : MemorizeRequest) : Prop where
  trimmed : req.fact.trim = req.fact
  now : FourDigitYear req.now
  cutoff : FourDigitYear (req.now - memorizeDedupeWindow)

/-- The row is the one that the call writes. -/
def Written (chrono : Chrono) (req : MemorizeRequest) (f : Fact E) : Prop :=
  f.kind = req.kind ∧ f.content = req.fact ∧ f.createdAt = chrono.toRfc3339 req.now

/-- A fact written by the call is no duplicate of a stored one exactly if that does not clash. -/
theorem not_clashes_iff (hchrono : config.chrono.Ordered) (hreq : req.Sound) {f g : Fact E}
    (hwritten : Written config.chrono req f) :
    ¬ Clashes config.chrono req g ↔
      (f.kind = g.kind → f.content.trim = g.content.trim → ∀ t u, f.CreatedAt config.chrono t →
        g.CreatedAt config.chrono u → ¬ WithinWindow t u) := by
  obtain ⟨hkind, hcontent, hcreated⟩ := hwritten
  rw [hkind, hcontent, hreq.trimmed]
  constructor
  · intro hclash hk hc t u ht hu hwithin
    have hnow : req.now = t :=
      hchrono.injective hreq.now ht.1 (hcreated.symm.trans ht.2)
    exact hclash ⟨hk.symm, hc.symm, u, hu, hnow ▸ hwithin⟩
  · rintro hall ⟨hk, hc, u, hu, hwithin⟩
    exact hall hk.symm hc.symm req.now u ⟨hreq.now, hcreated⟩ hu hwithin

/-- The duplicate check rules out the facts that clash. -/
theorem not_clashes_of_hasRecentLongTermFact (hchrono : config.chrono.Ordered) (hreq : req.Sound)
    (hrecent : hasRecentLongTermFact db req.kind req.fact
      (config.chrono.toRfc3339 (req.now - memorizeDedupeWindow)) = false)
    {g : Fact E} (hg : g ∈ db.facts) (htrimmed : g.content.trim = g.content) :
    ¬ Clashes config.chrono req g := by
  rintro ⟨hkind, hcontent, u, hu, hwithin⟩
  have hold := hasRecentLongTermFact_eq_false_iff.mp hrecent g hg hkind (htrimmed ▸ hcontent)
  rw [hu.2] at hold
  have hlt := (hchrono _ _ hu.1 hreq.cutoff).mp hold
  have hle := hwithin.1
  omega

/-- Inserting a fact leaves no duplicates exactly if no stored fact clashes with it. -/
theorem noDuplicates_insertFact_iff (hchrono : config.chrono.Ordered) (hreq : req.Sound)
    (hnew : db.sequence + 1 ∉ db.factIds) (hdb : NoDuplicates config.chrono db) :
    NoDuplicates config.chrono (db.insertFact req.session req.fact req.kind req.importance blob
        (config.chrono.toRfc3339 req.now)).2 ↔
      ∀ g ∈ db.facts, ¬ Clashes config.chrono req g := by
  have hne : ∀ g ∈ db.facts, g.id ≠ db.sequence + 1 := by
    intro g hg hid
    exact hnew (hid ▸ List.mem_map_of_mem hg)
  simp only [NoDuplicates, LongTermDb.insertFact, List.mem_append, List.mem_singleton]
  constructor
  · intro hall g hg
    exact (not_clashes_iff hchrono hreq ⟨rfl, rfl, rfl⟩).mpr
      (hall _ (Or.inr rfl) g (Or.inl hg) (hne g hg).symm)
  · rintro hclash f (hf | rfl) g (hg | rfl)
    · exact hdb f hf g hg
    · intro hid hkind hcontent t u ht hu hwithin
      exact (not_clashes_iff hchrono hreq ⟨rfl, rfl, rfl⟩).mp (hclash f hf) hkind.symm hcontent.symm
        u t hu ht hwithin.symm
    · exact fun _ => (not_clashes_iff hchrono hreq ⟨rfl, rfl, rfl⟩).mp (hclash g hg)
    · exact fun hid => absurd rfl hid

/-- The rows after a replacement are the one that was written and the other ones. -/
theorem mem_facts_updateFact {id : Int}
    (hkind : ∀ f ∈ db.facts, f.id = id → f.kind = req.kind) {f : Fact E} :
    f ∈ (db.updateFact id req.session req.fact req.importance blob
        (config.chrono.toRfc3339 req.now)).facts →
      (f.id = id ∧ Written config.chrono req f ∧ ∃ g ∈ db.facts, g.id = f.id ∧ g.kind = f.kind) ∨
        (f.id ≠ id ∧ f ∈ db.facts) := by
  intro hmem
  obtain ⟨g, hg, rfl⟩ := List.mem_map.mp hmem
  split
  · next h => exact Or.inl ⟨h, ⟨hkind g hg h, rfl, rfl⟩, g, hg, rfl, rfl⟩
  · next h => exact Or.inr ⟨h, hg⟩

theorem mem_updateFact_of_ne {id : Int} {f : Fact E} (hf : f ∈ db.facts) (hne : f.id ≠ id) :
    f ∈ (db.updateFact id req.session req.fact req.importance blob
      (config.chrono.toRfc3339 req.now)).facts :=
  List.mem_map.mpr ⟨f, hf, if_neg hne⟩

variable (config blob) in
theorem exists_written_updateFact {id : Int}
    (hkind : ∀ f ∈ db.facts, f.id = id → f.kind = req.kind) (hid : id ∈ db.factIds) :
    ∃ f ∈ (db.updateFact id req.session req.fact req.importance blob
        (config.chrono.toRfc3339 req.now)).facts, f.id = id ∧ Written config.chrono req f := by
  obtain ⟨f, hf, hfid⟩ := List.mem_map.mp hid
  refine ⟨_, List.mem_map_of_mem hf, ?_⟩
  rw [if_pos hfid]
  exact ⟨hfid, hkind f hf hfid, rfl, rfl⟩

/-- Replacing a fact leaves no duplicates exactly if no other stored fact clashes with it. -/
theorem noDuplicates_updateFact_iff (hchrono : config.chrono.Ordered) (hreq : req.Sound) {id : Int}
    (hid : id ∈ db.factIds) (hkind : ∀ f ∈ db.facts, f.id = id → f.kind = req.kind)
    (hdb : NoDuplicates config.chrono db) :
    NoDuplicates config.chrono (db.updateFact id req.session req.fact req.importance blob
        (config.chrono.toRfc3339 req.now)) ↔
      ∀ g ∈ db.facts, g.id ≠ id → ¬ Clashes config.chrono req g := by
  constructor
  · intro hall g hg hne
    obtain ⟨f, hf, hfid, hwritten⟩ := exists_written_updateFact config blob hkind hid
    refine (not_clashes_iff hchrono hreq hwritten).mpr
      (hall f hf g (mem_updateFact_of_ne hg hne) ?_)
    rw [hfid]
    exact hne.symm
  · intro hclash f hf g hg
    rcases mem_facts_updateFact hkind hf with ⟨hfid, hwritten, -⟩ | ⟨hfid, hf⟩
    · rcases mem_facts_updateFact hkind hg with ⟨hgid, -⟩ | ⟨hgid, hg⟩
      · exact fun hne => absurd (hfid.trans hgid.symm) hne
      · exact fun _ => (not_clashes_iff hchrono hreq hwritten).mp (hclash g hg hgid)
    · rcases mem_facts_updateFact hkind hg with ⟨hgid, hwritten, -⟩ | ⟨hgid, hg⟩
      · intro _ hkind' hcontent t u ht hu hwithin
        exact (not_clashes_iff hchrono hreq hwritten).mp (hclash f hf hfid)
          hkind'.symm hcontent.symm u t hu ht hwithin.symm
      · exact hdb f hf g hg

end Write

/-! ## What the duplicate checks have ruled out -/

section Screening

variable {E F : Type}

/-- Of the facts written before the check of a call, none clashes with the one it is to write. -/
def LongTermWorld.RuledOut (chrono : Chrono) (s : LongTermWorld E F) (req : MemorizeRequest)
    (checkedAt : Nat) : Prop :=
  checkedAt ≤ s.writes ∧
    ∀ g ∈ s.db.facts, s.writtenAt g.id < checkedAt → ¬ Clashes chrono req g

/-- What holds of a call, by how far it has come. -/
def LongTermCall.Screened (chrono : Chrono) (s : LongTermWorld E F) (checkedAt : Nat) :
    LongTermCall E F → Prop
  | .checking req => req.Sound
  | .embedding req | .looking req _ | .inserting req _ =>
      req.Sound ∧ s.RuledOut chrono req checkedAt
  | .superseding req _ id =>
      (req.Sound ∧ s.RuledOut chrono req checkedAt) ∧
        ∀ f ∈ s.db.facts, f.id = id → f.kind = req.kind
  | .indexing _ _ | .recalling _ | .searching _ _ _ | .deleting _ => True

/-- **The stored facts that clash with one to be written were written after the check for it.** -/
structure LongTermWorld.Screened (chrono : Chrono) (s : LongTermWorld E F) : Prop where
  allocated : s.Allocated
  nodup : s.db.factIds.Nodup
  trimmed : ∀ f ∈ s.db.facts, f.content.trim = f.content
  calls : ∀ call c, s.calls call = some c → c.Screened chrono s (s.checkedAt call)

/-- From one state to another, rows have stayed or been deleted, and what was written is marked. -/
structure Rewrites (s s' : LongTermWorld E F) : Prop where
  writes : s.writes ≤ s'.writes
  facts : ∀ g ∈ s'.db.facts, (g ∈ s.db.facts ∧ s'.writtenAt g.id = s.writtenAt g.id) ∨
    s.writes ≤ s'.writtenAt g.id
  kinds : ∀ g ∈ s'.db.facts, (∃ f ∈ s.db.facts, f.id = g.id ∧ f.kind = g.kind) ∨
    s.db.sequence < g.id

variable {chrono : Chrono} {s s' : LongTermWorld E F} {c : LongTermCall E F} {call n : Nat}

theorem Rewrites.of_subset (hwrites : s'.writes = s.writes) (hmarks : s'.writtenAt = s.writtenAt)
    (hfacts : ∀ g ∈ s'.db.facts, g ∈ s.db.facts) : Rewrites s s' where
  writes := le_of_eq hwrites.symm
  facts g hg := Or.inl ⟨hfacts g hg, by rw [hmarks]⟩
  kinds g hg := Or.inl ⟨g, hfacts g hg, rfl, rfl⟩

theorem Rewrites.refl (s : LongTermWorld E F) : Rewrites s s := .of_subset rfl rfl fun _ hg => hg

/-- What a check has ruled out stays so. -/
theorem LongTermWorld.RuledOut.rewrites {req : MemorizeRequest} (h : s.RuledOut chrono req n)
    (hrewrites : Rewrites s s') : s'.RuledOut chrono req n := by
  refine ⟨le_trans h.1 hrewrites.writes, fun g hg hwritten => ?_⟩
  rcases hrewrites.facts g hg with ⟨hold, hmark⟩ | hmark
  · exact h.2 g hold (hmark ▸ hwritten)
  · exact absurd (le_trans h.1 hmark) (not_le_of_gt hwritten)

theorem LongTermCall.Screened.rewrites (h : c.Screened chrono s n) (hrewrites : Rewrites s s')
    (htarget : ∀ id, c.target = some id → id ≤ s.db.sequence) : c.Screened chrono s' n := by
  cases c with
  | checking req => exact h
  | embedding req => exact ⟨h.1, h.2.rewrites hrewrites⟩
  | looking req blob => exact ⟨h.1, h.2.rewrites hrewrites⟩
  | inserting req blob => exact ⟨h.1, h.2.rewrites hrewrites⟩
  | superseding req blob id =>
      obtain ⟨⟨hreq, hruled⟩, hkind⟩ := h
      refine ⟨⟨hreq, hruled.rewrites hrewrites⟩, fun g hg hid => ?_⟩
      rcases hrewrites.kinds g hg with ⟨f, hf, hfid, hfkind⟩ | hlt
      · rw [← hfkind]
        exact hkind f hf (hfid.trans hid)
      · -- a row that is new has a new id
        rw [hid] at hlt
        exact absurd (htarget id rfl) (not_le_of_gt hlt)
  | indexing | recalling | searching | deleting => trivial

/-- A call goes on in a state that others have come to. -/
theorem LongTermWorld.Screened.goesOn (h : s.Screened chrono) (hrewrites : Rewrites s s')
    {next : Option (LongTermCall E F)} (hcalls : s'.calls = s.calls)
    (hchecked : ∀ call' ≠ call, s'.checkedAt call' = s.checkedAt call')
    (hallocated : (s'.goesOn call next).Allocated) (hnodup : s'.db.factIds.Nodup)
    (htrimmed : ∀ f ∈ s'.db.facts, f.content.trim = f.content)
    (hnext : ∀ c, next = some c → c.Screened chrono s' (s'.checkedAt call)) :
    (s'.goesOn call next).Screened chrono where
  allocated := hallocated
  nodup := hnodup
  trimmed := htrimmed
  calls call' c hcall := by
    by_cases heq : call' = call
    · subst heq
      exact hnext c (by simpa [LongTermWorld.goesOn] using hcall)
    · have hcall' : s.calls call' = some c := by
        simpa [LongTermWorld.goesOn, heq, hcalls] using hcall
      show c.Screened chrono s' (s'.checkedAt call')
      rw [hchecked call' heq]
      exact (h.calls call' c hcall').rewrites hrewrites (h.allocated.targets call' c · hcall')

end Screening

section Steps

variable {E D F : Type} [LinearOrder D] [LinearOrder F] {config : LongTermConfig E D F}
  {s s' : LongTermWorld E F} {c : LongTermCall E F} {call : Nat} {a : LongTermAction F}

namespace LongTermWorld

/-- A call begins, goes on or ends, and nothing else. -/
theorem Screened.call_goesOn (h : s.Screened config.chrono) {next : Option (LongTermCall E F)}
    (hallocated : (s.goesOn call next).Allocated)
    (hnext : ∀ c, next = some c → c.Screened config.chrono s (s.checkedAt call)) :
    (s.goesOn call next).Screened config.chrono :=
  h.goesOn (Rewrites.refl s) rfl (fun _ _ => rfl) hallocated h.nodup h.trimmed hnext

/-- A unit that writes nothing. -/
theorem Screened.reads (h : s.Screened config.chrono) (hcall : s.calls call = some c)
    (next : Option (LongTermCall E F)) (hunit : s.unit config call c = s.goesOn call next)
    (hnext : ∀ c', next = some c' → c'.Screened config.chrono s (s.checkedAt call)) :
    (s.unit config call c).Screened config.chrono := by
  have hallocated := h.allocated.unit config hcall
  rw [hunit] at hallocated ⊢
  exact h.call_goesOn hallocated hnext

/-- A unit that replaces a fact. -/
theorem Screened.superseding (h : s.Screened config.chrono) {req : MemorizeRequest} {blob : E}
    {id : Int} (hcall : s.calls call = some (.superseding req blob id)) :
    (s.unit config call (.superseding req blob id)).Screened config.chrono := by
  have hallocated := h.allocated.unit config hcall
  obtain ⟨⟨hreq, -⟩, hkind⟩ := h.calls call _ hcall
  obtain ⟨db', hdb, hfacts, hids, -, -⟩ := exists_supersede config s.db id req blob
  simp only [LongTermWorld.unit, hdb] at hallocated ⊢
  have hmem : ∀ f ∈ db'.facts, (f.id = id ∧ Written config.chrono req f ∧
      ∃ g ∈ s.db.facts, g.id = f.id ∧ g.kind = f.kind) ∨ (f.id ≠ id ∧ f ∈ s.db.facts) := by
    rw [hfacts]
    exact fun f hf => mem_facts_updateFact hkind hf
  have hrewrites : Rewrites s ({ s with db := db' }.wrote id) := by
    refine ⟨Nat.le_succ _, fun g hg => ?_, fun g hg => ?_⟩
    · rcases hmem g hg with ⟨hid, -⟩ | ⟨hid, hg⟩
      · exact Or.inr (by simp [wrote, hid])
      · exact Or.inl ⟨hg, by simp [wrote, hid]⟩
    · rcases hmem g hg with ⟨-, -, hold⟩ | ⟨-, hg⟩
      · exact Or.inl hold
      · exact Or.inl ⟨g, hg, rfl, rfl⟩
  refine h.goesOn hrewrites rfl (fun _ _ => rfl) hallocated ?_ ?_ (fun _ hnone => by cases hnone)
  · show db'.factIds.Nodup
    rw [hids]
    exact h.nodup
  · intro f hf
    rcases hmem f hf with ⟨-, ⟨-, hcontent, -⟩, -⟩ | ⟨-, hf⟩
    · rw [hcontent]
      exact hreq.trimmed
    · exact h.trimmed f hf

/-- A unit that inserts a fact. -/
theorem Screened.inserting (h : s.Screened config.chrono) {req : MemorizeRequest} {blob : E}
    (hcall : s.calls call = some (.inserting req blob)) :
    (s.unit config call (.inserting req blob)).Screened config.chrono := by
  have hallocated := h.allocated.unit config hcall
  obtain ⟨hreq, -⟩ := h.calls call _ hcall
  rw [unit_inserting] at hallocated ⊢
  have hmem : ∀ f ∈ (s.db.insertFact req.session req.fact req.kind req.importance blob
      (config.chrono.toRfc3339 req.now)).2.facts,
      (f.id = s.db.sequence + 1 ∧ Written config.chrono req f) ∨
      (f.id ≤ s.db.sequence ∧ f ∈ s.db.facts) := by
    intro f hf
    rcases List.mem_append.mp hf with hf | hf
    · exact Or.inr ⟨h.allocated.facts f.id (List.mem_map_of_mem hf), hf⟩
    · rw [List.mem_singleton.mp hf]
      exact Or.inl ⟨rfl, rfl, rfl, rfl⟩
  have hrewrites : Rewrites s ({ s with
      db := (s.db.insertFact req.session req.fact req.kind req.importance blob
        (config.chrono.toRfc3339 req.now)).2 }.wrote (s.db.sequence + 1)) := by
    refine ⟨Nat.le_succ _, fun g hg => ?_, fun g hg => ?_⟩
    · rcases hmem g hg with ⟨hid, -⟩ | ⟨hid, hg⟩
      · exact Or.inr (by simp [wrote, hid])
      · exact Or.inl ⟨hg, by simp [wrote, ne_of_lt (Int.lt_add_one_of_le hid)]⟩
    · rcases hmem g hg with ⟨hid, -⟩ | ⟨-, hg⟩
      · exact Or.inr (by rw [hid]; omega)
      · exact Or.inl ⟨g, hg, rfl, rfl⟩
  refine h.goesOn hrewrites rfl (fun _ _ => rfl) hallocated ?_ ?_ (by rintro _ ⟨⟩; trivial)
  · show (LongTermDb.factIds (LongTermDb.insertFact _ _ _ _ _ _ _).2).Nodup
    rw [LongTermDb.factIds_insertFact, List.nodup_append]
    refine ⟨h.nodup, List.nodup_singleton _, fun id hid id' hid' heq => ?_⟩
    rw [heq, List.mem_singleton.mp hid'] at hid
    have hle := h.allocated.facts _ hid
    omega
  · intro f hf
    rcases hmem f hf with ⟨-, -, hcontent, -⟩ | ⟨-, hf⟩
    · rw [hcontent]
      exact hreq.trimmed
    · exact h.trimmed f hf

theorem Screened.unit (hchrono : config.chrono.Ordered) (h : s.Screened config.chrono)
    (hcall : s.calls call = some c) : (s.unit config call c).Screened config.chrono := by
  have hscreened := h.calls call c hcall
  have hallocated := h.allocated.unit config hcall
  cases c with
  | checking req =>
      cases hrecent : hasRecentLongTermFact s.db req.kind req.fact
          (config.chrono.toRfc3339 (req.now - memorizeDedupeWindow)) with
      | true =>
          refine h.reads hcall none ?_ (by simp)
          simp [LongTermWorld.unit, hrecent]
      | false =>
          rw [show s.unit config call (.checking req) =
            (s.checked call).goesOn call (some (.embedding req)) by
              simp [LongTermWorld.unit, hrecent]] at hallocated ⊢
          have hrewrites : Rewrites s (s.checked call) := .of_subset rfl rfl fun _ hg => hg
          refine h.goesOn hrewrites rfl ?_ hallocated h.nodup h.trimmed ?_
          · intro call' hne
            simp [checked, hne]
          · rintro _ ⟨⟩
            refine ⟨hscreened, ?_, fun g hg _ => ?_⟩
            · simp [checked]
            · exact not_clashes_of_hasRecentLongTermFact hchrono hscreened hrecent hg
                (h.trimmed g hg)
  | embedding req => exact h.reads hcall _ rfl (by rintro _ ⟨⟩; exact hscreened)
  | looking req blob =>
      cases hsuperseded : supersededBy config s.db req.kind blob with
      | none =>
          refine h.reads hcall (some (.inserting req blob)) ?_
            (by rintro _ ⟨⟩; exact hscreened)
          simp [LongTermWorld.unit, hsuperseded]
      | some f =>
          obtain ⟨hf, hkind⟩ := supersededBy_eq_some hsuperseded
          refine h.reads hcall (some (.superseding req blob f.id)) ?_ ?_
          · simp [LongTermWorld.unit, hsuperseded]
          · rintro _ ⟨⟩
            refine ⟨hscreened, fun g hg hid => ?_⟩
            rw [List.inj_on_of_nodup_map h.nodup hg hf hid]
            exact hkind
  | superseding req blob id => exact h.superseding hcall
  | inserting req blob => exact h.inserting hcall
  | indexing id blob =>
      cases hinsert : s.db.insertVec id blob with
      | error e =>
          refine h.reads hcall none ?_ (by simp)
          simp [LongTermWorld.unit, hinsert]
      | ok db =>
          obtain ⟨-, rfl⟩ := LongTermDb.insertVec_eq_ok_iff.mp hinsert
          simp only [LongTermWorld.unit, hinsert] at hallocated ⊢
          have hrewrites : Rewrites s
              { s with db := { s.db with vec := s.db.vec ++ [⟨id, blob⟩] } } :=
            .of_subset rfl rfl fun _ hg => hg
          exact h.goesOn hrewrites rfl (fun _ _ => rfl) hallocated h.nodup h.trimmed
            (fun _ hnone => by cases hnone)
  | recalling req =>
      cases hkind : parseKindFilter req.kindFilter with
      | error e =>
          refine h.reads hcall none ?_ (by simp)
          simp [LongTermWorld.unit, hkind]
      | ok kind =>
          refine h.reads hcall (some (.searching req kind (config.embed req.query))) ?_
            (by rintro _ ⟨⟩; trivial)
          simp [LongTermWorld.unit, hkind]
  | searching req kind query =>
      by_cases hfound : req.commit ∧ forgetMatches config s.db req kind query ≠ []
      · exact h.reads hcall _ (if_pos hfound) (by rintro _ ⟨⟩; trivial)
      · exact h.reads hcall none (if_neg hfound) (by simp)
  | deleting ids =>
      have hrewrites : Rewrites s { s with db := deleteFacts ids s.db } :=
        .of_subset rfl rfl fun _ hg => mem_facts_of_mem_deleteFacts hg
      refine h.goesOn hrewrites rfl (fun _ _ => rfl) hallocated ?_ ?_
        (fun _ hnone => by cases hnone)
      · rw [factIds_deleteFacts]
        exact h.nodup.sublist List.filter_sublist
      · exact fun f hf => h.trimmed f (mem_facts_of_mem_deleteFacts hf)

theorem Screened.step (hchrono : config.chrono.Ordered) (h : s.Screened config.chrono)
    (hstep : LongTermWorld.step config s a = some s') : s'.Screened config.chrono := by
  have hallocated := h.allocated.step hstep
  rcases step_cases hstep with ⟨call, c, -, hcall, rfl⟩ | ⟨call, -, rfl⟩ |
    ⟨call, _, _, _, _, _, req, -, hreq, hcutoff, hnow, rfl⟩ | ⟨call, _, _, _, _, _, req, -, rfl⟩ |
    ⟨-, rfl⟩
  · exact h.unit hchrono hcall
  · exact h.call_goesOn hallocated (by simp)
  · refine h.call_goesOn hallocated ?_
    rintro _ ⟨⟩
    obtain ⟨hfact, rfl⟩ := memorizeRequest_eq_ok hreq
    exact ⟨by rw [hfact, Text.trim_trim], hnow, hcutoff⟩
  · exact h.call_goesOn hallocated (by rintro _ ⟨⟩; trivial)
  · exact h

/-! ## Which writes leave no duplicates -/

/-- What the call is about to write has not been written by another since its check. -/
def Unraced (chrono : Chrono) (s : LongTermWorld E F) : LongTermAction F → Prop
  | .proceed call false =>
      match s.calls call with
      | some (.superseding req _ id) => id ∈ s.db.factIds → ∀ g ∈ s.db.facts, g.id ≠ id →
          s.checkedAt call ≤ s.writtenAt g.id → ¬ Clashes chrono req g
      | some (.inserting req _) => ∀ g ∈ s.db.facts,
          s.checkedAt call ≤ s.writtenAt g.id → ¬ Clashes chrono req g
      | some (.checking _) | some (.embedding _) | some (.looking _ _) => True
      | some (.indexing _ _) | some (.recalling _) | some (.searching _ _ _) => True
      | some (.deleting _) | none => True
  | .proceed _ true | .memorize _ _ _ _ _ _ | .forget _ _ _ _ _ _ => True

/-- **A unit leaves no duplicates exactly if what it writes has not been written since the check.**
-/
theorem unit_noDuplicates_iff (hchrono : config.chrono.Ordered) (h : s.Screened config.chrono)
    (hdb : NoDuplicates config.chrono s.db) (hcall : s.calls call = some c) :
    NoDuplicates config.chrono (s.unit config call c).db ↔
      Unraced config.chrono s (.proceed call false) := by
  have hscreened := h.calls call c hcall
  simp only [Unraced, hcall]
  cases c with
  | checking | embedding | looking | recalling | searching =>
      rw [db_unit_of_readsOnly rfl]
      exact iff_of_true hdb trivial
  | superseding req blob id =>
      obtain ⟨db', hsupersede, hfacts, -⟩ := exists_supersede config s.db id req blob
      obtain ⟨⟨hreq, -, hruled⟩, hkind⟩ := hscreened
      simp only [LongTermWorld.unit, hsupersede]
      have heq : NoDuplicates config.chrono db' ↔ NoDuplicates config.chrono
          (s.db.updateFact id req.session req.fact req.importance blob
            (config.chrono.toRfc3339 req.now)) := by
        rw [NoDuplicates, hfacts, ← NoDuplicates]
      refine heq.trans ?_
      by_cases hid : id ∈ s.db.factIds
      · rw [noDuplicates_updateFact_iff hchrono hreq hid hkind hdb]
        refine ⟨fun hall _ g hg hne _ => hall g hg hne, fun hall g hg hne => ?_⟩
        rcases Nat.lt_or_ge (s.writtenAt g.id) (s.checkedAt call) with hlt | hle
        · exact hruled g hg hlt
        · exact hall hid g hg hne hle
      · refine iff_of_true ?_ fun hmem => absurd hmem hid
        rw [show s.db.updateFact id req.session req.fact req.importance blob
            (config.chrono.toRfc3339 req.now) = s.db from
              LongTermDb.updateFact_of_notMem hid _ _ _ _]
        exact hdb
  | inserting req blob =>
      obtain ⟨hreq, -, hruled⟩ := hscreened
      rw [unit_inserting]
      show NoDuplicates config.chrono (LongTermDb.insertFact _ _ _ _ _ _ _).2 ↔ _
      have hnew : s.db.sequence + 1 ∉ s.db.factIds := by
        intro hmem
        have hle := h.allocated.facts _ hmem
        omega
      rw [noDuplicates_insertFact_iff hchrono hreq hnew hdb]
      refine ⟨fun hall g hg _ => hall g hg, fun hall g hg => ?_⟩
      rcases Nat.lt_or_ge (s.writtenAt g.id) (s.checkedAt call) with hlt | hle
      · exact hruled g hg hlt
      · exact hall g hg hle
  | indexing id blob =>
      simp only [LongTermWorld.unit]
      split
      · exact iff_of_true hdb trivial
      · next db hinsert =>
          obtain ⟨-, rfl⟩ := LongTermDb.insertVec_eq_ok_iff.mp hinsert
          exact iff_of_true hdb trivial
  | deleting ids =>
      refine iff_of_true (fun f hf g hg => ?_) trivial
      exact hdb f (mem_facts_of_mem_deleteFacts hf) g (mem_facts_of_mem_deleteFacts hg)

/-- **No state of a run has duplicates if and only if no call writes what another has written since
its check.** -/
theorem noDuplicates_iff_unraced (hchrono : config.chrono.Ordered)
    {tr : List (LongTermAction F × LongTermWorld E F)} (hrun : Run (LongTermWorld.step config) s tr)
    (h : s.Screened config.chrono) (hdb : NoDuplicates config.chrono s.db) :
    (∀ x ∈ tr, NoDuplicates config.chrono x.2.db) ↔
      Run.StepsMeet (Unraced config.chrono) s tr := by
  refine forall_db_iff_stepsMeet (fun s a s' hs hstep => Screened.step hchrono hs hstep)
    (fun s a hother => ?_) (fun s call c => unit_noDuplicates_iff hchrono) hrun h hdb
  cases a with
  | memorize => trivial
  | forget => trivial
  | proceed call fails =>
      cases fails with
      | false => exact absurd rfl (hother call)
      | true => trivial

end LongTermWorld

end Steps

/-! ## The same fact in two calls -/

open LongTermWorld

theorem noDuplicates_iff_unraced_tea :
    ∃ tr, exec (LongTermWorld.step sampleStore) (idle teaStore) teaActions = some tr ∧
      ((∀ x ∈ tr, NoDuplicates Chrono.utc x.2.db) ↔
        Run.StepsMeet (Unraced Chrono.utc) (idle teaStore) tr) := by
  obtain ⟨tr, htr⟩ := exists_exec_tea
  refine ⟨tr, htr, noDuplicates_iff_unraced Chrono.utc_ordered (run_of_exec htr)
    ⟨allocated_idle_tea, by decide, by decide, fun call c hcall => by cases hcall⟩ ?_⟩
  intro f hf g hg hne
  rw [List.mem_singleton.mp hf, List.mem_singleton.mp hg] at hne
  exact absurd rfl hne

/-- Two calls with one fact, a second apart, each unit of the one before the same of the other. -/
def twoCalls : List (LongTermAction Int) :=
  [.memorize 0 "agent:a:main" "tea at five" "preferences" 3 0,
    .memorize 1 "agent:a:main" "tea at five" "preferences" 3 nanosPerSecond,
    .proceed 0 false, .proceed 1 false, .proceed 0 false, .proceed 1 false,
    .proceed 0 false, .proceed 1 false, .proceed 0 false, .proceed 1 false,
    .proceed 0 false, .proceed 1 false]

/-- What a call of `twoCalls` writes. -/
def teaFact (id now : Int) : Fact Int where
  id := id
  sourceSessionId := "agent:a:main"
  content := "tea at five"
  kind := "preferences"
  importance := 3
  embedding := 55
  createdAt := utcText now

theorem fact_memorized_twice : ∃ tr, Run (LongTermWorld.step sampleStore) (idle emptyStore) tr ∧
    NoDuplicates Chrono.utc (idle emptyStore).db ∧ ∃ x ∈ tr, ¬ NoDuplicates Chrono.utc x.2.db := by
  obtain ⟨tr, hrun, x, hx, hfacts⟩ := exists_run_of_exec (LongTermWorld.step sampleStore)
    (idle emptyStore) twoCalls
    (fun s => decide (s.db.facts = [teaFact 1 0, teaFact 2 nanosPerSecond])) (by decide +kernel)
  refine ⟨tr, hrun, fun f hf => (by cases hf), x, hx, fun hall => ?_⟩
  rw [NoDuplicates, of_decide_eq_true hfacts] at hall
  exact hall (teaFact 1 0) (by simp) (teaFact 2 nanosPerSecond) (by simp) (by decide) rfl rfl
    0 nanosPerSecond ⟨by decide, rfl⟩ ⟨by decide, rfl⟩ (by decide)

end Memory
end SimpleClaw
