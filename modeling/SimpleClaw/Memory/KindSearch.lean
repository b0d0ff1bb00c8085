import SimpleClaw.Memory.IndexConsistency

/-!
# Searching for facts of a kind

The vector index knows nothing of kinds: it gives the rows nearest to a query, and the facts of
other kinds among them are passed over afterwards.  So `memorize` and
`semantic_forget_long_term`, when no other call comes between their units, see the facts of a kind
only as far as those of other kinds leave room for them.

A fact that is not in the index is in no search.

* `indexedFacts`: all facts in the index, nearest first.
* `memorize`, `semanticForgetLongTerm`: the calls as wholes; `LongTermWorld.Finishes` says that
  the units of a call alone come to this.
* `supersedesNearest_iff`: a fact like the new one is replaced exactly when the nearest row is of
  its kind.
* `forgetsMostSimilar_iff`: the right facts are forgotten exactly when enough of them are among the
  rows that are read.
-/

namespace SimpleClaw
namespace Memory

open Transition

section Search

variable {E D F : Type} [LinearOrder D] [LinearOrder F] (config : LongTermConfig E D F)
  (db : LongTermDb E)

/-- The facts in the index with their similarities to a query, nearest first. -/
def indexedFacts (query : E) : List (Fact E × F) := similarFacts config db query db.vec.length

/-- A search reads the first of them. -/
theorem prefix_similarFacts (query : E) (k : Nat) :
    similarFacts config db query k <+: indexedFacts config db query := by
  refine List.IsPrefix.filterMap _ ?_
  have hall : config.index.nearest query db.vec.length db.vec =
      Nearest.byKey (config.index.key query) db.vec :=
    List.take_of_length_le (Nearest.perm_byKey db.vec).length_eq.le
  rw [hall]
  exact List.take_prefix k _

theorem length_similarFacts_le (query : E) (k : Nat) :
    (similarFacts config db query k).length ≤ k :=
  (List.length_filterMap_le _ _).trans (List.length_take_le k _)

/-- Nearer facts are not less similar. -/
theorem pairwise_indexedFacts (query : E) :
    (indexedFacts config db query).Pairwise fun a b => b.2 ≤ a.2 := by
  have hrows : (config.index.nearest query db.vec.length db.vec).Pairwise fun a b =>
      config.index.key query a ≤ config.index.key query b :=
    (Nearest.pairwise_byKey db.vec).sublist (List.take_sublist _ _)
  refine hrows.filterMap _ fun row row' hkey found hfound found' hfound' => ?_
  obtain ⟨f, -, rfl⟩ := Option.map_eq_some_iff.mp hfound
  obtain ⟨f', -, rfl⟩ := Option.map_eq_some_iff.mp hfound'
  exact config.similarity.antitone (Prod.Lex.monotone_fst _ _ hkey)

variable {config db}

/-- What a search of one row finds is most similar of all. -/
theorem le_of_mem_similarFacts_one {query : E} {found other : Fact E × F}
    (h : found ∈ similarFacts config db query 1)
    (hother : other ∈ indexedFacts config db query) : other.2 ≤ found.2 := by
  obtain ⟨rest, hrest⟩ := prefix_similarFacts config db query 1
  have hone := length_similarFacts_le config db query 1
  obtain ⟨first, hfirst⟩ : ∃ first, similarFacts config db query 1 = [first] := by
    rw [← List.length_eq_one_iff]
    have hpos := List.length_pos_of_mem h
    omega
  rw [hfirst, List.mem_singleton] at h
  rw [← hrest, hfirst, ← h, List.singleton_append] at hother
  have hsorted := pairwise_indexedFacts config db query
  rw [← hrest, hfirst, ← h, List.singleton_append, List.pairwise_cons] at hsorted
  rcases List.mem_cons.mp hother with rfl | hother
  · exact le_rfl
  · exact hsorted.1 other hother

/-- The nearest row of the index belongs to a stored fact of the kind. -/
def NearestIsOfKind (config : LongTermConfig E D F) (db : LongTermDb E) (kind : Text)
    (query : E) : Prop :=
  ∃ found ∈ similarFacts config db query 1, found.1.kind = kind

theorem nearestOfKind_eq_none_iff {kind : Text} {query : E} :
    nearestOfKind config db kind query = none ↔ ¬ NearestIsOfKind config db kind query := by
  rw [nearestOfKind, List.head?_eq_none_iff, List.filter_eq_nil_iff, NearestIsOfKind]
  simp only [decide_eq_true_eq, not_exists, not_and]

end Search

/-! ## A call alone -/

namespace LongTermWorld

section Alone

variable {E D F : Type} [LinearOrder D] [LinearOrder F] (config : LongTermConfig E D F)
  {s : LongTermWorld E F} {call : Nat} {db : LongTermDb E}

/-- The units of the call, with none that fails and no other call between them, lead to these
tables. -/
def Finishes (s : LongTermWorld E F) (call : Nat) (db : LongTermDb E) : Prop :=
  ∃ tr, Run (step config) s tr ∧ (∀ x ∈ tr, x.1 = .proceed call false) ∧
    (Run.final s tr).calls call = none ∧ (Run.final s tr).db = db

variable {config}

/-- A call that is over has finished. -/
theorem finishes_of_none (h : s.calls call = none) : Finishes config s call s.db :=
  ⟨[], .nil s, by simp, h, rfl⟩

/-- A call finishes as it does after its next unit. -/
theorem Finishes.of_unit {c : LongTermCall E F} (hcall : s.calls call = some c)
    (h : Finishes config (s.unit config call c) call db) : Finishes config s call db := by
  obtain ⟨tr, hrun, hall, hend, hdb⟩ := h
  have hstep : step config s (.proceed call false) = some (s.unit config call c) := by
    simp [step, hcall]
  exact ⟨_, .cons hstep hrun, List.forall_mem_cons.mpr ⟨rfl, hall⟩, hend, hdb⟩

omit [LinearOrder F] in
theorem db_goesOn (s : LongTermWorld E F) (call : Nat) (next : Option (LongTermCall E F)) :
    (s.goesOn call next).db = s.db := rfl

omit [LinearOrder F] in
theorem calls_goesOn (s : LongTermWorld E F) (call : Nat) (next : Option (LongTermCall E F)) :
    (s.goesOn call next).calls call = next := Function.update_self ..

/-- The vector of a new fact is inserted, or it is not. -/
theorem finishes_indexing_ok {id : Int} {blob : E} (hcall : s.calls call = some (.indexing id blob))
    (h : s.db.insertVec id blob = .ok db) : Finishes config s call db := by
  refine .of_unit hcall ?_
  simp only [unit, h]
  exact finishes_of_none (calls_goesOn ..)

theorem finishes_indexing_error {id : Int} {blob : E} {e : FrameworkError}
    (hcall : s.calls call = some (.indexing id blob)) (h : s.db.insertVec id blob = .error e) :
    Finishes config s call s.db := by
  refine .of_unit hcall ?_
  simp only [unit, h]
  exact finishes_of_none (calls_goesOn ..)

end Alone

end LongTermWorld

/-! ## Memorizing -/

inductive MemorizeResult where
  | inserted
  | updated (supersededContent : Text)
  | duplicate
  deriving DecidableEq

section Memorize

variable {E D F : Type} [LinearOrder D] [LinearOrder F] (config : LongTermConfig E D F)
  (db : LongTermDb E)

/-- The writing part of a call: the most similar fact is replaced, or there is a new one. -/
def MemorizeRequest.write (req : MemorizeRequest) (blob : E) :
    Except FrameworkError MemorizeResult × LongTermDb E :=
  match supersededBy config db req.kind blob with
  | some f =>
      match supersede config db f.id req blob with
      | .error e => (.error e, db)
      | .ok db => (.ok (.updated f.content), db)
  | none =>
      let (id, inserted) := db.insertFact req.session req.fact req.kind req.importance blob
        (config.chrono.toRfc3339 req.now)
      match inserted.insertVec id blob with
      | .error e => (.error e, inserted)
      | .ok db => (.ok .inserted, db)

/-- A call of `memorize` that has passed its checks, with the tables it leaves. -/
def MemorizeRequest.run (req : MemorizeRequest) :
    Except FrameworkError MemorizeResult × LongTermDb E :=
  if hasRecentLongTermFact db req.kind req.fact
      (config.chrono.toRfc3339 (req.now - memorizeDedupeWindow)) then (.ok .duplicate, db)
  else req.write config db (config.embed req.fact)

/-- `memorize`, with the tables it leaves. -/
def memorize (session content kind : Text) (importance : Nat) (now : Int) :
    Except FrameworkError MemorizeResult × LongTermDb E :=
  match memorizeRequest session content kind importance now with
  | .error e => (.error e, db)
  | .ok req => req.run config db

/-- **The most similar fact of the kind has been replaced by the new one**: it has the new content,
the others are as they were, and there are as many as before. -/
structure SupersedesNearest (req : MemorizeRequest) (after : LongTermDb E) (old : Fact E × F) :
    Prop where
  indexed : old ∈ indexedFacts config db (config.embed req.fact)
  kind : old.1.kind = req.kind
  mostSimilar : ∀ other ∈ indexedFacts config db (config.embed req.fact),
    other.1.kind = req.kind → other.2 ≤ old.2
  stays : old.1.id ∈ after.factIds
  replaced : ∀ f ∈ after.facts, f.id = old.1.id → f.content = req.fact
  kept : ∀ f ∈ db.facts, f.id ≠ old.1.id → f ∈ after.facts
  length : after.facts.length = db.facts.length

variable {config db}

/-- **From the read of the fact to replace on, the units of a call come to this.** -/
theorem MemorizeRequest.finishes_write {s : LongTermWorld E F} {call : Nat}
    {req : MemorizeRequest} {blob : E} (hcall : s.calls call = some (.looking req blob)) :
    LongTermWorld.Finishes config s call (req.write config s.db blob).2 := by
  refine .of_unit hcall ?_
  cases hsome : supersededBy config s.db req.kind blob with
  | some f =>
      obtain ⟨db', hdb', -⟩ := exists_supersede config s.db f.id req blob
      simp only [LongTermWorld.unit, MemorizeRequest.write, hsome, hdb']
      refine .of_unit (LongTermWorld.calls_goesOn ..) ?_
      simp only [LongTermWorld.unit, LongTermWorld.goesOn, hdb']
      exact LongTermWorld.finishes_of_none (Function.update_self ..)
  | none =>
      simp only [LongTermWorld.unit, MemorizeRequest.write, hsome]
      refine .of_unit (LongTermWorld.calls_goesOn ..) ?_
      simp only [LongTermWorld.unit, LongTermWorld.db_goesOn]
      generalize s.db.insertFact req.session req.fact req.kind req.importance blob
        (config.chrono.toRfc3339 req.now) = inserted
      cases hvec : inserted.2.insertVec inserted.1 blob with
      | error e => exact LongTermWorld.finishes_indexing_error (LongTermWorld.calls_goesOn ..) hvec
      | ok db => exact LongTermWorld.finishes_indexing_ok (LongTermWorld.calls_goesOn ..) hvec

/-- **The units of a call that has passed its checks come to this.** -/
theorem MemorizeRequest.finishes {s : LongTermWorld E F} {call : Nat} {req : MemorizeRequest}
    (hcall : s.calls call = some (.checking req)) :
    LongTermWorld.Finishes config s call (req.run config s.db).2 := by
  refine .of_unit hcall ?_
  cases hrecent : hasRecentLongTermFact s.db req.kind req.fact
      (config.chrono.toRfc3339 (req.now - memorizeDedupeWindow)) with
  | true =>
      simp only [LongTermWorld.unit, MemorizeRequest.run, hrecent]
      exact LongTermWorld.finishes_of_none (Function.update_self ..)
  | false =>
      simp only [LongTermWorld.unit, MemorizeRequest.run, hrecent]
      refine .of_unit (LongTermWorld.calls_goesOn ..) ?_
      exact MemorizeRequest.finishes_write (LongTermWorld.calls_goesOn ..)

/-- Without a fact to replace, there is one more. -/
theorem length_facts_run_of_none {req : MemorizeRequest}
    (hfresh : hasRecentLongTermFact db req.kind req.fact
      (config.chrono.toRfc3339 (req.now - memorizeDedupeWindow)) = false)
    (h : supersededBy config db req.kind (config.embed req.fact) = none) :
    (req.run config db).2.facts.length = db.facts.length + 1 := by
  simp only [MemorizeRequest.run, MemorizeRequest.write, hfresh, h]
  have hlength : (db.insertFact req.session req.fact req.kind req.importance
      (config.embed req.fact) (config.chrono.toRfc3339 req.now)).2.facts.length =
        db.facts.length + 1 := List.length_append
  cases hvec : (db.insertFact req.session req.fact req.kind req.importance
      (config.embed req.fact) (config.chrono.toRfc3339 req.now)).2.insertVec
        (db.insertFact req.session req.fact req.kind req.importance
          (config.embed req.fact) (config.chrono.toRfc3339 req.now)).1
        (config.embed req.fact) with
  | error e => exact hlength
  | ok db' =>
      obtain ⟨-, rfl⟩ := LongTermDb.insertVec_eq_ok_iff.mp hvec
      exact hlength

/-- A fact that is to be replaced is. -/
theorem facts_run_of_some {req : MemorizeRequest} {f : Fact E}
    (hfresh : hasRecentLongTermFact db req.kind req.fact
      (config.chrono.toRfc3339 (req.now - memorizeDedupeWindow)) = false)
    (h : supersededBy config db req.kind (config.embed req.fact) = some f) :
    (req.run config db).2.facts = (db.updateFact f.id req.session req.fact req.importance
      (config.embed req.fact) (config.chrono.toRfc3339 req.now)).facts := by
  obtain ⟨db', hdb', hfacts, -⟩ := exists_supersede config db f.id req (config.embed req.fact)
  simp only [MemorizeRequest.run, MemorizeRequest.write, hfresh, h, hdb']
  exact hfacts

/-- The fact nearest to the new one, updated, is the most similar one replaced. -/
theorem supersedesNearest_of_updated {req : MemorizeRequest} {after : LongTermDb E}
    {best : Fact E × F} (hmem : best ∈ similarFacts config db (config.embed req.fact) 1)
    (hkind : best.1.kind = req.kind)
    (hfacts : after.facts = (db.updateFact best.1.id req.session req.fact req.importance
      (config.embed req.fact) (config.chrono.toRfc3339 req.now)).facts) :
    SupersedesNearest config db req after best where
  indexed := (prefix_similarFacts config db _ 1).subset hmem
  kind := hkind
  mostSimilar := fun other hother _ => le_of_mem_similarFacts_one hmem hother
  stays := by
    rw [LongTermDb.factIds, hfacts]
    show best.1.id ∈ LongTermDb.factIds _
    rw [LongTermDb.factIds_updateFact]
    exact List.mem_map_of_mem (mem_facts_of_mem_similarFacts hmem)
  replaced := by
    intro f hf hid
    rw [hfacts] at hf
    obtain ⟨g, -, rfl⟩ := List.mem_map.mp hf
    by_cases hg : g.id = best.1.id
    · rw [if_pos hg]
    · rw [if_neg hg] at hid
      exact absurd hid hg
  kept := by
    intro f hf hid
    rw [hfacts]
    exact List.mem_map.mpr ⟨f, hf, if_neg hid⟩
  length := by
    rw [hfacts]
    exact List.length_map _

/-- **A fact like the new one is replaced exactly when the nearest row of the index is of the
kind**, whatever the facts of other kinds are. -/
theorem supersedesNearest_iff {session content kind : Text} {importance : Nat} {now : Int}
    {req : MemorizeRequest} (hreq : memorizeRequest session content kind importance now = .ok req)
    (hfresh : hasRecentLongTermFact db req.kind req.fact
      (config.chrono.toRfc3339 (req.now - memorizeDedupeWindow)) = false)
    (hsimilar : ∃ old ∈ indexedFacts config db (config.embed req.fact), old.1.kind = req.kind ∧
      config.similarity.supersedeThreshold ≤ old.2) :
    (∃ old, SupersedesNearest config db req
        (memorize config db session content kind importance now).2 old) ↔
      NearestIsOfKind config db req.kind (config.embed req.fact) := by
  simp only [memorize, hreq]
  constructor
  · rintro ⟨old, hold⟩
    by_contra hnot
    have hnone : supersededBy config db req.kind (config.embed req.fact) = none := by
      rw [supersededBy, nearestOfKind_eq_none_iff.mpr hnot]
    have hlength := hold.length
    rw [length_facts_run_of_none hfresh hnone] at hlength
    omega
  · intro hnearest
    obtain ⟨best, hbest⟩ : ∃ best, nearestOfKind config db req.kind (config.embed req.fact) =
        some best := by
      rw [← Option.ne_none_iff_exists']
      exact fun hnone => nearestOfKind_eq_none_iff.mp hnone hnearest
    obtain ⟨hmem, hkind⟩ := List.mem_filter.mp (List.mem_of_mem_head? hbest)
    have hreaches : config.similarity.supersedeThreshold ≤ best.2 := by
      obtain ⟨old, hold, -, hthreshold⟩ := hsimilar
      exact hthreshold.trans (le_of_mem_similarFacts_one hmem hold)
    have hsome : supersededBy config db req.kind (config.embed req.fact) = some best.1 := by
      rw [supersededBy, hbest]
      exact if_pos hreaches
    exact ⟨best, supersedesNearest_of_updated hmem (of_decide_eq_true hkind)
      (facts_run_of_some hfresh hsome)⟩

end Memorize

def teaAtSeven : Fact Int where
  id := 1
  sourceSessionId := "agent:a:main"
  content := "tea at seven"
  kind := "preferences"
  importance := 3
  embedding := 60
  createdAt := utcText 0

def teaAtNine (id : Int) (kind : Text) : Fact Int where
  id := id
  sourceSessionId := "agent:a:main"
  content := "tea at nine"
  kind := kind
  importance := 3
  embedding := 55
  createdAt := utcText 0

/-- Two facts that are like a new one, the second of them more so. -/
def teaFacts (kind : Text) : LongTermDb Int where
  facts := [teaAtSeven, teaAtNine 2 kind]
  vec := [{ id := 1, embedding := 60 }, { id := 2, embedding := 55 }]
  sequence := 2

/-- The new fact. -/
def teaAtFive : MemorizeRequest where
  session := "agent:a:main"
  fact := "tea at five"
  kind := "preferences"
  importance := 3
  now := 3600 * nanosPerSecond

theorem exists_similar_tea (kind : Text) :
    ∃ old ∈ indexedFacts sampleStore (teaFacts kind) (sampleStore.embed teaAtFive.fact),
      old.1.kind = teaAtFive.kind ∧ sampleStore.similarity.supersedeThreshold ≤ old.2 := by
  exact ⟨(teaAtSeven, 95), List.mem_of_getElem? (i := 1) rfl, rfl, by decide⟩

theorem supersedesNearest_tea :
    ∃ old, SupersedesNearest sampleStore (teaFacts "preferences") teaAtFive
      (memorize sampleStore (teaFacts "preferences") "agent:a:main" "tea at five" "preferences" 3
        (3600 * nanosPerSecond)).2 old :=
  (supersedesNearest_iff (show memorizeRequest _ _ _ _ _ = .ok teaAtFive from rfl)
    (by decide +kernel) (exists_similar_tea "preferences")).mpr
    ⟨(teaAtNine 2 "preferences", 100), List.mem_of_getElem? (i := 0) rfl, rfl⟩

/-- A fact of another kind is nearer, so the new fact is stored beside the one it is like. -/
theorem tea_not_superseded :
    ¬ ∀ (db : LongTermDb Int) (session content kind : Text) (importance : Nat) (now : Int)
        (req : MemorizeRequest), memorizeRequest session content kind importance now = .ok req →
      hasRecentLongTermFact db req.kind req.fact
        (sampleStore.chrono.toRfc3339 (req.now - memorizeDedupeWindow)) = false →
      (∃ old ∈ indexedFacts sampleStore db (sampleStore.embed req.fact), old.1.kind = req.kind ∧
        sampleStore.similarity.supersedeThreshold ≤ old.2) →
      ∃ old, SupersedesNearest sampleStore db req
        (memorize sampleStore db session content kind importance now).2 old := by
  intro h
  obtain ⟨old, hold⟩ := h (teaFacts "general") "agent:a:main" "tea at five" "preferences" 3
    (3600 * nanosPerSecond) teaAtFive rfl (by decide +kernel) (exists_similar_tea "general")
  exact absurd hold.length (by decide +kernel)

/-! ## Forgetting -/

/-- What is reported of a call of `semantic_forget_long_term`. -/
structure LongTermForgetResult (E F : Type) where
  found : List (Fact E × F)
  deletedCount : Nat
  similarityThreshold : F
  maxMatches : Nat
  kindFilter : Option Text

section Forget

variable {E D F : Type} [LinearOrder D] [LinearOrder F] (config : LongTermConfig E D F)
  (db : LongTermDb E)

/-- A call of `semantic_forget_long_term` that has passed its first checks, with the tables it
leaves. -/
def ForgetRequest.run (req : ForgetRequest F) :
    Except FrameworkError (LongTermForgetResult E F) × LongTermDb E :=
  match parseKindFilter req.kindFilter with
  | .error e => (.error e, db)
  | .ok kind =>
      let found := forgetMatches config db req kind (config.embed req.query)
      let after :=
        if req.commit ∧ found ≠ [] then deleteFacts (found.map fun item => item.1.id) db else db
      (.ok { found
             deletedCount := db.facts.length - after.facts.length
             similarityThreshold := req.similarityThreshold
             maxMatches := req.maxMatches
             kindFilter := kind }, after)

/-- `semantic_forget_long_term`, with the tables it leaves. -/
def semanticForgetLongTerm (query : Text) (similarityThreshold : F) (maxMatches : Nat)
    (kindFilter : Option Text) (commit : Bool) :
    Except FrameworkError (LongTermForgetResult E F) × LongTermDb E :=
  match forgetRequest config query similarityThreshold maxMatches kindFilter commit with
  | .error e => (.error e, db)
  | .ok req => req.run config db

/-- The facts of the kind that are similar enough. -/
def qualifying (req : ForgetRequest F) (kind : Text) (found : List (Fact E × F)) :
    List (Fact E × F) :=
  found.filter fun item =>
    decide (req.similarityThreshold ≤ item.2) && decide (item.1.kind = kind)

/-- Of all, the given number of most similar ones, or all of them if there are fewer. -/
structure MostSimilar (chosen all : List (Fact E × F)) (n : Nat) : Prop where
  length : chosen.length = min n all.length
  sublist : chosen.Sublist all
  best : ∀ a ∈ chosen, ∀ b ∈ all, b ∉ chosen → b.2 ≤ a.2

/-- **The most similar facts of the kind are found, up to the limit**, and exactly these are deleted
if they are to be. -/
structure ForgetsMostSimilar (req : ForgetRequest F) (kind : Text)
    (answer : Except FrameworkError (LongTermForgetResult E F) × LongTermDb E)
    (result : LongTermForgetResult E F) : Prop where
  succeeds : answer.1 = .ok result
  mostSimilar : MostSimilar result.found
    (qualifying req kind (indexedFacts config db (config.embed req.query))) req.maxMatches
  facts : answer.2.facts =
    if req.commit then
      db.facts.filter fun f => f.id ∉ result.found.map fun item => item.1.id
    else db.facts
  vec : answer.2.vec =
    if req.commit then
      db.vec.filter fun row => row.id ∉ result.found.map fun item => item.1.id
    else db.vec

/-- As many facts of the kind are among the rows that are read as are to be found. -/
def EnoughNear (req : ForgetRequest F) (kind : Text) : Prop :=
  let query := config.embed req.query
  min req.maxMatches (qualifying req kind (indexedFacts config db query)).length ≤
    (qualifying req kind (similarFacts config db query (req.maxMatches * 5))).length

variable {config db}

theorem facts_deleteFacts (ids : List Int) :
    (deleteFacts ids db).facts = db.facts.filter fun f => f.id ∉ ids := by
  induction ids generalizing db with
  | nil => simp [deleteFacts]
  | cons id ids ih =>
      rw [deleteFacts, List.foldl_cons, ← deleteFacts, ih]
      show (db.facts.filter _).filter _ = _
      rw [List.filter_filter]
      refine List.filter_congr fun f _ => ?_
      simp [Bool.and_comm]

theorem vec_deleteFacts (ids : List Int) :
    (deleteFacts ids db).vec = db.vec.filter fun row => row.id ∉ ids := by
  induction ids generalizing db with
  | nil => simp [deleteFacts]
  | cons id ids ih =>
      rw [deleteFacts, List.foldl_cons, ← deleteFacts, ih]
      show (db.vec.filter _).filter _ = _
      rw [List.filter_filter]
      refine List.filter_congr fun row _ => ?_
      simp [Bool.and_comm]

omit [LinearOrder F] in
/-- Nothing is deleted when nothing has been found. -/
theorem ite_deleteFacts (commit : Bool) (found : List (Fact E × F)) :
    (if commit ∧ found ≠ [] then deleteFacts (found.map fun item => item.1.id) db else db) =
      if commit then deleteFacts (found.map fun item => item.1.id) db else db := by
  cases found with
  | nil =>
      rw [if_neg (by simp)]
      cases commit <;> rfl
  | cons item found => simp

/-- **The units of a call that has passed its first checks come to this.** -/
theorem ForgetRequest.finishes {s : LongTermWorld E F} {call : Nat} {req : ForgetRequest F}
    (hcall : s.calls call = some (.recalling req)) :
    LongTermWorld.Finishes config s call (req.run config s.db).2 := by
  refine .of_unit hcall ?_
  cases hkind : parseKindFilter req.kindFilter with
  | error e =>
      simp only [LongTermWorld.unit, ForgetRequest.run, hkind]
      exact LongTermWorld.finishes_of_none (Function.update_self ..)
  | ok kind =>
      simp only [LongTermWorld.unit, ForgetRequest.run, hkind]
      refine .of_unit (LongTermWorld.calls_goesOn ..) ?_
      generalize hfound : forgetMatches config s.db req kind (config.embed req.query) = found
      simp only [LongTermWorld.unit, LongTermWorld.goesOn, hfound]
      by_cases hcommit : req.commit = true ∧ found ≠ []
      · rw [if_pos hcommit, if_pos hcommit]
        exact .of_unit (Function.update_self ..)
          (LongTermWorld.finishes_of_none (Function.update_self ..))
      · rw [if_neg hcommit, if_neg hcommit]
        exact LongTermWorld.finishes_of_none (Function.update_self ..)

variable (config db) in
/-- What is found is the first part of what there is to find. -/
theorem prefix_qualifying (req : ForgetRequest F) (kind : Text) (query : E) (k : Nat) :
    qualifying req kind (similarFacts config db query k) <+:
      qualifying req kind (indexedFacts config db query) :=
  (prefix_similarFacts config db query k).filter _

theorem forgetMatches_some (req : ForgetRequest F) (kind : Text) (query : E) :
    forgetMatches config db req (some kind) query =
      (qualifying req kind (similarFacts config db query (req.maxMatches * 5))).take
        req.maxMatches := rfl

omit [LinearOrder D] in
/-- The first items of a list in the order of their similarities are the most similar ones. -/
theorem mostSimilar_of_first {chosen all : List (Fact E × F)} {n : Nat}
    (hsorted : all.Pairwise fun a b => b.2 ≤ a.2) (hfirst : chosen <+: all)
    (hlength : chosen.length = min n all.length) : MostSimilar chosen all n := by
  refine ⟨hlength, hfirst.sublist, fun a ha b hb hnot => ?_⟩
  obtain ⟨rest, rfl⟩ := hfirst
  have hrest : b ∈ rest := (List.mem_append.mp hb).resolve_left hnot
  exact (List.pairwise_append.mp hsorted).2.2 a ha b hrest

/-- **The right facts are forgotten exactly when enough of them are among the rows that are
read**, five times as many as may be forgotten. -/
theorem forgetsMostSimilar_iff {query : Text} {similarityThreshold : F} {maxMatches : Nat}
    {kindFilter : Option Text} {commit : Bool} {req : ForgetRequest F} {kind : Text}
    (hreq : forgetRequest config query similarityThreshold maxMatches kindFilter commit = .ok req)
    (hkind : parseKindFilter req.kindFilter = .ok (some kind)) :
    (∃ result, ForgetsMostSimilar config db req kind
        (semanticForgetLongTerm config db query similarityThreshold maxMatches kindFilter commit)
        result) ↔ EnoughNear config db req kind := by
  have hfirst : forgetMatches config db req (some kind) (config.embed req.query) <+:
      qualifying req kind (indexedFacts config db (config.embed req.query)) := by
    rw [forgetMatches_some]
    have hfront := List.take_prefix req.maxMatches (qualifying req kind
      (similarFacts config db (config.embed req.query) (req.maxMatches * 5)))
    exact hfront.trans (prefix_qualifying config db req kind _ _)
  have hlength : (forgetMatches config db req (some kind) (config.embed req.query)).length =
      min req.maxMatches
        (qualifying req kind (similarFacts config db (config.embed req.query)
          (req.maxMatches * 5))).length := by
    rw [forgetMatches_some, List.length_take]
  simp only [semanticForgetLongTerm, hreq, ForgetRequest.run, hkind]
  constructor
  · rintro ⟨result, hanswer, hmost, -, -⟩
    obtain rfl := Except.ok.inj hanswer
    have := hmost.length
    rw [hlength] at this
    show min _ _ ≤ _
    omega
  · intro henough
    have hall : min req.maxMatches
        (qualifying req kind (indexedFacts config db (config.embed req.query))).length ≤
          (qualifying req kind (similarFacts config db (config.embed req.query)
            (req.maxMatches * 5))).length := henough
    have hle := (prefix_qualifying config db req kind
      (config.embed req.query) (req.maxMatches * 5)).length_le
    refine ⟨_, rfl, mostSimilar_of_first ((pairwise_indexedFacts config db _).filter _) hfirst ?_,
      ?_, ?_⟩
    · rw [hlength]
      omega
    · rw [ite_deleteFacts, apply_ite LongTermDb.facts, facts_deleteFacts]
    · rw [ite_deleteFacts, apply_ite LongTermDb.vec, vec_deleteFacts]

end Forget

/-- Five facts of one kind that are nearer to a query than one of another. -/
def crowdedStore : LongTermDb Int where
  facts := teaAtSeven :: ([2, 3, 4, 5, 6] : List Int).map fun id => teaAtNine id "general"
  vec := ⟨1, 60⟩ :: ([2, 3, 4, 5, 6] : List Int).map fun id => ⟨id, 55⟩
  sequence := 6

/-- A call that forgets one fact, or shows which one. -/
def forgetTea (kind : Text) : ForgetRequest Int where
  query := "tea at five"
  similarityThreshold := 90
  maxMatches := 1
  kindFilter := some kind
  commit := true

theorem forgetsMostSimilar_general :
    ∃ result, ForgetsMostSimilar sampleStore crowdedStore (forgetTea "general") "general"
      (semanticForgetLongTerm sampleStore crowdedStore "tea at five" 90 1 (some "general") true)
      result :=
  (forgetsMostSimilar_iff
    (show forgetRequest sampleStore _ _ _ _ _ = .ok (forgetTea "general") from rfl) rfl).mpr
    (by decide : min 1 _ ≤ _)

/-- The facts of another kind take up all rows that are read. -/
theorem preference_not_forgotten :
    ¬ ∀ (db : LongTermDb Int) (query : Text) (similarityThreshold : Int) (maxMatches : Nat)
        (kindFilter : Option Text) (commit : Bool) (req : ForgetRequest Int) (kind : Text),
      forgetRequest sampleStore query similarityThreshold maxMatches kindFilter commit = .ok req →
      parseKindFilter req.kindFilter = .ok (some kind) →
      ∃ result, ForgetsMostSimilar sampleStore db req kind
        (semanticForgetLongTerm sampleStore db query similarityThreshold maxMatches kindFilter
          commit) result := by
  intro h
  obtain ⟨result, hresult⟩ := h crowdedStore "tea at five" 90 1 (some "preferences") true
    (forgetTea "preferences") "preferences" rfl rfl
  have hone : result.found.length = 1 := hresult.mostSimilar.length
  have hnone : (semanticForgetLongTerm sampleStore crowdedStore "tea at five" 90 1
      (some "preferences") true).1.toOption.map (fun result => result.found.length) = some 0 := by
    decide
  rw [hresult.succeeds] at hnone
  exact absurd (hone.symm.trans (Option.some.inj hnone)) (by decide)

end Memory
end SimpleClaw
