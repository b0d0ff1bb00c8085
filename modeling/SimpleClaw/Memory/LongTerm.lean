import Mathlib.Data.Prod.Lex
import Mathlib.Order.Monotone.Basic
import SimpleClaw.Chrono
import SimpleClaw.Error
import SimpleClaw.Lib.Nearest

/-!
# Long-term memory

A fact is a row of `ltm_facts`, and its embedding is a row of the vector index `ltm_facts_vec`
under the same id.  `memorize` looks for the fact among the recent ones, then for a similar one to
replace, and writes; `semantic_forget_long_term` searches and deletes.  Each of these is a unit of
its own that other calls may come between.

Embeddings, their distances and the similarities computed from them are parameters, the latter two
in linear orders; so are the texts of instants.

* `LongTermDb`: the two tables, with the statements on them.
* `memorizeRequest`, `hasRecentLongTermFact`, `nearestOfKind`: the steps of `memorize`.
* `forgetRequest`, `forgetMatches`: those of `semantic_forget_long_term`.
-/

namespace SimpleClaw
namespace Memory

/-! ## Vectors and similarities -/

/-- A row of a vector index. -/
structure VecRow (E : Type) where
  id : Int
  embedding : E
  deriving DecidableEq

/-- How the rows of an index are compared to a query: by distance, and in a fixed order of the ids
where the distance is the same. -/
structure VecIndex (E D : Type) where
  distance : E → E → D
  tie : Int → Int
  tie_injective : Function.Injective tie

/-- What is computed from the distances. -/
structure Similarity (D F : Type) [LinearOrder D] [LinearOrder F] where
  /-- `1.0 - (distance * distance / 2.0)` -/
  ofDistance : D → F
  antitone : Antitone ofDistance
  zero : F
  one : F
  zero_le_one : zero ≤ one
  /-- `0.92` -/
  supersedeThreshold : F

section Index

variable {E D : Type} [LinearOrder D]

/-- The place of a row in the ranking for a query. -/
def VecIndex.key (index : VecIndex E D) (query : E) (row : VecRow E) : D ×ₗ Int :=
  toLex (index.distance query row.embedding, index.tie row.id)

/-- The rows that `embedding MATCH query AND k = k` selects. -/
def VecIndex.nearest (index : VecIndex E D) (query : E) (k : Nat) (rows : List (VecRow E)) :
    List (VecRow E) :=
  Nearest.nearest (index.key query) k rows

omit [LinearOrder D] in
/-- Rows with different ids are never in one place. -/
theorem VecIndex.key_distinct (index : VecIndex E D) (query : E) {rows : List (VecRow E)}
    (hids : (rows.map VecRow.id).Nodup) : Nearest.Distinct (index.key query) rows := by
  intro a ha b hb hkey
  have htie : index.tie a.id = index.tie b.id := (Prod.ext_iff.mp hkey).2
  exact List.inj_on_of_nodup_map hids ha hb (index.tie_injective htie)

end Index

/-! ## The tables -/

/-- A row of `ltm_facts`. -/
structure Fact (E : Type) where
  id : Int
  sourceSessionId : Text
  content : Text
  kind : Text
  importance : Int
  embedding : E
  createdAt : Text
  deriving DecidableEq

/-- The tables of long-term memory; `sequence` is the largest id that has been given out. -/
structure LongTermDb (E : Type) where
  facts : List (Fact E)
  vec : List (VecRow E)
  sequence : Int

namespace LongTermDb

variable {E : Type}

def factIds (db : LongTermDb E) : List Int := db.facts.map Fact.id

def vecIds (db : LongTermDb E) : List Int := db.vec.map VecRow.id

/-- `JOIN ltm_facts f ON f.id = v.fact_id` -/
def fact (db : LongTermDb E) (id : Int) : Option (Fact E) := db.facts.find? fun f => f.id = id

/-- `INSERT INTO ltm_facts`, with the id of the new row. -/
def insertFact (db : LongTermDb E) (sourceSessionId content kind : Text) (importance : Int)
    (embedding : E) (createdAt : Text) : Int × LongTermDb E :=
  let id := db.sequence + 1
  (id, { db with
    facts := db.facts ++ [{ id, sourceSessionId, content, kind, importance, embedding, createdAt }]
    sequence := id })

/-- `INSERT INTO ltm_facts_vec` -/
def insertVec (db : LongTermDb E) (id : Int) (embedding : E) :
    Except FrameworkError (LongTermDb E) :=
  if db.vecIds.contains id then
    .error (.db "UNIQUE constraint failed on ltm_facts_vec primary key")
  else .ok { db with vec := db.vec ++ [{ id, embedding }] }

/-- `DELETE FROM ltm_facts_vec` -/
def deleteVec (db : LongTermDb E) (id : Int) : LongTermDb E :=
  { db with vec := db.vec.filter fun row => row.id ≠ id }

/-- `UPDATE ltm_facts` -/
def updateFact (db : LongTermDb E) (id : Int) (sourceSessionId content : Text) (importance : Int)
    (embedding : E) (createdAt : Text) : LongTermDb E :=
  { db with
    facts := db.facts.map fun f =>
      if f.id = id then { f with sourceSessionId, content, importance, embedding, createdAt }
      else f }

/-- `DELETE FROM ltm_facts` -/
def deleteFact (db : LongTermDb E) (id : Int) : LongTermDb E :=
  { db with facts := db.facts.filter fun f => f.id ≠ id }

end LongTermDb

/-! ## Kinds -/

def allowedMemoryKinds : List Text :=
  ["general", "profile", "preferences", "project", "task", "constraint"]

def normalizeMemoryKind (value : Text) : Option Text :=
  let normalized := (Text.toAsciiLowercase value.trim).map fun c =>
    if c = '-' ∨ c = ' ' then '_' else c
  if allowedMemoryKinds.contains normalized then some normalized else none

def parseMemoryKind (value : Text) : Except FrameworkError Text :=
  match normalizeMemoryKind value with
  | some kind => .ok kind
  | none => .error (.tool (("invalid memory kind '" : Text) ++ value ++
      ("'. allowed kinds: " : Text) ++ Text.joinWith '|' allowedMemoryKinds))

/-! ## Memorizing -/

/-- What the store is configured with. -/
structure LongTermConfig (E D F : Type) [LinearOrder D] [LinearOrder F] where
  chrono : Chrono
  embed : Text → E
  index : VecIndex E D
  similarity : Similarity D F

def memorizeDedupeWindow : Int := 300 * nanosPerSecond

/-- A call of `memorize` that has passed its checks; `now` is the instant of the call. -/
structure MemorizeRequest where
  session : Text
  fact : Text
  kind : Text
  importance : Int
  now : Int
  deriving DecidableEq

def memorizeRequest (session content kind : Text) (importance : Nat) (now : Int) :
    Except FrameworkError MemorizeRequest :=
  if content.trim = [] then .error (.tool "memorize requires non-empty content")
  else
    match if kind.trim = [] then .ok ("general" : Text) else parseMemoryKind kind.trim with
    | .error e => .error e
    | .ok kind =>
        .ok { session, fact := content.trim, kind, importance := (min (max importance 1) 5 : Nat),
              now }

/-- A fact of the kind with the content, created at the cutoff or later. -/
def hasRecentLongTermFact {E : Type} (db : LongTermDb E)
    (kind content dedupeCutoff : Text) : Bool :=
  db.facts.any fun f =>
    decide (f.kind = kind) && decide (f.content = content) && !decide (f.createdAt < dedupeCutoff)

section Statements

variable {E D F : Type} [LinearOrder D] [LinearOrder F] (config : LongTermConfig E D F)
  (db : LongTermDb E)

/-- The rows nearest to a query with their facts and similarities, nearest first. -/
def similarFacts (query : E) (k : Nat) : List (Fact E × F) :=
  (config.index.nearest query k db.vec).filterMap fun row =>
    (db.fact row.id).map fun f =>
      (f, config.similarity.ofDistance (config.index.distance query row.embedding))

/-- The nearest row of the index, if it is a fact of the kind. -/
def nearestOfKind (kind : Text) (query : E) : Option (Fact E × F) :=
  ((similarFacts config db query 1).filter fun found => found.1.kind = kind).head?

/-- The fact that is to be replaced. -/
def supersededBy (kind : Text) (query : E) : Option (Fact E) :=
  match nearestOfKind config db kind query with
  | some (f, similarity) =>
      if config.similarity.supersedeThreshold ≤ similarity then some f else none
  | none => none

/-- The transaction that replaces a fact. -/
def supersede (id : Int) (req : MemorizeRequest) (embedding : E) :
    Except FrameworkError (LongTermDb E) :=
  ((db.updateFact id req.session req.fact req.importance embedding
    (config.chrono.toRfc3339 req.now)).deleteVec id).insertVec id embedding

/-! ## Forgetting -/

/-- A call of `semantic_forget_long_term`, with its arguments in range. -/
structure ForgetRequest (F : Type) where
  query : Text
  similarityThreshold : F
  maxMatches : Nat
  kindFilter : Option Text
  commit : Bool

omit db in
def forgetRequest (query : Text) (similarityThreshold : F) (maxMatches : Nat)
    (kindFilter : Option Text) (commit : Bool) : Except FrameworkError (ForgetRequest F) :=
  if query.trim = [] then .error (.tool "forget requires non-empty query")
  else
    .ok { query := query.trim
          similarityThreshold :=
            max config.similarity.zero (min similarityThreshold config.similarity.one)
          maxMatches := min (max maxMatches 1) 50
          kindFilter, commit }

/-- The filter on kinds, read once the query has been embedded. -/
def parseKindFilter (kindFilter : Option Text) : Except FrameworkError (Option Text) :=
  match kindFilter.map Text.trim with
  | none => .ok none
  | some value => if value = [] then .ok none else (parseMemoryKind value).map some

/-- The facts to forget. -/
def forgetMatches (req : ForgetRequest F) (kind : Option Text) (query : E) : List (Fact E × F) :=
  let fetchLimit := if kind.isSome then req.maxMatches * 5 else req.maxMatches
  ((similarFacts config db query fetchLimit).filter fun found =>
    decide (req.similarityThreshold ≤ found.2) && kind.all fun kind => decide (found.1.kind = kind)
    ).take req.maxMatches

/-- The transaction that deletes facts. -/
def deleteFacts (ids : List Int) (db : LongTermDb E) : LongTermDb E :=
  ids.foldl (fun db id => (db.deleteFact id).deleteVec id) db

end Statements

/-! ## What the statements do to the ids -/

namespace LongTermDb

variable {E : Type} {db db' : LongTermDb E} {id : Int} {embedding : E}

@[simp] theorem factIds_insertFact (sourceSessionId content kind : Text) (importance : Int)
    (createdAt : Text) :
    (db.insertFact sourceSessionId content kind importance embedding createdAt).2.factIds =
      db.factIds ++ [db.sequence + 1] := by
  simp [factIds, insertFact]

@[simp] theorem vecIds_insertFact (sourceSessionId content kind : Text) (importance : Int)
    (createdAt : Text) :
    (db.insertFact sourceSessionId content kind importance embedding createdAt).2.vecIds =
      db.vecIds := rfl

@[simp] theorem factIds_deleteVec : (db.deleteVec id).factIds = db.factIds := rfl

@[simp] theorem vecIds_deleteVec : (db.deleteVec id).vecIds = db.vecIds.filter (· ≠ id) := by
  rw [vecIds, vecIds, deleteVec, List.filter_map]
  rfl

@[simp] theorem factIds_deleteFact : (db.deleteFact id).factIds = db.factIds.filter (· ≠ id) := by
  rw [factIds, factIds, deleteFact, List.filter_map]
  rfl

@[simp] theorem vecIds_deleteFact : (db.deleteFact id).vecIds = db.vecIds := rfl

@[simp] theorem factIds_updateFact (sourceSessionId content : Text) (importance : Int)
    (createdAt : Text) :
    (db.updateFact id sourceSessionId content importance embedding createdAt).factIds =
      db.factIds := by
  rw [factIds, factIds, updateFact, List.map_map]
  refine List.map_congr_left fun f _ => ?_
  show (if f.id = id then _ else f : Fact E).id = f.id
  split
  · rfl
  · rfl

@[simp] theorem vecIds_updateFact (sourceSessionId content : Text) (importance : Int)
    (createdAt : Text) :
    (db.updateFact id sourceSessionId content importance embedding createdAt).vecIds =
      db.vecIds := rfl

/-- Without such a row, `UPDATE` does nothing. -/
theorem updateFact_of_notMem (h : id ∉ db.factIds) (sourceSessionId content : Text)
    (importance : Int) (createdAt : Text) :
    db.updateFact id sourceSessionId content importance embedding createdAt = db := by
  have hfacts : ∀ f ∈ db.facts, (if f.id = id then
      { f with sourceSessionId, content, importance, embedding, createdAt } else f) = f :=
    fun f hf => if_neg fun (hid : f.id = id) => h (hid ▸ List.mem_map_of_mem hf)
  rw [updateFact, List.map_congr_left hfacts, List.map_id']

/-- A vector can be inserted under an id that has none. -/
theorem insertVec_eq_ok_iff : db.insertVec id embedding = .ok db' ↔
    id ∉ db.vecIds ∧ db' = { db with vec := db.vec ++ [{ id, embedding }] } := by
  rw [insertVec]
  split
  · next hmem => exact iff_of_false (by simp) fun h => h.1 (List.contains_iff_mem.mp hmem)
  · next hmem =>
      have hnot : id ∉ db.vecIds := fun h => hmem (List.contains_iff_mem.mpr h)
      exact ⟨fun h => ⟨hnot, (Except.ok.inj h).symm⟩, fun h => by rw [h.2]⟩

end LongTermDb

section Transactions

variable {E D F : Type} [LinearOrder D] [LinearOrder F] {config : LongTermConfig E D F}
  {db : LongTermDb E}

variable (config db) in
/-- The replacement puts the vector at the end of the index, whether there is a fact or not. -/
theorem exists_supersede (id : Int) (req : MemorizeRequest) (embedding : E) :
    ∃ db', supersede config db id req embedding = .ok db' ∧
      db'.facts = (db.updateFact id req.session req.fact req.importance embedding
        (config.chrono.toRfc3339 req.now)).facts ∧
      db'.factIds = db.factIds ∧ db'.vecIds = db.vecIds.filter (· ≠ id) ++ [id] ∧
      db'.sequence = db.sequence := by
  refine ⟨_, LongTermDb.insertVec_eq_ok_iff.mpr ⟨by simp, rfl⟩, rfl,
    LongTermDb.factIds_updateFact _ _ _ _, ?_, rfl⟩
  show ((db.deleteVec id).vec ++ ([⟨id, embedding⟩] : List (VecRow E))).map VecRow.id = _
  rw [List.map_append]
  exact congrArg (· ++ [id]) LongTermDb.vecIds_deleteVec

theorem factIds_deleteFacts (ids : List Int) :
    (deleteFacts ids db).factIds = db.factIds.filter fun id => id ∉ ids := by
  induction ids generalizing db with
  | nil => simp [deleteFacts]
  | cons id ids ih =>
      rw [deleteFacts, List.foldl_cons, ← deleteFacts, ih]
      simp [List.filter_filter, Bool.and_comm]

theorem vecIds_deleteFacts (ids : List Int) :
    (deleteFacts ids db).vecIds = db.vecIds.filter fun id => id ∉ ids := by
  induction ids generalizing db with
  | nil => simp [deleteFacts]
  | cons id ids ih =>
      rw [deleteFacts, List.foldl_cons, ← deleteFacts, ih]
      simp [List.filter_filter, Bool.and_comm]

theorem mem_facts_of_mem_deleteFacts {ids : List Int} {f : Fact E}
    (h : f ∈ (deleteFacts ids db).facts) : f ∈ db.facts := by
  induction ids generalizing db with
  | nil => exact h
  | cons id ids ih => exact List.mem_of_mem_filter (ih h)

theorem sequence_deleteFacts (ids : List Int) : (deleteFacts ids db).sequence = db.sequence := by
  induction ids generalizing db with
  | nil => rfl
  | cons id ids ih => exact ih

end Transactions

/-! ## What the reads find -/

section Reads

variable {E D F : Type} [LinearOrder D] [LinearOrder F] {config : LongTermConfig E D F}
  {db : LongTermDb E}

theorem mem_facts_of_mem_similarFacts {query : E} {k : Nat} {found : Fact E × F}
    (h : found ∈ similarFacts config db query k) : found.1 ∈ db.facts := by
  obtain ⟨row, -, hrow⟩ := List.mem_filterMap.mp h
  obtain ⟨f, hf, rfl⟩ := Option.map_eq_some_iff.mp hrow
  exact List.mem_of_find?_eq_some hf

/-- A fact that is to be replaced is a stored one of the kind. -/
theorem supersededBy_eq_some {kind : Text} {query : E} {f : Fact E}
    (h : supersededBy config db kind query = some f) : f ∈ db.facts ∧ f.kind = kind := by
  rw [supersededBy] at h
  cases hnearest : nearestOfKind config db kind query with
  | none => simp [hnearest] at h
  | some found =>
      obtain ⟨f', similarity⟩ := found
      simp only [hnearest, Option.ite_none_right_eq_some, Option.some.injEq] at h
      obtain ⟨-, rfl⟩ := h
      obtain ⟨hmem, hkind⟩ := List.mem_filter.mp (List.mem_of_mem_head? hnearest)
      exact ⟨mem_facts_of_mem_similarFacts hmem, of_decide_eq_true hkind⟩

theorem memorizeRequest_eq_ok {session content kind : Text} {importance : Nat} {now : Int}
    {req : MemorizeRequest} (h : memorizeRequest session content kind importance now = .ok req) :
    req.fact = content.trim ∧ req.now = now := by
  rw [memorizeRequest] at h
  split at h
  · cases h
  · split at h
    · cases h
    · obtain rfl := Except.ok.inj h
      exact ⟨rfl, rfl⟩

/-- The duplicate check finds every fact of the kind with the content that is not too old. -/
theorem hasRecentLongTermFact_eq_false_iff {kind content dedupeCutoff : Text} :
    hasRecentLongTermFact db kind content dedupeCutoff = false ↔
      ∀ f ∈ db.facts, f.kind = kind → f.content = content → f.createdAt < dedupeCutoff := by
  rw [hasRecentLongTermFact, List.any_eq_false]
  refine forall₂_congr fun f _ => ?_
  simp only [Bool.and_eq_true, decide_eq_true_eq, Bool.not_eq_true', decide_eq_false_iff_not,
    not_and, not_not]
  exact ⟨fun h hkind hcontent => h ⟨hkind, hcontent⟩, fun h hboth => h hboth.1 hboth.2⟩

end Reads

end Memory
end SimpleClaw
