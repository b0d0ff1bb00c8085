import Mathlib.Data.Finset.Card
import Mathlib.Data.List.Nodup
import SimpleClaw.Lib.I64
import SimpleClaw.Memory.LongTerm

/-!
# Short-term memory

The messages of all sessions are in one table, and the vectors of those that were said by the user
or the assistant in one index, under the ids of the messages.  The table is in the order of the
ids, which are given out once.

* `ShortTermDb`: the two tables.
* `appendMessage`: the only write.
* `conversation`: what was said in a session, which is all that is read of it.
* `SameSession`: two stores have the same rows of a session; a message of another session changes
  none of them (`sameSession_appendMessage`), nor do any number of these (`sameSession_appendAll`).
-/

namespace SimpleClaw
namespace Memory

inductive StoredRole where
  | user
  | assistant
  | system
  | tool
  deriving DecidableEq

def StoredRole.asDbStr : StoredRole → Text
  | .user => "user"
  | .assistant => "assistant"
  | .system => "system"
  | .tool => "tool"

/-- A row of `messages`; the column of the role holds its `asDbStr`. -/
structure MessageRow where
  id : Int
  sessionId : Text
  role : StoredRole
  content : Text
  username : Option Text
  deriving DecidableEq

/-- `role = 'user' OR role = 'assistant'` -/
def MessageRow.Said (m : MessageRow) : Prop := m.role = .user ∨ m.role = .assistant

instance (m : MessageRow) : Decidable m.Said := inferInstanceAs (Decidable (_ ∨ _))

/-- The tables of short-term memory; `sequence` is the largest id that has been given out. -/
structure ShortTermDb (E : Type) where
  messages : List MessageRow
  vec : List (VecRow E)
  sequence : Int
  increasing : messages.Pairwise fun m n => m.id < n.id
  allocated : ∀ m ∈ messages, 0 < m.id ∧ m.id ≤ sequence
  nonneg : 0 ≤ sequence
  le_max : sequence ≤ i64Max
  vecIds : (vec.map VecRow.id).Nodup

namespace ShortTermDb

variable {E : Type}

def empty (E : Type) : ShortTermDb E where
  messages := []
  vec := []
  sequence := 0
  increasing := List.Pairwise.nil
  allocated := by simp
  nonneg := le_rfl
  le_max := zero_le_i64Max
  vecIds := List.nodup_nil

/-- `INSERT OR REPLACE INTO messages_vec` -/
def replaceVec (vec : List (VecRow E)) (id : Int) (embedding : E) : List (VecRow E) :=
  vec.filter (fun row => row.id ≠ id) ++ ([⟨id, embedding⟩] : List (VecRow E))

/-- What was said is put into the index, if its vector could be computed. -/
def indexMessage (vec : List (VecRow E)) (id : Int) (role : StoredRole) (embedding : Option E) :
    List (VecRow E) :=
  let shouldIndexShortTerm := decide (role = .user ∨ role = .assistant)
  match embedding with
  | some embedding => if shouldIndexShortTerm then replaceVec vec id embedding else vec
  | none => vec

theorem nodup_replaceVec {vec : List (VecRow E)} (h : (vec.map VecRow.id).Nodup) (id : Int)
    (embedding : E) : ((replaceVec vec id embedding).map VecRow.id).Nodup := by
  rw [replaceVec, List.map_append, List.map_singleton]
  refine List.Nodup.append (h.sublist (List.filter_sublist.map _)) (List.nodup_singleton id) ?_
  intro id' hid' hid
  obtain ⟨row, hrow, rfl⟩ := List.mem_map.mp hid'
  exact of_decide_eq_true (List.mem_filter.mp hrow).2 (List.mem_singleton.mp hid)

theorem nodup_indexMessage {vec : List (VecRow E)} (h : (vec.map VecRow.id).Nodup) (id : Int)
    (role : StoredRole) (embedding : Option E) :
    ((indexMessage vec id role embedding).map VecRow.id).Nodup := by
  cases embedding with
  | none => exact h
  | some embedding =>
      rw [indexMessage]
      split
      · exact nodup_replaceVec h id embedding
      · exact h

/-- The vectors of other messages stay. -/
theorem mem_indexMessage_iff {vec : List (VecRow E)} {id : Int} {row : VecRow E}
    (h : row.id ≠ id) (role : StoredRole) (embedding : Option E) :
    row ∈ indexMessage vec id role embedding ↔ row ∈ vec := by
  cases embedding with
  | none => exact Iff.rfl
  | some embedding =>
      rw [indexMessage]
      split
      · rw [replaceVec, List.mem_append, List.mem_filter, List.mem_singleton, or_iff_left]
        · exact and_iff_left (by simpa using h)
        · rintro rfl
          exact h rfl
      · exact Iff.rfl

/-- The columns of a message that is appended. -/
def newMessage (id : Int) (sessionId : Text) (role : StoredRole) (content : Text)
    (username : Option Text) : MessageRow where
  id := id
  sessionId := sessionId
  role := role
  content := content
  username := (username.map Text.trim).filter fun name => name ≠ []

/-- `embedding` is the vector of the content, if it could be computed. -/
def appendMessage (db : ShortTermDb E) (sessionId : Text) (role : StoredRole) (content : Text)
    (username : Option Text) (embedding : Option E) : Except FrameworkError (ShortTermDb E) :=
  if h : db.sequence < i64Max then
    let id := db.sequence + 1
    .ok {
      messages := db.messages ++ [newMessage id sessionId role content username]
      vec := indexMessage db.vec id role embedding
      sequence := id
      increasing := by
        refine List.pairwise_append.mpr ⟨db.increasing, List.pairwise_singleton _ _, ?_⟩
        intro m hm n hn
        rw [List.mem_singleton.mp hn]
        exact Int.lt_add_one_of_le (db.allocated m hm).2
      allocated := by
        intro m hm
        rcases List.mem_append.mp hm with hm | hm
        · exact ⟨(db.allocated m hm).1, le_trans (db.allocated m hm).2 (by omega)⟩
        · rw [List.mem_singleton.mp hm]
          exact ⟨Int.lt_add_one_of_le db.nonneg, le_rfl⟩
      nonneg := Int.le_add_one db.nonneg
      le_max := h
      vecIds := nodup_indexMessage db.vecIds _ role embedding }
  else .error (.db "database or disk is full")

/-- The arguments of `appendMessage`. -/
structure NewMessage (E : Type) where
  sessionId : Text
  role : StoredRole
  content : Text
  username : Option Text
  embedding : Option E

/-- Messages one after the other. -/
def appendAll (db : ShortTermDb E) : List (NewMessage E) → Except FrameworkError (ShortTermDb E)
  | [] => .ok db
  | m :: messages => do
      let db ← db.appendMessage m.sessionId m.role m.content m.username m.embedding
      db.appendAll messages

/-- `WHERE session_id = session AND (role = 'user' OR role = 'assistant')`, in the order of the
ids. -/
def conversation (db : ShortTermDb E) (session : Text) : List MessageRow :=
  db.messages.filter fun m => m.sessionId = session ∧ m.Said

/-- The last messages of a conversation, which are part of the history anyway. -/
def fetchRecentShortTermIds (db : ShortTermDb E) (session : Text) (historyWindow : Nat) :
    Finset Int :=
  if historyWindow = 0 then ∅
  else (((db.conversation session).reverse.take historyWindow).map MessageRow.id).toFinset

end ShortTermDb

/-! ## What the session has in two stores -/

/-- The stores have the same messages of the session, and the same vectors of them. -/
structure SameSession {E : Type} (session : Text) (db db' : ShortTermDb E) : Prop where
  messages : ∀ m, m.sessionId = session → (m ∈ db.messages ↔ m ∈ db'.messages)
  vec : ∀ m ∈ db.messages, m.sessionId = session →
    ∀ row : VecRow E, row.id = m.id → (row ∈ db.vec ↔ row ∈ db'.vec)

section Session

variable {E : Type} {session : Text} {db db' : ShortTermDb E}

theorem mem_conversation {m : MessageRow} : m ∈ db.conversation session ↔
    m ∈ db.messages ∧ m.sessionId = session ∧ m.Said := by
  rw [ShortTermDb.conversation, List.mem_filter, decide_eq_true_eq]

theorem pairwise_conversation (db : ShortTermDb E) (session : Text) :
    (db.conversation session).Pairwise fun m n => m.id < n.id := db.increasing.filter _

/-- What was said in the session is the same. -/
theorem SameSession.conversation (h : SameSession session db db') :
    db.conversation session = db'.conversation session := by
  have hmem : ∀ m, m ∈ db.conversation session ↔ m ∈ db'.conversation session := fun m => by
    rw [mem_conversation, mem_conversation]
    exact and_congr_left fun hm => h.messages m hm.1
  have hnodup : ∀ db : ShortTermDb E, (db.conversation session).Nodup := fun db =>
    (pairwise_conversation db session).imp fun hlt heq => (heq ▸ hlt).ne rfl
  refine List.Perm.eq_of_pairwise (fun m n _ _ hmn hnm => absurd hmn hnm.not_gt)
    (pairwise_conversation db session) (pairwise_conversation db' session)
    ((List.perm_ext_iff_of_nodup (hnodup db) (hnodup db')).mpr hmem)

/-- A message of another session leaves the session as it was. -/
theorem sameSession_appendMessage {other : Text} (hother : other ≠ session) {role : StoredRole}
    {content : Text} {username : Option Text} {embedding : Option E}
    (happend : db.appendMessage other role content username embedding = .ok db') :
    SameSession session db db' := by
  rw [ShortTermDb.appendMessage] at happend
  split at happend
  · obtain rfl := Except.ok.inj happend
    refine ⟨fun m hm => ?_, fun m hm _ row hrow => ?_⟩
    · rw [List.mem_append, List.mem_singleton, or_iff_left]
      rintro rfl
      exact hother hm
    · have hle := (db.allocated m hm).2
      exact (ShortTermDb.mem_indexMessage_iff (by omega) role embedding).symm
  · cases happend

theorem SameSession.refl (session : Text) (db : ShortTermDb E) : SameSession session db db :=
  ⟨fun _ _ => Iff.rfl, fun _ _ _ _ _ => Iff.rfl⟩

theorem SameSession.symm (h : SameSession session db db') : SameSession session db' db where
  messages m hm := (h.messages m hm).symm
  vec m hmem hm row hrow := (h.vec m ((h.messages m hm).mpr hmem) hm row hrow).symm

theorem SameSession.trans {db'' : ShortTermDb E} (h : SameSession session db db')
    (h' : SameSession session db' db'') : SameSession session db db'' where
  messages m hm := (h.messages m hm).trans (h'.messages m hm)
  vec m hmem hm row hrow :=
    (h.vec m hmem hm row hrow).trans (h'.vec m ((h.messages m hm).mp hmem) hm row hrow)

/-- **Nor do any number of them.** -/
theorem sameSession_appendAll {messages : List (ShortTermDb.NewMessage E)}
    (hother : ∀ m ∈ messages, m.sessionId ≠ session) (happend : db.appendAll messages = .ok db') :
    SameSession session db db' := by
  induction messages generalizing db with
  | nil =>
      obtain rfl := Except.ok.inj happend
      exact SameSession.refl session db
  | cons m messages ih =>
      obtain ⟨db₁, hm, hrest⟩ := bind_eq_ok_iff.mp happend
      exact (sameSession_appendMessage (hother m List.mem_cons_self) hm).trans
        (ih (fun n hn => hother n (List.mem_cons_of_mem m hn)) hrest)

end Session

end Memory
end SimpleClaw
