import Mathlib.Data.List.Infix

/-!
# Walking on a stack

A walk reads a list of moves over a stack: stay, go up (drop the top, or do
nothing on an empty stack) or go down (push).  The stack is written with its top
at the end of the list, so that being below a stack is having it as a prefix.

* `walk`: the stack after a list of moves.
* `map_move`: what is pushed plays no part in it.
* `NeverAbove.prefix_walk`: a walk that does not pop more than it has pushed stays below its start.
-/

namespace StackWalk

universe u

/-- One move on a stack. -/
inductive Move (α : Type u) where
  | stay
  | up
  | down (a : α)

variable {α : Type u}

/-- What a move does to the stack. -/
def move : List α → Move α → List α
  | st, .stay => st
  | st, .up => st.dropLast
  | st, .down a => st ++ [a]

/-- The stack after a list of moves. -/
def walk (st : List α) (ms : List (Move α)) : List α := ms.foldl move st

@[simp] theorem walk_nil (st : List α) : walk st [] = st := rfl

@[simp] theorem walk_cons (st : List α) (m : Move α) (ms : List (Move α)) :
    walk st (m :: ms) = walk (move st m) ms := rfl

/-- A walk is taken in stages. -/
theorem walk_append (st : List α) (ms ns : List (Move α)) :
    walk st (ms ++ ns) = walk (walk st ms) ns := List.foldl_append ..

/-- A walk that only goes down appends what it pushes. -/
theorem walk_map_down (st l : List α) : walk st (l.map Move.down) = st ++ l := by
  induction l generalizing st with
  | nil => simp
  | cons a l ih => rw [List.map_cons, walk_cons, ih, move, List.append_assoc, List.singleton_append]

/-! ## Renaming what is pushed -/

/-- The move with another name for what it pushes. -/
def Move.map {β : Type*} (f : α → β) : Move α → Move β
  | .stay => .stay
  | .up => .up
  | .down a => .down (f a)

theorem map_move {β : Type*} (f : α → β) (st : List α) (m : Move α) :
    (move st m).map f = move (st.map f) (m.map f) := by
  cases m with
  | stay => rfl
  | up => exact List.map_dropLast
  | down a => exact List.map_append

/-! ## Walks that keep what they start with -/

def Move.isUp : Move α → Bool
  | .up => true
  | .stay | .down _ => false

def Move.isDown : Move α → Bool
  | .down _ => true
  | .stay | .up => false

/-- At no point has the walk popped more than it has pushed. -/
def NeverAbove (ms : List (Move α)) : Prop :=
  ∀ ns, ns <+: ms → ns.countP Move.isUp ≤ ns.countP Move.isDown

/-- With `above` on top of the stack, as much as `above` may be popped besides. -/
theorem prefix_walk_append {st above : List α} {ms : List (Move α)}
    (h : ∀ ns, ns <+: ms → ns.countP Move.isUp ≤ ns.countP Move.isDown + above.length) :
    st <+: walk (st ++ above) ms := by
  induction ms generalizing above with
  | nil => exact List.prefix_append st above
  | cons m ms ih =>
    have hrest : ∀ ns, ns <+: ms → (m :: ns).countP Move.isUp ≤
        (m :: ns).countP Move.isDown + above.length :=
      fun ns hns => h (m :: ns) (List.cons_prefix_cons.mpr ⟨rfl, hns⟩)
    rw [walk_cons]
    cases m with
    | stay => exact ih fun ns hns => by simpa [Move.isUp, Move.isDown] using hrest ns hns
    | up =>
      have hpos := hrest [] List.nil_prefix
      rcases List.eq_nil_or_concat above with rfl | ⟨init, last, rfl⟩
      · simp [Move.isUp, Move.isDown] at hpos
      · rw [List.concat_eq_append] at hrest ⊢
        rw [move, ← List.append_assoc, List.dropLast_concat]
        refine ih fun ns hns => ?_
        have hcount := hrest ns hns
        simp only [List.countP_cons, Move.isUp, Move.isDown, if_true, Bool.false_eq_true,
          if_false, List.length_append, List.length_singleton] at hcount
        omega
    | down a =>
      rw [move, List.append_assoc]
      refine ih fun ns hns => ?_
      have hcount := hrest ns hns
      simp only [List.countP_cons, Move.isUp, Move.isDown, if_true, Bool.false_eq_true,
        if_false] at hcount
      rw [List.length_append, List.length_singleton]
      omega

/-- **A walk that never pops more than it has pushed ends where it started or below.** -/
theorem NeverAbove.prefix_walk {ms : List (Move α)} (h : NeverAbove ms) (st : List α) :
    st <+: walk st ms := by
  have hempty : st <+: walk (st ++ []) ms := prefix_walk_append fun ns hns => h ns hns
  rwa [List.append_nil] at hempty

end StackWalk
