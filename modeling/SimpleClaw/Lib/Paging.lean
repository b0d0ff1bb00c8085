import Mathlib.Data.Nat.Init
import Mathlib.Data.List.Forall2

/-!
# Reading page by page

A reader that is given a position answers with one page of a list, and the answer says at which
position to go on, or that this was the end.

* `Followed`: the answers got by going on where each one says; `Followed.unique` says that there
  is one way only.
* `Windowed`: every answer shows the items from its position on, as many as the limit allows.
* `Windowed.followed`: then following the answers shows all items, each once and in order.
-/

namespace Paging

universe u v w

variable {ε : Type u} {ω : Type v} {α : Type w}

/-- What answers say of the positions after them. -/
structure Footers (ω : Type v) where
  continues : ω → Nat → Prop
  ends : ω → Prop

/-- An answer goes on at one position, or is the last one. -/
structure Footers.Clear (footers : Footers ω) : Prop where
  unique : ∀ out k k', footers.continues out k → footers.continues out k' → k = k'
  apart : ∀ out k, footers.continues out k → ¬ footers.ends out

/-- The answers, with their positions, from the first one to the one that says it is the last. -/
inductive Followed (footers : Footers ω) (read : Nat → Except ε ω) : Nat → List (Nat × ω) → Prop
  | last {position : Nat} {out : ω} (hread : read position = .ok out) (hends : footers.ends out) :
      Followed footers read position [(position, out)]
  | more {position next : Nat} {out : ω} {rest : List (Nat × ω)}
      (hread : read position = .ok out) (hnext : footers.continues out next)
      (hrest : Followed footers read next rest) :
      Followed footers read position ((position, out) :: rest)

/-- **Following the answers leads to one end.** -/
theorem Followed.unique {footers : Footers ω} (hclear : footers.Clear) {read : Nat → Except ε ω}
    {position : Nat} {pages pages' : List (Nat × ω)} (h : Followed footers read position pages)
    (h' : Followed footers read position pages') : pages = pages' := by
  induction h generalizing pages' with
  | last hread hends =>
      cases h' with
      | last hread' hends' => rw [Except.ok.inj (hread.symm.trans hread')]
      | more hread' hnext' hrest' =>
          rw [Except.ok.inj (hread.symm.trans hread')] at hends
          exact absurd hends (hclear.apart _ _ hnext')
  | more hread hnext hrest ih =>
      cases h' with
      | last hread' hends' =>
          rw [Except.ok.inj (hread.symm.trans hread')] at hnext
          exact absurd hends' (hclear.apart _ _ hnext)
      | more hread' hnext' hrest' =>
          obtain rfl := Except.ok.inj (hread.symm.trans hread')
          obtain rfl := hclear.unique _ _ _ hnext hnext'
          rw [ih hrest']

/-! ## Windows -/

/-- The items in pages of the given size; there is a page for no items too. -/
def pagesOf (limit : Nat) (items : List α) : List (List α) :=
  if limit < items.length ∧ 0 < limit then
    items.take limit :: pagesOf limit (items.drop limit)
  else [items]
termination_by items.length
decreasing_by
  rename_i h
  rw [List.length_drop]
  omega

theorem pagesOf_of_lt {limit : Nat} {items : List α} (hlimit : 0 < limit)
    (h : limit < items.length) :
    pagesOf limit items = items.take limit :: pagesOf limit (items.drop limit) := by
  rw [pagesOf, if_pos ⟨h, hlimit⟩]

theorem pagesOf_of_le {limit : Nat} {items : List α} (h : items.length ≤ limit) :
    pagesOf limit items = [items] := by
  rw [pagesOf, if_neg fun hlt => absurd hlt.1 (Nat.not_lt.mpr h)]

/-- The pages hold each item once, in order. -/
theorem flatten_pagesOf {limit : Nat} (hlimit : 0 < limit) (items : List α) :
    (pagesOf limit items).flatten = items := by
  induction hlength : items.length using Nat.strong_induction_on generalizing items with
  | _ n ih =>
      by_cases h : limit < items.length
      · rw [pagesOf_of_lt hlimit h, List.flatten_cons,
          ih _ (by rw [List.length_drop]; omega) _ rfl, List.take_append_drop]
      · rw [pagesOf_of_le (Nat.not_lt.mp h), List.flatten_singleton]

/-- **Every answer shows the items from its position on**, and where more are left it goes on with
the next one. -/
structure Windowed (footers : Footers ω) (shows : List α → ω → Prop) (read : Nat → Except ε ω)
    (items : List α) (limit : Nat) : Prop where
  window : ∀ start, start = 0 ∨ start < items.length → ∃ out, read (start + 1) = .ok out ∧
    shows ((items.drop start).take limit) out ∧
    (start + limit < items.length → footers.continues out (start + limit + 1)) ∧
    (items.length ≤ start + limit → footers.ends out)

theorem Windowed.congr {footers : Footers ω} {shows : List α → ω → Prop}
    {read read' : Nat → Except ε ω} {items : List α} {limit : Nat}
    (h : Windowed footers shows read items limit)
    (hread : ∀ start, read' (start + 1) = read (start + 1)) :
    Windowed footers shows read' items limit where
  window start hstart := by
    obtain ⟨out, hout, hrest⟩ := h.window start hstart
    exact ⟨out, (hread start).trans hout, hrest⟩

/-- The positions at which the pages begin. -/
def positions (limit first : Nat) (count : Nat) : List Nat :=
  (List.range count).map fun page => first + page * limit

theorem positions_succ (limit first count : Nat) :
    positions limit first (count + 1) = first :: positions limit (first + limit) count := by
  rw [positions, List.range_succ_eq_map, List.map_cons, List.map_map, positions]
  refine congrArg₂ List.cons (by omega) (List.map_congr_left fun page _ => ?_)
  show first + (page + 1) * limit = first + limit + page * limit
  rw [Nat.add_mul, Nat.one_mul, Nat.add_assoc, Nat.add_comm limit]

/-- The answers from one position on. -/
theorem Windowed.followed_from {footers : Footers ω} {shows : List α → ω → Prop}
    {read : Nat → Except ε ω} {items : List α} {limit : Nat} (hlimit : 0 < limit)
    (h : Windowed footers shows read items limit) {start : Nat}
    (hstart : start = 0 ∨ start < items.length) :
    ∃ pages, Followed footers read (start + 1) pages ∧
      pages.map Prod.fst =
        positions limit (start + 1) (pagesOf limit (items.drop start)).length ∧
      List.Forall₂ (fun page chunk => shows chunk page.2) pages
        (pagesOf limit (items.drop start)) := by
  induction hleft : items.length - start using Nat.strong_induction_on generalizing start with
  | _ n ih =>
      obtain ⟨out, hread, hshows, hmore, hend⟩ := h.window start hstart
      by_cases hlast : items.length ≤ start + limit
      · have hone : pagesOf limit (items.drop start) = [items.drop start] :=
          pagesOf_of_le (by rw [List.length_drop]; omega)
        rw [List.take_of_length_le (by rw [List.length_drop]; omega)] at hshows
        rw [hone]
        exact ⟨[(start + 1, out)], .last hread (hend hlast), by simp [positions],
          .cons hshows .nil⟩
      · obtain ⟨pages, hpages, hpositions, hchunks⟩ := ih (items.length - (start + limit))
          (by omega)
          (show start + limit = 0 ∨ start + limit < items.length from .inr (by omega)) rfl
        have hmany : pagesOf limit (items.drop start) =
            (items.drop start).take limit :: pagesOf limit (items.drop (start + limit)) := by
          rw [pagesOf_of_lt hlimit (by rw [List.length_drop]; omega), List.drop_drop]
        rw [hmany]
        refine ⟨(start + 1, out) :: pages, .more hread (hmore (by omega)) hpages, ?_,
          .cons hshows hchunks⟩
        rw [List.map_cons, hpositions, List.length_cons, positions_succ]
        exact congrArg (fun first => (start + 1) :: positions limit first _) (by omega)

/-- **Following the answers from the first position shows all pages.** -/
theorem Windowed.followed {footers : Footers ω} {shows : List α → ω → Prop}
    {read : Nat → Except ε ω} {items : List α} {limit : Nat} (hlimit : 0 < limit)
    (h : Windowed footers shows read items limit) :
    ∃ pages, Followed footers read 1 pages ∧
      pages.map Prod.fst = positions limit 1 (pagesOf limit items).length ∧
      List.Forall₂ (fun page chunk => shows chunk page.2) pages (pagesOf limit items) :=
  h.followed_from hlimit (.inl rfl)

end Paging
