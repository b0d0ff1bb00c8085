import Mathlib.Data.List.Basic

/-!
# Words and what stands between them

A list is cut at its separators into words, and every word but the first keeps the separator in
front of it.  Walking over the words, a word may take the one after it.

* `Chunk.split`, `Chunk.join`: the words of a list, with `Chunk.join_split`,
  `Chunk.split_append_cons` and `Chunk.exists_split_eq_cons`.
* `Chunk.split_map`: renaming the entries renames them in the words.
* `takeMarks`: which elements of a list are taken by the one before them.  An element that is
  taken takes nothing.
* `notTaken`, `armedAfter`: what is left when they are removed, and whether the end of a list takes
  what follows, with `notTaken_append`.
-/

/-- A word, with the separator in front of it. -/
structure Chunk (α : Type*) where
  lead : Option α
  word : List α

namespace Chunk

variable {α β : Type*} {isEnd : α → Bool}

/-- The separator and the word. -/
def chars (p : Chunk α) : List α := p.lead.toList ++ p.word

/-- The list that the chunks are cut from. -/
def join (ps : List (Chunk α)) : List α := ps.flatMap chars

@[simp] theorem join_nil : join ([] : List (Chunk α)) = [] := rfl

@[simp] theorem join_cons (p : Chunk α) (ps : List (Chunk α)) :
    join (p :: ps) = p.chars ++ join ps := rfl

theorem join_append (ps qs : List (Chunk α)) : join (ps ++ qs) = join ps ++ join qs :=
  List.flatMap_append

/-- The chunks of a list that follows `lead`. -/
def split (isEnd : α → Bool) : Option α → List α → List (Chunk α)
  | lead, [] => [⟨lead, []⟩]
  | lead, c :: l =>
      if isEnd c then ⟨lead, []⟩ :: split isEnd (some c) l
      else (split isEnd lead l).modifyHead fun p => { p with word := c :: p.word }

/-- The chunk has a separator in front of it, and none within. -/
structure Follows (isEnd : α → Bool) (p : Chunk α) : Prop where
  lead : ∃ s, p.lead = some s ∧ isEnd s = true
  word : ∀ c ∈ p.word, isEnd c = false

/-- **The first chunk follows what it is said to follow, the others a separator.** -/
theorem exists_split_eq_cons (isEnd : α → Bool) (lead : Option α) (l : List α) :
    ∃ w ps, split isEnd lead l = ⟨lead, w⟩ :: ps ∧ (∀ c ∈ w, isEnd c = false) ∧
      ∀ p ∈ ps, Follows isEnd p := by
  induction l generalizing lead with
  | nil => exact ⟨[], [], rfl, by simp, by simp⟩
  | cons c l ih =>
      by_cases hc : isEnd c = true
      · obtain ⟨w, ps, hsplit, hw, hps⟩ := ih (some c)
        refine ⟨[], ⟨some c, w⟩ :: ps, by rw [split, if_pos hc, hsplit], by simp, ?_⟩
        intro p hp
        rcases List.mem_cons.mp hp with rfl | hp
        · exact ⟨⟨c, rfl, hc⟩, hw⟩
        · exact hps p hp
      · obtain ⟨w, ps, hsplit, hw, hps⟩ := ih lead
        refine ⟨c :: w, ps, by rw [split, if_neg hc, hsplit, List.modifyHead_cons], ?_, hps⟩
        intro d hd
        rcases List.mem_cons.mp hd with rfl | hd
        · exact Bool.eq_false_iff.mpr hc
        · exact hw d hd

theorem split_ne_nil (isEnd : α → Bool) (lead : Option α) (l : List α) :
    split isEnd lead l ≠ [] := by
  obtain ⟨w, ps, hsplit, -⟩ := exists_split_eq_cons isEnd lead l
  rw [hsplit]
  exact List.cons_ne_nil _ _

/-- **Cutting loses nothing.** -/
theorem join_split (isEnd : α → Bool) (lead : Option α) (l : List α) :
    join (split isEnd lead l) = lead.toList ++ l := by
  induction l generalizing lead with
  | nil => simp [split, chars]
  | cons c l ih =>
      by_cases hc : isEnd c = true
      · rw [split, if_pos hc, join_cons, ih]
        simp [chars]
      · obtain ⟨w, ps, hsplit, -⟩ := exists_split_eq_cons isEnd lead l
        have hjoin := ih lead
        rw [hsplit, join_cons, chars, List.append_assoc, List.append_cancel_left_eq] at hjoin
        rw [split, if_neg hc, hsplit, List.modifyHead_cons, join_cons, chars, List.append_assoc,
          List.cons_append, hjoin]

/-- A list without separators is one word. -/
theorem split_of_forall_not {l : List α} (h : ∀ c ∈ l, isEnd c = false) (lead : Option α) :
    split isEnd lead l = [⟨lead, l⟩] := by
  induction l with
  | nil => rfl
  | cons c l ih =>
      rw [split, if_neg (by rw [h c List.mem_cons_self]; exact Bool.false_ne_true),
        ih fun d hd => h d (List.mem_cons_of_mem c hd), List.modifyHead_cons]

/-- **A list is cut at each of its separators.** -/
theorem split_append_cons {c : α} (hc : isEnd c = true) (lead : Option α) (u v : List α) :
    split isEnd lead (u ++ c :: v) = split isEnd lead u ++ split isEnd (some c) v := by
  induction u generalizing lead with
  | nil => rw [List.nil_append, split, split, if_pos hc, List.singleton_append]
  | cons d u ih =>
      rw [List.cons_append, split, split]
      by_cases hd : isEnd d = true
      · rw [if_pos hd, if_pos hd, ih, List.cons_append]
      · obtain ⟨w, ps, hsplit, -⟩ := exists_split_eq_cons isEnd lead u
        rw [if_neg hd, if_neg hd, ih, hsplit, List.cons_append, List.modifyHead_cons,
          List.modifyHead_cons, List.cons_append]

/-- The last chunk grows with the list until the next separator. -/
theorem split_append {v : List α} (hv : ∀ c ∈ v, isEnd c = false) (lead : Option α) (u : List α) :
    ∃ before last, split isEnd lead u = before ++ [last] ∧
      split isEnd lead (u ++ v) = before ++ [{ last with word := last.word ++ v }] := by
  induction u generalizing lead with
  | nil => exact ⟨[], ⟨lead, []⟩, rfl, by rw [List.nil_append, split_of_forall_not hv]; rfl⟩
  | cons c u ih =>
      by_cases hc : isEnd c = true
      · obtain ⟨before, last, hu, huv⟩ := ih (some c)
        refine ⟨⟨lead, []⟩ :: before, last, ?_, ?_⟩
        · rw [split, if_pos hc, hu, List.cons_append]
        · rw [List.cons_append, split, if_pos hc, huv, List.cons_append]
      · obtain ⟨before, last, hu, huv⟩ := ih lead
        rw [List.cons_append, split, split, if_neg hc, if_neg hc, hu, huv]
        cases before with
        | nil => exact ⟨[], _, rfl, rfl⟩
        | cons b before => exact ⟨_ :: before, last, rfl, rfl⟩

/-! ## Renaming -/

/-- The chunk with other entries. -/
def map (f : α → β) (p : Chunk α) : Chunk β := ⟨p.lead.map f, p.word.map f⟩

/-- **Renaming the entries renames them in the words.** -/
theorem split_map (f : α → β) (isEnd : β → Bool) (lead : Option α) (l : List α) :
    split isEnd (lead.map f) (l.map f) = (split (isEnd ∘ f) lead l).map (map f) := by
  induction l generalizing lead with
  | nil => rfl
  | cons c l ih =>
      rw [List.map_cons, split, split, Function.comp_apply]
      by_cases hc : isEnd (f c) = true
      · rw [if_pos hc, if_pos hc, List.map_cons, ← ih (some c)]
        rfl
      · obtain ⟨w, ps, hsplit, -⟩ := exists_split_eq_cons (isEnd ∘ f) lead l
        rw [if_neg hc, if_neg hc, ih lead, hsplit]
        rfl

end Chunk

/-! ## Words that take the next one -/

section Taking

variable {β γ : Type*} (takes takeable : β → Bool)

/-- Each element, with whether the one before it takes it. -/
def takeMarks : Bool → List β → List (β × Bool)
  | _, [] => []
  | armed, b :: bs =>
      (b, armed && takeable b) :: takeMarks (!(armed && takeable b) && takes b) bs

/-- The elements that are not taken. -/
def notTaken : Bool → List β → List β
  | _, [] => []
  | armed, b :: bs =>
      if armed && takeable b then notTaken false bs else b :: notTaken (takes b) bs

/-- Whether the last element takes the next one. -/
def armedAfter : Bool → List β → Bool
  | armed, [] => armed
  | armed, b :: bs => armedAfter (!(armed && takeable b) && takes b) bs

variable {takes takeable}

@[simp] theorem takeMarks_nil (armed : Bool) : takeMarks takes takeable armed [] = [] := rfl

@[simp] theorem notTaken_nil (armed : Bool) : notTaken takes takeable armed [] = [] := rfl

@[simp] theorem armedAfter_nil (armed : Bool) : armedAfter takes takeable armed [] = armed := rfl

theorem notTaken_cons_of_taken {b : β} (hb : takeable b = true) (bs : List β) :
    notTaken takes takeable true (b :: bs) = notTaken takes takeable false bs := by
  simp [notTaken, hb]

theorem notTaken_cons_of_not {armed : Bool} {b : β} (h : (armed && takeable b) = false)
    (bs : List β) :
    notTaken takes takeable armed (b :: bs) = b :: notTaken takes takeable (takes b) bs := by
  simp [notTaken, h]

/-- **A list is walked part by part.** -/
theorem notTaken_append (armed : Bool) (s t : List β) :
    notTaken takes takeable armed (s ++ t) =
      notTaken takes takeable armed s ++
        notTaken takes takeable (armedAfter takes takeable armed s) t := by
  induction s generalizing armed with
  | nil => rfl
  | cons b s ih =>
      rw [List.cons_append, notTaken, notTaken, armedAfter]
      cases h : armed && takeable b with
      | false => simp [ih]
      | true => simp [ih]

theorem takeMarks_append (armed : Bool) (s t : List β) :
    takeMarks takes takeable armed (s ++ t) =
      takeMarks takes takeable armed s ++
        takeMarks takes takeable (armedAfter takes takeable armed s) t := by
  induction s generalizing armed with
  | nil => rfl
  | cons b s ih => rw [List.cons_append, takeMarks, takeMarks, armedAfter, ih, List.cons_append]

theorem armedAfter_append (armed : Bool) (s t : List β) :
    armedAfter takes takeable armed (s ++ t) =
      armedAfter takes takeable (armedAfter takes takeable armed s) t := by
  induction s generalizing armed with
  | nil => rfl
  | cons b s ih => rw [List.cons_append, armedAfter, armedAfter, ih]

theorem mem_of_mem_notTaken {armed : Bool} {s : List β} {b : β}
    (h : b ∈ notTaken takes takeable armed s) : b ∈ s := by
  induction s generalizing armed with
  | nil => exact h
  | cons c s ih =>
      rw [notTaken] at h
      split at h
      · exact List.mem_cons_of_mem c (ih h)
      · rcases List.mem_cons.mp h with rfl | h
        · exact List.mem_cons_self
        · exact List.mem_cons_of_mem c (ih h)

/-- An element that could not take anything lets the next one be. -/
theorem armedAfter_concat_of_not {b : β} (hb : takes b = false) (armed : Bool) (s : List β) :
    armedAfter takes takeable armed (s ++ [b]) = false := by
  rw [armedAfter_append, armedAfter, armedAfter, hb, Bool.and_false]

/-- **What is left is walked as the list it comes from, if renaming keeps who takes and who is
taken.** -/
theorem notTaken_map {takes' takeable' : γ → Bool} (f : β → γ) (s : List β)
    (htakes : ∀ b ∈ s, takes' (f b) = takes b)
    (htakeable : ∀ b ∈ s, takeable' (f b) = takeable b) (armed : Bool) :
    notTaken takes' takeable' armed (s.map f) = (notTaken takes takeable armed s).map f := by
  induction s generalizing armed with
  | nil => rfl
  | cons b s ih =>
      have hs := ih (fun c hc => htakes c (List.mem_cons_of_mem b hc))
        fun c hc => htakeable c (List.mem_cons_of_mem b hc)
      rw [List.map_cons, notTaken, notTaken, htakes b List.mem_cons_self,
        htakeable b List.mem_cons_self]
      split
      · exact hs false
      · rw [hs, List.map_cons]

theorem takeMarks_map {takes' takeable' : γ → Bool} (f : β → γ) (s : List β)
    (htakes : ∀ b ∈ s, takes' (f b) = takes b)
    (htakeable : ∀ b ∈ s, takeable' (f b) = takeable b) (armed : Bool) :
    takeMarks takes' takeable' armed (s.map f) =
      (takeMarks takes takeable armed s).map (Prod.map f id) := by
  induction s generalizing armed with
  | nil => rfl
  | cons b s ih =>
      have hs := ih (fun c hc => htakes c (List.mem_cons_of_mem b hc))
        fun c hc => htakeable c (List.mem_cons_of_mem b hc)
      rw [List.map_cons, takeMarks, takeMarks, htakes b List.mem_cons_self,
        htakeable b List.mem_cons_self, hs, List.map_cons]
      rfl

theorem armedAfter_map {takes' takeable' : γ → Bool} (f : β → γ) (s : List β)
    (htakes : ∀ b ∈ s, takes' (f b) = takes b)
    (htakeable : ∀ b ∈ s, takeable' (f b) = takeable b) (armed : Bool) :
    armedAfter takes' takeable' armed (s.map f) = armedAfter takes takeable armed s := by
  induction s generalizing armed with
  | nil => rfl
  | cons b s ih =>
      rw [List.map_cons, armedAfter, armedAfter, htakes b List.mem_cons_self,
        htakeable b List.mem_cons_self]
      exact ih (fun c hc => htakes c (List.mem_cons_of_mem b hc))
        (fun c hc => htakeable c (List.mem_cons_of_mem b hc)) _

end Taking
