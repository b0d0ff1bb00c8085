import SimpleClaw.Lib.Text

/-!
# Lazy groups and tags

A lazy group takes as little of a text as it can: the shortest beginning that is followed by what
the rest of the pattern matches.  Here the rest begins with two tags that have only white space
between them.

* `lazyUntil`: the group, with `lazyUntil_eq_of_none` and `exists_lazyUntil_of_some`.
* `matchesFrom`: all the matches of a pattern, from left to right and without overlap.
* `TagPair`: two tags, neither of which is the beginning of the other.  `TagPair.after` reads both.
* `TagPair.lazyUntil_append`, `TagPair.exists_lazyUntil_append`: in front of the two tags, the group
  takes everything unless they occur in it.
-/

section Groups

variable {α β : Type*} {next : List α → Option β}

/-- The shortest beginning that is followed by something `next` succeeds on. -/
def lazyUntil (next : List α → Option β) : List α → Option (List α × β)
  | [] => (next []).map fun b => ([], b)
  | c :: t =>
      match next (c :: t) with
      | some b => some ([], b)
      | none => (lazyUntil next t).map fun found => (c :: found.1, found.2)

theorem lazyUntil_of_some {t : List α} {b : β} (h : next t = some b) :
    lazyUntil next t = some ([], b) := by
  cases t with
  | nil => rw [lazyUntil, h]; rfl
  | cons c t => rw [lazyUntil, h]

theorem lazyUntil_cons_of_none {c : α} {t : List α} (h : next (c :: t) = none) :
    lazyUntil next (c :: t) = (lazyUntil next t).map fun found => (c :: found.1, found.2) := by
  rw [lazyUntil, h]

/-- **The group takes a beginning that cannot be shorter.** -/
theorem lazyUntil_eq_of_none {u r : List α} {b : β} (hnext : next r = some b)
    (hnone : ∀ v w, u = v ++ w → w ≠ [] → next (w ++ r) = none) :
    lazyUntil next (u ++ r) = some (u, b) := by
  induction u with
  | nil => exact lazyUntil_of_some hnext
  | cons c u ih =>
      have hhere : next (c :: (u ++ r)) = none := hnone [] (c :: u) rfl (List.cons_ne_nil _ _)
      have hrest := ih fun v w h hw => hnone (c :: v) w (by rw [h, List.cons_append]) hw
      rw [List.cons_append, lazyUntil_cons_of_none hhere, hrest]
      rfl

/-- **The group takes no more than a beginning that would do.** -/
theorem exists_lazyUntil_of_some {u r : List α} {b : β} (hnext : next r = some b) :
    ∃ v w b', lazyUntil next (u ++ r) = some (v, b') ∧ u = v ++ w ∧ next (w ++ r) = some b' := by
  induction u with
  | nil => exact ⟨[], [], b, lazyUntil_of_some hnext, rfl, hnext⟩
  | cons c u ih =>
      cases hhere : next (c :: (u ++ r)) with
      | some b' => exact ⟨[], c :: u, b', lazyUntil_of_some hhere, rfl, hhere⟩
      | none =>
          obtain ⟨v, w, b', hlazy, rfl, hw⟩ := ih
          refine ⟨c :: v, w, b', ?_, rfl, hw⟩
          rw [List.cons_append, lazyUntil_cons_of_none hhere, hlazy]
          rfl

end Groups

section Matches

variable {α β : Type*} {next : List α → Option (β × List α)}

/-- The matches of a pattern that is never empty, with a number of entries to skip first.  `next`
matches at the beginning and tells what follows. -/
def matchesFrom (next : List α → Option (β × List α)) : Nat → List α → List β
  | _, [] => []
  | 0, c :: t =>
      match next (c :: t) with
      | some (b, rest) => b :: matchesFrom next (t.length - rest.length) t
      | none => matchesFrom next 0 t
  | skip + 1, _ :: t => matchesFrom next skip t

theorem matchesFrom_length (u t : List α) :
    matchesFrom next u.length (u ++ t) = matchesFrom next 0 t := by
  induction u with
  | nil => rfl
  | cons c u ih =>
      rw [List.length_cons, List.cons_append, matchesFrom]
      exact ih

/-- **After a match the next one is searched in what follows.** -/
theorem matchesFrom_append {u t : List α} {b : β} (hu : u ≠ []) (h : next (u ++ t) = some (b, t)) :
    matchesFrom next 0 (u ++ t) = b :: matchesFrom next 0 t := by
  obtain ⟨c, u, rfl⟩ := List.exists_cons_of_ne_nil hu
  have hskip : (u ++ t).length - t.length = u.length := by
    rw [List.length_append]
    omega
  rw [List.cons_append] at h ⊢
  rw [matchesFrom, h]
  simp only
  rw [hskip, matchesFrom_length]

theorem exists_matchesFrom_of_some {t rest : List α} {b : β} (ht : t ≠ [])
    (h : next t = some (b, rest)) : ∃ more, matchesFrom next 0 t = b :: more := by
  obtain ⟨c, t, rfl⟩ := List.exists_cons_of_ne_nil ht
  exact ⟨_, by rw [matchesFrom, h]⟩

theorem matchesFrom_cons_of_none {c : α} {t : List α} (h : next (c :: t) = none) :
    matchesFrom next 0 (c :: t) = matchesFrom next 0 t := by
  rw [matchesFrom, h]

end Matches

/-- A tag has one opening bracket, at its beginning. -/
def IsTag (t : Text) : Prop := t.head? = some '<' ∧ '<' ∉ t.tail

instance : DecidablePred IsTag := fun _ => inferInstanceAs (Decidable (_ ∧ _))

theorem IsTag.exists_eq {t : Text} (h : IsTag t) : ∃ body, t = '<' :: body ∧ '<' ∉ body := by
  obtain ⟨hhead, htail⟩ := h
  cases t with
  | nil => cases hhead
  | cons c body =>
      obtain rfl := Option.some.inj hhead
      exact ⟨body, rfl, htail⟩

/-- Two tags that stand in a text one after the other, with white space between them. -/
structure TagPair where
  first : Text
  second : Text
  first_isTag : IsTag first
  second_isTag : IsTag second
  apart : ¬ first <+: second ∧ ¬ second <+: first

namespace TagPair

variable {pair : TagPair}

/-- What follows the two tags, for a text that begins with them. -/
def after (pair : TagPair) (t : Text) : Option Text :=
  (Text.stripPrefix t pair.first).bind fun t => Text.stripPrefix (Text.trimStart t) pair.second

/-- The tags occur in the text, with nothing but `blank` characters between them. -/
def OccursIn (pair : TagPair) (blank : Char → Bool) (t : Text) : Prop :=
  ∃ ws : Text, (∀ c ∈ ws, blank c = true) ∧ pair.first ++ (ws ++ pair.second) <:+: t

/-- A character of an occurrence is one of the tags or stands between them. -/
theorem mem_cases (pair : TagPair) {ws : Text} {c : Char}
    (h : c ∈ pair.first ++ (ws ++ pair.second)) : c ∈ pair.first ++ pair.second ∨ c ∈ ws := by
  simp only [List.mem_append] at h ⊢
  tauto

theorem after_eq_some_iff {t rest : Text} :
    pair.after t = some rest ↔ ∃ ws : Text, (∀ c ∈ ws, Text.isWhiteSpace c = true) ∧
      t = pair.first ++ (ws ++ (pair.second ++ rest)) := by
  obtain ⟨body, hsecond, -⟩ := pair.second_isTag.exists_eq
  simp only [after, Option.bind_eq_some_iff, Text.stripPrefix_eq_some_iff]
  constructor
  · rintro ⟨t, rfl, htrim⟩
    refine ⟨t.takeWhile Text.isWhiteSpace, fun c => List.mem_takeWhile_imp, ?_⟩
    rw [← htrim, Text.trimStart, List.takeWhile_append_dropWhile]
  · rintro ⟨ws, hws, rfl⟩
    refine ⟨_, rfl, ?_⟩
    rw [Text.trimStart, List.dropWhile_append_of_pos hws, hsecond, List.cons_append]
    exact Text.trimStart_cons_of_not (by decide)

theorem after_append {ws : Text} (hws : ∀ c ∈ ws, Text.isWhiteSpace c = true) (rest : Text) :
    pair.after (pair.first ++ (ws ++ (pair.second ++ rest))) = some rest :=
  after_eq_some_iff.mpr ⟨ws, hws, rfl⟩

theorem notMem_of_isWhiteSpace {ws : Text} (hws : ∀ c ∈ ws, Text.isWhiteSpace c = true) :
    '<' ∉ ws := fun h => absurd (hws _ h) (by decide)

/-- **Tags that begin in front of a tag are in front of it altogether.** -/
theorem occursIn_of_after {w t rest : Text} (hw : w ≠ [])
    (h : pair.after (w ++ (pair.first ++ t)) = some rest) :
    pair.OccursIn Text.isWhiteSpace w := by
  obtain ⟨ws, hws, heq⟩ := after_eq_some_iff.mp h
  obtain ⟨body, hfirst, hbody⟩ := pair.first_isTag.exists_eq
  obtain ⟨body', hsecond, hbody'⟩ := pair.second_isTag.exists_eq
  obtain ⟨c, w, rfl⟩ := List.exists_cons_of_ne_nil hw
  refine ⟨ws, hws, ?_⟩
  have hfront : '<' ∉ body ++ ws := by
    rw [List.mem_append, not_or]
    exact ⟨hbody, notMem_of_isWhiteSpace hws⟩
  rw [hfirst, hsecond] at heq ⊢
  simp only [List.cons_append, List.cons.injEq] at heq ⊢
  obtain ⟨rfl, heq⟩ := heq
  -- the first bracket behind the beginning is that of the second tag
  rw [← List.append_assoc] at heq
  by_cases hmem : '<' ∈ w
  · obtain ⟨p, q, rfl, hp⟩ := List.eq_append_cons_of_mem hmem
    rw [List.append_assoc, List.cons_append] at heq
    obtain ⟨rfl, hbehind⟩ := Text.append_cons_inj_of_notMem_left hp hfront heq
    -- and it is all in front, since it has no other bracket
    rcases List.append_eq_append_iff.mp hbehind with ⟨m, hm, hrest⟩ | ⟨m, rfl, -⟩
    · rcases List.cons_eq_append_iff.mp hrest with ⟨rfl, -⟩ | ⟨m', rfl, -⟩
      · rw [hm, List.append_nil]
        exact ⟨[], [], by simp⟩
      · exact absurd (by rw [hm]; simp) hbody'
    · exact ⟨[], m, by simp⟩
  · obtain ⟨rfl, hbehind⟩ := Text.append_cons_inj_of_notMem_left hmem hfront heq
    have hapart := pair.apart
    rw [hfirst, hsecond] at hapart
    obtain hle | hle := List.prefix_or_prefix_of_prefix (List.prefix_append body t)
      (hbehind ▸ List.prefix_append body' rest)
    · exact absurd (List.cons_prefix_cons.mpr ⟨rfl, hle⟩) hapart.1
    · exact absurd (List.cons_prefix_cons.mpr ⟨rfl, hle⟩) hapart.2

/-! ## Groups in front of the tags -/

section Groups

variable {β : Type*} {g : Text → Option β} {u : Text}

/-- **In front of the tags the group takes everything**, if they do not occur in it. -/
theorem lazyUntil_append (hu : ¬ pair.OccursIn Text.isWhiteSpace u) {ws r : Text} {b : β}
    (hws : ∀ c ∈ ws, Text.isWhiteSpace c = true) (hg : g r = some b) :
    lazyUntil (fun t => (pair.after t).bind g)
      (u ++ (pair.first ++ (ws ++ (pair.second ++ r)))) = some (u, b) := by
  refine lazyUntil_eq_of_none ?_ fun v w hvw hw => ?_
  · rw [after_append hws, Option.bind_some, hg]
  · cases hafter : pair.after (w ++ (pair.first ++ (ws ++ (pair.second ++ r)))) with
    | none => rfl
    | some rest =>
        obtain ⟨between, hbetween, before, behind, hin⟩ := occursIn_of_after hw hafter
        refine absurd ⟨between, hbetween, v ++ before, behind, ?_⟩ hu
        rw [hvw, ← hin]
        simp only [List.append_assoc]

theorem lazyUntil_after_append (hu : ¬ pair.OccursIn Text.isWhiteSpace u) {ws : Text}
    (hws : ∀ c ∈ ws, Text.isWhiteSpace c = true) (r : Text) :
    lazyUntil pair.after (u ++ (pair.first ++ (ws ++ (pair.second ++ r)))) = some (u, r) := by
  have hall := lazyUntil_append hu hws (g := some) (r := r) rfl
  simpa only [Option.bind_fun_some] using hall

/-- **Where they occur in it, the group ends in front of a bracket of it.** -/
theorem exists_lazyUntil_append (hu : pair.OccursIn Text.isWhiteSpace u) {r : Text}
    (hg : ∀ q, (g (q ++ r)).isSome = true) :
    ∃ v q b, lazyUntil (fun t => (pair.after t).bind g) (u ++ r) = some (v, b) ∧
      u = v ++ '<' :: q := by
  obtain ⟨ws, hws, before, behind, hin⟩ := hu
  obtain ⟨b, hb⟩ := Option.isSome_iff_exists.mp (hg behind)
  have hnext : ((pair.after (pair.first ++ (ws ++ (pair.second ++ (behind ++ r))))).bind g) =
      some b := by rw [after_append hws, Option.bind_some, hb]
  obtain ⟨v, w, b', hlazy, rfl, hw⟩ :=
    @exists_lazyUntil_of_some _ _ (fun t => (pair.after t).bind g) before _ b hnext
  obtain ⟨rest, hafter, -⟩ := Option.bind_eq_some_iff.mp hw
  have htext : v ++ (w ++ (pair.first ++ (ws ++ (pair.second ++ behind)))) = u := by
    rw [← hin]
    simp only [List.append_assoc]
  obtain ⟨ws', -, hhead⟩ := after_eq_some_iff.mp hafter
  obtain ⟨body, hfirst, -⟩ := pair.first_isTag.exists_eq
  have hbracket : ∃ q, w ++ (pair.first ++ (ws ++ (pair.second ++ behind))) = '<' :: q := by
    cases w with
    | nil => exact ⟨_, by rw [hfirst, List.nil_append, List.cons_append]⟩
    | cons c w =>
        rw [hfirst] at hhead
        obtain rfl : c = '<' := (List.cons.inj hhead).1
        exact ⟨_, List.cons_append⟩
  obtain ⟨q, hq⟩ := hbracket
  refine ⟨v, q, b', ?_, by rw [← hq, htext]⟩
  rw [← hlazy, ← htext]
  simp only [List.append_assoc]

theorem exists_lazyUntil_after_append (hu : pair.OccursIn Text.isWhiteSpace u) (r : Text) :
    ∃ v q rest, lazyUntil pair.after (u ++ r) = some (v, rest) ∧ u = v ++ '<' :: q := by
  have hshort := exists_lazyUntil_append hu (g := some) (r := r) fun _ => rfl
  simpa only [Option.bind_fun_some] using hshort

end Groups

end TagPair
