import SimpleClaw.Lib.Program

/-!
# What holds along the runs of a program

A program relies on something of the answers it is given, and guarantees something of its calls
and of what it returns.  The rules follow the forms of programs, so that a guarantee is shown
without looking at a run.

* `Program.Meets P Q post p`: as long as the answers meet `Q`, the calls meet `P`, and what is
  returned meets `post`.
* `Program.Meets.of_runs`: what this says about a run.
* `Program.interp`: each call replaced by a program that answers it, with `Program.Meets.interp`:
  the guarantee of the calls is what the programs for them rely on.
* `Program.forEach`: a program for every entry of a list, one after the other.
-/

universe u v w w' u' v'

namespace Program

variable {E : Type u} {R : E → Type v} {α : Type w} {β : Type w'}

/-- As long as the answers meet `Q`, every call meets `P`, and what is returned meets `post`. -/
def Meets (P : E → Prop) (Q : (e : E) → R e → Prop) (post : α → Prop) : Program E R α → Prop
  | .pure a => post a
  | .call e next => P e ∧ ∀ r, Q e r → (next r).Meets P Q post

variable {P : E → Prop} {Q : (e : E) → R e → Prop} {post post' : α → Prop}

/-- **The guarantee of a program holds in its runs**, by induction on the run. -/
theorem Meets.of_runs {p : Program E R α} {tr : List (Event E R)} {a : α} (h : p.Meets P Q post)
    (hrun : Runs p tr a) (hanswers : ∀ event ∈ tr, Q event.1 event.2) :
    (∀ event ∈ tr, P event.1) ∧ post a := by
  induction hrun with
  | pure a => exact ⟨nofun, h⟩
  | @call e next tr a r hrest ih =>
      obtain ⟨hcall, hnext⟩ := h
      have hr : Q e r := hanswers ⟨e, r⟩ List.mem_cons_self
      obtain ⟨hcalls, hpost⟩ := ih (hnext r hr) fun event hevent =>
        hanswers event (List.mem_cons_of_mem _ hevent)
      exact ⟨List.forall_mem_cons.mpr ⟨hcall, hcalls⟩, hpost⟩

theorem Meets.mono {p : Program E R α} (h : p.Meets P Q post) (hpost : ∀ a, post a → post' a) :
    p.Meets P Q post' := by
  induction p with
  | pure a => exact hpost a h
  | call e next ih => exact ⟨h.1, fun r hr => ih r (h.2 r hr)⟩

/-- Nothing is asked of a program that guarantees nothing. -/
theorem meets_true (p : Program E R α) : p.Meets (fun _ => True) Q fun _ => True := by
  induction p with
  | pure a => trivial
  | call e next ih => exact ⟨trivial, fun r _ => ih r⟩

theorem meets_ask {e : E} (h : P e) : (ask e : Program E R (R e)).Meets P Q (Q e) :=
  ⟨h, fun _ hr => hr⟩

/-- What the first part returns is what the second one relies on. -/
theorem Meets.bind {p : Program E R α} {f : α → Program E R β} {post' : β → Prop}
    (h : p.Meets P Q post) (hf : ∀ a, post a → (f a).Meets P Q post') :
    (p.bind f).Meets P Q post' := by
  induction p with
  | pure a => exact hf a h
  | call e next ih => exact ⟨h.1, fun r hr => ih r (h.2 r hr)⟩

/-- The second part of a program that can fail has to do with success only. -/
theorem Meets.andThen {ε : Type*} {p : Program E R (Except ε α)}
    {f : α → Program E R (Except ε β)} {post : Except ε α → Prop} {post' : Except ε β → Prop}
    (h : p.Meets P Q post) (herror : ∀ e, post (.error e) → post' (.error e))
    (hf : ∀ a, post (.ok a) → (f a).Meets P Q post') : (p.andThen f).Meets P Q post' := by
  refine h.bind fun a ha => ?_
  cases a with
  | error e => exact herror e ha
  | ok a => exact hf a ha

/-! ## Calls that are programs -/

section Interp

variable {E' : Type u'} {R' : E' → Type v'}

/-- The program in which each call is answered by a program of other calls. -/
def interp (h : (e : E) → Program E' R' (R e)) : Program E R α → Program E' R' α
  | .pure a => .pure a
  | .call e next => (h e).bind fun r => (next r).interp h

theorem Meets.interp {P' : E' → Prop} {Q' : (e : E') → R' e → Prop} {p : Program E R α}
    {h : (e : E) → Program E' R' (R e)} (hp : p.Meets P Q post)
    (hh : ∀ e, P e → (h e).Meets P' Q' (Q e)) : (p.interp h).Meets P' Q' post := by
  induction p with
  | pure a => exact hp
  | call e next ih => exact (hh e hp.1).bind fun r hr => ih r (hp.2 r hr)

end Interp

/-! ## A program for every entry -/

/-- What the programs return, in the order of the entries. -/
def forEach (f : β → Program E R α) : List β → Program E R (List α)
  | [] => .pure []
  | b :: bs => (f b).bind fun a => (forEach f bs).bind fun as => .pure (a :: as)

theorem Meets.forEach {f : β → Program E R α} {bs : List β}
    (h : ∀ b ∈ bs, (f b).Meets P Q post) :
    (Program.forEach f bs).Meets P Q fun as => ∀ a ∈ as, post a := by
  induction bs with
  | nil => exact nofun
  | cons b bs ih =>
      obtain ⟨hb, hbs⟩ := List.forall_mem_cons.mp h
      exact hb.bind fun a ha => (ih hbs).bind fun as has => List.forall_mem_cons.mpr ⟨ha, has⟩

/-- Programs for related entries that go the same ways return related results. -/
theorem Runs.forEach_related {β' : Type*} {α' : Type w} {f : β → Program E R α}
    {g : β' → Program E R α'} {related : β → β' → Prop} {same : α → α' → Prop}
    (h : ∀ b b', related b b' → ∀ tr a, Runs (f b) tr a → ∃ a', Runs (g b') tr a' ∧ same a a')
    {bs : List β} {bs' : List β'} (hbs : List.Forall₂ related bs bs') {tr : List (Event E R)}
    {as : List α} (hrun : Runs (Program.forEach f bs) tr as) :
    ∃ as', Runs (Program.forEach g bs') tr as' ∧ List.Forall₂ same as as' := by
  induction hbs generalizing tr as with
  | nil =>
      obtain ⟨rfl, rfl⟩ := runs_pure_iff.mp hrun
      exact ⟨[], .pure [], .nil⟩
  | @cons b b' bs bs' hb _ ih =>
      obtain ⟨a, tr₁, tr₂, rfl, hhead, hrest⟩ := runs_bind_iff.mp hrun
      obtain ⟨rest, tr₃, tr₄, rfl, htail, hpure⟩ := runs_bind_iff.mp hrest
      obtain ⟨rfl, rfl⟩ := runs_pure_iff.mp hpure
      obtain ⟨a', hhead', ha⟩ := h b b' hb tr₁ a hhead
      obtain ⟨rest', htail', hrest⟩ := ih htail
      refine ⟨a' :: rest', ?_, .cons ha hrest⟩
      exact runs_bind_iff.mpr ⟨a', tr₁, tr₃ ++ [], rfl, hhead',
        runs_bind_iff.mpr ⟨rest', tr₃, [], rfl, htail', .pure _⟩⟩

end Program
