import SimpleClaw.Invoke.Registry

/-!
# Restricted registries

Whatever is done to a registry takes names out of it, or switches background off, or both.  A
registry that was restricted so is known by the names taken out so far and by whether background is
off: the order of the steps does not show, nor how often one was made.

* `AgentToolRegistry.Sound`: the list and the index hold the same entries, each name once.
* `AgentToolRegistry.restrict`: the registry without some names, with background off or not.
* `applyAll_eq_restrict`: what a chain of operations comes to.
* `get_restrict`: what is found afterwards.
-/

namespace SimpleClaw
namespace Invoke

/-! ## Operations -/

/-- What makes a registry from a registry. -/
inductive RegistryOp where
  | without (name : Text)
  | withoutNames (names : List Text)
  | withAsyncDisabled
  deriving DecidableEq

namespace RegistryOp

/-- The names it takes out. -/
def removed : RegistryOp → List Text
  | .without name => [name]
  | .withoutNames names => names
  | .withAsyncDisabled => []

def disablesAsync : RegistryOp → Bool
  | .without _ | .withoutNames _ => false
  | .withAsyncDisabled => true

/-- The names a chain takes out. -/
def removedBy (ops : List RegistryOp) : List Text := ops.flatMap removed

def asyncDisabledBy (ops : List RegistryOp) : Bool := ops.any disablesAsync

end RegistryOp

namespace AgentToolRegistry

def apply (registry : AgentToolRegistry) : RegistryOp → AgentToolRegistry
  | .without name => registry.without name
  | .withoutNames names => registry.withoutNames names
  | .withAsyncDisabled => registry.withAsyncDisabled

def applyAll (registry : AgentToolRegistry) (ops : List RegistryOp) : AgentToolRegistry :=
  ops.foldl apply registry

/-! ## Sound registries -/

/-- The index is that of the list, and no two tools in it have one name. -/
structure Sound (registry : AgentToolRegistry) : Prop where
  indexed : registry.byName = indexByName registry.ordered
  distinct : (registry.ordered.map fun entry => entry.tool.name).Nodup

section Sound

variable {registry : AgentToolRegistry}

/-- **The list and the index hold the same entries.** -/
theorem Sound.get_eq_some_iff (h : registry.Sound) {name : Text} {entry : AgentToolEntry} :
    registry.get name = some entry ↔ entry ∈ registry.ordered ∧ entry.tool.name = name := by
  obtain ⟨ordered, byName⟩ := registry
  obtain ⟨hindexed, hdistinct⟩ := h
  simp only at hindexed hdistinct
  subst hindexed
  constructor
  · intro hget
    exact (get_indexed hget).symm
  · rintro ⟨hentry, rfl⟩
    obtain ⟨before, after, rfl⟩ := List.append_of_mem hentry
    have hindex : indexByName (before ++ entry :: after) =
        indexByName after ++ (entry.tool.name, entry) :: indexByName before := by
      simp [indexByName]
    show (indexByName _).lookup entry.tool.name = some entry
    rw [hindex]
    refine List.lookup_eq_some_iff.mpr ⟨_, _, rfl, fun pair hpair => ?_⟩
    -- the entries found before it come after it in the list, under other names
    rw [indexByName, List.mem_reverse, List.mem_map] at hpair
    obtain ⟨later, hlater, rfl⟩ := hpair
    rw [List.map_append, List.map_cons, List.nodup_append] at hdistinct
    have hnot := (List.nodup_cons.mp hdistinct.2.1).1
    simp only [ne_eq, bne_iff_ne]
    intro heq
    exact hnot (heq ▸ List.mem_map.mpr ⟨later, hlater, rfl⟩)

theorem Sound.get_eq_none_iff (h : registry.Sound) {name : Text} :
    registry.get name = none ↔ ∀ entry ∈ registry.ordered, entry.tool.name ≠ name := by
  rw [Option.eq_none_iff_forall_ne_some]
  constructor
  · intro hnone entry hentry hname
    exact hnone entry (h.get_eq_some_iff.mpr ⟨hentry, hname⟩)
  · intro hall entry hget
    obtain ⟨hentry, hname⟩ := h.get_eq_some_iff.mp hget
    exact hall entry hentry hname

end Sound

end AgentToolRegistry

/-! ## Restricting -/

/-- The entry with background off, if it is to be. -/
def AgentToolEntry.asyncDisabledIf (disabled : Bool) (entry : AgentToolEntry) : AgentToolEntry :=
  if disabled then { entry with tool := entry.tool.withAsyncDisabled } else entry

namespace AgentToolEntry

theorem asyncDisabledIf_false : asyncDisabledIf false = id := rfl

theorem name_asyncDisabledIf (disabled : Bool) (entry : AgentToolEntry) :
    (entry.asyncDisabledIf disabled).tool.name = entry.tool.name := by
  cases disabled with
  | true => exact RegisteredTool.name_withAsyncDisabled entry.tool
  | false => rfl

theorem executionKind_asyncDisabledIf (disabled : Bool) (entry : AgentToolEntry) :
    (entry.asyncDisabledIf disabled).executionKind = entry.executionKind := by
  cases disabled <;> rfl

theorem ownerRestricted_asyncDisabledIf (disabled : Bool) (entry : AgentToolEntry) :
    (entry.asyncDisabledIf disabled).ownerRestricted = entry.ownerRestricted := by
  cases disabled <;> rfl

theorem asyncDisabledIf_asyncDisabledIf (disabled disabled' : Bool) (entry : AgentToolEntry) :
    (entry.asyncDisabledIf disabled).asyncDisabledIf disabled' =
      entry.asyncDisabledIf (disabled || disabled') := by
  have htwice : ∀ tool : RegisteredTool,
      tool.withAsyncDisabled.withAsyncDisabled = tool.withAsyncDisabled := by
    intro tool
    cases tool <;> rfl
  cases disabled with
  | true =>
      cases disabled' with
      | true => simp only [asyncDisabledIf, if_true, htwice, Bool.or_self]
      | false => rfl
  | false => rfl

end AgentToolEntry

namespace AgentToolRegistry

/-- The registry without these names, with background off if it is to be. -/
def restrict (names : List Text) (disabled : Bool) (registry : AgentToolRegistry) :
    AgentToolRegistry :=
  let ordered := (registry.ordered.filter fun entry => entry.tool.name ∉ names).map
    (AgentToolEntry.asyncDisabledIf disabled)
  ⟨ordered, indexByName ordered⟩

section Restrict

variable {registry : AgentToolRegistry} {names names' : List Text} {disabled disabled' : Bool}

/-- **Two restrictions are one.** -/
theorem restrict_restrict :
    (registry.restrict names disabled).restrict names' disabled' =
      registry.restrict (names ++ names') (disabled || disabled') := by
  have hordered : ((registry.restrict names disabled).ordered.filter
        fun entry => entry.tool.name ∉ names').map (AgentToolEntry.asyncDisabledIf disabled') =
      (registry.ordered.filter fun entry => entry.tool.name ∉ names ++ names').map
        (AgentToolEntry.asyncDisabledIf (disabled || disabled')) := by
    simp only [restrict, List.filter_map, List.filter_filter, List.map_map]
    have hkeeps : ∀ entry : AgentToolEntry,
        (((fun entry : AgentToolEntry => decide (entry.tool.name ∉ names')) ∘
            AgentToolEntry.asyncDisabledIf disabled) entry && decide (entry.tool.name ∉ names)) =
          decide (entry.tool.name ∉ names ++ names') := by
      intro entry
      simp only [Function.comp_apply, AgentToolEntry.name_asyncDisabledIf, List.mem_append, not_or,
        Bool.decide_and, Bool.and_comm]
    simp only [hkeeps]
    refine List.map_congr_left fun entry _ => ?_
    exact AgentToolEntry.asyncDisabledIf_asyncDisabledIf disabled disabled' entry
  simp only [restrict] at hordered ⊢
  rw [hordered]

/-- Only which names are taken out shows. -/
theorem restrict_congr (hnames : ∀ name, name ∈ names ↔ name ∈ names') :
    registry.restrict names disabled = registry.restrict names' disabled := by
  simp only [restrict, hnames]

theorem Sound.restrict_nil (h : registry.Sound) : registry.restrict [] false = registry := by
  obtain ⟨ordered, byName⟩ := registry
  have hordered : (ordered.filter fun entry => entry.tool.name ∉ ([] : List Text)).map
      (AgentToolEntry.asyncDisabledIf false) = ordered := by
    simp [AgentToolEntry.asyncDisabledIf_false]
  simp only [restrict, hordered]
  rw [← show byName = indexByName ordered from h.indexed]

theorem without_eq_restrict (name : Text) :
    registry.without name = registry.restrict [name] false := by
  have hordered : (registry.ordered.filter fun entry => entry.tool.name ≠ name) =
      (registry.ordered.filter fun entry => entry.tool.name ∉ [name]).map
        (AgentToolEntry.asyncDisabledIf false) := by
    simp [AgentToolEntry.asyncDisabledIf_false]
  simp only [AgentToolRegistry.without, restrict, hordered]

theorem withAsyncDisabled_eq_restrict :
    registry.withAsyncDisabled = registry.restrict [] true := by
  have hordered : (registry.ordered.map fun entry =>
        { entry with tool := entry.tool.withAsyncDisabled }) =
      (registry.ordered.filter fun entry => entry.tool.name ∉ ([] : List Text)).map
        (AgentToolEntry.asyncDisabledIf true) := by
    simp [AgentToolEntry.asyncDisabledIf]
  simp only [AgentToolRegistry.withAsyncDisabled, restrict, hordered]

/-- **A restricted registry is sound.** -/
theorem Sound.restrict (h : registry.Sound) (names : List Text) (disabled : Bool) :
    (registry.restrict names disabled).Sound where
  indexed := rfl
  distinct := by
    have hnames : (fun entry : AgentToolEntry => entry.tool.name) ∘
        AgentToolEntry.asyncDisabledIf disabled = fun entry => entry.tool.name :=
      funext fun entry => AgentToolEntry.name_asyncDisabledIf disabled entry
    show (((registry.ordered.filter _).map _).map _).Nodup
    rw [List.map_map, hnames]
    exact h.distinct.sublist (List.filter_sublist.map _)

theorem Sound.withoutNames_eq_restrict (h : registry.Sound) (names : List Text) :
    registry.withoutNames names = registry.restrict names false := by
  induction names generalizing registry with
  | nil => exact h.restrict_nil.symm
  | cons name names ih =>
      show (registry.without name).withoutNames names = registry.restrict (name :: names) false
      rw [without_eq_restrict, ih (h.restrict _ _), restrict_restrict]
      rfl

/-- Every operation is a restriction. -/
theorem Sound.apply_eq_restrict (h : registry.Sound) (op : RegistryOp) :
    registry.apply op = registry.restrict op.removed op.disablesAsync := by
  cases op with
  | without name => exact without_eq_restrict name
  | withoutNames names => exact h.withoutNames_eq_restrict names
  | withAsyncDisabled => exact withAsyncDisabled_eq_restrict

/-- **A chain of operations is one restriction.** -/
theorem Sound.applyAll_eq_restrict (h : registry.Sound) (ops : List RegistryOp) :
    registry.applyAll ops =
      registry.restrict (RegistryOp.removedBy ops) (RegistryOp.asyncDisabledBy ops) := by
  induction ops generalizing registry with
  | nil => exact h.restrict_nil.symm
  | cons op ops ih =>
      have happly := h.apply_eq_restrict op
      have hsound : (registry.apply op).Sound := happly ▸ h.restrict _ _
      show (registry.apply op).applyAll ops = _
      rw [ih hsound, happly, restrict_restrict]
      rfl

/-- **What is found in a restricted registry** is what was found before, unless its name was taken
out. -/
theorem Sound.get_restrict (h : registry.Sound) (name : Text) :
    (registry.restrict names disabled).get name =
      if name ∈ names then none
      else (registry.get name).map (AgentToolEntry.asyncDisabledIf disabled) := by
  have hsound := h.restrict names disabled
  split
  · next hremoved =>
    refine hsound.get_eq_none_iff.mpr fun entry hentry hname => ?_
    obtain ⟨original, horiginal, rfl⟩ := List.mem_map.mp hentry
    rw [AgentToolEntry.name_asyncDisabledIf] at hname
    have hkept := of_decide_eq_true (List.mem_filter.mp horiginal).2
    exact hkept (hname ▸ hremoved)
  · next hkept =>
    refine Option.ext fun entry => ?_
    rw [hsound.get_eq_some_iff, Option.map_eq_some_iff]
    constructor
    · rintro ⟨hentry, hname⟩
      obtain ⟨original, horiginal, rfl⟩ := List.mem_map.mp hentry
      rw [AgentToolEntry.name_asyncDisabledIf] at hname
      exact ⟨original, h.get_eq_some_iff.mpr ⟨List.mem_of_mem_filter horiginal, hname⟩, rfl⟩
    · rintro ⟨original, horiginal, rfl⟩
      obtain ⟨hmem, rfl⟩ := h.get_eq_some_iff.mp horiginal
      have hfilter : original ∈ registry.ordered.filter fun entry => entry.tool.name ∉ names :=
        List.mem_filter.mpr ⟨hmem, decide_eq_true hkept⟩
      exact ⟨List.mem_map.mpr ⟨original, hfilter, rfl⟩,
        AgentToolEntry.name_asyncDisabledIf disabled original⟩

/-- **The order of two operations does not show.** -/
theorem Sound.apply_comm (h : registry.Sound) (op op' : RegistryOp) :
    (registry.apply op).apply op' = (registry.apply op').apply op := by
  have hchain := h.applyAll_eq_restrict [op, op']
  have hchain' := h.applyAll_eq_restrict [op', op]
  have hdisabled : RegistryOp.asyncDisabledBy [op, op'] = RegistryOp.asyncDisabledBy [op', op] := by
    simp [RegistryOp.asyncDisabledBy, Bool.or_comm]
  refine hchain.trans (Eq.trans ?_ hchain'.symm)
  rw [hdisabled]
  refine restrict_congr fun name => ?_
  simp [RegistryOp.removedBy, or_comm]

/-- **Nor does it show that an operation is repeated.** -/
theorem Sound.apply_apply (h : registry.Sound) (op : RegistryOp) :
    (registry.apply op).apply op = registry.apply op := by
  have hchain := h.applyAll_eq_restrict [op, op]
  have hone := h.applyAll_eq_restrict [op]
  have hdisabled : RegistryOp.asyncDisabledBy [op, op] = RegistryOp.asyncDisabledBy [op] := by
    simp [RegistryOp.asyncDisabledBy]
  refine hchain.trans (Eq.trans ?_ hone.symm)
  rw [hdisabled]
  refine restrict_congr fun name => ?_
  simp [RegistryOp.removedBy]

end Restrict

end AgentToolRegistry

end Invoke
end SimpleClaw
