import SimpleClaw.React.Dispatch

/-!
# The tools of an agent

The registry of an agent holds its tools twice, in their order and by their names.  Here the tools
are listed with the configuration that decides whether they may start anything in the background.
A delegated run gets a registry from which tools have been taken, with background switched off
in the others; both are done to the list and the names are indexed anew.

* `AgentToolRegistry.without`, `AgentToolRegistry.withoutNames`,
  `AgentToolRegistry.withAsyncDisabled`: the registries made from a registry.
* `AgentToolRegistry.Lacks`: no tool of this name is in either of the two.
* `lacks_withoutNames`: what was taken out is gone from both.
-/

namespace SimpleClaw
namespace Invoke

open Tools (ExecToolConfig ToolExecutionKind)

/-! ## Tools with their configuration -/

/-- The tools without an arm of their own in the executor, `other` being those under a name of their
own.  None of them starts a run or invokes an agent. -/
inductive DirectTool where
  | memory
  | memorize
  | forget
  | clock
  | react
  | background
  | wait
  | cron
  | skill
  | other (name : Text)
  deriving DecidableEq

def DirectTool.name : DirectTool → Text
  | .memory => "memory"
  | .memorize => "memorize"
  | .forget => "forget"
  | .clock => "clock"
  | .react => "react"
  | .background => "background"
  | .wait => "wait"
  | .cron => "cron"
  | .skill => "skill"
  | .other name => name

structure SummonToolConfig where
  allowBackground : Bool
  allowed : List Text
  deriving DecidableEq

structure TaskToolConfig where
  allowBackground : Bool
  workerMaxSteps : Option Nat
  deriving DecidableEq

inductive RegisteredTool where
  | webSearch
  | webFetch
  | read
  | edit
  | glob
  | grep
  | list
  | exec (config : ExecToolConfig)
  | summon (config : SummonToolConfig)
  | task (config : TaskToolConfig)
  | direct (tool : DirectTool)
  deriving DecidableEq

namespace RegisteredTool

/-- The tool without its configuration. -/
def plain : RegisteredTool → Tools.RegisteredTool
  | .webSearch => .webSearch
  | .webFetch => .webFetch
  | .read => .read
  | .edit => .edit
  | .glob => .glob
  | .grep => .grep
  | .list => .list
  | .exec _ => .exec
  | .summon _ => .summon
  | .task _ => .task
  | .direct tool => .direct tool.name

def name (tool : RegisteredTool) : Text := tool.plain.name

/-- `set_allow_background(false)` on the tools that have it. -/
def withAsyncDisabled : RegisteredTool → RegisteredTool
  | .exec config => .exec { config with allowBackground := false }
  | .summon config => .summon { config with allowBackground := false }
  | .task config => .task { config with allowBackground := false }
  | tool => tool

theorem plain_withAsyncDisabled (tool : RegisteredTool) :
    tool.withAsyncDisabled.plain = tool.plain := by
  cases tool <;> rfl

theorem name_withAsyncDisabled (tool : RegisteredTool) :
    tool.withAsyncDisabled.name = tool.name := by
  rw [name, plain_withAsyncDisabled, name]

end RegisteredTool

/-! ## Registries -/

structure AgentToolEntry where
  tool : RegisteredTool
  executionKind : ToolExecutionKind
  ownerRestricted : Bool
  deriving DecidableEq

/-- The entry without the configuration of its tool. -/
def AgentToolEntry.plain (entry : AgentToolEntry) : React.RegistryEntry where
  tool := entry.tool.plain
  executionKind := entry.executionKind
  ownerRestricted := entry.ownerRestricted

structure AgentToolRegistry where
  ordered : List AgentToolEntry
  byName : List (Text × AgentToolEntry)

/-- The entries by the names of their tools, the last one of a name if there are several. -/
def indexByName (ordered : List AgentToolEntry) : List (Text × AgentToolEntry) :=
  (ordered.map fun entry => (entry.tool.name, entry)).reverse

namespace AgentToolRegistry

def get (registry : AgentToolRegistry) (name : Text) : Option AgentToolEntry :=
  registry.byName.lookup name

def without (registry : AgentToolRegistry) (name : Text) : AgentToolRegistry :=
  let ordered := registry.ordered.filter fun entry => entry.tool.name ≠ name
  ⟨ordered, indexByName ordered⟩

def withoutNames (registry : AgentToolRegistry) (names : List Text) : AgentToolRegistry :=
  names.foldl without registry

def withAsyncDisabled (registry : AgentToolRegistry) : AgentToolRegistry :=
  let ordered := registry.ordered.map fun entry =>
    { entry with tool := entry.tool.withAsyncDisabled }
  ⟨ordered, indexByName ordered⟩

def withAsyncDisabledIf (registry : AgentToolRegistry) (disableAsync : Bool) :
    AgentToolRegistry :=
  if disableAsync then registry.withAsyncDisabled else registry

/-- The registry without the configuration of its tools. -/
def plain (registry : AgentToolRegistry) : React.AgentToolRegistry where
  ordered := registry.ordered.map AgentToolEntry.plain
  byName := registry.byName.map fun entry => (entry.1, entry.2.plain)

/-! ## What a registry lacks -/

/-- No tool of this name is listed, and none is found, under whatever name. -/
structure Lacks (registry : AgentToolRegistry) (name : Text) : Prop where
  listed : ∀ entry ∈ registry.ordered, entry.tool.name ≠ name
  found : ∀ key entry, registry.get key = some entry → entry.tool.name ≠ name

variable {registry : AgentToolRegistry} {name : Text}

/-- In an index an entry is found under the name of its tool, and it is listed. -/
theorem get_indexed {ordered : List AgentToolEntry} {key : Text} {entry : AgentToolEntry}
    (h : (⟨ordered, indexByName ordered⟩ : AgentToolRegistry).get key = some entry) :
    entry.tool.name = key ∧ entry ∈ ordered := by
  obtain ⟨before, after, hindex, -⟩ := List.lookup_eq_some_iff.mp h
  have hmem : (key, entry) ∈ indexByName ordered := by
    rw [show indexByName ordered = _ from hindex]
    exact List.mem_append_right before List.mem_cons_self
  rw [indexByName, List.mem_reverse, List.mem_map] at hmem
  obtain ⟨listed, hlisted, heq⟩ := hmem
  obtain ⟨rfl, rfl⟩ := Prod.mk.inj heq
  exact ⟨rfl, hlisted⟩

/-- What an indexed list lacks, its registry lacks. -/
theorem lacks_indexed {ordered : List AgentToolEntry}
    (h : ∀ entry ∈ ordered, entry.tool.name ≠ name) :
    Lacks ⟨ordered, indexByName ordered⟩ name where
  listed := h
  found := fun _ entry hget => h entry (get_indexed hget).2

theorem lacks_without_self : (registry.without name).Lacks name := by
  refine lacks_indexed fun entry hentry => ?_
  have hkept := (List.mem_filter.mp hentry).2
  exact of_decide_eq_true hkept

theorem Lacks.without (h : registry.Lacks name) (other : Text) :
    (registry.without other).Lacks name :=
  lacks_indexed fun entry hentry => h.listed entry (List.mem_of_mem_filter hentry)

theorem Lacks.withoutNames (h : registry.Lacks name) (names : List Text) :
    (registry.withoutNames names).Lacks name := by
  induction names generalizing registry with
  | nil => exact h
  | cons other names ih => exact ih (h.without other)

theorem Lacks.withAsyncDisabled (h : registry.Lacks name) :
    registry.withAsyncDisabled.Lacks name := by
  refine lacks_indexed fun entry hentry => ?_
  obtain ⟨listed, hlisted, rfl⟩ := List.mem_map.mp hentry
  rw [RegisteredTool.name_withAsyncDisabled]
  exact h.listed listed hlisted

theorem Lacks.withAsyncDisabledIf (h : registry.Lacks name) (disableAsync : Bool) :
    (registry.withAsyncDisabledIf disableAsync).Lacks name := by
  cases disableAsync with
  | true => exact h.withAsyncDisabled
  | false => exact h

/-- **What is taken out is gone from both**, by induction on the names: the registry lacks a name
from its own step on. -/
theorem lacks_withoutNames {names : List Text} (h : name ∈ names) :
    (registry.withoutNames names).Lacks name := by
  induction names generalizing registry with
  | nil => cases h
  | cons other names ih =>
      rcases List.mem_cons.mp h with rfl | h
      · exact lacks_without_self.withoutNames names
      · exact ih h

/-! ## The registry of the dispatch -/

theorem get_plain (key : Text) :
    registry.plain.get key = (registry.get key).map AgentToolEntry.plain := by
  obtain ⟨ordered, byName⟩ := registry
  show (byName.map fun entry => (entry.1, entry.2.plain)).lookup key =
    (byName.lookup key).map AgentToolEntry.plain
  induction byName with
  | nil => rfl
  | cons entry entries ih =>
      rw [List.map_cons, List.lookup_cons, List.lookup_cons]
      cases key == entry.1 with
      | true => rfl
      | false => exact ih

end AgentToolRegistry

end Invoke
end SimpleClaw
