import SimpleClaw.Lib.Program
import SimpleClaw.Tools.Edit
import SimpleClaw.Tools.InformedApproval

/-!
# The tool executor

`execute` plans a call and runs it: directly, in the wasm sandbox or in the host sandbox.  A file
tool whose plan leaves the sandbox, and a command that does, or that the sandbox has denied, is
run directly if the user approves it.  Planning, running and asking for approval are calls of a
program; how they are answered is up to the surroundings.

* `execute`: the arms of `DefaultToolExecutor::execute`.
* `Gated`: nothing runs directly unless this very plan was approved, and once at most.
* `execute_gated`: every run of a sandboxed entry is gated, however its calls are answered.
-/

namespace SimpleClaw
namespace Tools

open Approval

/-! ## Tools and their plans -/

inductive ToolExecutionKind where
  | direct
  | wasmSandbox
  | hostSandbox
  deriving DecidableEq

/-- The debug form of a kind. -/
def ToolExecutionKind.debug : ToolExecutionKind → Text
  | .direct => "Direct"
  | .wasmSandbox => "WasmSandbox"
  | .hostSandbox => "HostSandbox"

/-- The tools, those without an arm of their own by their names. -/
inductive RegisteredTool where
  | webSearch
  | webFetch
  | read
  | edit
  | glob
  | grep
  | list
  | exec
  | summon
  | task
  | direct (name : Text)
  deriving DecidableEq

def RegisteredTool.name : RegisteredTool → Text
  | .webSearch => "web_search"
  | .webFetch => "web_fetch"
  | .read => "read"
  | .edit => "edit"
  | .glob => "glob"
  | .grep => "grep"
  | .list => "list"
  | .exec => "exec"
  | .summon => "summon"
  | .task => "task"
  | .direct name => name

structure AgentToolEntry where
  tool : RegisteredTool
  executionKind : ToolExecutionKind
  deriving DecidableEq

structure WebSearchPlan where
  query : Text
  timeoutSeconds : Nat
  deriving DecidableEq

structure WebFetchPlan where
  url : Text
  timeoutSeconds : Nat
  maxChars : Nat
  deriving DecidableEq

structure ReadPlan where
  hostPath : PathBuf
  route : FileToolRoute
  offset : Nat
  limit : Nat
  deriving DecidableEq

structure EditPlan where
  args : EditArgs
  hostPath : PathBuf
  route : FileToolRoute
  deriving DecidableEq

structure GlobPlan where
  pattern : Text
  hostPath : PathBuf
  route : FileToolRoute
  deriving DecidableEq

structure GrepPlan where
  pattern : Text
  includeGlob : Option Text
  hostPath : PathBuf
  route : FileToolRoute
  deriving DecidableEq

structure ListPlan where
  hostPath : PathBuf
  route : FileToolRoute
  ignore : List Text
  deriving DecidableEq

/-- The plans of a tool; the others have none. -/
def PlanOf : RegisteredTool → Type
  | .webSearch => WebSearchPlan
  | .webFetch => WebFetchPlan
  | .read => ReadPlan
  | .edit => EditPlan
  | .glob => GlobPlan
  | .grep => GrepPlan
  | .list => ListPlan
  | .exec => ExecPlan
  | .summon | .task | .direct _ => Empty

/-! ## The calls of an execution -/

/-- What an execution asks of its surroundings: to plan, to run a plan in a sandbox or directly,
to run a tool that has no plans, and to have a request approved. -/
inductive Call where
  | plan (tool : RegisteredTool) (argsJson : Text)
  | executeWasm (tool : RegisteredTool) (plan : PlanOf tool)
  | executeHostSandboxed (plan : ExecPlan) (sessionId : Text)
  | requestApproval (request : ApprovalRequest)
  | executeDirect (tool : RegisteredTool) (plan : PlanOf tool)
  | executeTool (tool : RegisteredTool) (argsJson sessionId : Text)

/-- The answers to a call, with `Outcome` for the outcomes of the tools. -/
def Answer (Outcome : Type) : Call → Type
  | .plan tool _ => Except FrameworkError (PlanOf tool)
  | .requestApproval _ => Except FrameworkError ApprovalDecision
  | .executeWasm _ _ | .executeHostSandboxed _ _ | .executeDirect _ _ | .executeTool _ _ _ =>
      Except FrameworkError Outcome

variable (Outcome : Type)

/-- A program that makes these calls. -/
abbrev Execution (α : Type) := Program Call (Answer Outcome) (Except FrameworkError α)

/-- A call with its answer. -/
abbrev CallEvent := Program.Event Call (Answer Outcome)

variable {Outcome}

/-- The call fails or returns. -/
def perform (call : Call) : Program Call (Answer Outcome) (Answer Outcome call) :=
  Program.ask call

/-! ## Execution -/

def deniedEscalation (toolName : Text) : FrameworkError :=
  .approvalDenied ⟨"denied", toolName, "user denied sandbox escalation"⟩

def timedOutEscalation (toolName : Text) : FrameworkError :=
  .approvalDenied ⟨"timed-out", toolName, "approval timed out"⟩

def requestToolEscalation (ctx : ToolExecEnv) (sessionId toolName : Text)
    (capability : SandboxCapability) (target reason : Text) : Execution Outcome Unit :=
  Program.andThen
    (perform (.requestApproval
      (toolEscalationRequest ctx sessionId toolName capability target reason)))
    fun
      | .approved => .pure (.ok ())
      | .denied => .pure (.error (deniedEscalation toolName))
      | .timedOut => .pure (.error (timedOutEscalation toolName))

/-- What a denial of the wasm sandbox becomes, once the plan was found to stay inside. -/
def invariantSandboxDenial (toolName : Text) (err : FrameworkError) : FrameworkError :=
  match err.asSandboxPermissionDenied with
  | some denial =>
      .tool (("sandbox invariant violated for " : Text) ++ toolName ++
        (": preflight classified target as in-sandbox but wasm denied " : Text) ++
        denial.capability.asStr ++ (" access to " : Text) ++ denial.target ++ (" (" : Text) ++
        denial.diagnostic ++ (")" : Text))
  | none => err

/-- An arm that plans and runs the plan directly. -/
def executeUnsandboxed (tool : RegisteredTool) (argsJson : Text) : Execution Outcome Outcome :=
  Program.andThen (perform (.plan tool argsJson)) fun plan => perform (.executeDirect tool plan)

/-- The arms of the web tools in the wasm sandbox. -/
def executeWeb (tool : RegisteredTool) (argsJson : Text) : Execution Outcome Outcome :=
  Program.andThen (perform (.plan tool argsJson)) fun plan => perform (.executeWasm tool plan)

/-- The arms of the file tools in the wasm sandbox. -/
def executeFile (tool : RegisteredTool) (route : PlanOf tool → FileToolRoute)
    (ctx : ToolExecEnv) (argsJson sessionId toolName : Text) : Execution Outcome Outcome :=
  Program.andThen (perform (.plan tool argsJson)) fun plan =>
    match route plan with
    | .sandboxed _ _ =>
        Program.bind (perform (.executeWasm tool plan)) fun answer =>
          .pure (Except.mapError (invariantSandboxDenial toolName) answer)
    | .needsApproval capability target reason =>
        Program.andThen (requestToolEscalation ctx sessionId toolName capability target reason)
          fun _ => perform (.executeDirect tool plan)

/-- The arm of the commands in the host sandbox.  A command the sandbox has denied something is
run directly as well, if that is approved. -/
def executeCommand (ctx : ToolExecEnv) (argsJson sessionId : Text) : Execution Outcome Outcome :=
  Program.andThen (perform (.plan .exec argsJson)) fun (plan : ExecPlan) =>
    match plan.route with
    | .sandboxed =>
        Program.bind (perform (.executeHostSandboxed plan sessionId)) fun
          | .ok outcome => .pure (.ok outcome)
          | .error err =>
              match err.asSandboxPermissionDenied with
              | some denial =>
                  let reason := denial.toolName ++ (" requires unsandboxed " : Text) ++
                    denial.capability.asStr ++ (" access" : Text)
                  Program.andThen
                    (requestToolEscalation ctx sessionId denial.toolName denial.capability
                      denial.target reason)
                    fun _ => perform (.executeDirect .exec plan)
              | none => .pure (.error err)
    | .needsApproval capability target reason =>
        Program.andThen (requestToolEscalation ctx sessionId "exec" capability target reason)
          fun _ => perform (.executeDirect .exec plan)

/-- `DefaultToolExecutor::execute`. -/
def execute (entry : AgentToolEntry) (ctx : ToolExecEnv) (argsJson sessionId : Text) :
    Execution Outcome Outcome :=
  match entry.tool, entry.executionKind with
  | .webSearch, .direct => executeUnsandboxed .webSearch argsJson
  | .webSearch, .wasmSandbox => executeWeb .webSearch argsJson
  | .webFetch, .direct => executeUnsandboxed .webFetch argsJson
  | .webFetch, .wasmSandbox => executeWeb .webFetch argsJson
  | .read, .direct => executeUnsandboxed .read argsJson
  | .read, .wasmSandbox => executeFile .read ReadPlan.route ctx argsJson sessionId "read"
  | .edit, .direct => executeUnsandboxed .edit argsJson
  | .edit, .wasmSandbox => executeFile .edit EditPlan.route ctx argsJson sessionId "edit"
  | .glob, .direct => executeUnsandboxed .glob argsJson
  | .glob, .wasmSandbox => executeFile .glob GlobPlan.route ctx argsJson sessionId "glob"
  | .grep, .direct => executeUnsandboxed .grep argsJson
  | .grep, .wasmSandbox => executeFile .grep GrepPlan.route ctx argsJson sessionId "grep"
  | .list, .direct => executeUnsandboxed .list argsJson
  | .list, .wasmSandbox => executeFile .list ListPlan.route ctx argsJson sessionId "list"
  | .exec, .direct => executeUnsandboxed .exec argsJson
  | .exec, .hostSandbox => executeCommand ctx argsJson sessionId
  | .summon, .direct => perform (.executeTool .summon argsJson sessionId)
  | .task, .direct => perform (.executeTool .task argsJson sessionId)
  | tool, .direct => perform (.executeTool tool argsJson sessionId)
  | tool, kind =>
      .pure (.error (.tool (("unsupported execution kind " : Text) ++ kind.debug ++
        (" for tool '" : Text) ++ tool.name ++ ("'" : Text))))

/-! ## What is asked for, and when -/

/-- The call runs something outside the sandboxes. -/
def Call.isDirect : Call → Bool
  | .executeDirect _ _ | .executeTool _ _ _ => true
  | .plan _ _ | .executeWasm _ _ | .executeHostSandboxed _ _ | .requestApproval _ => false

def Call.isPlan : Call → Bool
  | .plan _ _ => true
  | .executeWasm _ _ | .executeHostSandboxed _ _ | .requestApproval _ | .executeDirect _ _
  | .executeTool _ _ _ => false

def Call.isRequest : Call → Bool
  | .requestApproval _ => true
  | .plan _ _ | .executeWasm _ _ | .executeHostSandboxed _ _ | .executeDirect _ _
  | .executeTool _ _ _ => false

/-- The route of a plan that leaves the sandbox: what it needs, of what, and why. -/
def routeNeeds : (tool : RegisteredTool) → PlanOf tool → Option (SandboxCapability × Text × Text)
  | .read, plan => needs plan.route
  | .edit, plan => needs plan.route
  | .glob, plan => needs plan.route
  | .grep, plan => needs plan.route
  | .list, plan => needs plan.route
  | .exec, plan =>
      match plan.route with
      | .sandboxed => none
      | .needsApproval capability target reason => some (capability, target, reason)
  | .webSearch, _ | .webFetch, _ => none
where
  needs : FileToolRoute → Option (SandboxCapability × Text × Text)
    | .sandboxed _ _ => none
    | .needsApproval capability target reason => some (capability, target, reason)

/-- The request asks for the escalation of this very plan: its route leaves the sandbox, or the
host sandbox has denied its command something. -/
inductive Escalates (ctx : ToolExecEnv) (sessionId : Text) (before : List (CallEvent Outcome)) :
    (tool : RegisteredTool) → PlanOf tool → ApprovalRequest → Prop where
  | route {tool plan capability target reason}
      (hneeds : routeNeeds tool plan = some (capability, target, reason)) :
      Escalates ctx sessionId before tool plan
        (toolEscalationRequest ctx sessionId tool.name capability target reason)
  | denial {plan : ExecPlan} {denial : SandboxPermissionDenied}
      (hdenied : ⟨.executeHostSandboxed plan sessionId,
        .error (.sandboxPermissionDenied denial)⟩ ∈ before) :
      Escalates ctx sessionId before .exec plan
        (toolEscalationRequest ctx sessionId denial.toolName denial.capability denial.target
          (denial.toolName ++ (" requires unsandboxed " : Text) ++ denial.capability.asStr ++
            (" access" : Text)))

/-- **A gated execution.**  A plan runs directly only right after a request for its escalation
was approved, and after it was made by the call; at most one does; the call is planned once; and a
request that is not approved makes the execution fail with nothing run directly. -/
structure Gated (ctx : ToolExecEnv) (argsJson sessionId : Text) (tr : List (CallEvent Outcome))
    (result : Except FrameworkError Outcome) : Prop where
  approved : ∀ before event after, tr = before ++ event :: after → event.1.isDirect = true →
    ∃ earlier tool plan request, before = earlier ++ [⟨.requestApproval request, .ok .approved⟩] ∧
      event.1 = .executeDirect tool plan ∧ ⟨.plan tool argsJson, .ok plan⟩ ∈ earlier ∧
        Escalates ctx sessionId earlier tool plan request
  once : tr.countP (·.1.isDirect) ≤ 1
  planned : tr.countP (·.1.isPlan) ≤ 1
  refused : ∀ request answer, ⟨.requestApproval request, answer⟩ ∈ tr → answer ≠ .ok .approved →
    (∃ e, result = .error e) ∧ ∀ event ∈ tr, event.1.isDirect = false

/-- Calls that neither ask for approval nor run anything directly, and plan once at most. -/
structure Quiet (tr : List (CallEvent Outcome)) : Prop where
  direct : ∀ event ∈ tr, event.1.isDirect = false
  request : ∀ event ∈ tr, event.1.isRequest = false
  planned : tr.countP (·.1.isPlan) ≤ 1

/-- The traces of an arm: all in the sandbox, or up to a request that is not approved, or to one
that is and the direct run after it. -/
inductive ArmTrace (ctx : ToolExecEnv) (argsJson sessionId : Text) :
    List (CallEvent Outcome) → Except FrameworkError Outcome → Prop where
  | sandboxed {tr : List (CallEvent Outcome)} {result : Except FrameworkError Outcome}
      (hquiet : Quiet tr) : ArmTrace ctx argsJson sessionId tr result
  | refused {earlier : List (CallEvent Outcome)} {request : ApprovalRequest}
      {answer : Except FrameworkError ApprovalDecision} {e : FrameworkError}
      (hquiet : Quiet earlier) (hanswer : answer ≠ .ok .approved) :
      ArmTrace ctx argsJson sessionId (earlier ++ [⟨.requestApproval request, answer⟩]) (.error e)
  | escalated {earlier : List (CallEvent Outcome)} {tool : RegisteredTool} {plan : PlanOf tool}
      {request : ApprovalRequest} {answer result : Except FrameworkError Outcome}
      (hquiet : Quiet earlier) (hplan : ⟨.plan tool argsJson, .ok plan⟩ ∈ earlier)
      (hrequest : Escalates ctx sessionId earlier tool plan request) :
      ArmTrace ctx argsJson sessionId (earlier ++ [⟨.requestApproval request, .ok .approved⟩] ++
        [⟨.executeDirect tool plan, answer⟩]) result

section Gated

variable {ctx : ToolExecEnv} {argsJson sessionId : Text} {tr : List (CallEvent Outcome)}
  {result : Except FrameworkError Outcome}

/-- The only entry with a property is where a list is split at one that has it. -/
theorem split_of_last {α : Type*} {p : α → Prop} {xs before after : List α} {x y : α}
    (h : xs ++ [y] = before ++ x :: after) (hx : p x) (hxs : ∀ z ∈ xs, ¬ p z) :
    before = xs ∧ x = y := by
  rcases List.eq_nil_or_concat after with rfl | ⟨after', z, rfl⟩
  · obtain ⟨hbefore, hlast⟩ := List.append_inj' h rfl
    exact ⟨hbefore.symm, (List.singleton_inj.mp hlast).symm⟩
  · -- otherwise the entry is among the earlier ones
    rw [List.concat_eq_append, ← List.cons_append, ← List.append_assoc] at h
    obtain ⟨hxs', -⟩ := List.append_inj' h rfl
    exact absurd hx (hxs x (by rw [hxs']; simp))

theorem Quiet.countP_isDirect (h : Quiet tr) : tr.countP (·.1.isDirect) = 0 :=
  List.countP_eq_zero.mpr fun event hevent => by
    rw [h.direct event hevent]
    exact Bool.false_ne_true

/-- No request for approval is among quiet calls. -/
theorem Quiet.ne_request (h : Quiet tr) {request : ApprovalRequest}
    {answer : Except FrameworkError ApprovalDecision} :
    (⟨.requestApproval request, answer⟩ : CallEvent Outcome) ∉ tr := by
  intro hmem
  have hrequest := h.request _ hmem
  exact Bool.false_ne_true hrequest.symm

/-- **The traces of an arm are gated.** -/
theorem ArmTrace.gated (h : ArmTrace ctx argsJson sessionId tr result) :
    Gated ctx argsJson sessionId tr result := by
  cases h with
  | sandboxed hquiet =>
      refine ⟨fun before event after htr hdirect => ?_, ?_, hquiet.planned,
        fun request answer hmem _ => absurd hmem hquiet.ne_request⟩
      · have hfalse := hquiet.direct event (by rw [htr]; simp)
        exact absurd (hfalse.symm.trans hdirect) Bool.false_ne_true
      · rw [hquiet.countP_isDirect]
        exact Nat.zero_le 1
  | @refused earlier request answer e hquiet hanswer =>
      have hdirect : ∀ event ∈ earlier ++ [⟨.requestApproval request, answer⟩],
          event.1.isDirect = false := by
        intro event hevent
        rcases List.mem_append.mp hevent with hevent | hevent
        · exact hquiet.direct event hevent
        · rw [List.mem_singleton.mp hevent]
          rfl
      refine ⟨fun before event after htr hd => ?_, ?_, ?_, fun _ _ _ _ => ⟨⟨e, rfl⟩, hdirect⟩⟩
      · have hfalse := hdirect event (by rw [htr]; simp)
        exact absurd (hfalse.symm.trans hd) Bool.false_ne_true
      · rw [List.countP_append, hquiet.countP_isDirect]
        exact Nat.zero_le 1
      · rw [List.countP_append]
        exact hquiet.planned
  | @escalated earlier tool plan request answer result hquiet hplan hrequest =>
      have hnone : ∀ event ∈ earlier ++ [⟨.requestApproval request, .ok .approved⟩],
          ¬ event.1.isDirect = true := by
        intro event hevent
        rcases List.mem_append.mp hevent with hevent | hevent
        · rw [hquiet.direct event hevent]
          exact Bool.false_ne_true
        · rw [List.mem_singleton.mp hevent]
          exact Bool.false_ne_true
      refine ⟨fun before event after htr hdirect => ?_, ?_, ?_, ?_⟩
      · -- the direct run is the last call, and the request the one before it
        obtain ⟨rfl, rfl⟩ := split_of_last htr hdirect hnone
        exact ⟨earlier, tool, plan, request, rfl, rfl, hplan, hrequest⟩
      · rw [List.countP_append, List.countP_append, hquiet.countP_isDirect]
        exact Nat.le_refl 1
      · rw [List.countP_append, List.countP_append]
        exact hquiet.planned
      · intro other answer' hmem hanswer'
        rw [List.append_assoc] at hmem
        rcases List.mem_append.mp hmem with hmem | hmem
        · exact absurd hmem hquiet.ne_request
        · -- the one request of the run was approved
          rcases List.mem_cons.mp hmem with heq | hmem
          · cases heq
            exact absurd rfl hanswer'
          · cases List.mem_singleton.mp hmem

/-! ### The runs of the arms -/

/-- A run of an arm that plans ends with the failed plan, or goes on with the plan. -/
theorem runs_planned {tool : RegisteredTool} {f : PlanOf tool → Execution Outcome Outcome}
    (h : Program.Runs (Program.andThen (perform (.plan tool argsJson)) f) tr result) :
    (∃ e, tr = [⟨.plan tool argsJson, .error e⟩]) ∨
      ∃ plan tr', tr = [⟨.plan tool argsJson, .ok plan⟩] ++ tr' ∧
        Program.Runs (f plan) tr' result := by
  rcases Program.runs_andThen_iff.mp h with ⟨e, hplan, -⟩ | ⟨plan, tr₁, tr₂, rfl, hplan, hrest⟩
  · exact .inl ⟨e, Program.runs_ask_iff.mp hplan⟩
  · obtain rfl := Program.runs_ask_iff.mp hplan
    exact .inr ⟨plan, tr₂, rfl, hrest⟩

/-- A request for escalation is one call, and goes through only if it was approved. -/
theorem runs_requestToolEscalation {toolName : Text} {capability : SandboxCapability}
    {target reason : Text} {answer : Except FrameworkError Unit}
    (h : Program.Runs (requestToolEscalation ctx sessionId toolName capability target reason :
      Execution Outcome Unit) tr answer) :
    ∃ reply : Except FrameworkError ApprovalDecision, tr = [⟨.requestApproval
        (toolEscalationRequest ctx sessionId toolName capability target reason), reply⟩] ∧
      (answer = .ok () ↔ reply = .ok .approved) := by
  rcases Program.runs_andThen_iff.mp h with ⟨e, hask, rfl⟩ | ⟨decision, tr₁, tr₂, rfl, hask, hrest⟩
  · exact ⟨.error e, Program.runs_ask_iff.mp hask, by simp⟩
  · obtain rfl := Program.runs_ask_iff.mp hask
    refine ⟨.ok decision, ?_⟩
    cases decision <;> obtain ⟨rfl, rfl⟩ := Program.runs_pure_iff.mp hrest <;> simp

/-- A plan whose escalation is asked for is run directly if that is approved, and not at all
otherwise. -/
theorem ArmTrace.escalation {earlier : List (CallEvent Outcome)} {tool : RegisteredTool}
    {plan : PlanOf tool} {toolName : Text} {capability : SandboxCapability} {target reason : Text}
    (hquiet : Quiet earlier) (hplan : ⟨.plan tool argsJson, .ok plan⟩ ∈ earlier)
    (hrequest : Escalates ctx sessionId earlier tool plan
      (toolEscalationRequest ctx sessionId toolName capability target reason))
    (h : Program.Runs (Program.andThen
      (requestToolEscalation ctx sessionId toolName capability target reason)
      fun _ => perform (.executeDirect tool plan)) tr result) :
    ArmTrace ctx argsJson sessionId (earlier ++ tr) result := by
  rcases Program.runs_andThen_iff.mp h with ⟨e, hask, rfl⟩ | ⟨u, tr₁, tr₂, rfl, hask, hrun⟩
  · obtain ⟨reply, rfl, happroved⟩ := runs_requestToolEscalation hask
    have hreply : reply ≠ .ok .approved := fun hreply => by cases happroved.mpr hreply
    exact .refused hquiet hreply
  · obtain ⟨reply, rfl, happroved⟩ := runs_requestToolEscalation hask
    obtain rfl := happroved.mp rfl
    obtain rfl := Program.runs_ask_iff.mp hrun
    rw [← List.append_assoc]
    exact .escalated hquiet hplan hrequest

theorem quiet_plan {tool : RegisteredTool} {answer : Except FrameworkError (PlanOf tool)} :
    Quiet [(⟨.plan tool argsJson, answer⟩ : CallEvent Outcome)] where
  direct := by
    intro event hevent
    rw [List.mem_singleton.mp hevent]
    rfl
  request := by
    intro event hevent
    rw [List.mem_singleton.mp hevent]
    rfl
  planned := Nat.le_refl 1

/-- A run in a sandbox changes nothing about quiet calls. -/
theorem Quiet.append {earlier : List (CallEvent Outcome)} {event : CallEvent Outcome}
    (h : Quiet earlier) (hdirect : event.1.isDirect = false) (hrequest : event.1.isRequest = false)
    (hplan : event.1.isPlan = false) : Quiet (earlier ++ [event]) where
  direct := by
    intro other hother
    rcases List.mem_append.mp hother with hother | hother
    · exact h.direct other hother
    · rwa [List.mem_singleton.mp hother]
  request := by
    intro other hother
    rcases List.mem_append.mp hother with hother | hother
    · exact h.request other hother
    · rwa [List.mem_singleton.mp hother]
  planned := by
    rw [List.countP_append, List.countP_singleton, hplan]
    exact h.planned

theorem executeWeb_trace {tool : RegisteredTool}
    (h : Program.Runs (executeWeb tool argsJson) tr result) :
    ArmTrace ctx argsJson sessionId tr result := by
  rcases runs_planned h with ⟨e, rfl⟩ | ⟨plan, tr', rfl, hrun⟩
  · exact .sandboxed quiet_plan
  · obtain rfl := Program.runs_ask_iff.mp hrun
    exact .sandboxed (quiet_plan.append rfl rfl rfl)

/-- The arm of a file tool asks for what the route of its plan needs. -/
theorem executeFile_trace {tool : RegisteredTool} {route : PlanOf tool → FileToolRoute}
    (hroute : ∀ plan, routeNeeds tool plan = routeNeeds.needs (route plan))
    (h : Program.Runs (executeFile tool route ctx argsJson sessionId tool.name) tr result) :
    ArmTrace ctx argsJson sessionId tr result := by
  rcases runs_planned h with ⟨e, rfl⟩ | ⟨plan, tr', rfl, hrun⟩
  · exact .sandboxed quiet_plan
  · have hneeds := hroute plan
    cases hplan : route plan with
    | sandboxed guestPath sandboxPath =>
        rw [hplan] at hrun
        obtain ⟨answer, tr₁, tr₂, rfl, hwasm, hlast⟩ := Program.runs_bind_iff.mp hrun
        obtain rfl := Program.runs_ask_iff.mp hwasm
        obtain ⟨rfl, -⟩ := Program.runs_pure_iff.mp hlast
        exact .sandboxed (quiet_plan.append rfl rfl rfl)
    | needsApproval capability target reason =>
        rw [hplan] at hrun hneeds
        exact ArmTrace.escalation quiet_plan (List.mem_singleton_self _) (.route hneeds) hrun

theorem executeCommand_trace (h : Program.Runs (executeCommand ctx argsJson sessionId) tr result) :
    ArmTrace ctx argsJson sessionId tr result := by
  rcases runs_planned h with ⟨e, rfl⟩ | ⟨(plan : ExecPlan), tr', rfl, hrun⟩
  · exact .sandboxed quiet_plan
  · cases hplan : plan.route with
    | needsApproval capability target reason =>
        have hneeds : routeNeeds .exec plan = some (capability, target, reason) := by
          simp only [routeNeeds, hplan]
        rw [hplan] at hrun
        exact ArmTrace.escalation quiet_plan (List.mem_singleton_self _) (.route hneeds) hrun
    | sandboxed =>
        rw [hplan] at hrun
        obtain ⟨answer, tr₁, tr₂, rfl, hsandboxed, hlast⟩ := Program.runs_bind_iff.mp hrun
        obtain rfl := Program.runs_ask_iff.mp hsandboxed
        have hquiet : Quiet ([⟨.plan .exec argsJson, .ok plan⟩] ++
            [(⟨.executeHostSandboxed plan sessionId, answer⟩ : CallEvent Outcome)]) :=
          quiet_plan.append rfl rfl rfl
        rw [← List.append_assoc]
        match answer with
        | .error (.sandboxPermissionDenied denial) =>
            exact ArmTrace.escalation hquiet (by simp) (.denial (by simp)) hlast
        | .error (.io _) | .error (.yaml _) | .error (.db _) | .error (.provider _)
        | .error (.tool _) | .error (.approvalDenied _) | .error (.config _) | .ok _ =>
            obtain ⟨rfl, -⟩ := Program.runs_pure_iff.mp hlast
            rw [List.append_nil]
            exact .sandboxed hquiet

/-- A tool of a kind it cannot be makes no call at all. -/
theorem unsupported_trace {e : FrameworkError}
    (h : Program.Runs (.pure (.error e) : Execution Outcome Outcome) tr result) :
    ArmTrace ctx argsJson sessionId tr result := by
  obtain ⟨rfl, -⟩ := Program.runs_pure_iff.mp h
  exact .sandboxed ⟨by simp, by simp, Nat.zero_le 1⟩

/-- Every sandboxed entry has one of these arms. -/
theorem execute_trace {entry : AgentToolEntry} (hkind : entry.executionKind ≠ .direct)
    (h : Program.Runs (execute entry ctx argsJson sessionId) tr result) :
    ArmTrace ctx argsJson sessionId tr result := by
  obtain ⟨tool, kind⟩ := entry
  cases kind with
  | direct => exact absurd rfl hkind
  | wasmSandbox =>
      cases tool with
      | webSearch | webFetch => exact executeWeb_trace h
      | read | edit | glob | grep | list => exact executeFile_trace (fun _ => rfl) h
      | exec | summon | task | direct name => exact unsupported_trace h
  | hostSandbox =>
      cases tool with
      | exec => exact executeCommand_trace h
      | webSearch | webFetch | read | edit | glob | grep | list | summon | task | direct name =>
          exact unsupported_trace h

/-- **Every execution of a sandboxed entry is gated**, however its calls are answered. -/
theorem execute_gated (entry : AgentToolEntry) (ctx : ToolExecEnv) (argsJson sessionId : Text)
    (hkind : entry.executionKind ≠ .direct) (tr : List (CallEvent Outcome))
    (result : Except FrameworkError Outcome)
    (h : Program.Runs (execute entry ctx argsJson sessionId) tr result) :
    Gated ctx argsJson sessionId tr result :=
  (execute_trace hkind h).gated

/-- A command that is classified as staying in the sandbox. -/
def lookupPlan : ExecPlan where
  command := "getent hosts example.org"
  background := false
  timeoutSeconds := 30
  env := []
  workdir := PathBuf.ofText "/home/agent/workspace"
  route := .sandboxed

/-- What the sandbox says about it. -/
def lookupDenial : SandboxPermissionDenied where
  toolName := "exec"
  executionKind := "host_sandbox"
  capability := .network
  target := "example.org"
  diagnostic := "network access is not allowed"

/-- The sandbox denies the command something, the user approves, and the command runs directly. -/
def lookupTrace : List (CallEvent Text) :=
  [⟨.plan .exec "{}", .ok lookupPlan⟩,
    ⟨.executeHostSandboxed lookupPlan "session-1",
      .error (.sandboxPermissionDenied lookupDenial)⟩,
    ⟨.requestApproval (toolEscalationRequest agentEnv "session-1" "exec" .network "example.org"
      "exec requires unsandboxed network access"), .ok .approved⟩,
    ⟨.executeDirect .exec lookupPlan, .ok "93.184.215.14 example.org"⟩]

theorem execute_gated_lookup :
    Gated agentEnv "{}" "session-1" lookupTrace (.ok "93.184.215.14 example.org") :=
  execute_gated ⟨.exec, .hostSandbox⟩ agentEnv "{}" "session-1" (by decide) lookupTrace _
    (.call _ (.call _ (.call _ (.call _ (.pure _)))))

end Gated

end Tools
end SimpleClaw
