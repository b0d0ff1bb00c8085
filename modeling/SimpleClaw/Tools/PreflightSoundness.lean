import SimpleClaw.Tools.Exec
import SimpleClaw.Tools.PreflightReading

/-!
# Soundness of the exec preflight

A command let through by the preflight should name no file for writing outside the roots that
may be written.  `Shell` says which files a command names; this module compares them with the
texts the preflight inspects and with the paths it resolves them to.

* `resolvesInside_of_seen`: a file that the preflight sees for what it is lies inside.
* `preflightSound_iff`: so the preflight is sound for a command exactly if the files it does not
  see lie inside; in plain commands that are read alike it overlooks none.
-/

namespace SimpleClaw
namespace Tools

open Shell

/-- The path a text names, taken from the working directory. -/
def lexicalPath (workdir : PathBuf) (target : Text) : PathBuf :=
  let path := PathBuf.ofText target
  normalizeAbsolutePath (if path.isAbsolute then path else workdir.join path)

section Soundness

variable (host : Host) (workdir : PathBuf) (config : ExecToolConfig)

/-- A root that may be written, as it is spelled or as the preflight resolves it. -/
def IsWriteRoot (root : PathBuf) : Prop :=
  root = normalizeAbsolutePath workdir ∨ root = PathBuf.ofText "/tmp" ∨
    (∃ extra ∈ config.sandbox.extraWritablePaths,
      resolvePathForRead host extra workdir = .ok root) ∨
    ∃ allowedRoots, allowedWriteRoots host workdir config = .ok allowedRoots ∧
      root ∈ allowedRoots

/-- The text names a path inside a root that may be written. -/
def ResolvesInside (target : Text) : Prop :=
  ∃ root, IsWriteRoot host workdir config root ∧
    (lexicalPath workdir target).startsWith root = true

/-- If the preflight lets the command through, every file it names for writing is inside. -/
def PreflightSound (mixed : Bool) (command : Text) (commands : List SimpleCommand) : Prop :=
  classifyExecCommandAccess host command workdir config = .ok .sandboxed →
    ∀ simple ∈ commands, ∀ target ∈ simple.writeTargets mixed,
      ResolvesInside host workdir config target

/-- The preflight has no objection: no screen stops the command, the roots can be resolved and
every segment passes. -/
def Unobjectionable (command : Text) : Prop :=
  screenCommand command config = none ∧
    ∃ allowedRoots, allowedWriteRoots host workdir config = .ok allowedRoots ∧
      ∀ segment ∈ splitShellSegments ((tokenizeShellCommand command).getD []),
        SegmentPasses host workdir allowedRoots segment

/-- The preflight expands nothing in the text. -/
structure Literal (target : Text) : Prop where
  trimmed : Text.trim target = target
  noVariable : '$' ∉ target
  noHome : target.head? ≠ some '~'

/-- The preflight sees a file for what it is: it inspects the text as a write target, expands
nothing in it, and meets no symbolic link on the way to it. -/
structure Seen (command target : Text) : Prop where
  inspected : target ∈ inspected command
  literal : Literal target
  unlinked : canonicalizeWithExistingAncestor host (lexicalPath workdir target) =
    .ok (lexicalPath workdir target)

variable {host workdir config}

/-- Text that expands to itself is resolved as it reads. -/
theorem resolvePathForRead_of_literal {target : Text} (hne : target ≠ []) (h : Literal target) :
    resolvePathForRead host target workdir = .ok (lexicalPath workdir target) := by
  have hhome : expandHomeDir host target = none := by
    cases target with
    | nil => rfl
    | cons c rest =>
        have hc : c ≠ '~' := fun hc => h.noHome (by rw [hc]; rfl)
        unfold expandHomeDir
        split
        · rename_i heq
          exact absurd (List.cons.inj heq).1 hc
        · rename_i heq
          exact absurd (List.cons.inj heq).1 hc
        · rfl
  unfold resolvePathForRead
  simp only [h.trimmed, if_neg hne, expandEnvVars_of_notMem host h.noVariable, hhome,
    Option.getD_none]
  rfl

theorem resolvePathForRead_nil (host : Host) (workdir : PathBuf) :
    ∃ e, resolvePathForRead host [] workdir = .error e :=
  ⟨_, rfl⟩

/-- What is inspected in a segment that passes, passes. -/
theorem passes_of_mem_inspectedIn {allowedRoots : List PathBuf} {segment : List ShellToken}
    (h : SegmentPasses host workdir allowedRoots segment) {target : Text}
    (htarget : target ∈ inspectedIn segment) : Passes host workdir allowedRoots target := by
  rcases List.mem_append.mp htarget with hredir | hwrite
  · obtain ⟨found, hfound, rfl⟩ := List.mem_filterMap.mp hredir
    obtain ⟨target', heq, hpasses⟩ := h.redirections _ hfound
    cases heq
    exact hpasses
  · cases hname : segmentCommandName segment with
    | none => simp [hname] at hwrite
    | some commandName =>
        rw [hname] at hwrite
        exact h.targets commandName hname target hwrite (ne_dash_of_mem_writeTargets hwrite)

/-- **A file that is seen for what it is lies inside**, if the preflight has no objection. -/
theorem resolvesInside_of_seen {command target : Text}
    (hclear : Unobjectionable host workdir config command)
    (hseen : Seen host workdir command target) : ResolvesInside host workdir config target := by
  obtain ⟨-, allowedRoots, hroots, hsegments⟩ := hclear
  obtain ⟨segment, hsegment, htarget⟩ := List.mem_flatMap.mp hseen.inspected
  obtain ⟨-, resolved, hresolved, root, hroot, hstarts⟩ :=
    passes_of_mem_inspectedIn (hsegments segment hsegment) htarget
  have hne : target ≠ [] := by
    rintro rfl
    obtain ⟨e, he⟩ := resolvePathForRead_nil host workdir
    rw [resolveExecPath, he] at hresolved
    cases hresolved
  have hlexical : resolveExecPath host target workdir = .ok (lexicalPath workdir target) := by
    rw [resolveExecPath, resolvePathForRead_of_literal hne hseen.literal]
    exact hseen.unlinked
  obtain rfl : lexicalPath workdir target = resolved := by
    rw [hlexical] at hresolved
    exact Except.ok.inj hresolved
  exact ⟨root, .inr (.inr (.inr ⟨allowedRoots, hroots, hroot⟩)), hstarts⟩

/-- The preflight is sound if the files it does not see lie inside. -/
theorem preflightSound_of_unseen {mixed : Bool} {command : Text} {commands : List SimpleCommand}
    (hunseen : Unobjectionable host workdir config command →
      ∀ simple ∈ commands, ∀ target ∈ simple.writeTargets mixed,
        ¬ Seen host workdir command target → ResolvesInside host workdir config target) :
    PreflightSound host workdir config mixed command commands := by
  intro hsandboxed simple hsimple target htarget
  have hclear : Unobjectionable host workdir config command :=
    (classifyExecCommandAccess_sandboxed_iff host command workdir config).mp hsandboxed
  by_cases hseen : Seen host workdir command target
  · exact resolvesInside_of_seen hclear hseen
  · exact hunseen hclear simple hsimple target htarget hseen

/-- **When the preflight is sound.**  For a command of the fragment it is exactly if, unless it
objects, the files named for writing that it does not see lie inside.  Plain commands in a text
that it reads as the shell does name no such files, as long as nothing in the names is expanded
and no symbolic link is on the way. -/
theorem preflightSound_iff {command : Text} {commands : List SimpleCommand} (mixed : Bool)
    (hread : Shell.read command = some commands) :
    (PreflightSound host workdir config mixed command commands ↔
      (Unobjectionable host workdir config command →
        ∀ simple ∈ commands, ∀ target ∈ simple.writeTargets mixed,
          ¬ Seen host workdir command target → ResolvesInside host workdir config target)) ∧
    (PlainText command → (∀ simple ∈ commands, PlainCommand mixed simple) →
      (∀ simple ∈ commands, ∀ target ∈ simple.writeTargets mixed, Literal target ∧
        canonicalizeWithExistingAncestor host (lexicalPath workdir target) =
          .ok (lexicalPath workdir target)) →
      PreflightSound host workdir config mixed command commands) := by
  constructor
  · constructor
    · intro hsound hclear simple hsimple target htarget _
      have hsandboxed := (classifyExecCommandAccess_sandboxed_iff host command workdir config).mpr
        hclear
      exact hsound hsandboxed simple hsimple target htarget
    · exact preflightSound_of_unseen
  · intro htext hplain hliteral
    refine preflightSound_of_unseen fun _ simple hsimple target htarget hunseen => ?_
    have hinspected := writeTargets_subset_inspected hread htext hplain simple hsimple _ htarget
    obtain ⟨htarget, hunlinked⟩ := hliteral simple hsimple target htarget
    exact absurd ⟨hinspected, htarget, hunlinked⟩ hunseen

end Soundness

/-- The configuration without extra roots. -/
def defaultExecConfig : ExecToolConfig := ⟨none, true, ⟨none, [], []⟩⟩

/-- A command whose one write target is seen for what it is, although its name is quoted. -/
theorem preflightSound_touch :
    let commands : List SimpleCommand := [[.word [.plain 't', .plain 'e', .plain 'e'],
      .word [.quote, .single 'a', .single ' ', .single 'b', .quote]]]
    Shell.read "tee 'a b'" = some commands ∧
      PreflightSound openHost agentEnv.workspaceRoot defaultExecConfig true "tee 'a b'"
        commands := by
  intro commands
  have hread : Shell.read "tee 'a b'" = some commands := by decide +kernel
  refine ⟨hread, (preflightSound_iff true hread).1.mpr ?_⟩
  intro _ simple hsimple target htarget hunseen
  refine absurd ?_ hunseen
  obtain rfl := List.mem_singleton.mp hsimple
  obtain rfl : target = ("a b" : Text) := List.mem_singleton.mp htarget
  exact ⟨by decide +kernel, ⟨by decide, by decide, by decide⟩, by decide +kernel⟩

/-- On the host, with the agent's workspace for the working directory, a path outside of it and
of `/tmp` is outside. -/
theorem not_resolvesInside_passwd :
    ¬ ResolvesInside openHost agentEnv.workspaceRoot defaultExecConfig "/etc/passwd" := by
  rintro ⟨root, hroot, hstarts⟩
  have hroots : allowedWriteRoots openHost agentEnv.workspaceRoot defaultExecConfig =
      .ok [agentEnv.workspaceRoot, PathBuf.ofText "/tmp"] := by decide +kernel
  have hmem : root ∈ [agentEnv.workspaceRoot, PathBuf.ofText "/tmp"] := by
    rcases hroot with rfl | rfl | ⟨extra, hextra, -⟩ | ⟨allowedRoots, hallowed, hmem⟩
    · decide
    · decide
    · cases hextra
    · rw [hroots] at hallowed
      cases hallowed
      exact hmem
  simp only [List.mem_cons, List.not_mem_nil, or_false] at hmem
  rcases hmem with rfl | rfl
  · exact absurd hstarts (by decide)
  · exact absurd hstarts (by decide)

/-- The tokenizer takes the end of a line for a blank, so a command on a second line passes for
an argument of the first. -/
theorem secondLine_not_sound :
    ∃ commands, Shell.read "ls\nrm /etc/passwd" = some commands ∧
      ¬ PreflightSound openHost agentEnv.workspaceRoot defaultExecConfig true
        "ls\nrm /etc/passwd" commands := by
  have hread : (Shell.read "ls\nrm /etc/passwd").isSome = true := by decide +kernel
  obtain ⟨commands, hcommands⟩ := Option.isSome_iff_exists.mp hread
  refine ⟨commands, hcommands, fun hsound => ?_⟩
  have htargets : (Shell.read "ls\nrm /etc/passwd").map
      (·.flatMap (SimpleCommand.writeTargets true)) = some [("/etc/passwd" : Text)] := by
    decide +kernel
  rw [hcommands, Option.map_some] at htargets
  have hmem : ("/etc/passwd" : Text) ∈ commands.flatMap (SimpleCommand.writeTargets true) := by
    rw [Option.some.inj htargets]
    exact List.mem_singleton_self _
  obtain ⟨simple, hsimple, htarget⟩ := List.mem_flatMap.mp hmem
  exact not_resolvesInside_passwd (hsound (by decide +kernel) simple hsimple _ htarget)

end Tools
end SimpleClaw
