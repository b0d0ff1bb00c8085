import SimpleClaw.Host

/-!
# The host sandbox for shell commands

What `sandbox/host.rs` tells the sandbox runtime about the file system before it launches a
command: which paths may be written.
-/

namespace SimpleClaw
namespace Sandbox

structure SandboxPolicy where
  networkEnabled : Bool
  extraWritablePaths : List Text
  deriving DecidableEq

/-- The file system part of the runtime's configuration. -/
structure FilesystemConfig where
  denyRead : List Text
  allowWrite : List Text
  denyWrite : List Text
  allowGitConfig : Option Bool
  deriving DecidableEq

def buildWriteAllowPaths (workspaceRoot : PathBuf) (sandbox : SandboxPolicy) : List Text :=
  [workspaceRoot.display, ("/tmp" : Text)] ++ sandbox.extraWritablePaths

/-- The file system part of `build_runtime_config`. -/
def buildFilesystemConfig (workspaceRoot : PathBuf) (sandbox : SandboxPolicy) :
    FilesystemConfig where
  denyRead := []
  allowWrite := buildWriteAllowPaths workspaceRoot sandbox
  denyWrite := []
  allowGitConfig := some false

/-- The configuration `prepare_command_for_exec` launches a command under. -/
def prepareCommandForExec (host : Host) (workspaceRoot : PathBuf) (sandbox : SandboxPolicy) :
    Except FrameworkError FilesystemConfig := do
  let workspace ← normalizeWorkspaceRoot host workspaceRoot
  return buildFilesystemConfig workspace sandbox

end Sandbox
end SimpleClaw
