import Mathlib.Logic.Relation
import PowerRag.Deploy.Script

/-!
The script as a system: invocations of `deploy.sh` one after another, each with its own
environment and exit schedule, and processes that exit between them. `StepOob` adds the
deletion of a PID file by hand.
-/

namespace PowerRag.Deploy

/-- The host before any invocation: no process of the script, an empty `pids/`. -/
def Host.init (next : Nat) : Host := ⟨ProcTable.empty next, PidDir.empty, none, 0, fun _ => []⟩

/-- `./scripts/deploy.sh <cmd>` with the environment `env`, while the processes `exits`
names at each action exit: its exit status and the host it leaves. -/
def runCmd (W : String) (env : Env) (cmd : Command) (exits : Nat → List Nat) (h : Host) :
    Nat × Host :=
  (deploy W env cmd).run { h with clock := 0, exits := exits }

def invoke (W : String) (env : Env) (cmd : Command) (exits : Nat → List Nat) (h : Host) :
    Host :=
  (runCmd W env cmd exits h).2

inductive Step (W : String) : Host → Host → Prop
  | invoke (env : Env) (cmd : Command) (exits : Nat → List Nat) (h : Host) :
      Step W h (invoke W env cmd exits h)
  | exit (pid : Nat) (h : Host) : Step W h { h with procs := h.procs.exitAll [pid] }

def Reachable (W : String) (h : Host) : Prop :=
  ∃ n, Relation.ReflTransGen (Step W) (Host.init n) h

inductive StepOob (W : String) : Host → Host → Prop
  | step {h h' : Host} : Step W h h' → StepOob W h h'
  | unlink (name : String) (h : Host) : StepOob W h { h with dir := h.dir.remove name }

/-- Reachable when PID files may also be deleted by hand. -/
def ReachableOob (W : String) (h : Host) : Prop :=
  ∃ n, Relation.ReflTransGen (StepOob W) (Host.init n) h

theorem Reachable.oob {W : String} {h : Host} (hr : Reachable W h) : ReachableOob W h :=
  let ⟨n, hr⟩ := hr
  ⟨n, hr.mono fun _ _ => StepOob.step⟩

/-- One more invocation stays reachable. -/
theorem Reachable.invoke {W : String} {h : Host} (hr : Reachable W h) (env : Env) (cmd : Command)
    (exits : Nat → List Nat) : Reachable W (invoke W env cmd exits h) :=
  let ⟨n, hr⟩ := hr
  ⟨n, hr.tail (.invoke env cmd exits h)⟩

end PowerRag.Deploy
