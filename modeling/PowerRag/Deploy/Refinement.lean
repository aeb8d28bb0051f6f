import PowerRag.Deploy.Effect

/-!
`deploy.sh` as a service manager. The abstract state is the set of services that run, and each
command of the `case` dispatch has an abstract effect on it. For a workspace path that
`force_stop_all`'s pipeline reads as itself, from every state the script reaches, a command
never leaves running more than its effect allows, whatever processes exit during the call; and
when nothing exits it leaves exactly that, command by command and over whole sessions.
-/

namespace PowerRag.Deploy

/-- The abstract effect of each command on the services that run: `start` adds the configured
backends, `stop` ends every backend, `force-stop` ends everything, `restart` and
`force-restart` are the stop and then the start, each `start-*` or `stop-*` command adds or
ends its own service, and `status` and the usage text change nothing. -/
def Command.effect (env : Env) : Command → (Service → Bool) → Service → Bool
  | .start, r, s => r s || env.backends s
  | .stop, r, s => r s && s == .webFrontend
  | .forceStop, _, _ => false
  | .restart, r, s => r s && s == .webFrontend || env.backends s
  | .forceRestart, _, s => env.backends s
  | .status, r, s => r s
  | .startRagflowServer, r, s => r s || s == .ragflowServer
  | .stopRagflowServer, r, s => r s && s != .ragflowServer
  | .startWorkers, r, s => r s || s.workerIn env.workerIds
  | .stopWorkers, r, s => r s && !s.isWorker
  | .startWeb, r, s => r s || s == .webFrontend && env.webReady
  | .stopWeb, r, s => r s && s != .webFrontend
  | .usage, r, s => r s

example : Command.effect {} .restart (fun _ => true) (.worker 2) = false := by decide

/-- What every state the script reaches under a plain path has. -/
structure Sound (h : Host) : Prop where
  registry : Registry h
  owned : Owned h
  oneLine : OneLine h

theorem sound_of_reachable {W : String} {h : Host} (hW : PlainPath W) (hr : Reachable W h)
    (clock : Nat) (exits : Nat → List Nat) : Sound { h with clock := clock, exits := exits } :=
  ⟨(registry_of_reachable hW hr).mono rfl fun _ => id,
    (owned_of_reachableOob hr.oob).mono (fun _ _ => id) rfl fun _ => id,
    (oneLine_of_reachableOob hr.oob : OneLine h)⟩

/-- Under the invariants, whatever processes exit, a command leaves running at most what its
effect allows. -/
theorem wp_deploy_le {W : String} (hW : PlainPath W) {h : Host} (s : Sound h) (env : Env) :
    ∀ cmd, wp (deploy W env cmd) (fun _ h' => Included h'.running (cmd.effect env h.running)) h
  | .start => wp_startAll_le env h
  | .stop => wp_stopAll_le s.registry s.oneLine
  | .forceStop => by
      rw [deploy, wp_bind]
      exact wp_forceStopAll_le hW s.registry
  | .restart => by
      rw [deploy, wp_bind]
      refine wp_mono (wp_stopAll_le s.registry s.oneLine) fun _ h₁ h₁le => ?_
      rw [wp_bind, wp_sleep]
      exact wp_mono (wp_startAll_le env h₁.tick) fun _ _ hle =>
        hle.trans (Included.or_left ((Host.running_tick_le h₁).trans h₁le))
  | .forceRestart => by
      rw [deploy, wp_bind]
      refine wp_mono (wp_forceStopAll_le hW s.registry) fun _ h₁ h₁le => ?_
      rw [wp_bind, wp_sleep]
      exact wp_mono (wp_startAll_le env h₁.tick) fun _ _ hle s hs => by
        simpa using hle.trans (Included.or_left ((Host.running_tick_le h₁).trans h₁le)) s hs
  | .status => wp_status_le h
  | .startRagflowServer => wp_startService_le _ h
  | .stopRagflowServer => wp_stopByPidFile_le s.registry .ragflowServer
  | .startWorkers => wp_startWorkers_le env h
  | .stopWorkers => wp_stopWorkers_le s.registry s.oneLine
  | .startWeb => wp_startWeb_le W env h
  | .stopWeb => wp_stopByPidFile_le s.registry .webFrontend
  | .usage => Included.refl _

/-- With nothing exiting, a command leaves running at least what its effect says. -/
theorem wp_deploy_ge {W : String} {h : Host} (o : Owned h) (q : Quiet h) (env : Env) :
    ∀ cmd, wp (deploy W env cmd) (fun _ h' => Included (cmd.effect env h.running) h'.running) h
  | .start => wp_startAll_ge o q env
  | .stop => (keeps_stopAll_spared h h ⟨o, .refl q⟩).2.running_le
  | .forceStop => fun _ hs => by cases hs
  | .restart => by
      rw [deploy, wp_bind]
      refine wp_keeps_and (keeps_stopAll_spared h) ⟨o, .refl q⟩ (wp_of_forall ?_)
      rintro _ h₁ ⟨o₁, s₁⟩
      rw [wp_bind, wp_sleep]
      exact wp_mono (wp_startAll_ge o₁.tick s₁.quiet env) fun _ _ hge =>
        (Included.or_left (s₁.running_le.trans (Host.running_le_tick s₁.quiet))).trans hge
  | .forceRestart => by
      rw [deploy, wp_bind]
      refine wp_keeps_and (Owned.steady.keeps_forceStopAll Owned.keeps_signal Owned.keeps_rmWhere W)
        o (wp_keeps_and (Quiet.steady.keeps_forceStopAll Quiet.keeps_signal Quiet.keeps_rmWhere W)
          q (wp_of_forall fun _ h₁ q₁ o₁ => ?_))
      rw [wp_bind, wp_sleep]
      exact wp_mono (wp_startAll_ge o₁.tick q₁ env) fun _ _ hge s hs => hge s (by simp [show env.backends s = true from hs])
  | .status => wp_status_ge q
  | .startRagflowServer => wp_startService_ge o q _
  | .stopRagflowServer => wp_stopByPidFile_ge o q .ragflowServer
  | .startWorkers => wp_startWorkers_ge o q env
  | .stopWorkers => wp_stopWorkers_ge o q
  | .startWeb => wp_startWeb_ge o q
  | .stopWeb => wp_stopByPidFile_ge o q .webFrontend
  | .usage => Included.refl _

section Refinement

variable {W : String} {h : Host}

/-- For a workspace path that `force_stop_all`'s pipeline reads as itself, from every state the
script reaches, whatever processes exit during the call, every command leaves running only
services its abstract effect allows. -/
theorem running_invoke_le (hW : PlainPath W) (hr : Reachable W h) (env : Env) (cmd : Command)
    (exits : Nat → List Nat) :
    Included (invoke W env cmd exits h).running (cmd.effect env h.running) :=
  wp_deploy_le hW (sound_of_reachable hW hr 0 exits) env cmd

theorem running_invoke_le_after_start :
    ∃ h, h = invoke "/srv/ragflow" {} .start (fun _ => []) (Host.init 100) ∧
      PlainPath "/srv/ragflow" ∧ Reachable "/srv/ragflow" h ∧
      Included (invoke "/srv/ragflow" {} .stopWorkers (fun t => if t = 2 then [100] else [])
        h).running (Command.effect {} .stopWorkers h.running) :=
  have hW : PlainPath "/srv/ragflow" := ⟨by decide, by decide, by decide, by decide, by decide⟩
  have hr : Reachable "/srv/ragflow"
      (invoke "/srv/ragflow" {} .start (fun _ => []) (Host.init 100)) :=
    ⟨100, .single (.invoke _ _ _ _)⟩
  ⟨_, rfl, hW, hr, running_invoke_le hW hr _ _ _⟩

/-- The same states and commands, with no process exiting during the call: every command leaves
running exactly the services its abstract effect says. -/
theorem running_invoke (hW : PlainPath W) (hr : Reachable W h) (env : Env) (cmd : Command) :
    (invoke W env cmd (fun _ => []) h).running = cmd.effect env h.running :=
  have s := sound_of_reachable hW hr 0 fun _ => []
  (wp_deploy_le hW s env cmd).antisymm (wp_deploy_ge s.owned (fun _ => rfl) env cmd)

theorem running_invoke_after_startWeb :
    ∃ h, h = invoke "/srv/ragflow" {} .startWeb (fun _ => [])
        (invoke "/srv/ragflow" {} .start (fun _ => []) (Host.init 100)) ∧
      PlainPath "/srv/ragflow" ∧ Reachable "/srv/ragflow" h ∧
      (invoke "/srv/ragflow" {} .restart (fun _ => []) h).running =
        Command.effect {} .restart h.running :=
  have hW : PlainPath "/srv/ragflow" := ⟨by decide, by decide, by decide, by decide, by decide⟩
  have hr : Reachable "/srv/ragflow" (invoke "/srv/ragflow" {} .startWeb (fun _ => [])
      (invoke "/srv/ragflow" {} .start (fun _ => []) (Host.init 100))) :=
    ⟨100, .tail (.single (.invoke _ _ _ _)) (.invoke _ _ _ _)⟩
  ⟨_, rfl, hW, hr, running_invoke hW hr _ _⟩

/-- A session: commands run one after another, each with its environment, nothing exiting. -/
def session (W : String) : List (Env × Command) → Host → Host
  | [], h => h
  | (env, cmd) :: cs, h => session W cs (invoke W env cmd (fun _ => []) h)

/-- The abstract effect of a session. -/
def Command.effects : List (Env × Command) → (Service → Bool) → Service → Bool
  | [], r => r
  | (env, cmd) :: cs, r => Command.effects cs (cmd.effect env r)

/-- From every state the script reaches under such a path, a whole session leaves running
exactly the services the abstract effects of its commands, applied in turn, say. -/
theorem session_running (hW : PlainPath W) :
    ∀ (cs : List (Env × Command)) {h : Host}, Reachable W h →
      (session W cs h).running = Command.effects cs h.running
  | [], _, _ => rfl
  | (env, cmd) :: cs, h, hr => by
      have s := sound_of_reachable hW hr 0 fun _ => []
      have step : (invoke W env cmd (fun _ => []) h).running = cmd.effect env h.running :=
        (wp_deploy_le hW s env cmd).antisymm (wp_deploy_ge s.owned (fun _ => rfl) env cmd)
      rw [session, Command.effects, session_running hW cs (hr.invoke env cmd _), step]

theorem session_running_at_init :
    PlainPath "/srv/ragflow" ∧ Reachable "/srv/ragflow" (Host.init 100) ∧
      (session "/srv/ragflow" [({}, .start), ({ workerCount := some 4 }, .startWorkers),
          ({}, .stopRagflowServer)] (Host.init 100)).running =
        Command.effects [({}, .start), ({ workerCount := some 4 }, .startWorkers),
          ({}, .stopRagflowServer)] (Host.init 100).running :=
  have hW : PlainPath "/srv/ragflow" := ⟨by decide, by decide, by decide, by decide, by decide⟩
  have hr : Reachable "/srv/ragflow" (Host.init 100) := ⟨100, .refl⟩
  ⟨hW, hr, session_running hW _ hr⟩

end Refinement

end PowerRag.Deploy
