import PowerRag.Deploy.Effect

/-!
The exit status of `deploy.sh`: the status of the last command the `case` dispatch runs. A
function returns the status of its last command unless it runs `return 1`. The loop of
`start_workers` ends with `sleep 1`, and that of `stop_workers` with a `stop_worker` of a file
the glob has just listed, so `start`, `stop`, `restart` and `force-restart` exit `0` whatever
they find: the `return 1` of `start_ragflow_server` or `stop_ragflow_server` in them is lost.
-/

namespace PowerRag.Deploy

/-- The exit status of each command, read from the host it is run on. -/
def Command.exitStatus (env : Env) (h : Host) : Command → Nat
  | .startRagflowServer => if h.recorded serverPidFile then 1 else 0
  | .stopRagflowServer => if h.dir.has serverPidFile then 0 else 1
  | .startWeb => if !h.recorded webPidFile && env.webChecks then 0 else 1
  | .stopWeb => if h.dir.has webPidFile then 0 else 1
  | .usage => 1
  | _ => 0

/-- It reads neither the clock nor the exit schedule. -/
theorem Command.exitStatus_update (env : Env) (h : Host) (cmd : Command) (clock : Nat)
    (exits : Nat → List Nat) :
    cmd.exitStatus env { h with clock := clock, exits := exits } = cmd.exitStatus env h := by
  cases cmd <;> rfl

/-- A file that names a running process later did so before. -/
theorem Later.recorded_of {h h' : Host} (a : Later h h') {f : String}
    (hf : h'.recorded f = true) : h.recorded f = true := by
  obtain ⟨x, hx, hax⟩ := Host.recorded_iff.mp hf
  exact Host.recorded_iff.mpr ⟨x, a.dir ▸ hx, a.alive hax⟩

theorem Later.recorded_eq {h h' : Host} (a : Later h h') (q : Quiet h) (f : String) :
    h'.recorded f = h.recorded f :=
  Bool.eq_iff_iff.mpr ⟨a.recorded_of, a.recorded q⟩

section Status

variable {h : Host}

/-- With nothing exiting, `start_ragflow_server` and `start_worker` return `1` exactly when
their PID file names a running process. -/
theorem wp_startService_status (q : Quiet h) (svc : Service) :
    wp (startService svc) (fun r _ => r = if h.recorded svc.pidFile then 1 else 0) h := by
  simp only [startService, wp_bind]
  refine wp_recordedRunning _ _ h fun h₁ a => ?_
  rw [a.recorded_eq q]
  cases h.recorded svc.pidFile <;> rfl

theorem wp_startWorkersLoop_zero : ∀ (ids : List Nat) (h : Host),
    wp (startWorkersLoop ids) (fun r _ => r = 0) h
  | [], _ => rfl
  | _ :: ids, _ => by
      rw [startWorkersLoop, wp_bind]
      exact wp_of_forall fun _ _ => wp_startWorkersLoop_zero ids _

theorem wp_startAll_zero (env : Env) (h : Host) : wp (startAll env) (fun r _ => r = 0) h := by
  rw [startAll, wp_bind]
  exact wp_of_forall fun _ _ => wp_startWorkersLoop_zero _ _

/-- `stop_ragflow_server`, `stop_worker` and `stop_web` return `1` exactly when there is no
PID file, whatever exits. -/
theorem wp_stopByPidFile_status (file : String) (h : Host) :
    wp (stopByPidFile file) (fun r _ => r = if h.dir.has file then 0 else 1) h := by
  simp only [stopByPidFile, wp_bind, wp_fileExists, wp_ite, wp_readPid, wp_psAlive, wp_signal,
    rmFile, wp_rmWhere, wp_pure, Host.tick_dir]
  cases h.dir.has file <;> simp

theorem wp_stopWorkersLoop_zero (fs : List String)
    (hr : ∀ f ∈ fs, workerPidFile (sedWorkerId f) = f) :
    ∀ (st : Nat) (h : Host), st = 0 → wp (stopWorkersLoop fs st) (fun r _ => r = 0) h := by
  induction fs with
  | nil => exact fun _ _ hst => hst
  | cons f fs ih =>
      intro _ h _
      have ih := ih fun g hg => hr g (List.mem_cons_of_mem _ hg)
      simp only [stopWorkersLoop, stopWorker, hr f (List.mem_cons_self _ _), wp_bind,
        wp_fileExists, wp_ite, wp_pure]
      split
      · exact wp_mono (wp_stopByPidFile_status f _) fun st h' hst =>
          ih st h' (by rwa [if_pos ‹_›] at hst)
      · exact ih 0 _ rfl

/-- `stop_workers` returns `0`: each file it stops through is one the glob just listed. -/
theorem wp_stopWorkers_zero (ho : OneLine h) : wp stopWorkers (fun r _ => r = 0) h :=
  wp_stopWorkersLoop_zero _ (sedWorkerId_glob ho) 0 _ rfl

/-- Whatever exits, `start_web` returns `0` when `web_frontend.pid` names no running process
and every check passes: a passing `nginx -t` leaves an `nginx.pid` for the launch to find. -/
theorem wp_startWeb_zero {W : String} {env : Env} (hw : h.recorded webPidFile = false)
    (hc : env.webChecks = true) : wp (startWeb W env) (fun r _ => r = 0) h := by
  rw [Env.webChecks_eq, Bool.and_eq_true] at hc
  refine wp_orReturn1_value (observes_notRecorded _) (Later.refl h)
    (fun _ a hrec => absurd (a.recorded_of (by simpa using hrec)) (by simp [hw])) fun _ a _ => ?_
  refine wp_buildChecks a (fun _ _ hb => absurd hc.1 (by simp [hb])) fun _ _ _ => ?_
  rw [wp_bind, wp_writeConf]
  exact wp_orReturn1_nginxTest (fun ht => absurd hc.2 (by simp [ht]))
    fun _ => wp_launchNginx _ _ _ fun _ _ l => by simpa [PidDir.has_iff] using l.status

/-- With nothing exiting, `start_web` returns `0` exactly when `web_frontend.pid` names no
running process and every check passes. -/
theorem wp_startWeb_status {W : String} {env : Env} (q : Quiet h) :
    wp (startWeb W env) (fun r _ => r = Command.exitStatus env h .startWeb) h := by
  simp only [Command.exitStatus, Env.webChecks_eq]
  refine wp_orReturn1_value (observes_notRecorded _) (Later.refl h)
    (fun h' a hrec => by simp_all [a.recorded_eq q]) fun _ a₀ hrec => ?_
  rw [a₀.recorded_eq q] at hrec
  refine wp_buildChecks a₀ (fun _ _ hb => by simp [hb]) fun _ _ hb => ?_
  rw [wp_bind, wp_writeConf]
  exact wp_orReturn1_nginxTest (fun ht => by simp [ht])
    fun ht => wp_launchNginx _ _ _ fun _ _ l => by simpa [hrec, hb, ht, PidDir.has_iff] using l.status

/-- Whatever exits during the call, once `web_frontend.pid` names no running process and every
check passes, `start_web` returns `0` even when the launch starts nothing: it copies what the
`nginx.pid` left by `nginx -t` holds, an earlier master's pid or nothing, and no new process
runs. -/
theorem startWeb_succeeds_without_nginx {W : String} {env : Env}
    (hs : env.tools.nginxStarts = false) (hw : h.recorded webPidFile = false)
    (hc : env.webChecks = true) :
    ((startWeb W env).run h).1 = 0 ∧ webPidFile ∈ ((startWeb W env).run h).2.dir.names ∧
      ((startWeb W env).run h).2.dir.read webPidFile = h.dir.read nginxPidFile ∧
      ∀ p ∈ ((startWeb W env).run h).2.procs.live, p ∈ h.procs.live := by
  have h0 : ((startWeb W env).run h).1 = 0 := wp_startWeb_zero hw hc
  have post := startWeb_post W env h
  refine ⟨h0, (post.created h0).1, by simp [post.recorded h0, hs], fun p hp => ?_⟩
  rcases post.live p hp with hp | ⟨-, -, hst⟩
  exacts [hp, absurd (hs ▸ hst) Bool.false_ne_true]

theorem startWeb_succeeds_without_nginx_at_init :
    ({ tools := { nginxStarts := false } } : Env).tools.nginxStarts = false ∧
      (Host.init 100).recorded webPidFile = false ∧
      ({ tools := { nginxStarts := false } } : Env).webChecks = true ∧
      ((startWeb "/srv/ragflow" { tools := { nginxStarts := false } }).run (Host.init 100)).1 = 0 ∧
      ((startWeb "/srv/ragflow" { tools := { nginxStarts := false } }).run
        (Host.init 100)).2.dir.read webPidFile = none :=
  have hw : (Host.init 100).recorded webPidFile = false := rfl
  have hc : ({ tools := { nginxStarts := false } } : Env).webChecks = true := by decide
  have r := startWeb_succeeds_without_nginx (W := "/srv/ragflow") rfl hw hc
  ⟨rfl, hw, hc, r.1, r.2.2.1⟩

/-- With nothing exiting, each command of the `case` dispatch exits with the status
`Command.exitStatus` reads from the host it starts from. -/
theorem wp_deploy_status {W : String} (ho : OneLine h) (q : Quiet h) (env : Env) :
    ∀ cmd, wp (deploy W env cmd) (fun r _ => r = cmd.exitStatus env h) h
  | .start => wp_startAll_zero env h
  | .stop => by
      rw [deploy, stopAll, wp_bind]
      exact wp_keeps_and (oneLine_steady.keeps_stopByPidFile keeps_signal keeps_rmWhere _) ho
        (wp_of_forall fun _ _ => wp_stopWorkers_zero)
  | .forceStop => by
      rw [deploy, wp_bind]
      exact wp_of_forall fun _ _ => rfl
  | .restart => by
      rw [deploy, wp_bind]
      exact wp_of_forall fun _ _ => wp_startAll_zero env _
  | .forceRestart => by
      rw [deploy, wp_bind]
      exact wp_of_forall fun _ _ => wp_startAll_zero env _
  | .status => by
      rw [deploy, wp_bind]
      exact wp_of_forall fun _ _ => rfl
  | .startRagflowServer => wp_startService_status q _
  | .stopRagflowServer => wp_stopByPidFile_status _ h
  | .startWorkers => wp_startWorkersLoop_zero _ h
  | .stopWorkers => wp_stopWorkers_zero ho
  | .startWeb => wp_startWeb_status q
  | .stopWeb => wp_stopByPidFile_status _ h
  | .usage => rfl

end Status

/-- For any workspace path, from every state the script reaches, PID files deleted by hand
included, with no process exiting during the call, `deploy.sh` exits `1` for the usage text, for
`start-ragflow-server` when `ragflow_server.pid` names a running process, for
`stop-ragflow-server` and `stop-web` when their PID file is missing, and for `start-web` unless
`web_frontend.pid` names no running process and every check passes; every other command exits
`0`, whatever it found. -/
theorem runCmd_exitStatus {W : String} {h : Host} (hr : ReachableOob W h) (env : Env)
    (cmd : Command) : (runCmd W env cmd (fun _ => []) h).1 = cmd.exitStatus env h := by
  rw [← Command.exitStatus_update env h cmd 0 fun _ => []]
  exact wp_deploy_status (h := { h with clock := 0, exits := fun _ => [] })
    (oneLine_of_reachableOob hr : OneLine h) (fun _ => rfl) env cmd

theorem runCmd_exitStatus_after_start :
    ∃ h, h = invoke "/srv/ragflow" {} .start (fun _ => []) (Host.init 100) ∧
      ReachableOob "/srv/ragflow" h ∧
      (runCmd "/srv/ragflow" {} .start (fun _ => []) h).1 = Command.exitStatus {} h .start :=
  have hr : ReachableOob "/srv/ragflow"
      (invoke "/srv/ragflow" {} .start (fun _ => []) (Host.init 100)) :=
    ⟨100, .single (.step (.invoke _ _ _ _))⟩
  ⟨_, rfl, hr, runCmd_exitStatus hr _ _⟩

end PowerRag.Deploy
