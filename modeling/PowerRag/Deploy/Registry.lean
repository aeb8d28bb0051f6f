import PowerRag.Deploy.Stop
import PowerRag.Deploy.Web
import PowerRag.Deploy.ForceStop

/-!
The registry invariant of the whole script: every live process it launched is the one its
PID file names, and a live nginx master is also the one `pids/nginx.pid` names. Every
command keeps it from any state and under any exit schedule, for a workspace path that
`force_stop_all`'s pipeline reads as itself (`PlainPath`); a process exiting between two
invocations keeps it too. So in every state the script reaches, each service has at most
one live process. Under `/srv/grep` this fails (`start_after_forceStop_duplicates_server`).
-/

namespace PowerRag.Deploy

section PidFiles

theorem workerPidFile_injective {a b : String} (h : workerPidFile a = workerPidFile b) :
    a = b := by
  have := congrArg String.toList h
  simp only [workerPidFile, String.toList, String.data_append, List.append_assoc,
    List.append_cancel_left_eq, List.append_cancel_right_eq] at this
  exact String.ext this

theorem workerPidFile_ne_web (workerId : String) : workerPidFile workerId ≠ webPidFile :=
  fun h => by simpa [workerPidFile, webPidFile] using congrArg (fun s => (s.toList.drop 1).head?) h

/-- Two services never share a PID file. -/
theorem Service.pidFile_injective {s t : Service} (h : s.pidFile = t.pidFile) : s = t := by
  cases s <;> cases t <;> simp only [Service.pidFile] at h
  case ragflowServer.ragflowServer | webFrontend.webFrontend => rfl
  case worker.worker => rw [toString_injective (workerPidFile_injective h)]
  case ragflowServer.worker => exact absurd h.symm (workerPidFile_ne_server _)
  case worker.ragflowServer => exact absurd h (workerPidFile_ne_server _)
  case worker.webFrontend => exact absurd h (workerPidFile_ne_web _)
  case webFrontend.worker => exact absurd h.symm (workerPidFile_ne_web _)
  all_goals exact absurd h (by decide)

theorem Service.pidFile_ne_nginx (svc : Service) : svc.pidFile ≠ nginxPidFile := by
  cases svc with
  | worker id => exact workerPidFile_ne_nginx _
  | _ => decide

end PidFiles

/-- The registry invariant. -/
structure Registry (h : Host) : Prop where
  /-- Every live process is the one its PID file names, -/
  recorded : ∀ p ∈ h.procs.live, h.dir.read p.svc.pidFile = some p.pid
  /-- and a live nginx master the one `nginx.pid` names. -/
  nginx : ∀ p ∈ h.procs.live, p.svc = .webFrontend → h.dir.read nginxPidFile = some p.pid

namespace Registry

variable {h h' : Host}

/-- Two live processes of one service are one process. -/
theorem unique (r : Registry h) {p q : Proc} (hp : p ∈ h.procs.live) (hq : q ∈ h.procs.live)
    (hs : p.svc = q.svc) : p = q :=
  ProcTable.eq_of_pid_eq hp hq
    (Option.some.inj ((r.recorded p hp).symm.trans (hs ▸ r.recorded q hq)))

/-- A live process makes `recordedRunning` of its PID file true. -/
theorem recorded_of_live (r : Registry h) {p : Proc} (hp : p ∈ h.procs.live) :
    h.recorded p.svc.pidFile = true := by
  simp only [Host.recorded, r.recorded p hp]
  exact Host.alive_iff.mpr ⟨p, hp, rfl⟩

theorem of_dead (hl : ∀ p ∈ h.procs.live, False) : Registry h :=
  ⟨fun p hp => (hl p hp).elim, fun p hp => (hl p hp).elim⟩

/-- Ending processes without touching `pids/` keeps the invariant. -/
theorem mono (r : Registry h) (hd : h'.dir = h.dir)
    (hl : ∀ p ∈ h'.procs.live, p ∈ h.procs.live) : Registry h' where
  recorded p hp := hd ▸ r.recorded p (hl p hp)
  nginx p hp := hd ▸ r.nginx p (hl p hp)

theorem tick (r : Registry h) : Registry h.tick := r.mono rfl fun _ => Host.mem_tick

/-- A signal keeps it: `nginx.pid` goes only with the master it names. -/
theorem kill (r : Registry h) (pid : Nat) (g : Bool) : Registry (h.kill pid g) where
  recorded p hp := by
    rw [Host.kill_read (Service.pidFile_ne_nginx _)]
    exact r.recorded p (Host.mem_kill.mp hp).1
  nginx p hp hw := by
    obtain ⟨hp₀, hne⟩ := Host.mem_kill.mp hp
    rcases Host.kill_read_nginx h pid g with e | ⟨q, hq, rfl, hq'⟩
    · exact e.trans (r.nginx p hp₀ hw)
    · exact absurd (congrArg Proc.pid (r.unique hp₀ hq (hw.trans hq'.symm))) hne

/-- So does `stopByPidFile file` for any file but `nginx.pid`: the process the file names is
gone, and `nginx.pid` goes only with the master the file named. -/
theorem of_stopPost {file : String} (r : Registry h) (s : StopPost file h h')
    (hf : file ≠ nginxPidFile) : Registry h' where
  recorded p hp := by
    obtain ⟨hp, hne⟩ := s.live p hp
    have hrec := r.recorded p hp
    rw [s.read _ (fun he => hne (he ▸ hrec)) (Service.pidFile_ne_nginx _), hrec]
  nginx p hp hw := by
    obtain ⟨hp, hne⟩ := s.live p hp
    rcases s.nginx hf with e | ⟨q, hq, hq', hr⟩
    · rw [e, r.nginx p hp hw]
    · exact absurd (by rw [r.unique hp hq (hw.trans hq'.symm)]; exact hr) hne

/-- Launching a server or worker of a service with no live process, and recording it. -/
theorem launch {svc : Service} (r : Registry h) (hs : svc ≠ .webFrontend)
    (hnone : ∀ p ∈ h.procs.live, p.svc ≠ svc)
    (hd : h'.dir = h.dir.write svc.pidFile (some h.procs.next))
    (hl : ∀ p ∈ h'.procs.live, p = ⟨h.procs.next, svc⟩ ∨ p ∈ h.procs.live) :
    Registry h' where
  recorded p hp := by
    rw [hd, PidDir.read_write]
    rcases hl p hp with rfl | hp
    · simp
    · rw [if_neg fun he => hnone p hp (Service.pidFile_injective he)]
      exact r.recorded p hp
  nginx p hp hw := by
    rw [hd, PidDir.read_write, if_neg (Service.pidFile_ne_nginx svc).symm]
    rcases hl p hp with rfl | hp
    · exact absurd hw hs
    · exact r.nginx p hp hw

/-- What `start_web` leaves keeps it: a launch that returns `0` leaves no master that
`web_frontend.pid` named before alive, so an old master survives only a failed call, which
leaves `pids/` as it was. -/
theorem of_startWebPost {W : String} {env : Env} {rc : Nat} (r : Registry h)
    (post : StartWebPost W env h rc h') : Registry h' := by
  have hold : ∀ p ∈ h'.procs.live, p ∈ h.procs.live → p.svc = .webFrontend →
      h'.dir = h.dir :=
    fun p hp hp₀ hw => (post.failed fun hr0 => post.old hr0 p hp hp₀
      (by simpa [hw, Service.pidFile] using r.recorded p hp₀)).2
  refine ⟨fun p hp => ?_, fun p hp hw => ?_⟩
  · rcases post.live p hp with hp₀ | ⟨rfl, hr0, hst⟩
    · by_cases hw : p.svc = .webFrontend
      · rw [hold p hp hp₀ hw]
        exact r.recorded p hp₀
      · have hne : p.svc.pidFile ≠ webPidFile := fun he => hw (Service.pidFile_injective he)
        rw [post.files _ hne (Service.pidFile_ne_nginx _)]
        exact r.recorded p hp₀
    · simpa [Service.pidFile, hst] using post.recorded hr0
  · rcases post.live p hp with hp₀ | ⟨rfl, hr0, hst⟩
    · rw [hold p hp hp₀ hw]
      exact r.nginx p hp₀ hw
    · rw [post.nginx, if_pos ⟨hr0, hst⟩]

end Registry

/-- Under the invariant, the nginx step of `force_stop_all` leaves no master alive: the master
is the process `nginx.pid` names, and the step signals that pid unless it is already dead. -/
theorem wp_forceStopNginx {W : String} {h : Host} (r : Registry h) (Q : Unit → Host → Prop)
    (hQ : ∀ h', (∀ p ∈ h'.procs.live, p ∈ h.procs.live ∧ p.svc ≠ .webFrontend) →
      Q () h') : wp (forceStopNginx W) Q h := by
  by_cases hm : ∃ m ∈ h.procs.live, m.svc = .webFrontend
  · obtain ⟨m, hm, hw⟩ := hm
    have hr := r.nginx m hm hw
    have hQ' : ∀ h', (∀ p ∈ h'.procs.live, p ∈ h.procs.live ∧ p.pid ≠ m.pid) →
        Q () h' :=
      fun h' hl => hQ h' fun p hp => ⟨(hl p hp).1, fun hpw => (hl p hp).2
        (congrArg Proc.pid (r.unique (hl p hp).1 hm (hpw.trans hw.symm)))⟩
    have hl₃ : ∀ h' : Host, Later h' h'.tick.tick.tick := fun h' =>
      (Later.tick h').tick_right.tick_right
    have hl₄ := (hl₃ h).tick_right
    simp only [forceStopNginx, rmFile, wp_bind, wp_fileExists, PidDir.has_of_read hr, wp_ite,
      wp_readPid, wp_psAlive, Host.tick_dir, hr, if_true, wp_signal, wp_sleep, wp_rmWhere, wp_pure]
    split
    · have hK : ∀ p ∈ (h.tick.tick.tick.tick.kill m.pid true).procs.live,
          p ∈ h.procs.live ∧ p.pid ≠ m.pid := fun p hp =>
        (Host.mem_kill.mp hp).imp_left (hl₄.live p)
      split
      · refine hQ' _ fun p hp => ?_
        obtain ⟨hp, -⟩ := Host.mem_kill.mp (Host.mem_tick hp)
        exact hK p ((hl₃ _).live p hp)
      · exact hQ' _ fun p hp => hK p ((hl₃ _).live p hp)
    · rename_i ha
      exact hQ' _ fun p hp =>
        ⟨hl₄.live p hp, fun he => ha (Host.alive_iff.mpr ⟨p, Host.mem_tick hp, he⟩)⟩
  · exact hQ _ fun p hp =>
      have hp := keepsLive_forceStopNginx W h (fun _ hq => hq) p hp
      ⟨hp, fun hw => hm ⟨p, hp, hw⟩⟩

section Keeps

variable {W : String}

theorem Registry.steady : Steady Registry := fun _ r => r.tick

theorem Registry.keeps_stopByPidFile {file : String} (hf : file ≠ nginxPidFile) :
    Keeps Registry (stopByPidFile file) :=
  fun h r => wp_stopByPidFile file (fun _ h' => Registry h') h fun _ _ s => r.of_stopPost s hf

/-- `start_ragflow_server` and `start_worker` launch only when `recordedRunning` is false, and
under the invariant that means no process of the service is alive. -/
theorem Registry.keeps_startService {svc : Service} (hs : svc ≠ .webFrontend) :
    Keeps Registry (startService svc) := fun h r => by
  show wp (startService svc) (fun _ h' => Registry h') h
  simp only [startService, wp_bind]
  refine wp_recordedRunning _ _ h fun h₁ a => ?_
  have r₁ := r.mono a.dir a.live
  cases hrec : h₁.recorded svc.pidFile
  · simp only [wp_ite, Bool.false_eq_true, if_false, wp_bind, wp_spawn, wp_writePid, wp_pure]
    refine r₁.launch hs (fun p hp hsvc => ?_) rfl fun p hp => ?_
    · rw [← hsvc, r₁.recorded_of_live hp] at hrec
      cases hrec
    · exact (ProcTable.mem_spawn.mp (Host.mem_tick hp)).imp id Host.mem_tick
  · simpa [wp_ite] using r₁

theorem Registry.keeps_startWeb (W : String) (env : Env) : Keeps Registry (startWeb W env) :=
  fun h r => wp_startWeb W env (fun _ h' => Registry h') h fun _ _ post => r.of_startWebPost post

/-- Under a plain path and the invariant, `force_stop_all` leaves no process of the script
alive: the pipeline ends the backends, and the master is the one `nginx.pid` names. -/
theorem wp_forceStopAll_ends (hW : PlainPath W) {h : Host} (r : Registry h)
    (Q : Unit → Host → Prop) (hQ : ∀ h', h'.procs.live = [] → Q () h') :
    wp (forceStopAll W) Q h := by
  refine wp_killBackends hW _ _ h fun h₂ hd hl => ?_
  rw [wp_bind]
  refine wp_forceStopNginx (r.mono hd fun p hp => (hl p hp).1) _ fun h₃ hl₃ => ?_
  rw [wp_rmWhere]
  refine hQ _ (List.eq_nil_iff_forall_not_mem.mpr fun p hp => ?_)
  obtain ⟨hp₂, hw⟩ := hl₃ p (Host.mem_tick hp)
  exact hw (hl p hp₂).2

/-- Under a plain path `force_stop_all` leaves no process alive, so the invariant holds
vacuously after it deletes the PID files. -/
theorem Registry.keeps_forceStopAll (hW : PlainPath W) : Keeps Registry (forceStopAll W) :=
  fun h r => wp_forceStopAll_ends hW r (fun _ h' => Registry h') fun _ hl =>
    Registry.of_dead fun p hp => by simp [hl] at hp

end Keeps

/-- The invariant holds in every state the script reaches under a plain path. -/
theorem registry_of_reachable {W : String} {h : Host} (hW : PlainPath W) (hr : Reachable W h) :
    Registry h :=
  holds_of_reachable
    (fun _ => Registry.of_dead fun p hp => by simp [Host.init, ProcTable.empty] at hp)
    (fun env cmd _ _ r => Registry.steady.keeps_deploy (fun _ hs => Registry.keeps_startService hs)
      (fun _ hf => Registry.keeps_stopByPidFile hf) (Registry.keeps_forceStopAll hW)
      (Registry.keeps_startWeb W env) cmd _ (r.mono rfl fun _ => id))
    (fun _ _ r => r.mono rfl fun p hp => (ProcTable.mem_exitAll.mp hp).1) hr

/-- For a workspace path that `force_stop_all`'s pipeline reads as itself, in every state the
script reaches, whatever commands, worker counts and exits led there, each live process is the
one its PID file names, a live nginx master is also the one `nginx.pid` names, and no service
has two live processes. -/
theorem reachable_single_instance {W : String} {h : Host} (hW : PlainPath W)
    (hr : Reachable W h) :
    Registry h ∧ ∀ p ∈ h.procs.live, ∀ q ∈ h.procs.live, p.svc = q.svc → p = q :=
  have r := registry_of_reachable hW hr
  ⟨r, fun _ hp _ hq hs => r.unique hp hq hs⟩

theorem reachable_single_instance_after_restart :
    ∃ h, h = invoke "/srv/ragflow" {} .restart (fun _ => [])
        (invoke "/srv/ragflow" {} .startWeb (fun _ => [])
          (invoke "/srv/ragflow" {} .start (fun _ => []) (Host.init 100))) ∧
      PlainPath "/srv/ragflow" ∧ Reachable "/srv/ragflow" h ∧
      (Registry h ∧ ∀ p ∈ h.procs.live, ∀ q ∈ h.procs.live, p.svc = q.svc → p = q) :=
  have hW : PlainPath "/srv/ragflow" := ⟨by decide, by decide, by decide, by decide, by decide⟩
  have hr : Reachable "/srv/ragflow" (invoke "/srv/ragflow" {} .restart (fun _ => [])
      (invoke "/srv/ragflow" {} .startWeb (fun _ => [])
        (invoke "/srv/ragflow" {} .start (fun _ => []) (Host.init 100)))) :=
    ⟨100, .tail (.tail (.single (.invoke _ _ _ _)) (.invoke _ _ _ _)) (.invoke _ _ _ _)⟩
  ⟨_, rfl, hW, hr, reachable_single_instance hW hr⟩

/-- For a workspace path that `force_stop_all`'s pipeline reads as itself, from every state
the script reaches, and whatever processes exit meanwhile, `force_stop_all` leaves no process
of the script alive, the nginx master included. -/
theorem forceStopAll_ends_all {W : String} {h : Host} (hW : PlainPath W) (hr : Reachable W h)
    (clock : Nat) (exits : Nat → List Nat) :
    ((forceStopAll W).run { h with clock := clock, exits := exits }).2.procs.live = [] := by
  have r : Registry { h with clock := clock, exits := exits } :=
    (registry_of_reachable hW hr).mono rfl fun _ => id
  show wp (forceStopAll W) (fun _ h' => h'.procs.live = [])
    { h with clock := clock, exits := exits }
  exact wp_forceStopAll_ends hW r _ fun _ hl => hl

theorem forceStopAll_ends_all_after_startWeb :
    ∃ h, h = invoke "/srv/ragflow" {} .startWeb (fun _ => [])
        (invoke "/srv/ragflow" {} .start (fun _ => []) (Host.init 100)) ∧
      PlainPath "/srv/ragflow" ∧ Reachable "/srv/ragflow" h ∧
      ((forceStopAll "/srv/ragflow").run { h with clock := 0, exits := fun _ => [] }).2.procs.live =
        [] :=
  have hW : PlainPath "/srv/ragflow" := ⟨by decide, by decide, by decide, by decide, by decide⟩
  have hr : Reachable "/srv/ragflow" (invoke "/srv/ragflow" {} .startWeb (fun _ => [])
      (invoke "/srv/ragflow" {} .start (fun _ => []) (Host.init 100))) :=
    ⟨100, .tail (.single (.invoke _ _ _ _)) (.invoke _ _ _ _)⟩
  ⟨_, rfl, hW, hr, forceStopAll_ends_all hW hr 0 _⟩

/-- For a workspace path that `force_stop_all`'s pipeline reads as itself, from every state
the script reaches, `deploy.sh stop` and then `deploy.sh stop-web` leave no process of the
script alive, whatever processes exit meanwhile: the PID files reach every process. -/
theorem stop_then_stopWeb_ends_all {W : String} {h : Host} (hW : PlainPath W)
    (hr : Reachable W h) (env env' : Env) (exits exits' : Nat → List Nat) :
    (invoke W env' .stopWeb exits' (invoke W env .stop exits h)).procs.live = [] := by
  have stopped : BackendsStopped (invoke W env .stop exits h) :=
    stopAll_stopped (oneLine_of_reachableOob hr.oob : OneLine h)
      fun p hp _ => (registry_of_reachable hW hr).recorded p hp
  have r₁ := registry_of_reachable hW (hr.invoke env .stop exits)
  rw [invoke, runCmd]
  refine wp_stopByPidFile _ (fun _ h' => h'.procs.live = []) _
    fun _ h' s => List.eq_nil_iff_forall_not_mem.mpr fun p hp => ?_
  obtain ⟨hp, hne⟩ := s.live p hp
  exact hne (by simpa [stopped.live p hp, Service.pidFile] using r₁.recorded p hp)

theorem stop_then_stopWeb_ends_all_after_startWeb :
    ∃ h, h = invoke "/srv/ragflow" {} .startWeb (fun _ => [])
        (invoke "/srv/ragflow" {} .start (fun _ => []) (Host.init 100)) ∧
      PlainPath "/srv/ragflow" ∧ Reachable "/srv/ragflow" h ∧
      (invoke "/srv/ragflow" {} .stopWeb (fun _ => [])
        (invoke "/srv/ragflow" {} .stop (fun _ => []) h)).procs.live = [] :=
  have hW : PlainPath "/srv/ragflow" := ⟨by decide, by decide, by decide, by decide, by decide⟩
  have hr : Reachable "/srv/ragflow" (invoke "/srv/ragflow" {} .startWeb (fun _ => [])
      (invoke "/srv/ragflow" {} .start (fun _ => []) (Host.init 100))) :=
    ⟨100, .tail (.single (.invoke _ _ _ _)) (.invoke _ _ _ _)⟩
  ⟨_, rfl, hW, hr, stop_then_stopWeb_ends_all hW hr {} {} _ _⟩

end PowerRag.Deploy
