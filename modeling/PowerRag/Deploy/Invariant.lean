import PowerRag.Deploy.System
import PowerRag.Deploy.Wp

/-!
Invariants of the script, once for all. A predicate on hosts that the exits before each
action keep (`Steady`) is kept by every action that only reads, and so by the parts of the
script made of them; for the others it is kept given what it needs of the functions that
change the host. An invariant that holds initially and that every command and every exit
keeps holds in every reachable state.
-/

namespace PowerRag.Deploy

theorem workerPidFile_ne_nginx (workerId : String) : workerPidFile workerId ≠ nginxPidFile :=
  fun h => by simpa [workerPidFile, nginxPidFile] using congrArg (·.toList.head?) h

theorem keeps_orReturn1 {P : Host → Prop} {test : Sh Bool} {rest : Sh Nat} (ht : Keeps P test)
    (hr : Keeps P rest) : Keeps P (orReturn1 test rest) :=
  ht.bind fun _ => .ite hr (.pure _)

/-- A predicate that the exits before each action keep. -/
def Steady (P : Host → Prop) : Prop := ∀ h, P h → P h.tick

namespace Steady

variable {P : Host → Prop}

theorem keeps_read (hs : Steady P) {α : Type} (f : Host → α) :
    Keeps P (act fun h => (f h, h)) :=
  Keeps.act hs fun _ hp => hp

theorem keeps_fileExists (hs : Steady P) (name : String) : Keeps P (fileExists name) :=
  hs.keeps_read _

theorem keeps_readPid (hs : Steady P) (name : String) : Keeps P (readPid name) :=
  hs.keeps_read _

theorem keeps_psAlive (hs : Steady P) (pid : Option Nat) : Keeps P (psAlive pid) :=
  hs.keeps_read _

theorem keeps_sleep (hs : Steady P) : Keeps P sleep := hs.keeps_read _

theorem keeps_envCheck (hs : Steady P) (b : Bool) : Keeps P (envCheck b) := hs.keeps_read _

theorem keeps_globWorkerPidFiles (hs : Steady P) : Keeps P globWorkerPidFiles :=
  hs.keeps_read _

theorem keeps_psSelect (hs : Steady P) (W pattern : String) : Keeps P (psSelect W pattern) :=
  hs.keeps_read _

theorem keeps_recordedRunning (hs : Steady P) (file : String) : Keeps P (recordedRunning file) :=
  (hs.keeps_fileExists file).bind fun _ =>
    .ite ((hs.keeps_readPid file).bind hs.keeps_psAlive) (.pure _)

theorem keeps_runningPid (hs : Steady P) (file : String) : Keeps P (runningPid file) :=
  (hs.keeps_readPid file).bind fun _ => (hs.keeps_psAlive _).bind fun _ => .ite (.pure _) (.pure _)

theorem keeps_statusWorkers (hs : Steady P) : ∀ fs : List String, Keeps P (statusWorkers fs)
  | [] => .pure _
  | f :: fs => (hs.keeps_fileExists f).bind fun _ =>
      .ite ((hs.keeps_runningPid f).bind fun _ => (hs.keeps_statusWorkers fs).bind fun _ => .pure _)
        (hs.keeps_statusWorkers fs)

/-- `status` only reads. -/
theorem keeps_status (hs : Steady P) : Keeps P status := by
  refine (hs.keeps_fileExists _).bind fun _ =>
    .ite ((hs.keeps_runningPid _).bind fun _ => ?_) ((Keeps.pure _).bind fun _ => ?_)
  all_goals exact hs.keeps_globWorkerPidFiles.bind fun _ => (hs.keeps_statusWorkers _).bind fun _ =>
    (hs.keeps_fileExists _).bind fun _ => .ite ((hs.keeps_runningPid _).bind fun _ => .pure _) <|
      (hs.keeps_fileExists _).bind fun _ =>
        .ite ((hs.keeps_runningPid _).bind fun _ => .pure _) ((Keeps.pure _).bind fun _ => .pure _)

theorem keeps_startService (hs : Steady P) {svc : Service} (hspawn : Keeps P (spawn svc))
    (hwrite : ∀ pid, Keeps P (writePid svc.pidFile pid)) : Keeps P (startService svc) :=
  (hs.keeps_recordedRunning _).bind fun _ =>
    .ite (.pure _) (hspawn.bind fun _ => (hwrite _).bind fun _ => .pure _)

theorem keeps_stopByPidFile (hs : Steady P) (hsig : ∀ g pid, Keeps P (signal g pid))
    (hrm : ∀ p, Keeps P (rmWhere p)) (file : String) : Keeps P (stopByPidFile file) :=
  (hs.keeps_fileExists file).bind fun _ => .ite (.pure _) <|
    (hs.keeps_readPid file).bind fun pid => (hs.keeps_psAlive pid).bind fun _ =>
      .ite ((hsig _ _).bind fun _ => (hrm _).bind fun _ => .pure _) ((hrm _).bind fun _ => .pure _)

theorem keeps_killAll (hsig : ∀ g pid, Keeps P (signal g pid)) :
    ∀ pids : List Nat, Keeps P (killAll pids)
  | [] => Keeps.pure _
  | _ :: pids => .bind (hsig _ _) fun _ => keeps_killAll hsig pids

theorem keeps_forceStopNginx (hs : Steady P) (hsig : ∀ g pid, Keeps P (signal g pid))
    (hrm : ∀ p, Keeps P (rmWhere p)) (W : String) : Keeps P (forceStopNginx W) :=
  (hs.keeps_fileExists _).bind fun _ =>
    .ite ((hs.keeps_readPid _).bind fun pid => (hs.keeps_psAlive pid).bind fun _ =>
      .ite ((hsig _ _).bind fun _ => hs.keeps_sleep.bind fun _ => (hs.keeps_psAlive pid).bind
          fun _ => .ite ((hsig _ _).bind fun _ => hrm _) ((Keeps.pure _).bind fun _ => hrm _))
        (hrm _))
      ((hs.keeps_psSelect _ _).bind (keeps_killAll hsig))

theorem keeps_forceStopAll (hs : Steady P) (hsig : ∀ g pid, Keeps P (signal g pid))
    (hrm : ∀ p, Keeps P (rmWhere p)) (W : String) : Keeps P (forceStopAll W) :=
  .bind (hs.keeps_psSelect _ _) fun _ => .bind (keeps_killAll hsig _) fun _ =>
    .bind (hs.keeps_psSelect _ _) fun _ => .bind (keeps_killAll hsig _) fun _ =>
      .bind (hs.keeps_forceStopNginx hsig hrm W) fun _ => hrm _

theorem keeps_stopWorkersLoop (hs : Steady P) (hstop : ∀ id, Keeps P (stopWorker id)) :
    ∀ (fs : List String) (st : Nat), Keeps P (stopWorkersLoop fs st)
  | [], _ => .pure _
  | f :: fs, _ => (hs.keeps_fileExists f).bind fun _ =>
      .ite ((hstop _).bind (hs.keeps_stopWorkersLoop hstop fs))
        ((Keeps.pure _).bind (hs.keeps_stopWorkersLoop hstop fs))

theorem keeps_stopAll (hs : Steady P) (hserver : Keeps P stopRagflowServer)
    (hstop : ∀ id, Keeps P (stopWorker id)) : Keeps P stopAll :=
  .bind hserver fun _ => .bind hs.keeps_globWorkerPidFiles fun _ =>
    hs.keeps_stopWorkersLoop hstop _ _

theorem keeps_startWorkersLoop (hs : Steady P) :
    ∀ ids : List Nat, (∀ i ∈ ids, Keeps P (startWorker i)) → Keeps P (startWorkersLoop ids)
  | [], _ => Keeps.pure _
  | _ :: ids, hstart => .bind (hstart _ (List.mem_cons_self _ _)) fun _ =>
      .bind hs.keeps_sleep fun _ =>
        hs.keeps_startWorkersLoop ids fun i hi => hstart i (List.mem_cons_of_mem _ hi)

theorem keeps_startAll (hs : Steady P) (env : Env) (hserver : Keeps P startRagflowServer)
    (hstart : ∀ i ∈ env.workerIds, Keeps P (startWorker i)) : Keeps P (startAll env) :=
  .bind hserver fun _ => hs.keeps_startWorkersLoop _ hstart

theorem keeps_launchNginx (hs : Steady P) {starts : Bool} (hl : Keeps P (nginxLaunch starts))
    (hwrite : ∀ pid, Keeps P (writePid webPidFile pid)) : Keeps P (launchNginx starts) :=
  hl.bind fun _ => (hs.keeps_fileExists _).bind fun _ =>
    .ite ((hs.keeps_readPid _).bind fun _ => (hwrite _).bind fun _ => .pure _) (.pure _)

/-- `start_web` changes the host only through the configuration write, `nginx -t` and the
launch. -/
theorem keeps_startWeb (hs : Steady P) {W : String} {env : Env}
    (hconf : Keeps P (writeConf (siteConf W env))) (htest : Keeps P (nginxTest env.tools.nginxTest))
    (hlaunch : Keeps P (launchNginx env.tools.nginxStarts)) : Keeps P (startWeb W env) :=
  keeps_orReturn1 ((hs.keeps_recordedRunning _).bind fun _ => .pure _) <|
  keeps_orReturn1 (hs.keeps_envCheck _) <| keeps_orReturn1 (hs.keeps_envCheck _) <|
  keeps_orReturn1 (.pure _) <|
  keeps_orReturn1 ((hs.keeps_envCheck _).bind fun _ => .ite (.pure _) (hs.keeps_envCheck _)) <|
  keeps_orReturn1 (hs.keeps_envCheck _) <| keeps_orReturn1 (hs.keeps_envCheck _) <|
  keeps_orReturn1 (hs.keeps_envCheck _) <| hconf.bind fun _ => keeps_orReturn1 htest hlaunch

/-- Every command keeps a steady predicate that starting a backend, stopping through a PID
file other than `nginx.pid`, `force_stop_all` and `start_web` keep. -/
theorem keeps_deploy (hs : Steady P) {W : String} {env : Env}
    (hstart : ∀ svc, svc ≠ .webFrontend → Keeps P (startService svc))
    (hstop : ∀ file, file ≠ nginxPidFile → Keeps P (stopByPidFile file))
    (hforce : Keeps P (forceStopAll W)) (hweb : Keeps P (startWeb W env)) :
    ∀ cmd, Keeps P (deploy W env cmd) := by
  have hstartAll : Keeps P (startAll env) :=
    hs.keeps_startAll env (hstart _ (by decide)) fun _ _ => hstart _ Service.noConfusion
  have hstopWorkers : Keeps P stopWorkers :=
    .bind hs.keeps_globWorkerPidFiles fun _ =>
      hs.keeps_stopWorkersLoop (fun _ => hstop _ (workerPidFile_ne_nginx _)) _ _
  have hstopAll : Keeps P stopAll := .bind (hstop _ (by decide)) fun _ => hstopWorkers
  intro cmd
  cases cmd
  case start => exact hstartAll
  case stop => exact hstopAll
  case forceStop => exact .bind hforce fun _ => .pure _
  case restart => exact .bind hstopAll fun _ => .bind hs.keeps_sleep fun _ => hstartAll
  case forceRestart => exact .bind hforce fun _ => .bind hs.keeps_sleep fun _ => hstartAll
  case status => exact .bind hs.keeps_status fun _ => .pure _
  case startRagflowServer => exact hstart _ (by decide)
  case stopRagflowServer => exact hstop _ (by decide)
  case startWorkers => exact hs.keeps_startWorkersLoop _ fun _ _ => hstart _ Service.noConfusion
  case stopWorkers => exact hstopWorkers
  case startWeb => exact hweb
  case stopWeb => exact hstop _ (by decide)
  case usage => exact .pure _

end Steady

section Reach

variable {P : Host → Prop} {W : String}

/-- An invariant of the hosts the script reaches: it holds initially, an invocation keeps
it from any clock and exit schedule, and so does a process exiting. -/
theorem holds_of_reachable (init : ∀ n, P (Host.init n))
    (step : ∀ env cmd exits h, P h → P (invoke W env cmd exits h))
    (exit : ∀ pid h, P h → P { h with procs := h.procs.exitAll [pid] }) {h : Host}
    (hr : Reachable W h) : P h := by
  obtain ⟨n, hr⟩ := hr
  induction hr with
  | refl => exact init n
  | tail _ hs ih =>
      cases hs with
      | invoke env cmd exits => exact step env cmd exits _ ih
      | exit pid => exact exit pid _ ih

/-- The same, with PID files also deleted by hand. -/
theorem holds_of_reachableOob (init : ∀ n, P (Host.init n))
    (step : ∀ env cmd exits h, P h → P (invoke W env cmd exits h))
    (exit : ∀ pid h, P h → P { h with procs := h.procs.exitAll [pid] })
    (unlink : ∀ name h, P h → P { h with dir := h.dir.remove name }) {h : Host}
    (hr : ReachableOob W h) : P h := by
  obtain ⟨n, hr⟩ := hr
  induction hr with
  | refl => exact init n
  | tail _ hs ih =>
      cases hs with
      | step hs =>
          cases hs with
          | invoke env cmd exits => exact step env cmd exits _ ih
          | exit pid => exact exit pid _ ih
      | unlink name => exact unlink name _ ih

end Reach

end PowerRag.Deploy
