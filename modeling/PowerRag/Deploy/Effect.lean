import PowerRag.Deploy.Restart

/-!
What each function of `deploy.sh` does to the services that run. `Host.running` reads a host
as the set of services with a live process. Whatever processes exit during a call, a function
leaves running at most the services its purpose allows (`Included`); when nothing exits, it
leaves exactly those. The bounds for the stop functions rest on the registry and ownership invariants.
-/

namespace PowerRag.Deploy

/-- The services with a live process. -/
def Host.running (h : Host) (svc : Service) : Bool := h.procs.live.any (·.svc == svc)

@[simp] theorem Host.running_iff {h : Host} {svc : Service} :
    h.running svc = true ↔ ∃ p ∈ h.procs.live, p.svc = svc := by
  simp [Host.running]

def Included (f g : Service → Bool) : Prop := ∀ s, f s = true → g s = true

namespace Included

variable {f g k : Service → Bool}

theorem refl (f : Service → Bool) : Included f f := fun _ => id

theorem trans (a : Included f g) (b : Included g k) : Included f k := fun s hs => b s (a s hs)

theorem antisymm (a : Included f g) (b : Included g f) : f = g :=
  funext fun s => Bool.eq_iff_iff.mpr ⟨a s, b s⟩

theorem or_left (a : Included f g) : Included (fun s => f s || k s) (fun s => g s || k s) :=
  fun s hs => by
    simp only [Bool.or_eq_true] at hs ⊢
    exact hs.imp_left (a s)

end Included

theorem Host.running_tick_le (h : Host) : Included h.tick.running h.running := fun _ hs => by
  obtain ⟨p, hp, rfl⟩ := Host.running_iff.mp hs
  exact Host.running_iff.mpr ⟨p, Host.mem_tick hp, rfl⟩

theorem Host.running_le_tick {h : Host} (q : Quiet h) : Included h.running h.tick.running :=
  fun _ hs => by
    obtain ⟨p, hp, rfl⟩ := Host.running_iff.mp hs
    exact Host.running_iff.mpr ⟨p, (Later.tick h).quiet q p hp, rfl⟩

def Service.workerIn (ids : List Nat) : Service → Bool
  | .worker i => decide (i ∈ ids)
  | _ => false

def Service.isWorker : Service → Bool
  | .worker _ => true
  | _ => false

/-- The backends `start` launches. -/
def Env.backends (env : Env) (svc : Service) : Bool :=
  svc == .ragflowServer || svc.workerIn env.workerIds

theorem Env.backends_iff {env : Env} {svc : Service} :
    env.backends svc = true ↔ Configured env svc := by
  cases svc <;> simp [Env.backends, Service.workerIn, Configured]

/-- The checks `start_web` makes before it writes the configuration. -/
def Env.buildChecks (env : Env) : Bool :=
  env.tools.webDir && env.tools.npm && validatePort env.port == 0 &&
    (env.tools.nodeModules || env.tools.npmInstall) && env.tools.nginx && env.tools.npmBuild &&
    env.tools.dist

/-- The checks `start_web` makes of its environment before it launches nginx. -/
def Env.webChecks (env : Env) : Bool :=
  env.tools.webDir && env.tools.npm && validatePort env.port == 0 &&
    (env.tools.nodeModules || env.tools.npmInstall) && env.tools.nginx && env.tools.npmBuild &&
    env.tools.dist && env.tools.nginxTest

/-- `start_web` gets to launch nginx, and nginx starts a master. -/
def Env.webReady (env : Env) : Bool := env.webChecks && env.tools.nginxStarts

theorem Env.webChecks_eq (env : Env) : env.webChecks = (env.buildChecks && env.tools.nginxTest) :=
  rfl

theorem wp_and {α : Type} {x : Sh α} {Q R : α → Host → Prop} {h : Host} (hq : wp x Q h)
    (hr : wp x R h) : wp x (fun a h' => Q a h' ∧ R a h') h :=
  ⟨hq, hr⟩

section Within

variable {h₀ : Host} {allowed : Service → Bool}

def Within (h₀ : Host) (allowed : Service → Bool) (h : Host) : Prop :=
  ∀ p ∈ h.procs.live, p ∈ h₀.procs.live ∨ allowed p.svc = true

theorem Within.refl (h₀ : Host) (allowed : Service → Bool) : Within h₀ allowed h₀ :=
  fun _ hp => .inl hp

theorem Within.steady : Steady (Within h₀ allowed) := fun _ w p hp => w p (Host.mem_tick hp)

theorem Within.running_le {h : Host} (w : Within h₀ allowed h) :
    Included h.running fun s => h₀.running s || allowed s := fun s hs => by
  obtain ⟨p, hp, rfl⟩ := Host.running_iff.mp hs
  rcases w p hp with hp | ha
  · simp [Host.running_iff.mpr ⟨p, hp, rfl⟩]
  · simp [ha]

/-- `start_ragflow_server` and `start_worker` launch only their own service. -/
theorem Within.keeps_startService {svc : Service} (ha : allowed svc = true) :
    Keeps (Within h₀ allowed) (startService svc) :=
  Within.steady.keeps_startService
    (Keeps.act Within.steady fun _ w p hp =>
      (ProcTable.mem_spawn.mp hp).elim (fun e => .inr (e ▸ ha)) (w p))
    fun _ => Keeps.act Within.steady fun _ w => w

end Within

section Spared

variable {keep : Service → Bool} {h₀ : Host}

/-- Nothing is scheduled to exit, and every process of `h₀` of a service `keep` admits still
runs. -/
structure Spared (keep : Service → Bool) (h₀ h : Host) : Prop where
  quiet : Quiet h
  kept : ∀ p ∈ h₀.procs.live, keep p.svc = true → p ∈ h.procs.live

theorem Spared.refl (q : Quiet h₀) : Spared keep h₀ h₀ := ⟨q, fun _ hp _ => hp⟩

theorem Spared.steady : Steady (Spared keep h₀) :=
  fun h s => ⟨s.quiet, fun p hp hk => (Later.tick h).quiet s.quiet p (s.kept p hp hk)⟩

theorem Spared.steady_owned : Steady fun h => Owned h ∧ Spared keep h₀ h :=
  fun h s => ⟨s.1.tick, Spared.steady h s.2⟩

theorem Spared.running_le {h : Host} (s : Spared keep h₀ h) :
    Included (fun svc => h₀.running svc && keep svc) h.running := fun _ hs => by
  simp only [Bool.and_eq_true, Host.running_iff] at hs
  obtain ⟨⟨p, hp, rfl⟩, hk⟩ := hs
  exact Host.running_iff.mpr ⟨p, s.kept p hp hk, rfl⟩

theorem Spared.running_le_all {h : Host} (s : Spared (fun _ => true) h₀ h) :
    Included h₀.running h.running :=
  fun svc hs => s.running_le svc (by simp [hs])

theorem Spared.keeps_act {α : Type} {f : Host → α × Host} (hx : ∀ h, (f h).2.exits = h.exits)
    (hl : ∀ h, ∀ p ∈ h.procs.live, p ∈ (f h).2.procs.live) : Keeps (Spared keep h₀) (act f) :=
  Keeps.act Spared.steady fun h s =>
    ⟨fun t => by rw [hx]; exact s.quiet t, fun p hp hk => hl h p (s.kept p hp hk)⟩

/-- With nothing exiting, `stopByPidFile file` ends at most the process `file` names. -/
theorem wp_stopByPidFile_spares (file : String) (Q : Nat → Host → Prop) (h : Host) (q : Quiet h)
    (hQ : ∀ st h', (∀ p ∈ h.procs.live, h.dir.read file ≠ some p.pid → p ∈ h'.procs.live) →
      Q st h') : wp (stopByPidFile file) Q h := by
  have l₄ : Later h h.tick.tick.tick.tick := (Later.tick h).tick_right.tick_right.tick_right
  simp only [stopByPidFile, wp_bind, wp_fileExists, wp_ite, wp_readPid, wp_psAlive, wp_signal,
    rmFile, wp_rmWhere, wp_pure, Host.tick_dir]
  split
  · exact hQ _ _ fun p hp _ => (Later.tick h).quiet q p hp
  · cases hx : h.dir.read file with
    | none => exact hQ _ _ fun p hp _ => l₄.quiet q p hp
    | some x =>
        split
        · refine hQ _ _ fun p hp hne =>
            (Later.tick (h.tick.tick.tick.tick.kill x true)).quiet q p (Host.mem_kill.mpr ?_)
          exact ⟨l₄.quiet q p hp, fun e => hne (by rw [hx, e])⟩
        · exact hQ _ _ fun p hp _ => l₄.quiet q p hp

/-- Stopping through a file that names no process `keep` admits: by ownership, a live process a
PID file names is of the file's service, or an nginx master named by `nginx.pid`. -/
theorem Spared.keeps_stopByPidFile {file : String}
    (hf : ∀ svc, keep svc = true → svc.pidFile ≠ file) (hn : file ≠ nginxPidFile) :
    Keeps (fun h => Owned h ∧ Spared keep h₀ h) (stopByPidFile file) := fun h ⟨o, s⟩ => by
  refine ⟨Owned.steady.keeps_stopByPidFile Owned.keeps_signal Owned.keeps_rmWhere file h o,
    Quiet.steady.keeps_stopByPidFile Quiet.keeps_signal Quiet.keeps_rmWhere file h s.quiet,
    wp_stopByPidFile_spares file (fun _ h' => ∀ p ∈ h₀.procs.live, keep p.svc = true →
      p ∈ h'.procs.live) h s.quiet fun _ _ hk p hp hkp => hk p (s.kept p hp hkp) fun hx => ?_⟩
  rcases o.owner file p.pid hx p (s.kept p hp hkp) rfl with he | ⟨he, -⟩
  exacts [hf _ hkp he, hn he]

end Spared

section Start

variable {h : Host}

theorem wp_startService_le (svc : Service) (h : Host) :
    wp (startService svc) (fun _ h' => Included h'.running fun s => h.running s || s == svc) h :=
  (Within.keeps_startService (by simp) h (Within.refl h _)).running_le

theorem wp_startWorkers_le (env : Env) (h : Host) :
    wp (startWorkers env) (fun _ h' =>
      Included h'.running fun s => h.running s || s.workerIn env.workerIds) h :=
  (Within.steady.keeps_startWorkersLoop _ (fun _ hi => Within.keeps_startService
    (by simp [Service.workerIn, hi])) h (Within.refl h _)).running_le

theorem wp_startAll_le (env : Env) (h : Host) :
    wp (startAll env) (fun _ h' => Included h'.running fun s => h.running s || env.backends s) h :=
  (Within.steady.keeps_startAll env (Within.keeps_startService (by simp [Env.backends]))
    (fun _ hi => Within.keeps_startService (by simp [Env.backends, Service.workerIn, hi])) h
    (Within.refl h _)).running_le

theorem wp_startService_ge (o : Owned h) (q : Quiet h) (svc : Service) :
    wp (startService svc) (fun _ h' => Included (fun s => h.running s || s == svc) h'.running) h :=
  wp_startService_quiet o q _ fun _ _ s t ht => by
    simp only [Bool.or_eq_true, Host.running_iff, beq_iff_eq] at ht
    rcases ht with ⟨p, hp, rfl⟩ | rfl
    exacts [Host.running_iff.mpr ⟨p, s.kept p hp, rfl⟩, Host.running_iff.mpr s.runs]

theorem wp_startWorkers_ge (o : Owned h) (q : Quiet h) (env : Env) :
    wp (startWorkers env) (fun _ h' =>
      Included (fun s => h.running s || s.workerIn env.workerIds) h'.running) h :=
  wp_startWorkersLoop_quiet _ _ h o q fun _ _ w t ht => by
    simp only [Bool.or_eq_true, Host.running_iff] at ht
    rcases ht with ⟨p, hp, rfl⟩ | ht
    · exact Host.running_iff.mpr ⟨p, w.kept p hp, rfl⟩
    · cases t with
      | worker i => exact Host.running_iff.mpr (w.runs i (by simpa [Service.workerIn] using ht))
      | _ => cases ht

theorem wp_startAll_ge (o : Owned h) (q : Quiet h) (env : Env) :
    wp (startAll env) (fun _ h' => Included (fun s => h.running s || env.backends s) h'.running) h :=
  wp_startAll_quiet env o q _ fun _ _ post t ht => by
    simp only [Bool.or_eq_true, Host.running_iff] at ht
    rcases ht with ⟨p, hp, rfl⟩ | ht
    exacts [Host.running_iff.mpr ⟨p, post.kept p hp, rfl⟩,
      Host.running_iff.mpr (post.runs t (Env.backends_iff.mp ht))]

end Start

section Stop

variable {h : Host}

theorem LiveIn.running_le {h₀ : Host} (hl : LiveIn h₀ h) : Included h.running h₀.running :=
  fun _ hs => by
    obtain ⟨p, hp, rfl⟩ := Host.running_iff.mp hs
    exact Host.running_iff.mpr ⟨p, hl p hp, rfl⟩

theorem keepsLive_stopByPidFile (h₀ : Host) (file : String) :
    Keeps (LiveIn h₀) (stopByPidFile file) :=
  (liveIn_steady h₀).keeps_stopByPidFile keepsLive_signal
    (fun _ => keepsLive_act fun _ _ hp => hp) file

theorem Service.pidFile_ne_worker {svc : Service} (hs : svc.isWorker = false) (workerId : String) :
    svc.pidFile ≠ workerPidFile workerId := by
  cases svc with
  | ragflowServer => exact (workerPidFile_ne_server workerId).symm
  | worker => cases hs
  | webFrontend => exact (workerPidFile_ne_web workerId).symm

/-- Whatever exits, stopping through a service's PID file leaves that service stopped and
starts nothing: under the registry invariant its live process is the one the file names. -/
theorem wp_stopByPidFile_le (r : Registry h) (svc : Service) :
    wp (stopByPidFile svc.pidFile) (fun _ h' =>
      Included h'.running fun s => h.running s && s != svc) h :=
  wp_stopByPidFile _ _ h fun _ _ s t ht => by
    obtain ⟨p, hp, rfl⟩ := Host.running_iff.mp ht
    obtain ⟨hp₀, hne⟩ := s.live p hp
    simp only [Bool.and_eq_true, Host.running_iff, bne_iff_ne]
    exact ⟨⟨p, hp₀, rfl⟩, fun he => hne (by rw [← he]; exact r.recorded p hp₀)⟩

/-- With nothing exiting, it ends no other service. -/
theorem wp_stopByPidFile_ge (o : Owned h) (q : Quiet h) (svc : Service) :
    wp (stopByPidFile svc.pidFile) (fun _ h' =>
      Included (fun s => h.running s && s != svc) h'.running) h :=
  ((Spared.keeps_stopByPidFile (fun _ ht he => by simp [Service.pidFile_injective he] at ht)
    (Service.pidFile_ne_nginx svc) : Keeps (fun h' => Owned h' ∧ Spared (· != svc) h h') _)
    h ⟨o, .refl q⟩).2.running_le

/-- The loop of `stop_workers` with the files `fs` still to visit: the PID file of every live
worker is still to visit and holds its pid, and sed reads back from each name to visit the id
whose file it is. -/
structure WorkersAhead (fs : List String) (h : Host) : Prop where
  live : ∀ p ∈ h.procs.live, ∀ i, p.svc = .worker i →
    (Service.worker i).pidFile ∈ fs ∧ h.dir.read (Service.worker i).pidFile = some p.pid
  roundTrip : ∀ f ∈ fs, workerPidFile (sedWorkerId f) = f

theorem WorkersAhead.step {f : String} {fs : List String} {h' : Host}
    (w : WorkersAhead (f :: fs) h) (s : StopPost f h h') : WorkersAhead fs h' where
  live p hp i hi := by
    obtain ⟨hp, hne⟩ := s.live p hp
    obtain ⟨hmem, hr⟩ := w.live p hp i hi
    have hf : (Service.worker i).pidFile ≠ f := fun he => hne (he ▸ hr)
    refine ⟨(List.mem_cons.mp hmem).resolve_left hf, ?_⟩
    rw [s.read _ hf (workerPidFile_ne_nginx _), hr]
  roundTrip f hf := w.roundTrip f (List.mem_cons_of_mem _ hf)

theorem wp_stopWorkersLoop_ahead (Q : Nat → Host → Prop)
    (hQ : ∀ st h, WorkersAhead [] h → Q st h) :
    ∀ (fs : List String) (st : Nat) (h : Host), WorkersAhead fs h →
      wp (stopWorkersLoop fs st) Q h
  | [], st, h, w => hQ st h w
  | f :: fs, _, h, w => by
      simp only [stopWorkersLoop, stopWorker, w.roundTrip f (List.mem_cons_self _ _), wp_bind,
        wp_fileExists, wp_ite, wp_pure]
      split
      · exact wp_stopByPidFile f _ _ fun st h' s =>
          wp_stopWorkersLoop_ahead Q hQ fs st h' (w.step (s.of_later (Later.tick h)))
      · rename_i hf
        exact wp_stopWorkersLoop_ahead Q hQ fs 0 _
          (w.step (stopPost_of_not_mem (by simpa using hf)))

/-- Sed reads back, from every name the glob of `stop_workers` lists, the id whose file it
is. -/
theorem sedWorkerId_glob {h : Host} (ho : OneLine h) :
    ∀ f ∈ h.dir.names.filter workerGlob, workerPidFile (sedWorkerId f) = f := fun f hf => by
  obtain ⟨hn, hg⟩ := List.mem_filter.mp hf
  obtain ⟨workerId, rfl⟩ := workerGlob_iff.mp hg
  rw [sedWorkerId_workerPidFile (by simpa [workerPidFile, String.toList] using ho _ hn)]

/-- Whatever exits, `stop_workers` leaves no worker running and starts nothing: the glob
lists every live worker's PID file and sed reads its id back. -/
theorem wp_stopWorkers_le (r : Registry h) (ho : OneLine h) :
    wp stopWorkers (fun _ h' => Included h'.running fun s => h.running s && !s.isWorker) h := by
  refine wp_keeps_and (.bind (liveIn_steady h).keeps_globWorkerPidFiles fun _ =>
    (liveIn_steady h).keeps_stopWorkersLoop (fun _ => keepsLive_stopByPidFile h _) _ _)
    (fun _ hp => hp) ?_
  rw [stopWorkers, wp_bind, wp_globWorkerPidFiles]
  refine wp_stopWorkersLoop_ahead _ (fun _ _ w hl t ht => ?_) _ _ _
    ⟨fun p hp i hi => ?_, sedWorkerId_glob ho⟩
  · obtain ⟨p, hp, rfl⟩ := Host.running_iff.mp ht
    simp only [Bool.and_eq_true, Host.running_iff, Bool.not_eq_true']
    refine ⟨⟨p, hl p hp, rfl⟩, ?_⟩
    cases hs : p.svc with
    | worker i => exact absurd (w.live p hp i hs).1 (List.not_mem_nil _)
    | _ => rfl
  · have hrec : h.dir.read (Service.worker i).pidFile = some p.pid := by
      rw [← hi]; exact r.recorded p (Host.mem_tick hp)
    exact ⟨List.mem_filter.mpr ⟨PidDir.has_iff.mp (PidDir.has_of_read hrec),
      workerGlob_workerPidFile _⟩, hrec⟩

theorem wp_stopWorkers_ge (o : Owned h) (q : Quiet h) :
    wp stopWorkers (fun _ h' => Included (fun s => h.running s && !s.isWorker) h'.running) h :=
  ((.bind Spared.steady_owned.keeps_globWorkerPidFiles fun _ =>
    Spared.steady_owned.keeps_stopWorkersLoop (fun id => Spared.keeps_stopByPidFile
      (fun _ ht => Service.pidFile_ne_worker (by simpa using ht) id) (workerPidFile_ne_nginx id))
      _ _ : Keeps (fun h' => Owned h' ∧ Spared (fun s => !s.isWorker) h h') stopWorkers)
    h ⟨o, .refl q⟩).2.running_le

theorem keepsLive_stopAll (h₀ : Host) : Keeps (LiveIn h₀) stopAll :=
  (liveIn_steady h₀).keeps_stopAll (keepsLive_stopByPidFile h₀ _)
    fun _ => keepsLive_stopByPidFile h₀ _

/-- Whatever exits, `stop` leaves only the web front end running. -/
theorem wp_stopAll_le (r : Registry h) (ho : OneLine h) :
    wp stopAll (fun _ h' => Included h'.running fun s => h.running s && s == .webFrontend) h :=
  wp_keeps_and (keepsLive_stopAll h) (fun _ hp => hp) fun hl t ht => by
    have st := stopAll_stopped ho fun p hp _ => r.recorded p hp
    obtain ⟨p, hp, rfl⟩ := Host.running_iff.mp ht
    simp only [Bool.and_eq_true, Host.running_iff, beq_iff_eq]
    exact ⟨⟨p, hl p hp, rfl⟩, st.live p hp⟩

/-- The stop phase of `stop` and `restart`, with nothing exiting: the web front end runs on,
and the invariants the start phase needs hold at its end. -/
theorem keeps_stopAll_spared (h₀ : Host) :
    Keeps (fun h => Owned h ∧ Spared (· == .webFrontend) h₀ h) stopAll :=
  Spared.steady_owned.keeps_stopAll
    (Spared.keeps_stopByPidFile (fun _ ht => by rw [beq_iff_eq.mp ht]; decide) (by decide))
    fun id => Spared.keeps_stopByPidFile
      (fun _ ht => by
        rw [beq_iff_eq.mp ht]
        exact Service.pidFile_ne_worker (show Service.webFrontend.isWorker = false from rfl) id)
      (workerPidFile_ne_nginx id)

/-- Under a plain path and the registry invariant, whatever exits, `force_stop_all` leaves
nothing running. -/
theorem wp_forceStopAll_le {W : String} (hW : PlainPath W) (r : Registry h) :
    wp (forceStopAll W) (fun _ h' => Included h'.running fun _ => false) h :=
  wp_forceStopAll_ends hW r _ fun _ hl _ ht => by
    simp [Host.running, hl] at ht

end Stop

section Web

variable {W : String} {env : Env} {h : Host}

theorem wp_orReturn1_value {test : Sh Bool} {v : Host → Bool} {rest : Sh Nat}
    {Q : Nat → Host → Prop} {h₀ : Host} (ho : Observes test v) (hl : Later h₀ h)
    (hfail : ∀ h', Later h₀ h' → v h' = false → Q 1 h')
    (hrest : ∀ h', Later h₀ h' → v h' = true → wp rest Q h') :
    wp (orReturn1 test rest) Q h := by
  simp only [orReturn1, wp_bind]
  refine ho h _ fun h' hl' => ?_
  rw [wp_ite]
  cases hv : v h'
  · exact hfail h' (hl.trans hl') hv
  · exact hrest h' (hl.trans hl') hv

/-- The seven checks before the configuration is written: `rest` when they all pass, else `1`. -/
theorem wp_buildChecks {rest : Sh Nat} {Q : Nat → Host → Prop} {h₀ : Host} (hl : Later h₀ h)
    (hfail : ∀ h', Later h₀ h' → env.buildChecks = false → Q 1 h')
    (hrest : ∀ h', Later h₀ h' → env.buildChecks = true → wp rest Q h') :
    wp (orReturn1 (envCheck env.tools.webDir) <| orReturn1 (envCheck env.tools.npm) <|
      orReturn1 (pure (validatePort env.port == 0)) <| orReturn1 (dependenciesReady env) <|
      orReturn1 (envCheck env.tools.nginx) <| orReturn1 (envCheck env.tools.npmBuild) <|
      orReturn1 (envCheck env.tools.dist) rest) Q h := by
  have fail : ∀ {v : Host → Bool} {test : Sh Bool} {rest' : Sh Nat}, Observes test v →
      (∀ h', v h' = false → env.buildChecks = false) → ∀ {h₁ : Host}, Later h₀ h₁ →
      (∀ h', Later h₀ h' → v h' = true → wp rest' Q h') → wp (orReturn1 test rest') Q h₁ :=
    fun ho hv _ hl hr => wp_orReturn1_value ho hl (fun h' a hb => hfail h' a (hv h' hb)) hr
  refine fail (observes_envCheck _) (fun _ hb => by simp [Env.buildChecks, hb]) hl
    fun _ a h₁ => fail (observes_envCheck _) (fun _ hb => by simp [Env.buildChecks, hb]) a
    fun _ a h₂ => fail (observes_pure _) (fun _ hb => by simp [Env.buildChecks, hb]) a
    fun _ a h₃ => fail (observes_dependenciesReady _) (fun _ hb => by simp [Env.buildChecks, hb]) a
    fun _ a h₄ => fail (observes_envCheck _) (fun _ hb => by simp [Env.buildChecks, hb]) a
    fun _ a h₅ => fail (observes_envCheck _) (fun _ hb => by simp [Env.buildChecks, hb]) a
    fun _ a h₆ => fail (observes_envCheck _) (fun _ hb => by simp [Env.buildChecks, hb]) a
    fun h' a h₇ => hrest h' a ?_
  simp only [Env.buildChecks, h₁, h₂, h₃, h₄, h₅, h₆, h₇, Bool.and_self]

/-- `start_web` returns `0` only after every check of its environment passed. -/
theorem wp_startWeb_checks (W : String) (env : Env) (h : Host) :
    wp (startWeb W env) (fun r _ => r = 0 → env.webChecks = true) h := by
  have fail : (1 : Nat) = 0 → env.webChecks = true := fun h10 => absurd h10 one_ne_zero
  refine wp_orReturn1_value (observes_notRecorded _) (Later.refl h) (fun _ _ _ => fail)
    fun _ a _ => wp_buildChecks a (fun _ _ _ => fail) fun _ _ hb => ?_
  rw [wp_bind, wp_writeConf]
  exact wp_orReturn1_nginxTest (fun _ => fail)
    fun ht => wp_launchNginx _ _ _ fun _ _ _ _ => by rw [Env.webChecks_eq, hb, ht, Bool.and_self]

/-- Whatever exits, `start_web` adds at most the web front end, and only when it is ready. -/
theorem wp_startWeb_le (W : String) (env : Env) (h : Host) :
    wp (startWeb W env) (fun _ h' =>
      Included h'.running fun s => h.running s || s == .webFrontend && env.webReady) h :=
  wp_mono (wp_and (wp_startWeb W env _ h fun _ _ post => post) (wp_startWeb_checks W env h))
    fun _ _ ⟨post, hc⟩ t ht => by
      obtain ⟨p, hp, rfl⟩ := Host.running_iff.mp ht
      simp only [Bool.or_eq_true, Host.running_iff, Bool.and_eq_true, beq_iff_eq, Env.webReady]
      rcases post.live p hp with hp | ⟨rfl, h0, hs⟩
      exacts [.inl ⟨p, hp, rfl⟩, .inr ⟨rfl, hc h0, hs⟩]

theorem wp_launchNginx_quiet (q : Quiet h) (Q : Nat → Host → Prop)
    (hQ : ∀ r h', h'.running .webFrontend = true → Q r h') : wp (launchNginx true) Q h := by
  simp only [launchNginx, wp_bind, wp_nginxLaunch, wp_fileExists, wp_ite, wp_readPid,
    wp_writePid, wp_pure, if_true, Host.tick_dir, PidDir.has_iff, PidDir.names_write,
    List.mem_cons, true_or, decide_True]
  refine hQ _ _ (Host.running_iff.mpr ⟨⟨h.procs.next, .webFrontend⟩, ?_, rfl⟩)
  exact ((Later.tick ({ h.tick with procs := h.tick.procs.spawn .webFrontend } : Host)).tick_right
    ).tick_right.quiet q _ (ProcTable.mem_spawn.mpr (.inl rfl))

/-- With nothing exiting and no front end running, a ready `start_web` leaves one running:
no live process is named by `web_frontend.pid`, every check passes, and nginx starts. -/
theorem wp_startWeb_launches (o : Owned h) (q : Quiet h) (hready : env.webReady = true)
    (hnone : h.running .webFrontend = false) :
    wp (startWeb W env) (fun _ h' => h'.running .webFrontend = true) h := by
  simp only [Env.webReady, Env.webChecks_eq, Bool.and_eq_true] at hready
  obtain ⟨⟨hb, ht⟩, hs⟩ := hready
  refine wp_orReturn1_value (observes_notRecorded _) (Later.refl h) (fun h' a hrec => ?_)
    fun _ a _ => wp_buildChecks a (fun _ _ hf => by simp [hb] at hf) fun _ a _ => ?_
  · obtain ⟨p, hp, hs⟩ := (o.mono (fun _ _ hx => a.dir ▸ hx) a.next a.live).runs_of_recorded
      (show h'.recorded Service.webFrontend.pidFile = true by simpa using hrec)
    exact absurd (Host.running_iff.mpr ⟨p, a.live p hp, hs⟩) (by simp [hnone])
  rw [wp_bind, wp_writeConf, hs]
  exact wp_orReturn1_nginxTest (fun hf => by simp [ht] at hf)
    fun _ => wp_launchNginx_quiet (fun t => a.exits ▸ q t) _ fun _ _ => id

/-- `start_web` ends no process and schedules no exit. -/
theorem Spared.keeps_startWeb (h₀ : Host) (W : String) (env : Env) :
    Keeps (Spared (fun _ => true) h₀) (startWeb W env) :=
  Spared.steady.keeps_startWeb (Spared.keeps_act (fun _ => rfl) fun _ _ hp => hp)
    (Spared.keeps_act (fun _ => by split <;> rfl) fun _ _ hp => by split <;> exact hp)
    (Spared.steady.keeps_launchNginx
      (Spared.keeps_act (fun _ => by split <;> rfl) fun _ _ hp => by
        split
        exacts [ProcTable.mem_spawn.mpr (.inr hp), hp])
      fun _ => Spared.keeps_act (fun _ => rfl) fun _ _ hp => hp)

/-- With nothing exiting, `start_web` keeps every service running and, when it is ready,
leaves the front end running. -/
theorem wp_startWeb_ge (o : Owned h) (q : Quiet h) :
    wp (startWeb W env) (fun _ h' =>
      Included (fun s => h.running s || s == .webFrontend && env.webReady) h'.running) h := by
  have kept : wp (startWeb W env) (fun _ h' => Included h.running h'.running) h :=
    (Spared.keeps_startWeb h W env h (.refl q)).running_le_all
  by_cases hl : env.webReady = true ∧ h.running .webFrontend = false
  · refine wp_mono (wp_and kept (wp_startWeb_launches o q hl.1 hl.2)) fun _ _ ⟨hk, hw⟩ t ht => ?_
    simp only [Bool.or_eq_true, Bool.and_eq_true, beq_iff_eq] at ht
    rcases ht with ht | ⟨rfl, -⟩
    exacts [hk t ht, hw]
  · refine wp_mono kept fun _ _ hk t ht => hk t ?_
    simp only [Bool.or_eq_true, Bool.and_eq_true, beq_iff_eq] at ht
    rcases ht with ht | ⟨rfl, hr⟩
    · exact ht
    · simpa [hr] using hl

theorem wp_status_le (h : Host) : wp status (fun _ h' => Included h'.running h.running) h :=
  LiveIn.running_le ((liveIn_steady h).keeps_status h fun _ hp => hp)

theorem wp_status_ge (q : Quiet h) : wp status (fun _ h' => Included h.running h'.running) h :=
  (Spared.steady.keeps_status h (Spared.refl q : Spared (fun _ => true) h h)).running_le_all

end Web

end PowerRag.Deploy
