import PowerRag.Deploy.Names

/-!
`stop`, and the stop phase of `restart`. `stop_ragflow_server` ends the process its PID file
names; `stop_workers` visits the files the glob `worker_*.pid` expands to and stops the
worker whose id sed reads off each name. When every live server and worker is the process
its PID file names, no backend survives and no backend PID file is left, whatever worker
counts the earlier starts used: the glob sees every worker file, and the id sed returns
names that same file again.
-/

namespace PowerRag.Deploy

/-- The registry invariant for the backends: every live server or worker is the process
whose pid its PID file holds. -/
def BackendsRecorded (h : Host) : Prop :=
  ∀ p ∈ h.procs.live, p.svc ≠ .webFrontend → h.dir.read p.svc.pidFile = some p.pid

instance : DecidablePred BackendsRecorded := fun h =>
  inferInstanceAs (Decidable (∀ p ∈ h.procs.live,
    p.svc ≠ .webFrontend → h.dir.read p.svc.pidFile = some p.pid))

/-- No server or worker is alive, and no `ragflow_server.pid` or `worker_*.pid` is left. -/
structure BackendsStopped (h : Host) : Prop where
  live : ∀ p ∈ h.procs.live, p.svc = .webFrontend
  server : serverPidFile ∉ h.dir.names
  workers : ∀ n ∈ h.dir.names, workerGlob n = false

theorem workerPidFile_ne_server (workerId : String) : workerPidFile workerId ≠ serverPidFile :=
  fun h => by simpa [workerPidFile, serverPidFile] using congrArg (·.toList.head?) h

theorem workerGlob_workerPidFile (workerId : String) : workerGlob (workerPidFile workerId) = true :=
  workerGlob_iff.mpr ⟨workerId, rfl⟩

section StopByPidFile

/-- What `stopByPidFile file` leaves: the file is gone, no other file appears, the files
other than `file` and `nginx.pid` keep their pids, `nginx.pid` goes only with the nginx
master `file` named, and no process survives that was dead before or that `file`
named. -/
structure StopPost (file : String) (h h' : Host) : Prop where
  gone : file ∉ h'.dir.names
  names : ∀ n ∈ h'.dir.names, n ∈ h.dir.names
  read : ∀ n, n ≠ file → n ≠ nginxPidFile → h'.dir.read n = h.dir.read n
  nginx : file ≠ nginxPidFile → h'.dir.read nginxPidFile = h.dir.read nginxPidFile ∨
    ∃ q ∈ h.procs.live, q.svc = .webFrontend ∧ h.dir.read file = some q.pid
  live : ∀ p ∈ h'.procs.live, p ∈ h.procs.live ∧ h.dir.read file ≠ some p.pid

theorem StopPost.of_later {file : String} {h h₁ h' : Host} (a : Later h h₁)
    (s : StopPost file h₁ h') : StopPost file h h' where
  gone := s.gone
  names n hn := a.dir ▸ s.names n hn
  read n h1 h2 := a.dir ▸ s.read n h1 h2
  nginx hf := by
    rcases s.nginx hf with e | ⟨q, hq, hw, hr⟩
    · exact .inl (a.dir ▸ e)
    · exact .inr ⟨q, a.live q hq, hw, a.dir ▸ hr⟩
  live p hp := ⟨a.live p (s.live p hp).1, a.dir ▸ (s.live p hp).2⟩

theorem read_eq_none {d : PidDir} {name : String} (h : name ∉ d.names) : d.read name = none := by
  cases hr : d.read name
  · rfl
  · exact absurd (PidDir.has_iff.mp (PidDir.has_of_read hr)) h

theorem stopPost_of_not_mem {file : String} {h : Host} (hf : file ∉ h.dir.names) :
    StopPost file h h.tick where
  gone := hf
  names _ hn := hn
  read _ _ _ := rfl
  nginx _ := .inl rfl
  live p hp := ⟨Host.mem_tick hp, by rw [read_eq_none hf]; simp⟩

/-- `rm pids/<file>` after a host `h'` that changed nothing but `nginx.pid` and ended only
processes that `file` did not name. -/
theorem stopPost_rm {file : String} {h h' : Host} (hn : ∀ n ∈ h'.dir.names, n ∈ h.dir.names)
    (hr : ∀ n, n ≠ nginxPidFile → h'.dir.read n = h.dir.read n)
    (hg : h'.dir.read nginxPidFile = h.dir.read nginxPidFile ∨
      ∃ q ∈ h.procs.live, q.svc = .webFrontend ∧ h.dir.read file = some q.pid)
    (hl : ∀ p ∈ h'.procs.live, p ∈ h.procs.live ∧ h.dir.read file ≠ some p.pid) :
    StopPost file h { h'.tick with dir := h'.dir.removeWhere (· == file) } where
  gone := by simp
  names n hm := hn n (by simp at hm; exact hm.1)
  read n h1 h2 := by simp [h1, hr n h2]
  nginx hf := by simpa [Ne.symm hf] using hg
  live p hp := hl p (Host.mem_tick hp)

/-- `rm pids/<file>` after only reads, which the exits may have followed by ending processes
that `file` did not name. -/
theorem stopPost_rm_of_later {file : String} {h h' : Host} (a : Later h h')
    (hl : ∀ p ∈ h'.procs.live, h.dir.read file ≠ some p.pid) :
    StopPost file h { h'.tick with dir := h'.dir.removeWhere (· == file) } :=
  stopPost_rm (fun n hn => a.dir ▸ hn) (fun n _ => by rw [a.dir]) (.inl (by rw [a.dir]))
    fun p hp => ⟨a.live p hp, hl p hp⟩

theorem wp_stopByPidFile (file : String) (Q : Nat → Host → Prop) (h : Host)
    (hQ : ∀ st h', StopPost file h h' → Q st h') : wp (stopByPidFile file) Q h := by
  simp only [stopByPidFile, wp_bind, wp_fileExists, wp_ite, wp_readPid, wp_psAlive, wp_signal,
    rmFile, wp_rmWhere, wp_pure, Host.tick_dir]
  by_cases hf : file ∈ h.dir.names
  · have hl : Later h h.tick.tick.tick := (Later.tick h).tick_right.tick_right
    simp only [PidDir.has_iff.mpr hf, Bool.not_true, Bool.false_eq_true, if_false]
    cases hp : h.dir.read file with
    | none => exact hQ _ _ (stopPost_rm_of_later hl fun p _ => by simp [hp])
    | some pid =>
        by_cases ha : h.tick.tick.tick.alive pid = true
        · simp only [ha, if_true]
          have hl' := hl.tick_right
          refine hQ _ _ (stopPost_rm (fun n hn => hl'.dir ▸ Host.kill_names hn)
            (fun n hn => by rw [Host.kill_read hn, hl'.dir]) ?_ fun p hq => ?_)
          · rcases Host.kill_read_nginx h.tick.tick.tick.tick pid true with
              e | ⟨q, hq, rfl, hw⟩
            · exact .inl (e.trans (by rw [hl'.dir]; rfl))
            · exact .inr ⟨q, hl'.live q hq, hw, hp⟩
          obtain ⟨hq, hne⟩ := Host.mem_kill.mp hq
          exact ⟨hl'.live p hq, by simpa [hp, eq_comm] using hne⟩
        · simp only [ha, Bool.false_eq_true, if_false]
          refine hQ _ _ (stopPost_rm_of_later hl fun p hq he => ha ?_)
          exact Host.alive_iff.mpr ⟨p, hq, (Option.some.inj (hp.symm.trans he)).symm⟩
  · simp only [Bool.eq_false_iff.mpr (mt PidDir.has_iff.mp hf), Bool.not_false, if_true]
    exact hQ _ _ (stopPost_of_not_mem hf)

end StopByPidFile

section StopWorkers

/-- The invariant of the loop of `stop_workers` with the files `fs` still to visit: every
live backend is a worker whose PID file is still to visit and holds its pid, every worker
file left is still to visit, the server file is gone, and sed reads back from each name
to visit the id whose file it is. -/
structure WorkersPending (fs : List String) (h : Host) : Prop where
  live : ∀ p ∈ h.procs.live, p.svc ≠ .webFrontend →
    ∃ workerId, p.svc = .worker workerId ∧ (Service.worker workerId).pidFile ∈ fs ∧
    h.dir.read (Service.worker workerId).pidFile = some p.pid
  files : ∀ n ∈ h.dir.names, workerGlob n = true → n ∈ fs
  server : serverPidFile ∉ h.dir.names
  roundTrip : ∀ f ∈ fs, workerPidFile (sedWorkerId f) = f

theorem WorkersPending.step {f : String} {fs : List String} {h h' : Host}
    (w : WorkersPending (f :: fs) h) (s : StopPost f h h') : WorkersPending fs h' where
  live p hp hw := by
    obtain ⟨hp, hne⟩ := s.live p hp
    obtain ⟨workerId, hsvc, hmem, hr⟩ := w.live p hp hw
    have hf : (Service.worker workerId).pidFile ≠ f := fun he => hne (he ▸ hr)
    refine ⟨workerId, hsvc, (List.mem_cons.mp hmem).resolve_left hf, ?_⟩
    rw [s.read _ hf (workerPidFile_ne_nginx _), hr]
  files n hn hg := (List.mem_cons.mp (w.files n (s.names n hn) hg)).resolve_left
    fun he => s.gone (he ▸ hn)
  server hn := w.server (s.names _ hn)
  roundTrip f hf := w.roundTrip f (List.mem_cons_of_mem _ hf)

theorem WorkersPending.stopped {h : Host} (w : WorkersPending [] h) : BackendsStopped h where
  live p hp := by
    by_contra hw
    obtain ⟨_, -, hmem, -⟩ := w.live p hp hw
    exact List.not_mem_nil _ hmem
  server := w.server
  workers n hn := by
    by_contra hg
    exact List.not_mem_nil _ (w.files n hn (by simpa using hg))

theorem wp_stopWorkersLoop (Q : Nat → Host → Prop)
    (hQ : ∀ st h, WorkersPending [] h → Q st h) :
    ∀ (fs : List String) (st : Nat) (h : Host), WorkersPending fs h →
      wp (stopWorkersLoop fs st) Q h
  | [], st, h, w => hQ st h w
  | f :: fs, _, h, w => by
      simp only [stopWorkersLoop, stopWorker, w.roundTrip f (List.mem_cons_self _ _), wp_bind,
        wp_fileExists, wp_ite, wp_pure]
      split
      · exact wp_stopByPidFile f _ _ fun st h' s =>
          wp_stopWorkersLoop Q hQ fs st h' (w.step (s.of_later (Later.tick h)))
      · rename_i hf
        exact wp_stopWorkersLoop Q hQ fs 0 _ (w.step (stopPost_of_not_mem (by simpa using hf)))

end StopWorkers

/-- `stop` from a host where every live backend is recorded and every file name is one
line: afterwards no backend is alive and no backend PID file is left. -/
theorem stopAll_stopped {h : Host} (ho : OneLine h) (hr : BackendsRecorded h) :
    BackendsStopped (stopAll.run h).2 := by
  show wp stopAll (fun _ h' => BackendsStopped h') h
  simp only [stopAll, stopRagflowServer, stopWorkers, wp_bind]
  refine wp_stopByPidFile _ _ _ fun _ h₁ s => ?_
  rw [wp_globWorkerPidFiles]
  refine wp_stopWorkersLoop _ (fun _ _ w => w.stopped) _ _ _ ⟨?_, ?_, s.gone, ?_⟩
  · intro p hp hw
    obtain ⟨hp, hne⟩ := s.live p (Host.mem_tick hp)
    have hrec := hr p hp hw
    cases hsvc : p.svc with
    | ragflowServer => exact absurd hrec (by simpa [Service.pidFile, hsvc] using hne)
    | webFrontend => exact absurd hsvc hw
    | worker workerId =>
        rw [hsvc] at hrec
        have hread : h₁.dir.read (Service.worker workerId).pidFile = some p.pid :=
          (s.read _ (workerPidFile_ne_server _) (workerPidFile_ne_nginx _)).trans hrec
        refine ⟨workerId, rfl, List.mem_filter.mpr ⟨?_, workerGlob_workerPidFile _⟩, hread⟩
        exact PidDir.has_iff.mp (PidDir.has_of_read hread)
  · intro n hn hg
    exact List.mem_filter.mpr ⟨hn, hg⟩
  · intro f hf
    obtain ⟨hn, hg⟩ := List.mem_filter.mp hf
    obtain ⟨workerId, rfl⟩ := workerGlob_iff.mp hg
    have h1 := ho _ (s.names _ hn)
    rw [sedWorkerId_workerPidFile (by simpa [workerPidFile, String.toList] using h1)]

/-- `deploy.sh stop`, and the stop phase `restart` begins with, from any state the script
reaches (PID files deleted by hand included) in which every live server and worker is the
process its PID file names, at any clock and under any exit schedule: no server or worker
survives and no `ragflow_server.pid` or `worker_*.pid` is left. -/
theorem stop_stops_backends {W : String} {h : Host} (hr : ReachableOob W h)
    (hrec : BackendsRecorded h) (clock : Nat) (exits : Nat → List Nat) :
    BackendsStopped (stopAll.run { h with clock := clock, exits := exits }).2 :=
  stopAll_stopped (oneLine_of_reachableOob hr : OneLine h) hrec

set_option maxRecDepth 20000 in
theorem stop_stops_backends_after_start :
    ReachableOob "/srv/ragflow"
        (invoke "/srv/ragflow" { workerCount := some 2 } .start (fun _ => []) (Host.init 100)) ∧
      BackendsRecorded
        (invoke "/srv/ragflow" { workerCount := some 2 } .start (fun _ => []) (Host.init 100)) ∧
      BackendsStopped (stopAll.run
        { invoke "/srv/ragflow" { workerCount := some 2 } .start (fun _ => []) (Host.init 100) with
          clock := 0, exits := fun _ => [] }).2 :=
  have hr : ReachableOob "/srv/ragflow"
      (invoke "/srv/ragflow" { workerCount := some 2 } .start (fun _ => []) (Host.init 100)) :=
    ⟨100, .single (.step (.invoke _ _ _ _))⟩
  have hrec : BackendsRecorded
      (invoke "/srv/ragflow" { workerCount := some 2 } .start (fun _ => []) (Host.init 100)) := by
    decide
  ⟨hr, hrec, stop_stops_backends hr hrec 0 _⟩

end PowerRag.Deploy
