import PowerRag.Deploy.Registry

/-!
`status`. Pids are never reused, so a pid the script stored in a PID file can only name a
process of that file's service, or a dead one: `Owned` says so, and every command keeps it
under any workspace path, with PID files deleted by hand too. From it, every pid `status`
reports as running is the pid of a live process of the service it is reported for. Under
the registry invariant, conversely, every process alive when `status` ends is reported.
-/

namespace PowerRag.Deploy

section Owned

/-- The pids in `pids/` belong to their files: each is older than every process still to be
launched, and a live process with that pid is of the file's service, or, for `nginx.pid`,
an nginx master. -/
structure Owned (h : Host) : Prop where
  old : ∀ n x, h.dir.read n = some x → x < h.procs.next
  owner : ∀ n x, h.dir.read n = some x → ∀ p ∈ h.procs.live, p.pid = x →
    p.svc.pidFile = n ∨ n = nginxPidFile ∧ p.svc = .webFrontend

theorem PidDir.read_of_removeWhere {d : PidDir} {p : String → Bool} {n : String} {x : Nat}
    (h : (d.removeWhere p).read n = some x) : d.read n = some x := by
  rw [PidDir.read_removeWhere] at h
  split at h
  · cases h
  · exact h

theorem Host.read_of_kill {h : Host} {pid : Nat} {g : Bool} {n : String} {x : Nat}
    (hx : (h.kill pid g).dir.read n = some x) : h.dir.read n = some x := by
  unfold Host.kill at hx
  split at hx
  · exact PidDir.read_of_removeWhere hx
  · exact hx

namespace Owned

variable {h h' : Host}

/-- Ending processes and deleting files keeps it. -/
theorem mono (o : Owned h) (hd : ∀ n x, h'.dir.read n = some x → h.dir.read n = some x)
    (hn : h'.procs.next = h.procs.next) (hl : ∀ p ∈ h'.procs.live, p ∈ h.procs.live) :
    Owned h' where
  old n x hx := hn ▸ o.old n x (hd n x hx)
  owner n x hx p hp := o.owner n x (hd n x hx) p (hl p hp)

theorem tick (o : Owned h) : Owned h.tick := o.mono (fun _ _ => id) rfl fun _ => Host.mem_tick

theorem kill (o : Owned h) (pid : Nat) (g : Bool) : Owned (h.kill pid g) :=
  o.mono (fun _ _ => Host.read_of_kill) rfl fun _ hp => (Host.mem_kill.mp hp).1

theorem removeWhere (o : Owned h) (p : String → Bool) :
    Owned { h with dir := h.dir.removeWhere p } :=
  o.mono (fun _ _ => PidDir.read_of_removeWhere) rfl fun _ => id

/-- A new process takes a pid no file holds. -/
theorem spawn (o : Owned h) (svc : Service) : Owned { h with procs := h.procs.spawn svc } where
  old n x hx := Nat.lt_succ_of_lt (o.old n x hx)
  owner n x hx p hp hpx := by
    rcases ProcTable.mem_spawn.mp hp with rfl | hp
    · exact absurd (o.old n x hx) (by simp [← hpx])
    · exact o.owner n x hx p hp hpx

/-- Writing a pid that is not new and whose live process, if any, the file may name. -/
theorem write (o : Owned h) {n : String} {v : Option Nat}
    (hv : ∀ x, v = some x → x < h.procs.next ∧ ∀ p ∈ h.procs.live, p.pid = x →
      p.svc.pidFile = n ∨ n = nginxPidFile ∧ p.svc = .webFrontend) :
    Owned { h with dir := h.dir.write n v } where
  old m y hy := by
    rw [PidDir.read_write] at hy
    split at hy
    · exact (hv y hy).1
    · exact o.old m y hy
  owner m y hy p hp hpy := by
    rw [PidDir.read_write] at hy
    split at hy
    · subst m
      exact (hv y hy).2 p hp hpy
    · exact o.owner m y hy p hp hpy

end Owned

/-- A program that keeps `P`, run from a host satisfying it. -/
theorem wp_of_keeps {P : Host → Prop} {α : Type} {x : Sh α} {Q : α → Host → Prop}
    {h : Host} (hx : Keeps P x) (hP : P h) (hQ : ∀ a h', P h' → Q a h') : wp x Q h :=
  hQ _ _ (hx h hP)

theorem Owned.steady : Steady Owned := fun _ o => o.tick

theorem Owned.keeps_rmWhere (p : String → Bool) : Keeps Owned (rmWhere p) :=
  Keeps.act Owned.steady fun _ o => o.removeWhere p

theorem Owned.keeps_signal (g : Bool) (pid : Option Nat) : Keeps Owned (signal g pid) :=
  Keeps.act Owned.steady fun _ o => by
    rcases pid with _ | pid
    exacts [o, o.kill pid g]

theorem Owned.keeps_writeConf (c : SiteConf) : Keeps Owned (writeConf c) :=
  Keeps.act Owned.steady fun _ o => o.mono (fun _ _ => id) rfl fun _ => id

theorem Owned.keeps_nginxTest (passes : Bool) : Keeps Owned (nginxTest passes) :=
  Keeps.act Owned.steady fun _ o => by
    cases passes
    exacts [o, o.mono (fun n x hx => by simpa using hx) rfl fun _ => id]

/-- An nginx launch records the pid of the master it starts. -/
theorem Owned.keeps_nginxLaunch (starts : Bool) : Keeps Owned (nginxLaunch starts) := by
  refine Keeps.act Owned.steady fun h o => ?_
  cases starts
  · exact o
  · refine (o.spawn .webFrontend).write fun x hx => ?_
    cases hx
    refine ⟨Nat.lt_succ_self _, fun p hp hpx => .inr ⟨rfl, ?_⟩⟩
    rcases ProcTable.mem_spawn.mp hp with rfl | hp
    · rfl
    · exact absurd (h.procs.lt_next p hp) (by simp [hpx])

/-- `start_ragflow_server` and `start_worker` record the pid of the process they start. -/
theorem Owned.keeps_startService (svc : Service) : Keeps Owned (startService svc) := fun h o => by
  show wp (startService svc) (fun _ h' => Owned h') h
  simp only [startService, wp_bind]
  refine wp_recordedRunning _ _ h fun h₁ a => ?_
  have o₁ := o.mono (fun n x hx => a.dir ▸ hx) a.next a.live
  cases h₁.recorded svc.pidFile
  · simp only [wp_ite, Bool.false_eq_true, if_false, wp_bind, wp_spawn, wp_writePid, wp_pure]
    refine (o₁.tick.spawn svc).tick.write fun x hx => ?_
    cases hx
    refine ⟨Nat.lt_succ_self _, fun p hp hpx => .inl ?_⟩
    rcases ProcTable.mem_spawn.mp (Host.mem_tick hp) with rfl | hp
    · rfl
    · exact absurd (h₁.tick.procs.lt_next p hp) (by simp [hpx])
  · simpa [wp_ite] using o₁

/-- `start_web` copies `nginx.pid` to `web_frontend.pid`, and a live process with the copied
pid is an nginx master. -/
theorem Owned.keeps_launchNginx (starts : Bool) : Keeps Owned (launchNginx starts) := fun h o => by
  show wp (launchNginx starts) (fun _ h' => Owned h') h
  rw [launchNginx, wp_bind]
  refine wp_of_keeps (Owned.keeps_nginxLaunch starts) o fun _ h₁ o₁ => ?_
  simp only [wp_bind, wp_fileExists, wp_ite, wp_readPid, wp_writePid, wp_pure]
  split
  · refine o₁.tick.tick.tick.write fun x hx => ⟨o₁.old _ x hx, fun p hp hpx => .inl ?_⟩
    have hp₁ := ((Later.tick h₁).tick_right.tick_right).live p hp
    rcases o₁.owner _ x hx p hp₁ hpx with he | ⟨-, hw⟩
    · exact absurd he (Service.pidFile_ne_nginx _)
    · rw [hw]
      rfl
  · exact o₁.tick

theorem Owned.keeps_startWeb (W : String) (env : Env) : Keeps Owned (startWeb W env) :=
  Owned.steady.keeps_startWeb (Owned.keeps_writeConf _) (Owned.keeps_nginxTest _)
    (Owned.keeps_launchNginx _)

/-- It holds in every state the script reaches, PID files deleted by hand included. -/
theorem owned_of_reachableOob {W : String} {h : Host} (hr : ReachableOob W h) : Owned h :=
  holds_of_reachableOob (fun _ => ⟨fun _ _ hx => by simp [Host.init, PidDir.empty, PidDir.read,
      PidDir.read.go] at hx, fun _ _ hx => by simp [Host.init, PidDir.empty, PidDir.read,
      PidDir.read.go] at hx⟩)
    (fun env cmd _ _ o => Owned.steady.keeps_deploy (fun _ _ => Owned.keeps_startService _)
      (fun _ _ => Owned.steady.keeps_stopByPidFile Owned.keeps_signal Owned.keeps_rmWhere _)
      (Owned.steady.keeps_forceStopAll Owned.keeps_signal Owned.keeps_rmWhere W)
      (Owned.keeps_startWeb W env) cmd _ (o.mono (fun _ _ => id) rfl fun _ => id))
    (fun _ _ o => o.mono (fun _ _ => id) rfl fun p hp => (ProcTable.mem_exitAll.mp hp).1)
    (fun _ _ o => o.mono (fun _ _ => PidDir.read_of_removeWhere) rfl fun _ => id) hr

end Owned

section Reading

/-- What `status` may show for a PID file it reads at `h`, seen from a later host `h'`: a pid
shown as running is the one the file held, alive at `h`, and a process still alive at `h'`
whose pid the file held is shown. -/
structure Reads (file : String) (h h' : Host) (r : Option Nat) : Prop where
  sound : ∀ x, r = some x → h.dir.read file = some x ∧ h.alive x = true
  complete : ∀ p ∈ h'.procs.live, h.dir.read file = some p.pid → r = some p.pid

namespace Reads

variable {file : String} {h₀ h h₁ h' : Host} {r : Option Nat}

/-- Reading earlier and seeing later. -/
theorem mono (a : Later h₀ h) (rd : Reads file h h₁ r) (b : Later h₁ h') :
    Reads file h₀ h' r :=
  ⟨fun x hx => ⟨a.dir ▸ (rd.sound x hx).1, a.alive (rd.sound x hx).2⟩,
    fun p hp hr => rd.complete p (b.live p hp) (a.dir ▸ hr)⟩

theorem of_not_mem (hf : file ∉ h.dir.names) : Reads file h h' none :=
  ⟨fun _ hx => Option.noConfusion hx, fun p _ hr => by rw [read_eq_none hf] at hr; cases hr⟩

end Reads

theorem wp_runningPid (file : String) (Q : Option Nat → Host → Prop) (h : Host)
    (hQ : ∀ r h', Later h h' → Reads file h h' r → Q r h') : wp (runningPid file) Q h := by
  have hl : Later h h.tick.tick := (Later.tick h).tick_right
  simp only [runningPid, wp_bind, wp_readPid, wp_psAlive, wp_ite, wp_pure, Host.tick_dir]
  cases hr : h.dir.read file with
  | none =>
      exact hQ _ _ hl
        ⟨fun _ hx => Option.noConfusion hx, fun p _ he => by rw [hr] at he; cases he⟩
  | some x =>
      dsimp only
      split
      · refine hQ _ _ hl ⟨fun y hy => ?_, fun p _ he => hr.symm.trans he⟩
        cases hy
        exact ⟨hr, hl.alive ‹_›⟩
      · refine hQ _ _ hl ⟨fun _ hx => Option.noConfusion hx, fun p hp he => ?_⟩
        cases hr.symm.trans he
        exact absurd (Host.alive_iff.mpr ⟨p, hp, rfl⟩) ‹_›

/-- What `status` lists for the worker files `fs` it visits from `h`, seen from a later
host `h'`: each entry is named by sed after a file of `fs` and shows a pid only if that file
held it and its process was alive at `h`, and a process still alive at `h'` whose pid a file of
`fs` held is listed, under that file's name. -/
structure WorkersRead (fs : List String) (h h' : Host) (ws : List (String × Option Nat)) :
    Prop where
  sound : ∀ e ∈ ws, ∃ f ∈ fs, e.1 = sedWorkerId f ∧
    ∀ x, e.2 = some x → h.dir.read f = some x ∧ h.alive x = true
  complete : ∀ f ∈ fs, ∀ p ∈ h'.procs.live, h.dir.read f = some p.pid →
    (sedWorkerId f, some p.pid) ∈ ws

/-- Visiting `f` and then the files `fs`, from a host `h₁` after `h`. -/
theorem WorkersRead.cons {f : String} {fs : List String} {h h₁ h' : Host} {r : Option Nat}
    {ws : List (String × Option Nat)} (a : Later h h₁) (rd : Reads f h h' r)
    (w : WorkersRead fs h₁ h' ws) : WorkersRead (f :: fs) h h' ((sedWorkerId f, r) :: ws) where
  sound e he := by
    rcases List.mem_cons.mp he with rfl | he
    · exact ⟨f, List.mem_cons_self _ _, rfl, rd.sound⟩
    · obtain ⟨f', hf', h1, h2⟩ := w.sound e he
      refine ⟨f', List.mem_cons_of_mem _ hf', h1, fun x hx => ?_⟩
      obtain ⟨hr, ha⟩ := h2 x hx
      exact ⟨a.dir ▸ hr, a.alive ha⟩
  complete f' hf' p hp hr := by
    rcases List.mem_cons.mp hf' with rfl | hf'
    · rw [rd.complete p hp hr]
      exact List.mem_cons_self _ _
    · exact List.mem_cons_of_mem _ (w.complete f' hf' p hp (a.dir ▸ hr))

theorem WorkersRead.skip {f : String} {fs : List String} {h h₁ h' : Host}
    {ws : List (String × Option Nat)} (a : Later h h₁) (hf : f ∉ h.dir.names)
    (w : WorkersRead fs h₁ h' ws) : WorkersRead (f :: fs) h h' ws where
  sound e he := by
    obtain ⟨f', hf', h1, h2⟩ := w.sound e he
    refine ⟨f', List.mem_cons_of_mem _ hf', h1, fun x hx => ?_⟩
    obtain ⟨hr, ha⟩ := h2 x hx
    exact ⟨a.dir ▸ hr, a.alive ha⟩
  complete f' hf' p hp hr := by
    rcases List.mem_cons.mp hf' with rfl | hf'
    · rw [read_eq_none hf] at hr
      cases hr
    · exact w.complete f' hf' p hp (a.dir ▸ hr)

theorem WorkersRead.mono {fs : List String} {h₀ h h₁ h' : Host}
    {ws : List (String × Option Nat)} (a : Later h₀ h) (w : WorkersRead fs h h₁ ws)
    (b : Later h₁ h') : WorkersRead fs h₀ h' ws where
  sound e he := by
    obtain ⟨f, hf, h1, h2⟩ := w.sound e he
    refine ⟨f, hf, h1, fun x hx => ?_⟩
    obtain ⟨hr, ha⟩ := h2 x hx
    exact ⟨a.dir ▸ hr, a.alive ha⟩
  complete f hf p hp hr := w.complete f hf p (b.live p hp) (a.dir ▸ hr)

theorem wp_statusWorkers (Q : List (String × Option Nat) → Host → Prop) :
    ∀ (fs : List String) (h : Host),
      (∀ ws h', Later h h' → WorkersRead fs h h' ws → Q ws h') → wp (statusWorkers fs) Q h
  | [], h, hQ => hQ [] h (Later.refl h) ⟨fun _ he => (List.not_mem_nil _ he).elim,
    fun _ hf => (List.not_mem_nil _ hf).elim⟩
  | f :: fs, h, hQ => by
      simp only [statusWorkers, wp_bind, wp_fileExists, wp_ite, wp_pure]
      split
      · refine wp_runningPid f _ _ fun r h₁ a₁ rd => ?_
        refine wp_statusWorkers _ fs h₁ fun ws h' a w => ?_
        have a₀ := (Later.tick h).trans a₁
        exact hQ _ _ (a₀.trans a) (.cons a₀ (rd.mono (Later.tick h) a) w)
      · rename_i hf
        exact wp_statusWorkers _ fs h.tick fun ws h' a w =>
          hQ _ _ ((Later.tick h).trans a) (.skip (Later.tick h) (by simpa using hf) w)

/-- `if [ -f file ]; then` a `ps -p` of its pid, then `k` with what it shows. -/
theorem wp_guardedRunning {α : Type} (file : String) (k : Option Nat → Sh α)
    (Q : α → Host → Prop) (h : Host)
    (hk : ∀ r h', Later h h' → Reads file h h' r → wp (k r) Q h') :
    wp (fileExists file >>= fun b =>
      if b = true then runningPid file >>= k else pure none >>= k) Q h := by
  simp only [wp_bind, wp_fileExists, wp_ite, wp_pure]
  split
  · exact wp_runningPid file _ _ fun r h' a rd =>
      hk r h' ((Later.tick h).trans a) (rd.mono (Later.tick h) (Later.refl h'))
  · rename_i hf
    exact hk none _ (Later.tick h) (.of_not_mem (by simpa using hf))

/-- What a run of `status` from `h` that ends in `h'` reports. The front end is read from
`web_frontend.pid`, or from `nginx.pid` when the former is missing. -/
structure StatusRead (h h' : Host) (rep : StatusReport) : Prop where
  /-- `status` changes nothing; processes may only exit meanwhile. -/
  later : Later h h'
  server : Reads serverPidFile h h' rep.server
  workers : WorkersRead (h.dir.names.filter workerGlob) h h' rep.workers
  web : Reads (if webPidFile ∈ h.dir.names then webPidFile else nginxPidFile) h h' rep.web

theorem status_read (h : Host) : StatusRead h (status.run h).2 (status.run h).1 := by
  show wp status (fun rep h' => StatusRead h h' rep) h
  refine wp_guardedRunning serverPidFile _ _ h fun r₁ h₁ a₁ rd₁ => ?_
  dsimp only
  rw [wp_bind, wp_globWorkerPidFiles, wp_bind]
  refine wp_statusWorkers _ _ _ fun ws h₂ a₂ w => ?_
  have a₂' := (Later.tick h₁).trans a₂
  have hd : h₂.dir = h.dir := a₂'.dir.trans a₁.dir
  have fin : ∀ (file : String) (r₃ : Option Nat) (h₃ : Host), Later h₂ h₃ →
      Reads file h₂ h₃ r₃ →
      file = (if webPidFile ∈ h.dir.names then webPidFile else nginxPidFile) →
      StatusRead h h₃ ⟨r₁, ws, r₃⟩ := fun file r₃ h₃ a₃ rd₃ hf =>
    ⟨a₁.trans (a₂'.trans a₃), rd₁.mono (Later.refl h) (a₂'.trans a₃),
      by rw [← a₁.dir]; exact w.mono (a₁.trans (Later.tick h₁)) a₃,
      hf ▸ rd₃.mono (a₁.trans a₂') (Later.refl h₃)⟩
  rw [wp_bind, wp_fileExists, wp_ite]
  split
  · rename_i hw
    rw [wp_bind]
    exact wp_runningPid _ _ _ fun r₃ h₃ a₃ rd₃ =>
      fin _ r₃ h₃ ((Later.tick h₂).trans a₃)
        (rd₃.mono (Later.tick h₂) (Later.refl h₃)) (by simp_all)
  · rename_i hw
    exact wp_guardedRunning nginxPidFile _ _ _ fun r₃ h₃ a₃ rd₃ => fin _ r₃ h₃
      ((Later.tick h₂).trans a₃) (rd₃.mono (Later.tick h₂) (Later.refl h₃)) (by simp_all)

/-- A pid that a file holds and that is alive is the pid of a live process the file may
name. -/
theorem Owned.live_of_read {h : Host} (o : Owned h) {file : String} {x : Nat}
    (hr : h.dir.read file = some x) (ha : h.alive x = true) :
    ∃ svc, ⟨x, svc⟩ ∈ h.procs.live ∧
      (svc.pidFile = file ∨ file = nginxPidFile ∧ svc = .webFrontend) := by
  obtain ⟨⟨pid, svc⟩, hp, rfl⟩ := Host.alive_iff.mp ha
  exact ⟨svc, hp, o.owner file pid hr _ hp rfl⟩

end Reading

/-- Under any workspace path, in every state the script reaches, PID files deleted by hand
included, and whatever processes exit while it runs, `status` shows a pid as running only
for a process of the service it shows it for that was alive when it started: the server,
the worker whose id the line names, the nginx master. -/
theorem status_shows_only_live {W : String} {h : Host} (hr : ReachableOob W h) (clock : Nat)
    (exits : Nat → List Nat) :
    (∀ x, (status.run { h with clock := clock, exits := exits }).1.server = some x →
      ⟨x, .ragflowServer⟩ ∈ h.procs.live) ∧
    (∀ i x, (i, some x) ∈ (status.run { h with clock := clock, exits := exits }).1.workers →
      ∃ n : Nat, i = toString n ∧ ⟨x, .worker n⟩ ∈ h.procs.live) ∧
    (∀ x, (status.run { h with clock := clock, exits := exits }).1.web = some x →
      ⟨x, .webFrontend⟩ ∈ h.procs.live) := by
  have o : Owned { h with clock := clock, exits := exits } :=
    (owned_of_reachableOob hr).mono (fun _ _ => id) rfl fun _ => id
  have st := status_read { h with clock := clock, exits := exits }
  refine ⟨fun x hx => ?_, fun i x he => ?_, fun x hx => ?_⟩
  · obtain ⟨hrd, ha⟩ := st.server.sound x hx
    obtain ⟨svc, hp, hf | ⟨hn, -⟩⟩ := o.live_of_read hrd ha
    · rwa [show svc = .ragflowServer from Service.pidFile_injective hf] at hp
    · exact absurd hn (by decide)
  · obtain ⟨f, hf, rfl, hx⟩ := st.workers.sound _ he
    obtain ⟨hrd, ha⟩ := hx x rfl
    obtain ⟨hn, hg⟩ := List.mem_filter.mp hf
    obtain ⟨svc, hp, hs | ⟨rfl, -⟩⟩ := o.live_of_read hrd ha
    · subst hs
      cases svc with
      | worker n => exact ⟨n, sedWorkerId_pidFile n, hp⟩
      | _ => exact absurd hg (by decide)
    · exact absurd hg (by decide)
  · obtain ⟨hrd, ha⟩ := st.web.sound x hx
    obtain ⟨svc, hp, hs | ⟨-, rfl⟩⟩ := o.live_of_read hrd ha
    · split at hs
      · rwa [show svc = .webFrontend from Service.pidFile_injective hs] at hp
      · exact absurd hs (Service.pidFile_ne_nginx svc)
    · exact hp

theorem status_shows_only_live_after_start :
    ∃ h, h = invoke "/srv/ragflow" {} .start (fun _ => []) (Host.init 100) ∧
      ReachableOob "/srv/ragflow" h ∧
      (∀ x, (status.run { h with clock := 0, exits := fun _ => [] }).1.server = some x →
        ⟨x, .ragflowServer⟩ ∈ h.procs.live) ∧
      (∀ i x, (i, some x) ∈
          (status.run { h with clock := 0, exits := fun _ => [] }).1.workers →
        ∃ n : Nat, i = toString n ∧ ⟨x, .worker n⟩ ∈ h.procs.live) ∧
      (∀ x, (status.run { h with clock := 0, exits := fun _ => [] }).1.web = some x →
        ⟨x, .webFrontend⟩ ∈ h.procs.live) :=
  have hr : ReachableOob "/srv/ragflow"
      (invoke "/srv/ragflow" {} .start (fun _ => []) (Host.init 100)) :=
    ⟨100, .single (.step (.invoke _ _ _ _))⟩
  ⟨_, rfl, hr, status_shows_only_live hr 0 _⟩

/-- For a workspace path that `force_stop_all`'s pipeline reads as itself, in every state the
script reaches, `status` shows every process still alive when it ends, with its pid: the
server, each worker under its id, and the nginx master. -/
theorem status_shows_all_live {W : String} {h : Host} (hW : PlainPath W) (hr : Reachable W h)
    (clock : Nat) (exits : Nat → List Nat) :
    ∀ p ∈ (status.run { h with clock := clock, exits := exits }).2.procs.live,
      (p.svc = .ragflowServer →
        (status.run { h with clock := clock, exits := exits }).1.server = some p.pid) ∧
      (∀ n, p.svc = .worker n →
        (toString n, some p.pid) ∈
          (status.run { h with clock := clock, exits := exits }).1.workers) ∧
      (p.svc = .webFrontend →
        (status.run { h with clock := clock, exits := exits }).1.web = some p.pid) := by
  have r : Registry { h with clock := clock, exits := exits } :=
    (registry_of_reachable hW hr).mono rfl fun _ => id
  have st := status_read { h with clock := clock, exits := exits }
  intro p hp
  have hrec := r.recorded p (st.later.live p hp)
  refine ⟨fun hs => st.server.complete p hp (by rwa [hs] at hrec), fun n hs => ?_, fun hs => ?_⟩
  · rw [hs] at hrec
    have hf : (Service.worker n).pidFile ∈
        ({ h with clock := clock, exits := exits } : Host).dir.names.filter workerGlob :=
      List.mem_filter.mpr
        ⟨PidDir.has_iff.mp (PidDir.has_of_read hrec), workerGlob_workerPidFile _⟩
    simpa only [sedWorkerId_pidFile] using st.workers.complete _ hf p hp hrec
  · rw [hs] at hrec
    have hw : webPidFile ∈ ({ h with clock := clock, exits := exits } : Host).dir.names :=
      PidDir.has_iff.mp (PidDir.has_of_read hrec)
    exact st.web.complete p hp (by rw [if_pos hw]; exact hrec)

theorem status_shows_all_live_after_start :
    ∃ h, h = invoke "/srv/ragflow" {} .startWeb (fun _ => [])
        (invoke "/srv/ragflow" {} .start (fun _ => []) (Host.init 100)) ∧
      PlainPath "/srv/ragflow" ∧ Reachable "/srv/ragflow" h ∧
      ∀ p ∈ (status.run { h with clock := 0, exits := fun _ => [] }).2.procs.live,
        (p.svc = .ragflowServer →
          (status.run { h with clock := 0, exits := fun _ => [] }).1.server = some p.pid) ∧
        (∀ n, p.svc = .worker n → (toString n, some p.pid) ∈
          (status.run { h with clock := 0, exits := fun _ => [] }).1.workers) ∧
        (p.svc = .webFrontend →
          (status.run { h with clock := 0, exits := fun _ => [] }).1.web = some p.pid) :=
  have hW : PlainPath "/srv/ragflow" := ⟨by decide, by decide, by decide, by decide, by decide⟩
  have hr : Reachable "/srv/ragflow" (invoke "/srv/ragflow" {} .startWeb (fun _ => [])
      (invoke "/srv/ragflow" {} .start (fun _ => []) (Host.init 100))) :=
    ⟨100, .tail (.single (.invoke _ _ _ _)) (.invoke _ _ _ _)⟩
  ⟨_, rfl, hW, hr, status_shows_all_live hW hr 0 _⟩

end PowerRag.Deploy
