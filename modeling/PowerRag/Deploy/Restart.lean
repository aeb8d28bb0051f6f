import PowerRag.Deploy.Status

/-!
`start`, `restart` and `force-restart` when no process exits during the call. `start` runs
each configured backend, the server and worker `i` for every `i` below `WORKER_COUNT`, keeps
what ran, and launches nothing else; a second `start` right after it does nothing at all.
`restart` and `force-restart` stop every backend first, so afterwards the backends that run
are exactly the configured ones.
-/

namespace PowerRag.Deploy

/-- A backend `start` is configured to run. -/
def Configured (env : Env) (svc : Service) : Prop :=
  svc = .ragflowServer ∨ ∃ i ∈ env.workerIds, svc = .worker i

section Quiet

theorem Quiet.steady : Steady Quiet := fun _ q => q

theorem Quiet.keeps_act {α : Type} {f : Host → α × Host}
    (hf : ∀ h, (f h).2.exits = h.exits) : Keeps Quiet (act f) :=
  Keeps.act Quiet.steady fun h q t => by rw [hf h]; exact q t

theorem Quiet.keeps_rmWhere (p : String → Bool) : Keeps Quiet (rmWhere p) :=
  Quiet.keeps_act fun _ => rfl

theorem Quiet.keeps_signal (g : Bool) (pid : Option Nat) : Keeps Quiet (signal g pid) :=
  Quiet.keeps_act fun _ => by cases pid <;> rfl

end Quiet

section Start

/-- `recordedRunning` on a PID file holds only while a process of the file's service runs. -/
theorem Owned.runs_of_recorded {h : Host} (o : Owned h) {svc : Service}
    (hrec : h.recorded svc.pidFile = true) : ∃ p ∈ h.procs.live, p.svc = svc := by
  unfold Host.recorded at hrec
  split at hrec
  · rename_i x hx
    obtain ⟨s, hp, hs | ⟨hn, -⟩⟩ := o.live_of_read hx hrec
    · exact ⟨_, hp, Service.pidFile_injective hs⟩
    · exact absurd hn (Service.pidFile_ne_nginx svc)
  · cases hrec

/-- What starting `svc` leaves when nothing exits: a process of `svc` runs, every process
that ran still runs, and a new one is of `svc`. -/
structure StartPost (svc : Service) (h h' : Host) : Prop where
  quiet : Quiet h'
  runs : ∃ p ∈ h'.procs.live, p.svc = svc
  kept : ∀ p ∈ h.procs.live, p ∈ h'.procs.live
  new : ∀ p ∈ h'.procs.live, p ∈ h.procs.live ∨ p.svc = svc

theorem wp_startService_quiet {svc : Service} {h : Host} (o : Owned h) (q : Quiet h)
    (Q : Nat → Host → Prop) (hQ : ∀ n h', StartPost svc h h' → Q n h') :
    wp (startService svc) Q h := by
  simp only [startService, wp_bind]
  refine wp_recordedRunning _ _ h fun h₁ a => ?_
  have q₁ : Quiet h₁ := fun t => by rw [a.exits]; exact q t
  cases hrec : h₁.recorded svc.pidFile
  · simp only [wp_ite, Bool.false_eq_true, if_false, wp_bind, wp_spawn, wp_writePid, wp_pure]
    have hs : ∀ p, p = ⟨h₁.procs.next, svc⟩ ∨ p ∈ h₁.tick.procs.live →
        p ∈ ({ h₁.tick with procs := h₁.tick.procs.spawn svc } : Host).tick.procs.live :=
      fun p hp => (Later.tick ({ h₁.tick with procs := h₁.tick.procs.spawn svc } : Host)).quiet
        q₁ p (ProcTable.mem_spawn.mpr hp)
    refine hQ _ _
      ⟨q₁, ⟨_, hs _ (.inl rfl), rfl⟩, fun p hp => hs p (.inr ?_), fun p hp => ?_⟩
    · exact (Later.tick h₁).quiet q₁ p (a.quiet q p hp)
    · rcases ProcTable.mem_spawn.mp (Host.mem_tick hp) with rfl | hp
      · exact .inr rfl
      · exact .inl (a.live p (Host.mem_tick hp))
  · have o₁ : Owned h₁ := o.mono (fun n x hx => a.dir ▸ hx) a.next a.live
    exact hQ _ _ ⟨q₁, o₁.runs_of_recorded hrec, a.quiet q, fun p hp => .inl (a.live p hp)⟩

/-- Run `x` from a host satisfying `P`, which `x` keeps, and use `P` at its end. -/
theorem wp_keeps_and {P : Host → Prop} {α : Type} {x : Sh α} {Q : α → Host → Prop}
    {h : Host} (hx : Keeps P x) (hP : P h) (hq : wp x (fun a h' => P h' → Q a h') h) : wp x Q h :=
  hq (hx h hP)

/-- What the loop of `start_workers` over `ids` leaves when nothing exits. -/
structure WorkersStarted (ids : List Nat) (h h' : Host) : Prop where
  owned : Owned h'
  quiet : Quiet h'
  runs : ∀ i ∈ ids, ∃ p ∈ h'.procs.live, p.svc = .worker i
  kept : ∀ p ∈ h.procs.live, p ∈ h'.procs.live
  new : ∀ p ∈ h'.procs.live, p ∈ h.procs.live ∨ ∃ i ∈ ids, p.svc = .worker i

theorem wp_startWorkersLoop_quiet (Q : Nat → Host → Prop) :
    ∀ (ids : List Nat) (h : Host), Owned h → Quiet h →
      (∀ n h', WorkersStarted ids h h' → Q n h') → wp (startWorkersLoop ids) Q h
  | [], h, o, q, hQ =>
      hQ 0 h ⟨o, q, fun _ hi => (List.not_mem_nil _ hi).elim, fun _ => id, fun _ hp => .inl hp⟩
  | i :: ids, h, o, q, hQ => by
      rw [startWorkersLoop, wp_bind]
      refine wp_keeps_and (Owned.keeps_startService _) o
        (wp_startService_quiet o q _ fun _ h₁ s o₁ => ?_)
      rw [wp_bind, wp_sleep]
      have hk : ∀ p ∈ h₁.procs.live, p ∈ h₁.tick.procs.live :=
        (Later.tick h₁).quiet s.quiet
      refine wp_startWorkersLoop_quiet Q ids h₁.tick o₁.tick s.quiet fun n h' w =>
        hQ n h' ⟨w.owned, w.quiet, fun j hj => ?_, fun p hp => w.kept p (hk p (s.kept p hp)),
          fun p hp => ?_⟩
      · rcases List.mem_cons.mp hj with rfl | hj
        · obtain ⟨p, hp, hs⟩ := s.runs
          exact ⟨p, w.kept p (hk p hp), hs⟩
        · exact w.runs j hj
      · rcases w.new p hp with hp | ⟨j, hj, hs⟩
        · exact (s.new p (Host.mem_tick hp)).imp_right fun hs =>
            ⟨i, List.mem_cons_self _ _, hs⟩
        · exact .inr ⟨j, List.mem_cons_of_mem _ hj, hs⟩

/-- What `start` leaves from `h` when nothing exits: every configured backend runs, every
process that ran still runs, and every new process is of a configured backend. -/
structure StartAllPost (env : Env) (h h' : Host) : Prop where
  owned : Owned h'
  runs : ∀ svc, Configured env svc → ∃ p ∈ h'.procs.live, p.svc = svc
  kept : ∀ p ∈ h.procs.live, p ∈ h'.procs.live
  new : ∀ p ∈ h'.procs.live, p ∈ h.procs.live ∨ Configured env p.svc

theorem wp_startAll_quiet (env : Env) {h : Host} (o : Owned h) (q : Quiet h)
    (Q : Nat → Host → Prop) (hQ : ∀ n h', StartAllPost env h h' → Q n h') :
    wp (startAll env) Q h := by
  rw [startAll, wp_bind]
  refine wp_keeps_and (Owned.keeps_startService _) o
    (wp_startService_quiet o q _ fun _ h₁ s o₁ => ?_)
  refine wp_startWorkersLoop_quiet Q _ h₁ o₁ s.quiet fun n h' w =>
    hQ n h' ⟨w.owned, fun svc hc => ?_, fun p hp => w.kept p (s.kept p hp), fun p hp => ?_⟩
  · rcases hc with rfl | ⟨i, hi, rfl⟩
    · obtain ⟨p, hp, hs⟩ := s.runs
      exact ⟨p, w.kept p hp, hs⟩
    · exact w.runs i hi
  · rcases w.new p hp with hp | ⟨i, hi, hs⟩
    · exact (s.new p hp).imp_right .inl
    · exact .inr (.inr ⟨i, hi, hs⟩)

end Start

/-- Under any workspace path, from every state the script reaches, PID files deleted by hand
included, `start` with no process exiting during the call leaves a service running exactly
when it is configured or was running before. -/
theorem start_runs_configured {W : String} {h : Host} (hr : ReachableOob W h) (env : Env)
    (svc : Service) :
    (∃ p ∈ (invoke W env .start (fun _ => []) h).procs.live, p.svc = svc) ↔
      Configured env svc ∨ ∃ p ∈ h.procs.live, p.svc = svc := by
  have o : Owned { h with clock := 0, exits := fun _ => [] } :=
    (owned_of_reachableOob hr).mono (fun _ _ => id) rfl fun _ => id
  have post : wp (startAll env)
      (fun _ h' => StartAllPost env { h with clock := 0, exits := fun _ => [] } h')
      { h with clock := 0, exits := fun _ => [] } :=
    wp_startAll_quiet env o (fun _ => rfl) _ fun _ _ post => post
  change StartAllPost env _ (invoke W env .start (fun _ => []) h) at post
  constructor
  · rintro ⟨p, hp, rfl⟩
    exact (post.new p hp).symm.imp_right fun hp => ⟨p, hp, rfl⟩
  · rintro (hc | ⟨p, hp, rfl⟩)
    · exact post.runs svc hc
    · exact ⟨p, post.kept p hp, rfl⟩

theorem start_runs_configured_at_init :
    ReachableOob "/srv/ragflow" (Host.init 100) ∧
      ((∃ p ∈ (invoke "/srv/ragflow" { workerCount := some 3 } .start (fun _ => [])
          (Host.init 100)).procs.live, p.svc = .worker 2) ↔
        Configured { workerCount := some 3 } (.worker 2) ∨
          ∃ p ∈ (Host.init 100).procs.live, p.svc = .worker 2) :=
  have hr : ReachableOob "/srv/ragflow" (Host.init 100) := ⟨100, .refl⟩
  ⟨hr, start_runs_configured hr _ _⟩

/-- After the stop phase of `restart` or `force-restart`, with no backend left and nothing
exiting, the start phase leaves a backend running exactly when it is configured. -/
theorem wp_restartTail {env : Env} {h : Host} (o : Owned h) (q : Quiet h)
    (hweb : ∀ p ∈ h.procs.live, p.svc = .webFrontend) {svc : Service}
    (hs : svc ≠ .webFrontend) :
    wp (sleep >>= fun _ => startAll env)
      (fun _ h' => (∃ p ∈ h'.procs.live, p.svc = svc) ↔ Configured env svc) h := by
  rw [wp_bind, wp_sleep]
  refine wp_startAll_quiet env o.tick q _ fun _ h' post => ⟨?_, post.runs svc⟩
  rintro ⟨p, hp, rfl⟩
  exact (post.new p hp).resolve_left fun hp => hs (hweb p (Host.mem_tick hp))

/-- For a workspace path that `force_stop_all`'s pipeline reads as itself, from every state the
script reaches, `restart` and `force-restart` with no process exiting during the call leave a
backend running exactly when it is configured: the server, and worker `i` for each `i` below
`WORKER_COUNT`. -/
theorem restart_runs_configured {W : String} {h : Host} (hW : PlainPath W) (hr : Reachable W h)
    (env : Env) {cmd : Command} (hc : cmd = .restart ∨ cmd = .forceRestart) {svc : Service}
    (hs : svc ≠ .webFrontend) :
    (∃ p ∈ (invoke W env cmd (fun _ => []) h).procs.live, p.svc = svc) ↔
      Configured env svc := by
  have o : Owned { h with clock := 0, exits := fun _ => [] } :=
    (owned_of_reachableOob hr.oob).mono (fun _ _ => id) rfl fun _ => id
  have r : Registry { h with clock := 0, exits := fun _ => [] } :=
    (registry_of_reachable hW hr).mono rfl fun _ => id
  have q : Quiet { h with clock := 0, exits := fun _ => [] } := fun _ => rfl
  show wp (deploy W env cmd)
    (fun _ h' => (∃ p ∈ h'.procs.live, p.svc = svc) ↔ Configured env svc)
    { h with clock := 0, exits := fun _ => [] }
  rcases hc with rfl | rfl
  · have ho : OneLine { h with clock := 0, exits := fun _ => [] } :=
      (oneLine_of_reachableOob hr.oob : OneLine h)
    have st := stopAll_stopped ho fun p hp _ => r.recorded p hp
    have hstop : ∀ {P : Host → Prop}, Steady P → (∀ g pid, Keeps P (signal g pid)) →
        (∀ p, Keeps P (rmWhere p)) → Keeps P stopAll := fun hs hsig hrm =>
      hs.keeps_stopAll (hs.keeps_stopByPidFile hsig hrm _) fun _ =>
        hs.keeps_stopByPidFile hsig hrm _
    rw [deploy, wp_bind]
    exact wp_restartTail (hstop Owned.steady Owned.keeps_signal Owned.keeps_rmWhere _ o)
      (hstop Quiet.steady Quiet.keeps_signal Quiet.keeps_rmWhere _ q) st.live hs
  · rw [deploy, wp_bind]
    refine wp_keeps_and (Owned.steady.keeps_forceStopAll Owned.keeps_signal Owned.keeps_rmWhere W) o
      (wp_keeps_and (Quiet.steady.keeps_forceStopAll Quiet.keeps_signal Quiet.keeps_rmWhere W) q
      (wp_forceStopAll_ends hW r _ fun h₁ hl q₁ o₁ => wp_restartTail o₁ q₁ ?_ hs))
    simp [hl]

theorem restart_runs_configured_after_start :
    ∃ h, h = invoke "/srv/ragflow" { workerCount := some 3 } .start (fun _ => [])
        (Host.init 100) ∧
      PlainPath "/srv/ragflow" ∧ Reachable "/srv/ragflow" h ∧
      ((∃ p ∈ (invoke "/srv/ragflow" { workerCount := some 1 } .restart (fun _ => [])
          h).procs.live, p.svc = .worker 2) ↔ Configured { workerCount := some 1 } (.worker 2)) :=
  have hW : PlainPath "/srv/ragflow" := ⟨by decide, by decide, by decide, by decide, by decide⟩
  have hr : Reachable "/srv/ragflow" (invoke "/srv/ragflow" { workerCount := some 3 } .start
      (fun _ => []) (Host.init 100)) := ⟨100, .single (.invoke _ _ _ _)⟩
  ⟨_, rfl, hW, hr, restart_runs_configured hW hr _ (.inl rfl) Service.noConfusion⟩

section Twice

variable {h h' : Host}

theorem Host.recorded_iff {f : String} :
    h.recorded f = true ↔ ∃ x, h.dir.read f = some x ∧ h.alive x = true := by
  unfold Host.recorded
  split <;> simp_all

/-- With nothing exiting, a file whose process runs keeps it running. -/
theorem Later.recorded (a : Later h h') (q : Quiet h) {f : String}
    (hf : h.recorded f = true) : h'.recorded f = true := by
  obtain ⟨x, hx, hax⟩ := Host.recorded_iff.mp hf
  obtain ⟨p, hp, rfl⟩ := Host.alive_iff.mp hax
  exact Host.recorded_iff.mpr ⟨_, a.dir ▸ hx, Host.alive_iff.mpr ⟨p, a.quiet q p hp, rfl⟩⟩

/-- A file that names a running process stays so through a launch that records its new
process. -/
theorem recorded_launch (q : Quiet h) (svc : Service) {f : String}
    (hf : f = svc.pidFile ∨ h.recorded f = true) :
    ({ ({ h.tick with procs := h.tick.procs.spawn svc } : Host).tick with
        dir := h.dir.write svc.pidFile (some h.procs.next) } : Host).recorded f = true := by
  have hl : ∀ p ∈ ({ h.tick with procs := h.tick.procs.spawn svc } : Host).procs.live,
      p ∈ ({ ({ h.tick with procs := h.tick.procs.spawn svc } : Host).tick with
        dir := h.dir.write svc.pidFile (some h.procs.next) } : Host).procs.live :=
    (Later.tick _).quiet q
  rw [Host.recorded_iff, PidDir.read_write]
  split_ifs with he
  · exact ⟨_, rfl, Host.alive_iff.mpr ⟨_, hl _ (ProcTable.mem_spawn.mpr (.inl rfl)), rfl⟩⟩
  · obtain ⟨x, hx, hax⟩ := Host.recorded_iff.mp (hf.resolve_left he)
    obtain ⟨p, hp, rfl⟩ := Host.alive_iff.mp hax
    exact ⟨_, hx, Host.alive_iff.mpr
      ⟨p, hl p (ProcTable.mem_spawn.mpr (.inr ((Later.tick h).quiet q p hp))), rfl⟩⟩

/-- A first `start_ragflow_server` or `start_worker` with nothing exiting: the service's PID
file names a running process afterwards, and every file that did still does. -/
theorem wp_startService_records (q : Quiet h) (svc : Service) :
    wp (startService svc) (fun _ h' => Quiet h' ∧ (∀ f, h.recorded f = true →
      h'.recorded f = true) ∧ h'.recorded svc.pidFile = true) h := by
  simp only [startService, wp_bind]
  refine wp_recordedRunning _ _ h fun h₁ a => ?_
  have q₁ : Quiet h₁ := fun t => by rw [a.exits]; exact q t
  cases hrec : h₁.recorded svc.pidFile
  · simp only [wp_ite, Bool.false_eq_true, if_false, wp_bind, wp_spawn, wp_writePid, wp_pure]
    exact ⟨q₁, fun f hf => recorded_launch q₁ svc (.inr (a.recorded q hf)),
      recorded_launch q₁ svc (.inl rfl)⟩
  · simpa [wp_ite] using ⟨q₁, fun _ hf => a.recorded q hf, hrec⟩

/-- A first `start_workers` loop over `ids` with nothing exiting: afterwards the PID file of every
worker of `ids` names a running process, and every file that did still does. -/
theorem wp_startWorkersLoop_records : ∀ (ids : List Nat) {h : Host}, Quiet h →
    wp (startWorkersLoop ids) (fun _ h' => Quiet h' ∧ (∀ f, h.recorded f = true →
      h'.recorded f = true) ∧ ∀ i ∈ ids, h'.recorded (Service.worker i).pidFile = true) h
  | [], _, q => ⟨q, fun _ => id, fun _ hi => (List.not_mem_nil _ hi).elim⟩
  | i :: ids, h, q => by
      rw [startWorkersLoop, wp_bind]
      refine wp_mono (wp_startService_records q _) fun _ h₁ ⟨q₁, m₁, r₁⟩ => ?_
      rw [wp_bind, wp_sleep]
      refine wp_mono (wp_startWorkersLoop_records ids q₁) fun _ h' ⟨q', m', rs⟩ =>
        ⟨q', fun f hf => m' f ((Later.tick h₁).recorded q₁ (m₁ f hf)), fun j hj => ?_⟩
      rcases List.mem_cons.mp hj with rfl | hj
      exacts [m' _ ((Later.tick h₁).recorded q₁ r₁), rs j hj]

/-- A first `start` with nothing exiting leaves the PID file of every configured backend
naming a running process. -/
theorem wp_startAll_records (env : Env) (q : Quiet h) :
    wp (startAll env) (fun _ h' => Quiet h' ∧
      ∀ svc, Configured env svc → h'.recorded svc.pidFile = true) h := by
  rw [startAll, wp_bind]
  refine wp_mono (wp_startService_records q _) fun _ h₁ ⟨q₁, _, r₁⟩ => ?_
  refine wp_mono (wp_startWorkersLoop_records _ q₁) fun _ _ ⟨q', m', rs⟩ => ⟨q', ?_⟩
  rintro _ (rfl | ⟨i, hi, rfl⟩)
  exacts [m' _ r₁, rs i hi]

/-- A start of a service whose PID file names a running process, with nothing exiting, does
nothing: it returns `1` with the processes and `pids/` as they were. -/
theorem wp_startService_idle (q : Quiet h) {svc : Service}
    (hr : h.recorded svc.pidFile = true) : wp (startService svc) (fun _ h' => Later h h') h := by
  simp only [startService, wp_bind]
  refine wp_recordedRunning _ _ h fun h₁ a => ?_
  simpa [a.recorded q hr, wp_ite] using a

/-- A `start_workers` loop over workers whose PID files name running processes, with nothing
exiting, does nothing. -/
theorem wp_startWorkersLoop_idle (q : Quiet h) : ∀ (ids : List Nat) {h₁ : Host}, Later h h₁ →
    (∀ i ∈ ids, h.recorded (Service.worker i).pidFile = true) →
    wp (startWorkersLoop ids) (fun _ h' => Later h h') h₁
  | [], _, a, _ => a
  | i :: ids, _, a, hr => by
      rw [startWorkersLoop, wp_bind]
      refine wp_mono (wp_startService_idle (fun t => by rw [a.exits]; exact q t)
        (a.recorded q (hr i (List.mem_cons_self _ _)))) fun _ _ b => ?_
      exact wp_startWorkersLoop_idle q ids (a.trans b).tick_right fun j hj =>
        hr j (List.mem_cons_of_mem _ hj)

/-- A `start` run when every configured backend's PID file names a running process, with
nothing exiting, does nothing. -/
theorem wp_startAll_idle (env : Env) (q : Quiet h)
    (hr : ∀ svc, Configured env svc → h.recorded svc.pidFile = true) :
    wp (startAll env) (fun _ h' => Later h h') h := by
  rw [startAll, wp_bind]
  exact wp_mono (wp_startService_idle q (hr _ (.inl rfl))) fun _ _ a =>
    wp_startWorkersLoop_idle q _ a fun i hi => hr _ (.inr ⟨i, hi, rfl⟩)

end Twice

/-- From any state, under any workspace path, a second `start` right after a first, with no
process exiting during either call, launches nothing and writes no PID file: the same
processes run, and `pids/` is as the first call left it. -/
theorem start_twice_idle (W : String) (env : Env) (h : Host) :
    (∀ p, p ∈ (invoke W env .start (fun _ => []) (invoke W env .start (fun _ => []) h)).procs.live ↔
      p ∈ (invoke W env .start (fun _ => []) h).procs.live) ∧
    (invoke W env .start (fun _ => []) (invoke W env .start (fun _ => []) h)).dir =
      (invoke W env .start (fun _ => []) h).dir := by
  obtain ⟨-, first⟩ :=
    wp_startAll_records env (h := { h with clock := 0, exits := fun _ => [] }) fun _ => rfl
  have second : Later _ (invoke W env .start (fun _ => []) (invoke W env .start (fun _ => []) h)) :=
    wp_startAll_idle env
      (h := { invoke W env .start (fun _ => []) h with clock := 0, exits := fun _ => [] })
      (fun _ => rfl) first
  exact ⟨fun p => ⟨second.live p, second.quiet (fun _ => rfl) p⟩, second.dir⟩

end PowerRag.Deploy
