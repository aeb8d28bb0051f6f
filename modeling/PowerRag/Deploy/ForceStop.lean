import PowerRag.Deploy.Names

/-!
`force_stop_all`. It always deletes every PID file of the script. It ends the backends it
finds with `ps -ef | grep <path> | grep -v grep`: for a workspace path with no `[`, `\`
or `*`, not starting with `^` and without the text `grep`, that pipeline finds every live
server and worker, and none of them survives. A path containing `grep` hides every
process from the pipeline; the backends survive, their PID files are gone, and the next
`start` brings up a second server. The nginx master is found through `pids/nginx.pid`
only: the fallback pattern `nginx.*ragflow.conf` does not match the command line
`start_web` launches it with.
-/

namespace PowerRag.Deploy

open PowerRag.Text

theorem wp_of_forall {α : Type} {x : Sh α} {R : α → Host → Prop} {h : Host}
    (hR : ∀ a h', R a h') : wp x R h :=
  hR _ _

/-- No `ragflow_server.pid`, `worker_*.pid`, `web_frontend.pid` or `nginx.pid` is left. -/
structure PidFilesCleared (h : Host) : Prop where
  server : serverPidFile ∉ h.dir.names
  workers : ∀ n ∈ h.dir.names, workerGlob n = false
  web : webPidFile ∉ h.dir.names
  nginx : nginxPidFile ∉ h.dir.names

/-- `force_stop_all` deletes every PID file of the script, whatever the workspace path and
the host. -/
theorem forceStopAll_clears (W : String) (h : Host) :
    PidFilesCleared ((forceStopAll W).run h).2 := by
  show wp (forceStopAll W) (fun _ h' => PidFilesCleared h') h
  simp only [forceStopAll, wp_bind, wp_rmWhere]
  refine wp_of_forall fun _ _ => wp_of_forall fun _ _ => wp_of_forall fun _ _ =>
    wp_of_forall fun _ _ => wp_of_forall fun _ _ => ⟨?_, fun n hn => ?_, ?_, ?_⟩ <;>
  simp_all [PidDir.names_removeWhere]

section Plain

/-- A workspace path `grep` reads as itself inside the script's patterns, and that does not
contain `grep`. -/
structure PlainPath (W : String) : Prop where
  no_bracket : '[' ∉ W.toList
  no_escape : '\\' ∉ W.toList
  no_star : '*' ∉ W.toList
  head_ne : W.toList.head? ≠ some '^'
  no_grep : ¬ "grep".toList <:+: W.toList

variable {W : String}

/-- The script's paths under a plain workspace path are plain patterns. -/
theorem plainPattern_path (hW : PlainPath W) {sfx : String} (hs : PlainPattern sfx.toList)
    (h0 : sfx.toList.head? = some '/') : PlainPattern (W ++ sfx).toList := by
  have hne : sfx.toList ≠ [] := fun h => by rw [h] at h0; cases h0
  refine ⟨?_, ?_, ?_, ?_, ?_⟩
  · simpa [String.toList] using ⟨hW.no_bracket, hs.no_bracket⟩
  · simpa [String.toList] using ⟨hW.no_escape, hs.no_escape⟩
  · simpa [String.toList] using ⟨hW.no_star, hs.no_star⟩
  · show (W.toList ++ sfx.toList).head? ≠ some '^'
    have hh := hW.head_ne
    cases hW' : W.toList with
    | nil => rw [List.nil_append, h0]; decide
    | cons c w => rwa [hW'] at hh
  · show (W.toList ++ sfx.toList).getLast? ≠ some '$'
    rw [List.getLast?_append_of_ne_nil _ hne]
    exact hs.last_ne

theorem grep_ragflowServer (hW : PlainPath W) :
    grep (ragflowServer W).toList (cmdline W .ragflowServer).toList = true :=
  grep_of_infix
    (plainPattern_path hW ⟨by decide, by decide, by decide, by decide, by decide⟩ rfl)
    ⟨(python W ++ " ").toList, [], List.append_nil _⟩

theorem grep_taskExecutor (hW : PlainPath W) (workerId : Nat) :
    grep (taskExecutor W).toList (cmdline W (.worker workerId)).toList = true :=
  grep_of_infix
    (plainPattern_path hW ⟨by decide, by decide, by decide, by decide, by decide⟩ rfl)
    ⟨(python W ++ " ").toList, (" " ++ toString workerId).toList, by
      simp only [cmdline, String.toList, String.data_append, List.append_assoc]⟩

theorem grep_grep_iff (line : List Char) :
    grep "grep".toList line = true ↔ "grep".toList <:+: line :=
  grep_iff_infix ⟨by decide, by decide, by decide, by decide, by decide⟩ (by decide)

/-- `grep -v grep` keeps the command line of every server and worker under a plain path. -/
theorem not_grep_backend (hW : PlainPath W) {svc : Service} (hs : svc ≠ .webFrontend) :
    grep "grep".toList (cmdline W svc).toList = false := by
  rw [Bool.eq_false_iff, Ne, grep_grep_iff]
  have hsl : '/' ∉ "grep".toList := by decide
  have hsp : ' ' ∉ "grep".toList := by decide
  have hpy : ¬ "grep".toList <:+: ".venv/bin/python".toList := by decide
  cases svc with
  | ragflowServer =>
      have e : (cmdline W .ragflowServer).toList = W.toList ++ '/' :: (".venv/bin/python".toList ++
          ' ' :: (W.toList ++ '/' :: "api/ragflow_server.py".toList)) := by
        simp only [cmdline, python, ragflowServer, String.toList, String.data_append,
          List.append_assoc]
        rfl
      rw [e]
      exact not_infix_append_sep hsl hW.no_grep <| not_infix_append_sep hsp hpy <|
        not_infix_append_sep hsl hW.no_grep (by decide)
  | worker id =>
      have e : (cmdline W (.worker id)).toList = W.toList ++ '/' :: (".venv/bin/python".toList ++
          ' ' :: (W.toList ++ '/' :: ("rag/svr/task_executor.py".toList ++
            ' ' :: (toString id).toList))) := by
        simp only [cmdline, python, taskExecutor, String.toList, String.data_append,
          List.append_assoc]
        rfl
      have hid : ¬ "grep".toList <:+: (toString id).toList := fun hi =>
        absurd (isDigit_of_mem_toString (hi.subset (by decide : 'g' ∈ "grep".toList)))
          (by decide)
      rw [e]
      exact not_infix_append_sep hsl hW.no_grep <| not_infix_append_sep hsp hpy <|
        not_infix_append_sep hsl hW.no_grep <| not_infix_append_sep hsp (by decide) hid
  | webFrontend => exact absurd rfl hs

end Plain

section Kills

/-- Every live process of `h` was live in `h₀`. -/
def LiveIn (h₀ h : Host) : Prop := ∀ p ∈ h.procs.live, p ∈ h₀.procs.live

theorem liveIn_steady (h₀ : Host) : Steady (LiveIn h₀) :=
  fun _ hh p hp => hh p (Host.mem_tick hp)

theorem keepsLive_act {α : Type} {h₀ : Host} {f : Host → α × Host}
    (hf : ∀ h, ∀ p ∈ (f h).2.procs.live, p ∈ h.procs.live) : Keeps (LiveIn h₀) (act f) :=
  Keeps.act (liveIn_steady h₀) fun h hh p hp => hh p (hf h p hp)

theorem keepsLive_signal {h₀ : Host} (g : Bool) (pid : Option Nat) :
    Keeps (LiveIn h₀) (signal g pid) :=
  keepsLive_act fun h p hp => by
    rcases pid with _ | pid
    · exact hp
    · exact (Host.mem_kill.mp hp).1

theorem wp_killAll (Q : Unit → Host → Prop) : ∀ (pids : List Nat) (h : Host),
    (∀ h', h'.dir = h.dir → (∀ p ∈ h'.procs.live, p ∈ h.procs.live ∧ p.pid ∉ pids) →
      Q () h') → wp (killAll pids) Q h
  | [], h, hQ => hQ h rfl fun p hp => ⟨hp, List.not_mem_nil _⟩
  | pid :: pids, h, hQ => by
      rw [killAll, wp_bind, wp_signal]
      refine wp_killAll Q pids _ fun h' hd hl =>
        hQ h' (hd.trans (by simp [Host.kill])) fun p hp => ?_
      obtain ⟨hp, hn⟩ := hl p hp
      obtain ⟨hp, hne⟩ := Host.mem_kill.mp hp
      exact ⟨Host.mem_tick hp, by simp [hne, hn]⟩

theorem keepsLive_forceStopNginx {h₀ : Host} (W : String) :
    Keeps (LiveIn h₀) (forceStopNginx W) :=
  (liveIn_steady h₀).keeps_forceStopNginx keepsLive_signal
    (fun _ => keepsLive_act fun _ _ hp => hp) W

/-- The two `ps -ef | grep <path> | grep -v grep | kill -9` passes of `force_stop_all`: under a
plain path, what follows them runs with no server or worker alive, no process new, and
`pids/` as it was. -/
theorem wp_killBackends (hW : PlainPath W) {α : Type} (k : Sh α) (Q : α → Host → Prop)
    (h : Host) (hk : ∀ h', h'.dir = h.dir →
      (∀ p ∈ h'.procs.live, p ∈ h.procs.live ∧ p.svc = .webFrontend) → wp k Q h') :
    wp (psSelect W (ragflowServer W) >>= fun pids => killAll pids >>= fun _ =>
      psSelect W (taskExecutor W) >>= fun pids => killAll pids >>= fun _ => k) Q h := by
  have sel : ∀ (h' : Host) (pattern : String) (svc : Service), svc ≠ .webFrontend →
      grep pattern.toList (cmdline W svc).toList = true → ∀ p ∈ h'.procs.live, p.svc = svc →
      p.pid ∈ (h'.procs.live.filter fun q => grep pattern.toList (cmdline W q.svc).toList &&
        !grep "grep".toList (cmdline W q.svc).toList).map Proc.pid := by
    rintro h' pattern svc hs hg p hp rfl
    exact List.mem_map_of_mem _
      (List.mem_filter.mpr ⟨hp, by rw [hg, not_grep_backend hW hs]; rfl⟩)
  simp only [wp_bind, wp_psSelect]
  refine wp_killAll _ _ _ fun h₁ hd₁ hl₁ => ?_
  refine wp_killAll _ _ _ fun h₂ hd₂ hl₂ => hk h₂ (hd₂.trans hd₁) fun p hp => ?_
  obtain ⟨hp₁, hw⟩ := hl₂ p hp
  obtain ⟨hp₀, hs⟩ := hl₁ p (Host.mem_tick hp₁)
  refine ⟨Host.mem_tick hp₀, ?_⟩
  cases hsvc : p.svc with
  | ragflowServer => exact absurd (sel _ _ _ (by decide) (grep_ragflowServer hW) p hp₀ hsvc) hs
  | worker id =>
      exact absurd (sel _ _ _ Service.noConfusion (grep_taskExecutor hW id) p hp₁ hsvc) hw
  | webFrontend => rfl

/-- Under a plain workspace path `force_stop_all` ends every server and worker, whatever
PID files are left. -/
theorem forceStopAll_ends_backends (hW : PlainPath W) (h : Host) :
    ∀ p ∈ ((forceStopAll W).run h).2.procs.live, p.svc = .webFrontend := by
  show wp (forceStopAll W) (fun _ h' => ∀ p ∈ h'.procs.live, p.svc = .webFrontend) h
  refine wp_killBackends hW _ _ h fun h₂ _ hl => ?_
  intro p hp
  exact (hl p (keepsLive_forceStopNginx W h₂ (fun _ hq => hq) p (Host.mem_tick hp))).2

theorem forceStopAll_ends_backends_after_start :
    PlainPath "/srv/ragflow" ∧ ∀ p ∈ ((forceStopAll "/srv/ragflow").run
      (invoke "/srv/ragflow" {} .start (fun _ => []) (Host.init 100))).2.procs.live,
        p.svc = .webFrontend :=
  have hW : PlainPath "/srv/ragflow" := ⟨by decide, by decide, by decide, by decide, by decide⟩
  ⟨hW, forceStopAll_ends_backends hW _⟩

set_option maxRecDepth 20000 in
/-- Under `/srv/grep` every command line contains `grep`, so `force-stop` ends no backend but
deletes every PID file; the next `start` then brings up a second server, and only the new
one is recorded. -/
theorem start_after_forceStop_duplicates_server :
    ∃ h, h = invoke "/srv/grep" {} .start (fun _ => [])
        (invoke "/srv/grep" {} .forceStop (fun _ => [])
          (invoke "/srv/grep" {} .start (fun _ => []) (Host.init 100))) ∧
      Reachable "/srv/grep" h ∧ ⟨100, .ragflowServer⟩ ∈ h.procs.live ∧
      ⟨103, .ragflowServer⟩ ∈ h.procs.live ∧ h.dir.read serverPidFile = some 103 :=
  ⟨_, rfl,
    ⟨100, .tail (.tail (.single (.invoke _ _ _ _)) (.invoke _ _ _ _)) (.invoke _ _ _ _)⟩,
    by decide⟩

set_option maxRecDepth 20000 in
/-- With `nginx.pid` deleted by hand, `force-stop` looks for the master with the pattern
`nginx.*ragflow.conf`, which the master's command line does not match: it survives. -/
theorem forceStop_misses_nginx_master :
    ∃ h₀ h, h₀ = invoke "/srv/ragflow" {} .startWeb (fun _ => []) (Host.init 100) ∧
      h = { h₀ with dir := h₀.dir.remove nginxPidFile } ∧ ReachableOob "/srv/ragflow" h ∧
      ⟨100, .webFrontend⟩ ∈
        (invoke "/srv/ragflow" {} .forceStop (fun _ => []) h).procs.live :=
  ⟨_, _, rfl, rfl, ⟨100, .tail (.single (.step (.invoke _ _ _ _))) (.unlink _ _)⟩,
    by decide⟩

end Kills

end PowerRag.Deploy
