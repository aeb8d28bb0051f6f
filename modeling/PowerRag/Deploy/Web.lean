import PowerRag.Deploy.System
import PowerRag.Deploy.Wp

/-!
`start_web`. The port check `validate_port` accepts exactly the decimal numerals in
`1..65535` and, since bash's `-lt` and `-gt` fail with status `2` on a numeral past the
signed 64-bit range and the `||` chain reads that status as "not out of range", every
numeral of value `2^63` or more. The only site configuration `start_web` writes is
`siteConf` for a port `validate_port` accepted. A passing `nginx -t` leaves a
`pids/nginx.pid`, empty unless an earlier master wrote it, so the launch that follows always
finds the file and `start_web` returns `0` whether nginx started or not. It copies whatever the
file holds: the pid of the master it launched when nginx started, and otherwise nothing or the
pid an earlier master left.
-/

namespace PowerRag.Deploy

section ValidatePort

theorem isDigit_iff {c : Char} : c.isDigit = true ↔ 48 ≤ c.toNat ∧ c.toNat ≤ 57 := by
  simp only [Char.isDigit, Bool.and_eq_true, decide_eq_true_eq, ge_iff_le]
  exact Iff.rfl

theorem isDecimal_iff {s : String} :
    isDecimal s = true ↔ s.toList ≠ [] ∧ ∀ c ∈ s.toList, c.isDigit = true := by
  simp [isDecimal, List.isEmpty_iff]

/-- On a decimal numeral `legal_number` reads its value, unless it is past `INTMAX_MAX`. -/
theorem legalNumber_of_isDecimal {s : String} (h : isDecimal s = true) :
    legalNumber s =
      if digitsValue s.toList ≤ intmaxMax then some (digitsValue s.toList : Int) else none := by
  obtain ⟨hne, hd⟩ := isDecimal_iff.mp h
  obtain ⟨c, cs, hc⟩ := List.exists_cons_of_ne_nil hne
  have hc1 := isDigit_iff.mp (hd c (hc ▸ List.mem_cons_self _ _))
  have hsp : isCSpace c = false := by
    simp only [isCSpace, Bool.or_eq_false_iff, Bool.and_eq_false_imp, decide_eq_false_iff_not,
      decide_eq_true_eq]
    omega
  have hsign : readSign (c :: cs) = (false, c :: cs) := by
    unfold readSign
    split
    · rename_i h; cases h; simp at hc1
    · rename_i h; cases h; simp at hc1
    · rfl
  have htake : (c :: cs).takeWhile Char.isDigit = c :: cs :=
    List.takeWhile_eq_self_iff.mpr (hc ▸ hd)
  have hdrop : (c :: cs).dropWhile Char.isDigit = [] := List.dropWhile_eq_nil_iff.mpr (hc ▸ hd)
  have hpos : ¬ ((digitsValue (c :: cs) : Int) < -(intmaxMax : Int) - 1) := by omega
  simp only [legalNumber, hc, List.dropWhile_cons, hsp, Bool.false_eq_true, if_false, hsign,
    htake, hdrop, List.all_nil, not_true, or_false, List.cons_ne_nil, hpos, false_or]
  split_ifs <;> first | rfl | omega

/-- `validate_port` succeeds exactly on the decimal numerals whose value is in `1..65535`
or past `INTMAX_MAX`. -/
theorem validatePort_eq_zero_iff (port : String) :
    validatePort port = 0 ↔ isDecimal port = true ∧
      (1 ≤ digitsValue port.toList ∧ digitsValue port.toList ≤ 65535 ∨
        intmaxMax < digitsValue port.toList) := by
  by_cases hdec : isDecimal port = true
  · have h1 : legalNumber "1" = some 1 := by decide
    have h2 : legalNumber "65535" = some 65535 := by decide
    have hl := legalNumber_of_isDecimal hdec
    generalize digitsValue port.toList = v at hl ⊢
    simp only [validatePort, hdec, if_true, testLt, testGt, hl, h1, h2, true_and]
    by_cases hv : v ≤ intmaxMax
    · simp only [hv, if_true]
      by_cases ha : (v : Int) < 1 <;> by_cases hb : (65535 : Int) < v <;> simp [ha, hb] <;> omega
    · simp only [hv, if_false]
      simp
      omega
  · simp [validatePort, hdec]

end ValidatePort

section Checks

/-- `test` lets only scheduled exits happen, and answers `v` of the host it ends in. -/
def Observes (test : Sh Bool) (v : Host → Bool) : Prop :=
  ∀ h (R : Bool → Host → Prop), (∀ h', Later h h' → R (v h') h') → wp test R h

theorem observes_envCheck (b : Bool) : Observes (envCheck b) fun _ => b :=
  fun h _ hR => hR _ (Later.tick h)

theorem observes_pure (b : Bool) : Observes (pure b) fun _ => b :=
  fun h _ hR => hR h (Later.refl h)

theorem observes_notRecorded (file : String) :
    Observes (do pure !(← recordedRunning file)) fun h' => !h'.recorded file :=
  fun h _ hR => by
    rw [wp_bind]
    exact wp_recordedRunning file _ h hR

theorem observes_dependenciesReady (env : Env) :
    Observes (dependenciesReady env) fun _ => env.tools.nodeModules || env.tools.npmInstall :=
  fun h R hR => by
    simp only [dependenciesReady, wp_bind, wp_envCheck, wp_ite, wp_pure]
    cases hn : env.tools.nodeModules
    · simpa [hn] using hR _ (Later.tick h).tick_right
    · simpa [hn] using hR _ (Later.tick h)

/-- A check of `start_web` that passes the host on to the rest, or returns `1`. -/
theorem wp_orReturn1 {test : Sh Bool} {v : Host → Bool} {rest : Sh Nat}
    {Q : Nat → Host → Prop} {h₀ h : Host} (ho : Observes test v) (hl : Later h₀ h)
    (hfail : ∀ h', Later h₀ h' → Q 1 h')
    (hrest : ∀ h', Later h₀ h' → v h' = true → wp rest Q h') :
    wp (orReturn1 test rest) Q h := by
  simp only [orReturn1, wp_bind]
  refine ho h _ fun h' hl' => ?_
  have hl₀ := hl.trans hl'
  rw [wp_ite]
  split
  · exact hrest h' hl₀ ‹_›
  · exact hfail h' hl₀

/-- `nginx -t` returns `1`, or goes on from a `pids/` where `nginx.pid` is there. -/
theorem wp_orReturn1_nginxTest {passes : Bool} {rest : Sh Nat} {Q : Nat → Host → Prop}
    {h : Host} (hfail : passes = false → Q 1 h.tick)
    (hrest : passes = true → wp rest Q { h.tick with dir := h.dir.touch nginxPidFile }) :
    wp (orReturn1 (nginxTest passes) rest) Q h := by
  cases passes
  · exact hfail rfl
  · exact hrest rfl

end Checks

section StartWeb

/-- What `start_web` leaves, from `h`: at most `siteConf` written, `pids/` as it was after a
failure, and no process started but the master of its launch. -/
structure StartWebPost (W : String) (env : Env) (h : Host) (r : Nat) (h' : Host) : Prop where
  conf : h'.conf = h.conf ∨ h'.conf = some (siteConf W env) ∧ validatePort env.port = 0
  failed : r ≠ 0 → r = 1 ∧ h'.dir = h.dir
  created : r = 0 → webPidFile ∈ h'.dir.names ∧ nginxPidFile ∈ h'.dir.names
  recorded : r = 0 → h'.dir.read webPidFile =
    if env.tools.nginxStarts then some h.procs.next else h.dir.read nginxPidFile
  fresh : ∀ p ∈ h'.procs.live, h.procs.next ≤ p.pid → p = ⟨h.procs.next, .webFrontend⟩
  files : ∀ n, n ≠ webPidFile → n ≠ nginxPidFile → h'.dir.read n = h.dir.read n
  nginx : h'.dir.read nginxPidFile =
    if r = 0 ∧ env.tools.nginxStarts = true then some h.procs.next else h.dir.read nginxPidFile
  live : ∀ p ∈ h'.procs.live, p ∈ h.procs.live ∨
    p = ⟨h.procs.next, .webFrontend⟩ ∧ r = 0 ∧ env.tools.nginxStarts = true
  old : r = 0 → ∀ p ∈ h'.procs.live, p ∈ h.procs.live →
    h.dir.read webPidFile ≠ some p.pid

theorem fresh_of_live {h h' : Host} (hl : ∀ p ∈ h'.procs.live, p ∈ h.procs.live) :
    ∀ p ∈ h'.procs.live, h.procs.next ≤ p.pid → p = ⟨h.procs.next, .webFrontend⟩ :=
  fun p hp hle => absurd (h.procs.lt_next p (hl p hp)) (Nat.not_lt.mpr hle)

/-- What `launchNginx starts` leaves, from `h`. -/
structure LaunchPost (starts : Bool) (h : Host) (r : Nat) (h' : Host) : Prop where
  conf : h'.conf = h.conf
  status : r = if starts || h.dir.has nginxPidFile then 0 else 1
  failed : r ≠ 0 → h'.dir = h.dir
  created : r = 0 → webPidFile ∈ h'.dir.names ∧ nginxPidFile ∈ h'.dir.names
  recorded : r = 0 → h'.dir.read webPidFile =
    if starts then some h.procs.next else h.dir.read nginxPidFile
  fresh : ∀ p ∈ h'.procs.live, h.procs.next ≤ p.pid → p = ⟨h.procs.next, .webFrontend⟩
  files : ∀ n, n ≠ webPidFile → n ≠ nginxPidFile → h'.dir.read n = h.dir.read n
  nginx : h'.dir.read nginxPidFile =
    if r = 0 ∧ starts = true then some h.procs.next else h.dir.read nginxPidFile
  live : ∀ p ∈ h'.procs.live, p ∈ h.procs.live ∨
    p = ⟨h.procs.next, .webFrontend⟩ ∧ r = 0 ∧ starts = true

theorem wp_launchNginx (starts : Bool) (Q : Nat → Host → Prop) (h : Host)
    (hQ : ∀ r h', LaunchPost starts h r h' → Q r h') : wp (launchNginx starts) Q h := by
  simp only [launchNginx, wp_bind, wp_nginxLaunch, wp_fileExists, wp_ite, wp_readPid, wp_writePid,
    wp_pure]
  cases starts
  · simp only [Bool.false_eq_true, if_false, Host.tick_dir]
    split
    · rename_i hn
      have hl := (Later.tick h).tick_right.tick_right.tick_right
      refine hQ _ _ ⟨rfl, by simp [hn], by simp, fun _ => ?_, fun _ => by simp,
        fresh_of_live hl.live, fun n hn _ => by simp [hn], by simp [nginxPidFile, webPidFile],
        fun p hp => .inl (hl.live p hp)⟩
      simpa [PidDir.remove, nginxPidFile, webPidFile] using PidDir.has_iff.mp hn
    · rename_i hn
      have hl := (Later.tick h).tick_right
      exact hQ _ _ ⟨rfl, by simp [hn], fun _ => rfl, by simp, by simp, fresh_of_live hl.live,
        fun _ _ _ => rfl, by simp, fun p hp => .inl (hl.live p hp)⟩
  · simp only [if_true, Host.tick_dir, PidDir.has_iff, PidDir.names_write, List.mem_cons,
      true_or, PidDir.read_write]
    have hlive : ∀ p ∈ ({ h.tick with procs := h.tick.procs.spawn .webFrontend } :
        Host).tick.tick.tick.procs.live,
        p ∈ h.procs.live ∨ p = ⟨h.procs.next, .webFrontend⟩ :=
      fun p hp => (ProcTable.mem_spawn.mp (((Later.tick _).tick_right.tick_right).live p hp)).elim
        .inr fun hp' => .inl (Host.mem_tick hp')
    refine hQ _ _ ⟨rfl, by simp, by simp, fun _ => by simp [PidDir.remove, nginxPidFile,
      webPidFile], fun _ => by simp [nginxPidFile, webPidFile], fun p hp hle => ?_,
      fun n h1 h2 => by simp [h1, h2], by simp [nginxPidFile, webPidFile],
      fun p hp => (hlive p hp).imp_right fun e => ⟨e, rfl, rfl⟩⟩
    rcases hlive p hp with hp' | rfl
    · exact absurd (h.procs.lt_next p hp') (Nat.not_lt.mpr hle)
    · rfl

/-- A call that returns `1` before the launch. -/
theorem startWebPost_fail {W : String} {env : Env} {h h' : Host}
    (hc : h'.conf = h.conf ∨ h'.conf = some (siteConf W env) ∧ validatePort env.port = 0)
    (hd : h'.dir = h.dir) (hl : ∀ p ∈ h'.procs.live, p ∈ h.procs.live) :
    StartWebPost W env h 1 h' where
  conf := hc
  failed _ := ⟨rfl, hd⟩
  created := by simp
  recorded := by simp
  fresh := fresh_of_live hl
  files _ _ _ := by rw [hd]
  nginx := by simp [hd]
  live p hp := .inl (hl p hp)
  old := by simp

/-- The checks and `nginx -t` passed, and the launch left `l`. -/
theorem StartWebPost.of_launch {W : String} {env : Env} {h h₁ h₂ h' : Host} {r : Nat}
    (hv : validatePort env.port = 0) (a : Later h h₁)
    (hdead : ∀ x, h.dir.read webPidFile = some x → h₁.alive x = false)
    (b : Later { h₁.tick with conf := some (siteConf W env) } h₂)
    (l : LaunchPost env.tools.nginxStarts { h₂.tick with dir := h₂.dir.touch nginxPidFile } r h') :
    StartWebPost W env h r h' := by
  have hd : h₂.dir = h.dir := b.dir.trans a.dir
  have hn : ({ h₂.tick with dir := h₂.dir.touch nginxPidFile } : Host).procs.next =
      h.procs.next := b.next.trans a.next
  have hl₁ : ∀ p ∈ h₂.tick.procs.live, p ∈ h₁.procs.live := fun p hp =>
    Host.mem_tick (b.live p (Host.mem_tick hp))
  have h0 : r = 0 := by simpa [PidDir.has_iff] using l.status
  refine ⟨.inr ⟨l.conf.trans b.conf, hv⟩, fun hr => absurd h0 hr, l.created,
    fun hr => by rw [l.recorded hr, PidDir.read_touch, hd, hn], fun p hp hle => ?_,
    fun n h1 h2 => by rw [l.files n h1 h2, PidDir.read_touch, hd],
    by rw [l.nginx, PidDir.read_touch, hd, hn],
    fun p hp => (l.live p hp).imp (fun hp => a.live p (hl₁ p hp)) (hn ▸ id),
    fun _ p hp hp₀ => ?_⟩
  · rw [← hn] at hle ⊢
    exact l.fresh p hp hle
  · rcases l.live p hp with hp | ⟨rfl, -⟩
    · intro hx
      have := hdead _ hx
      rw [Host.alive_iff.mpr ⟨p, hl₁ p hp, rfl⟩] at this
      cases this
    · exact absurd (h.procs.lt_next _ hp₀) fun hlt => Nat.lt_irrefl _ (hn ▸ hlt)

theorem wp_startWeb (W : String) (env : Env) (Q : Nat → Host → Prop) (h : Host)
    (hQ : ∀ r h', StartWebPost W env h r h' → Q r h') : wp (startWeb W env) Q h := by
  have hfail : ∀ h', Later h h' → Q 1 h' := fun h' a =>
    hQ _ _ (startWebPost_fail (.inl a.conf) a.dir a.live)
  refine wp_orReturn1 (observes_notRecorded _) (Later.refl h) hfail fun h₀ a₀ hrec => ?_
  have hdead₀ : ∀ x, h.dir.read webPidFile = some x → h₀.alive x = false := fun x hx => by
    simpa [Host.recorded, a₀.dir, hx] using hrec
  have hfail₀ : ∀ h', Later h₀ h' → Q 1 h' := fun h' a => hfail h' (a₀.trans a)
  refine wp_orReturn1 (observes_envCheck _) (Later.refl h₀) hfail₀ fun _ a _ => ?_
  refine wp_orReturn1 (observes_envCheck _) a hfail₀ fun _ a _ => ?_
  refine wp_orReturn1 (observes_pure _) a hfail₀ fun _ a hv => ?_
  refine wp_orReturn1 (observes_dependenciesReady _) a hfail₀ fun _ a _ => ?_
  refine wp_orReturn1 (observes_envCheck _) a hfail₀ fun _ a _ => ?_
  refine wp_orReturn1 (observes_envCheck _) a hfail₀ fun _ a _ => ?_
  refine wp_orReturn1 (observes_envCheck _) a hfail₀ fun h₁ a _ => ?_
  have hv : validatePort env.port = 0 := beq_iff_eq.mp hv
  have a₁ := a₀.trans a
  have hdead : ∀ x, h.dir.read webPidFile = some x → h₁.alive x = false := fun x hx =>
    Bool.eq_false_iff.mpr fun ha => by simpa [hdead₀ x hx] using a.alive ha
  rw [wp_bind, wp_writeConf]
  exact wp_orReturn1_nginxTest
    (fun _ => hQ _ _ (startWebPost_fail (.inr ⟨rfl, hv⟩) a₁.dir
      fun p hp => a₁.live p (Host.mem_tick (Host.mem_tick hp))))
    fun _ => wp_launchNginx _ _ _ fun _ _ l => hQ _ _ (.of_launch hv a₁ hdead (Later.refl _) l)

theorem startWeb_post (W : String) (env : Env) (h : Host) :
    StartWebPost W env h ((startWeb W env).run h).1 ((startWeb W env).run h).2 :=
  wp_startWeb W env _ h fun _ _ post => post

/-- The only `listen` directive `start_web` writes is `WEB_PORT` (`siteConf`'s `listen`), and
only for a port `validate_port` accepts; `validatePort_eq_zero_iff` says which. -/
theorem startWeb_listen (W : String) (env : Env) (h : Host) :
    ((startWeb W env).run h).2.conf = h.conf ∨
      ((startWeb W env).run h).2.conf = some (siteConf W env) ∧ validatePort env.port = 0 :=
  (startWeb_post W env h).conf

set_option maxRecDepth 20000 in
theorem startWeb_listens_past_range :
    validatePort "9223372036854775808" = 0 ∧
      (runCmd "/srv/ragflow" { webPort := "9223372036854775808" } .startWeb (fun _ => [])
        (Host.init 100)).1 = 0 ∧
      (runCmd "/srv/ragflow" { webPort := "9223372036854775808" } .startWeb (fun _ => [])
        (Host.init 100)).2.conf.map SiteConf.listen = some "9223372036854775808" := by
  decide

/-- When nginx starts, a successful `start_web` records the pid of the master it launched:
the pid handed to this call's one launch, and the only live process newer than the call. -/
theorem startWeb_records_own_master (W : String) (env : Env) (h : Host)
    (hs : env.tools.nginxStarts = true) (h0 : ((startWeb W env).run h).1 = 0) :
    ((startWeb W env).run h).2.dir.read webPidFile = some h.procs.next ∧
      ∀ p ∈ ((startWeb W env).run h).2.procs.live, h.procs.next ≤ p.pid →
        p = ⟨h.procs.next, .webFrontend⟩ := by
  have post := startWeb_post W env h
  exact ⟨by rw [post.recorded h0, hs, if_pos rfl], post.fresh⟩

set_option maxRecDepth 20000 in
/-- A master that died left `nginx.pid`, and `stop-web` cleared `web_frontend.pid`; the next
`start-web`, whose launch starts nothing, reports success and records the dead master. -/
theorem startWeb_records_dead_master :
    ∃ h, h = invoke "/srv/ragflow" {} .stopWeb (fun t => if t = 0 then [100] else [])
        (invoke "/srv/ragflow" {} .startWeb (fun _ => []) (Host.init 100)) ∧
      Reachable "/srv/ragflow" h ∧ h.dir.read webPidFile = none ∧
      (runCmd "/srv/ragflow" { tools := { nginxStarts := false } } .startWeb (fun _ => [])
        h).1 = 0 ∧
      (runCmd "/srv/ragflow" { tools := { nginxStarts := false } } .startWeb (fun _ => [])
        h).2.dir.read webPidFile = some 100 ∧
      (runCmd "/srv/ragflow" { tools := { nginxStarts := false } } .startWeb (fun _ => [])
        h).2.alive 100 = false :=
  ⟨_, rfl, ⟨100, .tail (.single (.invoke _ _ _ _)) (.invoke _ _ _ _)⟩, by decide⟩

end StartWeb

end PowerRag.Deploy
