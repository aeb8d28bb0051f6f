import Mathlib.Data.Nat.Digits
import PowerRag.Deploy.Invariant

/-!
The names of the files in `pids/`. The sed edit `stop_workers` applies to a name the glob
`worker_*.pid` expands to gives back the id that `start_worker` wrote the file for, as long
as the name is one line; and every file the script writes has a one-line name, so in every
state the script reaches, out-of-band deletions included, the glob and the edit together
find each worker's PID file.
-/

namespace PowerRag.Deploy

section RoundTrip

theorem lastPid_append_pid (g : List Char) : lastPid (g ++ ".pid".toList) = some (g, []) := by
  induction g with
  | nil => decide
  | cons c g ih => rw [List.cons_append, lastPid, ih]

theorem sedWorkerIdGo_workerPidFile (workerId : String) :
    sedWorkerIdGo (workerPidFile workerId).toList = workerId.toList := by
  have h : (workerPidFile workerId).toList =
      'w' :: ("orker_".toList ++ (workerId.toList ++ ".pid".toList)) := by
    simp only [workerPidFile, String.toList, String.data_append]; rfl
  have hp : "worker_".toList <+: 'w' :: ("orker_".toList ++ (workerId.toList ++ ".pid".toList)) :=
    List.prefix_append ("worker_".toList) _
  have hd : ("orker_".toList ++ (workerId.toList ++ ".pid".toList)).drop 6 =
      workerId.toList ++ ".pid".toList := rfl
  rw [h, sedWorkerIdGo, if_pos hp, hd, lastPid_append_pid]
  exact List.append_nil _

theorem lines_of_not_mem {s : List Char} (hs : '\n' ∉ s) : lines s = [s] := by
  induction s with
  | nil => rfl
  | cons c s ih =>
      simp only [List.mem_cons, not_or] at hs
      simp [lines, Ne.symm hs.1, ih hs.2]

/-- The edit undoes `workerPidFile` on one-line ids. -/
theorem sedWorkerId_workerPidFile {workerId : String} (h : '\n' ∉ workerId.toList) :
    sedWorkerId (workerPidFile workerId) = workerId := by
  have hn : '\n' ∉ (workerPidFile workerId).toList := by
    simpa [workerPidFile, String.toList] using h
  apply String.ext
  simp only [sedWorkerId, lines_of_not_mem hn, List.map_singleton, sedWorkerIdGo_workerPidFile]
  simp only [List.intercalate, List.intersperse, List.flatten_cons, List.flatten_nil,
    List.append_nil]
  refine List.rdropWhile_eq_self_iff.mpr fun hl hlast => h ?_
  rw [← beq_iff_eq.mp hlast]
  exact List.getLast_mem hl

/-- The names the glob `worker_*.pid` expands to are the names of worker PID files. -/
theorem workerGlob_iff {name : String} :
    workerGlob name = true ↔ ∃ workerId, name = workerPidFile workerId := by
  constructor
  · intro hg
    simp only [workerGlob, Bool.and_eq_true, List.isPrefixOf_iff_prefix,
      List.isSuffixOf_iff_suffix, decide_eq_true_eq] at hg
    obtain ⟨⟨⟨t, ht⟩, ⟨u, hu⟩⟩, hl⟩ := hg
    have hlen : 4 ≤ t.length := by
      have := congrArg List.length ht
      simp only [List.length_append] at this
      change 11 ≤ name.toList.length at hl
      have : "worker_".toList.length = 7 := rfl
      omega
    obtain ⟨c, rfl⟩ : ∃ c, t = c ++ ".pid".toList := by
      rcases List.append_eq_append_iff.mp (ht.trans hu.symm) with ⟨a, -, rfl⟩ | ⟨c, -, hc⟩
      · exact ⟨a, rfl⟩
      · have := congrArg List.length hc
        simp only [List.length_append] at this
        have : ".pid".toList.length = 4 := rfl
        obtain rfl : c = [] := List.eq_nil_of_length_eq_zero (by omega)
        exact ⟨[], by simpa using hc.symm⟩
    refine ⟨⟨c⟩, String.ext ?_⟩
    show name.toList = _
    rw [← ht]
    simp only [workerPidFile, String.data_append, List.append_assoc]
    rfl
  · rintro ⟨workerId, rfl⟩
    simp only [workerGlob, workerPidFile, Bool.and_eq_true, List.isPrefixOf_iff_prefix,
      List.isSuffixOf_iff_suffix, decide_eq_true_eq, String.toList, String.data_append,
      String.length_append]
    refine ⟨⟨List.prefix_append _ _, List.suffix_append _ _⟩, ?_⟩
    have : "worker_".length = 7 := rfl
    have : ".pid".length = 4 := rfl
    omega

end RoundTrip

/-- No file of `pids/` has a newline in its name. -/
def OneLine (h : Host) : Prop := ∀ n ∈ h.dir.names, '\n' ∉ n.toList

section OneLine

theorem oneLine_tick (h : Host) (hh : OneLine h) : OneLine h.tick := hh

/-- `toString` writes a number in decimal digits. -/
theorem isDigit_of_mem_toString {n : Nat} {c : Char} (hc : c ∈ (toString n).toList) :
    c.isDigit = true := by
  suffices ∀ fuel m (ds : List Char), (∀ c ∈ ds, c.isDigit = true) →
      ∀ c ∈ Nat.toDigitsCore 10 fuel m ds, c.isDigit = true from
    this _ _ _ (fun _ h => absurd h (List.not_mem_nil _)) c hc
  intro fuel
  induction fuel with
  | zero => exact fun _ _ h => h
  | succ fuel ih =>
      intro m ds hds
      have hd : (Nat.digitChar (m % 10)).isDigit = true := by
        have : ∀ d < 10, (Nat.digitChar d).isDigit = true := by decide
        exact this _ (Nat.mod_lt _ (by decide))
      have hds' : ∀ c ∈ Nat.digitChar (m % 10) :: ds, c.isDigit = true := by
        simpa [hd] using hds
      simp only [Nat.toDigitsCore]
      split
      · exact hds'
      · exact ih _ _ hds'

theorem digitsValue_cons (d : Char) (ds : List Char) :
    digitsValue (d :: ds) = (d.toNat - '0'.toNat) * 10 ^ ds.length + digitsValue ds := by
  suffices ∀ a, ds.foldl (fun n d => 10 * n + (d.toNat - '0'.toNat)) a =
      a * 10 ^ ds.length + digitsValue ds by
    simpa [digitsValue] using this (d.toNat - '0'.toNat)
  induction ds with
  | nil => simp [digitsValue]
  | cons e ds ih =>
      intro a
      simp only [digitsValue, List.foldl_cons] at ih ⊢
      rw [ih, ih (10 * 0 + _), List.length_cons, pow_succ]
      ring

theorem digitsValue_toDigitsCore : ∀ (fuel m : Nat) (ds : List Char), m < fuel →
    digitsValue (Nat.toDigitsCore 10 fuel m ds) = m * 10 ^ ds.length + digitsValue ds
  | 0, _, _, h => absurd h (Nat.not_lt_zero _)
  | fuel + 1, m, ds, h => by
      have hd : (Nat.digitChar (m % 10)).toNat - '0'.toNat = m % 10 := by
        have : ∀ d < 10, (Nat.digitChar d).toNat - '0'.toNat = d := by decide
        exact this _ (Nat.mod_lt _ (by decide))
      simp only [Nat.toDigitsCore]
      split
      · rename_i h0
        rw [digitsValue_cons, hd, Nat.mod_eq_of_lt (by omega)]
      · rename_i h0
        rw [digitsValue_toDigitsCore fuel (m / 10) _ (by omega), digitsValue_cons, hd,
          List.length_cons, pow_succ]
        calc m / 10 * (10 ^ ds.length * 10) + (m % 10 * 10 ^ ds.length + digitsValue ds)
            = (10 * (m / 10) + m % 10) * 10 ^ ds.length + digitsValue ds := by ring
          _ = m * 10 ^ ds.length + digitsValue ds := by rw [Nat.div_add_mod]

/-- The digits `toString` writes read back as the number. -/
theorem digitsValue_toString (n : Nat) : digitsValue (toString n).toList = n := by
  simpa using digitsValue_toDigitsCore (n + 1) n [] (Nat.lt_succ_self n)

theorem toString_injective : Function.Injective (toString : Nat → String) := fun a b h => by
  rw [← digitsValue_toString a, ← digitsValue_toString b, h]

theorem oneLine_toString (n : Nat) : '\n' ∉ (toString n).toList :=
  fun h => absurd (isDigit_of_mem_toString h) (by decide)

theorem oneLine_pidFile (svc : Service) : '\n' ∉ svc.pidFile.toList := by
  cases svc with
  | worker id => simpa [Service.pidFile, workerPidFile, String.toList] using oneLine_toString id
  | _ => decide

/-- For every worker id `start_worker` is given, the sed edit of `stop_workers` reads the id
back from the name of the PID file it wrote. -/
theorem sedWorkerId_pidFile (workerId : Nat) :
    sedWorkerId (Service.worker workerId).pidFile = toString workerId :=
  sedWorkerId_workerPidFile (oneLine_toString workerId)

theorem oneLine_steady : Steady OneLine := oneLine_tick

theorem oneLine_write {d : PidDir} {name : String} (pid : Option Nat)
    (hd : ∀ n ∈ d.names, '\n' ∉ n.toList) (hn : '\n' ∉ name.toList) :
    ∀ n ∈ (d.write name pid).names, '\n' ∉ n.toList := by
  simp only [PidDir.names_write, PidDir.remove, PidDir.names_removeWhere, List.mem_cons,
    List.mem_filter]
  rintro n (rfl | ⟨hm, -⟩)
  exacts [hn, hd n hm]

theorem keeps_writePid {name : String} (pid : Option Nat) (hn : '\n' ∉ name.toList) :
    Keeps OneLine (writePid name pid) :=
  Keeps.act oneLine_tick fun _ hh => oneLine_write pid hh hn

theorem keeps_rmWhere (p : String → Bool) : Keeps OneLine (rmWhere p) :=
  Keeps.act oneLine_tick fun _ hh n hm => by
    simp only [PidDir.names_removeWhere, List.mem_filter] at hm
    exact hh n hm.1

theorem keeps_signal (g : Bool) (pid : Option Nat) : Keeps OneLine (signal g pid) :=
  Keeps.act oneLine_tick fun h hh n hm => by
    rcases pid with _ | p
    · exact hh n hm
    · simp only [Host.kill] at hm
      split at hm
      · simp only [PidDir.remove, PidDir.names_removeWhere, List.mem_filter] at hm
        exact hh n hm.1
      · exact hh n hm

theorem keeps_spawn (svc : Service) : Keeps OneLine (spawn svc) :=
  Keeps.act oneLine_tick fun _ hh => hh

theorem keeps_nginxLaunch (starts : Bool) : Keeps OneLine (nginxLaunch starts) := by
  refine Keeps.act oneLine_tick fun h hh => ?_
  cases starts
  · exact hh
  · exact oneLine_write _ hh (by decide)

theorem keeps_writeConf (c : SiteConf) : Keeps OneLine (writeConf c) :=
  Keeps.act oneLine_tick fun _ hh => hh

theorem keeps_nginxTest (passes : Bool) : Keeps OneLine (nginxTest passes) := by
  refine Keeps.act oneLine_tick fun h hh => ?_
  cases passes
  · exact hh
  · rintro n hn
    obtain rfl | hn := PidDir.mem_names_touch.mp hn
    exacts [by decide, hh n hn]

end OneLine

section Script

theorem keeps_startService (svc : Service) : Keeps OneLine (startService svc) :=
  oneLine_steady.keeps_startService (keeps_spawn _) fun _ => keeps_writePid _ (oneLine_pidFile svc)

theorem keeps_startWeb (W : String) (env : Env) : Keeps OneLine (startWeb W env) :=
  oneLine_steady.keeps_startWeb (keeps_writeConf _) (keeps_nginxTest _)
    (oneLine_steady.keeps_launchNginx (keeps_nginxLaunch _) fun _ => keeps_writePid _ (by decide))

/-- Every state the script reaches, with PID files deleted by hand in between, has only
one-line names in `pids/`. -/
theorem oneLine_of_reachableOob {W : String} {h : Host} (hr : ReachableOob W h) : OneLine h :=
  holds_of_reachableOob (fun _ _ hm => by simp [Host.init, PidDir.empty, PidDir.names] at hm)
    (fun env cmd _ _ hh => oneLine_steady.keeps_deploy (fun _ _ => keeps_startService _)
      (fun _ _ => oneLine_steady.keeps_stopByPidFile keeps_signal keeps_rmWhere _)
      (oneLine_steady.keeps_forceStopAll keeps_signal keeps_rmWhere W) (keeps_startWeb W env)
      cmd _ hh)
    (fun _ _ hh => hh)
    (fun _ _ hh m hm => by
      simp only [PidDir.remove, PidDir.names_removeWhere, List.mem_filter] at hm
      exact hh m hm.1)
    hr

end Script

end PowerRag.Deploy
