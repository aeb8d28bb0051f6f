import Mathlib.Data.List.Nodup

/-!
The host `scripts/deploy.sh` acts on: the processes it launched and the PID files of
`pids/`. A process is known by its pid, and the kernel never hands out a pid twice;
each process carries the service the script launched it for. Spontaneous exits are a
schedule fixed by the environment: before every action of the script, the processes
the schedule names at that point end.
-/

namespace PowerRag.Deploy

/-- A service the script starts: the server, the task executor `start_worker` launches
for an `id` that `seq` printed, or the nginx master of the web front end. -/
inductive Service
  | ragflowServer
  | worker (id : Nat)
  | webFrontend
  deriving DecidableEq, Repr

structure Proc where
  pid : Nat
  svc : Service
  deriving DecidableEq, Repr

/-- The live processes the script launched. Every pid is below `next`, the pid the
kernel hands out next, so a launch never reuses one. -/
structure ProcTable where
  live : List Proc
  next : Nat
  lt_next : ∀ p ∈ live, p.pid < next
  nodup : (live.map Proc.pid).Nodup

namespace ProcTable

def empty (next : Nat) : ProcTable := ⟨[], next, by simp, by simp⟩

def alive (t : ProcTable) (pid : Nat) : Bool := t.live.any (·.pid == pid)

/-- A launch: the new process gets the next pid. -/
def spawn (t : ProcTable) (svc : Service) : ProcTable where
  live := ⟨t.next, svc⟩ :: t.live
  next := t.next + 1
  lt_next p hp := by
    rcases List.mem_cons.mp hp with rfl | hp
    · exact Nat.lt_succ_self _
    · exact Nat.lt_succ_of_lt (t.lt_next p hp)
  nodup := by
    refine List.nodup_cons.mpr ⟨fun h => ?_, t.nodup⟩
    obtain ⟨p, hp, he⟩ := List.mem_map.mp h
    exact absurd (t.lt_next p hp) (by simp [he])

/-- The processes whose pids are in `pids` end. -/
def exitAll (t : ProcTable) (pids : List Nat) : ProcTable where
  live := t.live.filter (fun p => p.pid ∉ pids)
  next := t.next
  lt_next p hp := t.lt_next p (List.mem_filter.mp hp).1
  nodup := (List.filter_sublist _).map _ |>.nodup t.nodup

@[simp] theorem mem_spawn {t : ProcTable} {svc : Service} {p : Proc} :
    p ∈ (t.spawn svc).live ↔ p = ⟨t.next, svc⟩ ∨ p ∈ t.live := List.mem_cons

@[simp] theorem spawn_next (t : ProcTable) (svc : Service) :
    (t.spawn svc).next = t.next + 1 := rfl

@[simp] theorem mem_exitAll {t : ProcTable} {pids : List Nat} {p : Proc} :
    p ∈ (t.exitAll pids).live ↔ p ∈ t.live ∧ p.pid ∉ pids := by
  simp [exitAll]

@[simp] theorem exitAll_next (t : ProcTable) (pids : List Nat) :
    (t.exitAll pids).next = t.next := rfl

theorem alive_iff {t : ProcTable} {pid : Nat} :
    t.alive pid = true ↔ ∃ p ∈ t.live, p.pid = pid := by
  simp [alive]

/-- Two live processes with the same pid are the same process. -/
theorem eq_of_pid_eq {t : ProcTable} {p q : Proc} (hp : p ∈ t.live) (hq : q ∈ t.live)
    (h : p.pid = q.pid) : p = q :=
  List.inj_on_of_nodup_map t.nodup hp hq h

end ProcTable

/-- The files of `pids/` by base name, each with the pid it holds (`none` for a file
with no pid in it). A name occurs once. -/
structure PidDir where
  files : List (String × Option Nat)
  nodup : (files.map Prod.fst).Nodup

namespace PidDir

def empty : PidDir := ⟨[], List.nodup_nil⟩

def names (d : PidDir) : List String := d.files.map Prod.fst

/-- `[ -f pids/<name> ]` -/
def has (d : PidDir) (name : String) : Bool := d.files.any (·.1 == name)

/-- `cat pids/<name>`: the pid in the file, `none` when there is no file or no pid. -/
def read (d : PidDir) (name : String) : Option Nat := go d.files
where
  go : List (String × Option Nat) → Option Nat
    | [] => none
    | (n, pid) :: es => if n = name then pid else go es

/-- `rm -f` of every file whose name satisfies `p`. -/
def removeWhere (d : PidDir) (p : String → Bool) : PidDir where
  files := d.files.filter (fun e => !p e.1)
  nodup := (List.filter_sublist _).map _ |>.nodup d.nodup

def remove (d : PidDir) (name : String) : PidDir := d.removeWhere (· == name)

/-- `echo $PID > pids/<name>` -/
def write (d : PidDir) (name : String) (pid : Option Nat) : PidDir where
  files := (name, pid) :: (d.remove name).files
  nodup := by
    refine List.nodup_cons.mpr ⟨fun h => ?_, (d.remove name).nodup⟩
    obtain ⟨e, he, rfl⟩ := List.mem_map.mp h
    simp [remove, removeWhere] at he

@[simp] theorem has_iff {d : PidDir} {name : String} :
    d.has name = true ↔ name ∈ d.names := by
  simp [has, names]

@[simp] theorem names_removeWhere (d : PidDir) (p : String → Bool) :
    (d.removeWhere p).names = d.names.filter (fun n => !p n) := by
  simp only [names, removeWhere, List.filter_map]
  rfl

@[simp] theorem names_write (d : PidDir) (name : String) (pid : Option Nat) :
    (d.write name pid).names = name :: (d.remove name).names := rfl

@[simp] theorem read_removeWhere (d : PidDir) (p : String → Bool) (name : String) :
    (d.removeWhere p).read name = if p name then none else d.read name := by
  simp only [read, removeWhere]
  induction d.files with
  | nil => simp [read.go]
  | cons e es ih =>
      obtain ⟨n, v⟩ := e
      by_cases hn : n = name
      · subst hn; by_cases h : p n <;> simp [read.go, List.filter_cons, h, ih]
      · by_cases h : p n <;> simp [read.go, List.filter_cons, h, hn, ih]

@[simp] theorem read_remove (d : PidDir) (n name : String) :
    (d.remove n).read name = if name = n then none else d.read name := by
  simp [remove]

@[simp] theorem read_write (d : PidDir) (n name : String) (pid : Option Nat) :
    (d.write n pid).read name = if name = n then pid else d.read name := by
  by_cases h : name = n
  · subst h; simp [write, read, read.go]
  · have : (d.write n pid).read name = (d.remove n).read name := by
      simp [write, read, read.go, Ne.symm h]
    simp [this, h]

theorem has_of_read {d : PidDir} {name : String} {pid : Nat} (h : d.read name = some pid) :
    d.has name = true := by
  obtain ⟨files, nd⟩ := d
  simp only [has_iff, names, read] at h ⊢
  clear nd
  induction files with
  | nil => simp [read.go] at h
  | cons e es ih =>
      by_cases hn : e.1 = name
      · exact List.mem_map.mpr ⟨e, List.mem_cons_self _ _, hn⟩
      · simp only [read.go, hn, if_false] at h
        exact List.mem_cons_of_mem _ (ih h)

/-- `open` with `O_CREAT`: the file is created, with no pid in it, unless it is there. -/
def touch (d : PidDir) (name : String) : PidDir := if d.has name then d else d.write name none

@[simp] theorem read_touch (d : PidDir) (n name : String) :
    (d.touch n).read name = d.read name := by
  unfold touch
  split
  · rfl
  · rw [read_write]
    split
    · subst ‹name = n›
      cases hr : d.read name with
      | none => rfl
      | some _ => exact absurd (has_of_read hr) ‹_›
    · rfl

@[simp] theorem mem_names_touch {d : PidDir} {n name : String} :
    name ∈ (d.touch n).names ↔ name = n ∨ name ∈ d.names := by
  unfold touch
  split
  · exact ⟨.inr, fun h => h.elim (fun e => e ▸ has_iff.mp ‹_›) id⟩
  · by_cases h : name = n <;> simp [remove, h]

end PidDir

/-- The values `start_web` writes into `nginx_conf/ragflow.conf`. -/
structure SiteConf where
  listen : String
  root : String
  adminUpstream : String
  serverUpstream : String
  deriving DecidableEq, Repr

structure Host where
  procs : ProcTable
  dir : PidDir
  conf : Option SiteConf
  /-- The number of actions taken so far. -/
  clock : Nat
  /-- The exit schedule: the pids that end by themselves just before action `n`. -/
  exits : Nat → List Nat

namespace Host

/-- The start of one action: the processes the schedule names now exit. -/
def tick (h : Host) : Host :=
  { h with procs := h.procs.exitAll (h.exits h.clock), clock := h.clock + 1 }

def alive (h : Host) (pid : Nat) : Bool := h.procs.alive pid

/-- A signal ends process `pid`. An nginx master that can handle the signal
(`graceful`) deletes `pids/nginx.pid` as it exits; `kill -9` leaves the file. -/
def kill (h : Host) (pid : Nat) (graceful : Bool) : Host :=
  { h with
    procs := h.procs.exitAll [pid]
    dir := if graceful && h.procs.live.any (fun p => p.pid == pid && p.svc == .webFrontend)
      then h.dir.remove "nginx.pid" else h.dir }

@[simp] theorem tick_dir (h : Host) : h.tick.dir = h.dir := rfl
@[simp] theorem tick_conf (h : Host) : h.tick.conf = h.conf := rfl
@[simp] theorem tick_next (h : Host) : h.tick.procs.next = h.procs.next := rfl
@[simp] theorem kill_conf (h : Host) (pid : Nat) (g : Bool) : (h.kill pid g).conf = h.conf := rfl

theorem mem_tick {h : Host} {p : Proc} : p ∈ h.tick.procs.live → p ∈ h.procs.live :=
  fun hp => (ProcTable.mem_exitAll.mp hp).1

@[simp] theorem mem_kill {h : Host} {pid : Nat} {g : Bool} {p : Proc} :
    p ∈ (h.kill pid g).procs.live ↔ p ∈ h.procs.live ∧ p.pid ≠ pid := by
  simp [kill]

/-- Only the nginx pid file can disappear when a process is signalled. -/
theorem kill_read {h : Host} {pid : Nat} {g : Bool} {name : String} (hn : name ≠ "nginx.pid") :
    (h.kill pid g).dir.read name = h.dir.read name := by
  unfold kill
  split <;> simp [hn]

/-- Killing `pid` deletes `nginx.pid` only when `pid` is a live nginx master. -/
theorem kill_read_nginx (h : Host) (pid : Nat) (g : Bool) :
    (h.kill pid g).dir.read "nginx.pid" = h.dir.read "nginx.pid" ∨
      ∃ q ∈ h.procs.live, q.pid = pid ∧ q.svc = .webFrontend := by
  unfold kill
  split
  · rename_i hc
    simp only [Bool.and_eq_true, List.any_eq_true, beq_iff_eq] at hc
    obtain ⟨-, q, hq, hpid, hsvc⟩ := hc
    exact .inr ⟨q, hq, hpid, hsvc⟩
  · exact .inl rfl

theorem kill_names {h : Host} {pid : Nat} {g : Bool} {name : String}
    (hn : name ∈ (h.kill pid g).dir.names) : name ∈ h.dir.names := by
  unfold kill at hn
  split at hn
  · simp only [PidDir.remove, PidDir.names_removeWhere, List.mem_filter] at hn
    exact hn.1
  · exact hn

theorem alive_iff {h : Host} {pid : Nat} :
    h.alive pid = true ↔ ∃ p ∈ h.procs.live, p.pid = pid := ProcTable.alive_iff

end Host

end PowerRag.Deploy
