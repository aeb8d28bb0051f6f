import PowerRag.Deploy.Script

/-!
Weakest preconditions for the shell monad. `wp x Q h` says that `x` run from `h` returns
a value and a host satisfying `Q`; its rules for binding and for each action let a proof
follow a function's text without computing its run. `Later h h'` is what scheduled exits
can do between two points of a run: end processes, and nothing else.
-/

namespace PowerRag.Deploy

variable {α β : Type}

def wp (x : Sh α) (Q : α → Host → Prop) (h : Host) : Prop := Q (x.run h).1 (x.run h).2

@[simp] theorem wp_bind (x : Sh α) (f : α → Sh β) (Q : β → Host → Prop) (h : Host) :
    wp (x >>= f) Q h = wp x (fun a h' => wp (f a) Q h') h := rfl

@[simp] theorem wp_pure (a : α) (Q : α → Host → Prop) (h : Host) :
    wp (pure a) Q h = Q a h := rfl

theorem wp_ite (c : Bool) (x y : Sh α) (Q : α → Host → Prop) (h : Host) :
    wp (if c then x else y) Q h = if c then wp x Q h else wp y Q h := by
  cases c <;> rfl

theorem wp_mono {x : Sh α} {Q Q' : α → Host → Prop} {h : Host} (hx : wp x Q h)
    (hQ : ∀ a h', Q a h' → Q' a h') : wp x Q' h :=
  hQ _ _ hx

section Actions

variable (h : Host)

theorem wp_fileExists (name : String) (Q : Bool → Host → Prop) :
    wp (fileExists name) Q h = Q (h.dir.has name) h.tick := rfl

theorem wp_readPid (name : String) (Q : Option Nat → Host → Prop) :
    wp (readPid name) Q h = Q (h.dir.read name) h.tick := rfl

theorem wp_psAlive (pid : Option Nat) (Q : Bool → Host → Prop) :
    wp (psAlive pid) Q h =
      Q (match pid with | some p => h.tick.alive p | none => false) h.tick := rfl

theorem wp_writePid (name : String) (pid : Option Nat) (Q : Unit → Host → Prop) :
    wp (writePid name pid) Q h = Q () { h.tick with dir := h.dir.write name pid } := rfl

theorem wp_rmWhere (p : String → Bool) (Q : Unit → Host → Prop) :
    wp (rmWhere p) Q h = Q () { h.tick with dir := h.dir.removeWhere p } := rfl

theorem wp_signal (g : Bool) (pid : Option Nat) (Q : Unit → Host → Prop) :
    wp (signal g pid) Q h =
      Q () (match pid with | some p => h.tick.kill p g | none => h.tick) := rfl

theorem wp_spawn (svc : Service) (Q : Nat → Host → Prop) :
    wp (spawn svc) Q h = Q h.procs.next { h.tick with procs := h.tick.procs.spawn svc } := rfl

theorem wp_sleep (Q : Unit → Host → Prop) : wp sleep Q h = Q () h.tick := rfl

theorem wp_envCheck (b : Bool) (Q : Bool → Host → Prop) :
    wp (envCheck b) Q h = Q b h.tick := rfl

theorem wp_writeConf (c : SiteConf) (Q : Unit → Host → Prop) :
    wp (writeConf c) Q h = Q () { h.tick with conf := some c } := rfl

theorem wp_nginxTest (passes : Bool) (Q : Bool → Host → Prop) :
    wp (nginxTest passes) Q h =
      Q passes (if passes then { h.tick with dir := h.dir.touch nginxPidFile } else h.tick) := by
  cases passes <;> rfl

theorem wp_nginxLaunch (starts : Bool) (Q : Unit → Host → Prop) :
    wp (nginxLaunch starts) Q h = Q () (if starts then
      { h.tick with
        procs := h.tick.procs.spawn Service.webFrontend
        dir := h.dir.write nginxPidFile (some h.procs.next) } else h.tick) := rfl

theorem wp_psSelect (W pattern : String) (Q : List Nat → Host → Prop) :
    wp (psSelect W pattern) Q h = Q ((h.tick.procs.live.filter fun p =>
      grep pattern.toList (cmdline W p.svc).toList &&
        !grep "grep".toList (cmdline W p.svc).toList).map Proc.pid) h.tick := rfl

theorem wp_globWorkerPidFiles (Q : List String → Host → Prop) :
    wp globWorkerPidFiles Q h = Q (h.dir.names.filter workerGlob) h.tick := rfl

end Actions

/-- No process is scheduled to exit any more. -/
def Quiet (h : Host) : Prop := ∀ t, h.exits t = []

/-- What scheduled exits change between two points of a run. -/
structure Later (h h' : Host) : Prop where
  dir : h'.dir = h.dir
  conf : h'.conf = h.conf
  next : h'.procs.next = h.procs.next
  live : ∀ p ∈ h'.procs.live, p ∈ h.procs.live
  exits : h'.exits = h.exits
  /-- With nothing scheduled, nothing exits. -/
  quiet : Quiet h → ∀ p ∈ h.procs.live, p ∈ h'.procs.live

namespace Later

@[refl] theorem refl (h : Host) : Later h h :=
  ⟨rfl, rfl, rfl, fun _ hp => hp, rfl, fun _ _ hp => hp⟩

theorem trans {h₁ h₂ h₃ : Host} (a : Later h₁ h₂) (b : Later h₂ h₃) :
    Later h₁ h₃ :=
  ⟨b.dir.trans a.dir, b.conf.trans a.conf, b.next.trans a.next,
    fun p hp => a.live p (b.live p hp), b.exits.trans a.exits,
    fun q p hp => b.quiet (fun t => by rw [a.exits]; exact q t) p (a.quiet q p hp)⟩

theorem tick (h : Host) : Later h h.tick :=
  ⟨rfl, rfl, rfl, fun _ => Host.mem_tick, rfl,
    fun q _ hp => ProcTable.mem_exitAll.mpr ⟨hp, by simp [q h.clock]⟩⟩

theorem tick_right {h h' : Host} (a : Later h h') : Later h h'.tick := a.trans (Later.tick h')

/-- A process alive later was alive before. -/
theorem alive {h h' : Host} (a : Later h h') {pid : Nat} (hp : h'.alive pid = true) :
    h.alive pid = true := by
  obtain ⟨p, hmem, rfl⟩ := Host.alive_iff.mp hp
  exact Host.alive_iff.mpr ⟨p, a.live p hmem, rfl⟩

end Later

/-- `recordedRunning file`, read at the point where `ps -p` runs: the file holds a pid and
that process is alive. -/
def Host.recorded (h : Host) (file : String) : Bool :=
  match h.dir.read file with
  | some p => h.alive p
  | none => false

theorem wp_recordedRunning (file : String) (Q : Bool → Host → Prop) (h : Host)
    (hQ : ∀ h', Later h h' → Q (h'.recorded file) h') : wp (recordedRunning file) Q h := by
  simp only [recordedRunning, wp_bind, wp_fileExists, wp_readPid, wp_psAlive, wp_ite]
  split
  · have hl : Later h h.tick.tick.tick := (Later.tick h).tick_right.tick_right
    simpa [Host.recorded, hl.dir] using hQ _ hl
  · rename_i hf
    have hr : h.dir.read file = none := by
      cases hp : h.dir.read file
      · rfl
      · exact absurd (PidDir.has_of_read hp) (by simpa using hf)
    simpa [Host.recorded, hr] using hQ _ (Later.tick h)

/-- `x` keeps `P`: run from a host satisfying `P`, it ends in one. -/
def Keeps (P : Host → Prop) (x : Sh α) : Prop := ∀ h, P h → P (x.run h).2

namespace Keeps

variable {P : Host → Prop}

protected theorem pure (a : α) : Keeps P (pure a : Sh α) := fun _ hp => hp

protected theorem bind {x : Sh α} {f : α → Sh β} (hx : Keeps P x) (hf : ∀ a, Keeps P (f a)) :
    Keeps P (x >>= f) :=
  fun h hp => hf _ _ (hx h hp)

protected theorem ite {c : Prop} [Decidable c] {x y : Sh α} (hx : Keeps P x) (hy : Keeps P y) :
    Keeps P (if c then x else y) := by
  split <;> assumption

/-- An action keeps `P` when the exits before it and its own effect do. -/
protected theorem act {f : Host → α × Host} (ht : ∀ h, P h → P h.tick)
    (hf : ∀ h, P h → P (f h).2) : Keeps P (act f) :=
  fun h hp => hf _ (ht h hp)

end Keeps

end PowerRag.Deploy
