import PowerRag.Deploy.Shell

/-!
The functions of `scripts/deploy.sh` and its `case` dispatch. A bash function's value is
its exit status: `0` for success, `1` for `return 1`. The messages the functions echo are
not modelled. `start_ragflow_server` and `start_worker` share one body, `startService`,
and the three `stop_*` functions share `stopByPidFile`; each keeps its own name.
-/

namespace PowerRag.Deploy

/-- Whether each program or directory `start_web` looks for is there and succeeds, and
whether the nginx launch starts a master. -/
structure WebTools where
  webDir : Bool := true
  npm : Bool := true
  nodeModules : Bool := true
  npmInstall : Bool := true
  nginx : Bool := true
  npmBuild : Bool := true
  dist : Bool := true
  nginxTest : Bool := true
  nginxStarts : Bool := true
  deriving DecidableEq, Repr

/-- What one invocation reads from its environment: `$((WORKER_COUNT))`, and the other
variables, with the empty string for an unset one, as `${VAR:-default}` treats both alike. -/
structure Env where
  workerCount : Option Int := none
  webPort : String := ""
  serverHostForWeb : String := ""
  serverPortForWeb : String := ""
  adminHostForWeb : String := ""
  adminPortForWeb : String := ""
  tools : WebTools := {}

def orDefault (v d : String) : String := if v = "" then d else v

/-- `seq 0 $((WORKER_COUNT - 1))`, the count defaulting to `2`. -/
def Env.workerIds (env : Env) : List Nat := List.range (env.workerCount.getD 2).toNat

def Env.port (env : Env) : String := orDefault env.webPort "9222"

section ValidatePort

/-- The blanks `strtoimax` skips before a number: space, and tab to carriage return. -/
def isCSpace (c : Char) : Bool := c.toNat = 32 || (9 ≤ c.toNat && c.toNat ≤ 13)

def digitsValue (ds : List Char) : Nat := ds.foldl (fun n d => 10 * n + (d.toNat - '0'.toNat)) 0

def readSign : List Char → Bool × List Char
  | '-' :: r => (true, r)
  | '+' :: r => (false, r)
  | r => (false, r)

def intmaxMax : Nat := 9223372036854775807

/-- bash's `legal_number`: a value outside the signed 64-bit range is not a number. -/
def legalNumber (s : String) : Option Int :=
  let (neg, t) := readSign (s.toList.dropWhile isCSpace)
  let ds := t.takeWhile Char.isDigit
  let v : Int := if neg then -(digitsValue ds : Int) else digitsValue ds
  if ds = [] ∨ ¬ (t.dropWhile Char.isDigit).all (fun c => c = ' ' || c = '\t') then none
  else if v < -(intmaxMax : Int) - 1 ∨ (intmaxMax : Int) < v then none
  else some v

/-- `[ a -lt b ]`: status `0` or `1`, and `2` when an operand is not an integer. -/
def testLt (a b : String) : Nat :=
  match legalNumber a, legalNumber b with
  | some x, some y => if x < y then 0 else 1
  | _, _ => 2

def testGt (a b : String) : Nat :=
  match legalNumber a, legalNumber b with
  | some x, some y => if y < x then 0 else 1
  | _, _ => 2

def isDecimal (s : String) : Bool := !s.toList.isEmpty && s.toList.all Char.isDigit

/-- The tests of `validate_port` are joined by `||`: a status `0` of the list returns `1`. -/
def validatePort (port : String) : Nat :=
  let notDecimal := if isDecimal port then 1 else 0
  let cond := if notDecimal = 0 then 0 else
    if testLt port "1" = 0 then 0 else testGt port "65535"
  if cond = 0 then 1 else 0

end ValidatePort

/-- The process the file names is running. -/
def recordedRunning (file : String) : Sh Bool := do
  if ← fileExists file then psAlive (← readPid file) else pure false

/-- The body of `start_ragflow_server` and `start_worker`. -/
def startService (svc : Service) : Sh Nat := do
  if ← recordedRunning svc.pidFile then
    pure 1
  else
    let pid ← spawn svc
    writePid svc.pidFile (some pid)
    pure 0

def startRagflowServer : Sh Nat := startService .ragflowServer

def startWorker (workerId : Nat) : Sh Nat := startService (.worker workerId)

def startWorkersLoop : List Nat → Sh Nat
  | [] => pure 0
  | i :: is => do
      let _ ← startWorker i
      sleep
      startWorkersLoop is

def startWorkers (env : Env) : Sh Nat := startWorkersLoop env.workerIds

/-- The body of `stop_ragflow_server`, `stop_worker` and `stop_web`. -/
def stopByPidFile (file : String) : Sh Nat := do
  if !(← fileExists file) then
    pure 1
  else
    let pid ← readPid file
    if ← psAlive pid then
      signal true pid
      rmFile file
    else
      rmFile file
    pure 0

def stopRagflowServer : Sh Nat := stopByPidFile serverPidFile

def stopWorker (workerId : String) : Sh Nat := stopByPidFile (workerPidFile workerId)

def stopWeb : Sh Nat := stopByPidFile webPidFile

/-- The loop of `stop_workers`; its status is the last iteration's. -/
def stopWorkersLoop : List String → Nat → Sh Nat
  | [], st => pure st
  | f :: fs, _ => do
      let st ← if ← fileExists f then stopWorker (sedWorkerId f) else pure 0
      stopWorkersLoop fs st

def stopWorkers : Sh Nat := do stopWorkersLoop (← globWorkerPidFiles) 0

/-- `if ! <test>; then ...; return 1; fi` in front of the rest of a function. -/
def orReturn1 (test : Sh Bool) (rest : Sh Nat) : Sh Nat := do
  if ← test then rest else pure 1

/-- The front end's dependencies are there or get installed. -/
def dependenciesReady (env : Env) : Sh Bool := do
  if ← envCheck env.tools.nodeModules then pure true else envCheck env.tools.npmInstall

/-- Whether the launch worked is never checked: `pids/nginx.pid` is copied if it exists. -/
def launchNginx (starts : Bool) : Sh Nat := do
  nginxLaunch starts
  if ← fileExists nginxPidFile then
    writePid webPidFile (← readPid nginxPidFile)
    pure 0
  else
    pure 1

/-- `SERVER_PORT_FOR_WEB` gets `9385` at the top of the script, so `9380` is never used. -/
def siteConf (W : String) (env : Env) : SiteConf where
  listen := env.port
  root := webDir W ++ "/dist"
  adminUpstream := orDefault env.adminHostForWeb "127.0.0.1" ++ ":" ++
    orDefault env.adminPortForWeb "9381"
  serverUpstream := orDefault env.serverHostForWeb "127.0.0.1" ++ ":" ++
    orDefault (orDefault env.serverPortForWeb "9385") "9380"

def startWeb (W : String) (env : Env) : Sh Nat :=
  orReturn1 (do pure !(← recordedRunning webPidFile)) <|
  orReturn1 (envCheck env.tools.webDir) <|
  orReturn1 (envCheck env.tools.npm) <|
  orReturn1 (pure (validatePort env.port == 0)) <|
  orReturn1 (dependenciesReady env) <|
  orReturn1 (envCheck env.tools.nginx) <|
  orReturn1 (envCheck env.tools.npmBuild) <|
  orReturn1 (envCheck env.tools.dist) <| do
  writeConf (siteConf W env)
  orReturn1 (nginxTest env.tools.nginxTest) <|
  launchNginx env.tools.nginxStarts

def killAll : List Nat → Sh Unit
  | [] => pure ()
  | pid :: pids => do
      signal false (some pid)
      killAll pids

/-- `nginx -s quit` signals the pid in `pids/nginx.pid`, as does the `kill` it falls back to. -/
def forceStopNginx (W : String) : Sh Unit := do
  if ← fileExists nginxPidFile then
    let pid ← readPid nginxPidFile
    if ← psAlive pid then
      signal true pid
      sleep
      if ← psAlive pid then signal false pid
      rmFile nginxPidFile
    else
      rmFile nginxPidFile
  else
    killAll (← psSelect W "nginx.*ragflow.conf")

def forceStopAll (W : String) : Sh Unit := do
  killAll (← psSelect W (ragflowServer W))
  killAll (← psSelect W (taskExecutor W))
  forceStopNginx W
  rmWhere fun n => n == serverPidFile || workerGlob n || n == webPidFile || n == nginxPidFile

/-- What `status` prints: the pid of each service shown as running. -/
structure StatusReport where
  server : Option Nat
  workers : List (String × Option Nat)
  web : Option Nat
  deriving DecidableEq, Repr

def runningPid (file : String) : Sh (Option Nat) := do
  let pid ← readPid file
  if ← psAlive pid then pure pid else pure none

def statusWorkers : List String → Sh (List (String × Option Nat))
  | [] => pure []
  | f :: fs => do
      if ← fileExists f then
        let w := (sedWorkerId f, ← runningPid f)
        return w :: (← statusWorkers fs)
      else
        statusWorkers fs

def status : Sh StatusReport := do
  let server ← if ← fileExists serverPidFile then runningPid serverPidFile else pure none
  let workers ← statusWorkers (← globWorkerPidFiles)
  let web ←
    if ← fileExists webPidFile then runningPid webPidFile
    else do if ← fileExists nginxPidFile then runningPid nginxPidFile else pure none
  pure ⟨server, workers, web⟩

inductive Command
  | start | stop | forceStop | restart | forceRestart | status
  | startRagflowServer | stopRagflowServer | startWorkers | stopWorkers | startWeb | stopWeb
  | usage
  deriving DecidableEq, Repr

def startAll (env : Env) : Sh Nat := do
  let _ ← startRagflowServer
  startWorkers env

def stopAll : Sh Nat := do
  let _ ← stopRagflowServer
  stopWorkers

/-- The `case "$1"` of the script; the value is the script's exit status. -/
def deploy (W : String) (env : Env) : Command → Sh Nat
  | .start => startAll env
  | .stop => stopAll
  | .forceStop => do forceStopAll W; pure 0
  | .restart => do
      let _ ← stopAll
      sleep
      startAll env
  | .forceRestart => do
      forceStopAll W
      sleep
      startAll env
  | .status => do let _ ← status; pure 0
  | .startRagflowServer => startRagflowServer
  | .stopRagflowServer => stopRagflowServer
  | .startWorkers => startWorkers env
  | .stopWorkers => stopWorkers
  | .startWeb => startWeb W env
  | .stopWeb => stopWeb
  | .usage => pure 1

end PowerRag.Deploy
