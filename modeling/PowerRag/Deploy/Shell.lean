import Mathlib.Data.List.DropRight
import PowerRag.Deploy.Host
import PowerRag.Deploy.Grep

/-!
The commands `deploy.sh` runs, as actions on the host in a state monad. Every action
starts with `Host.tick`, so a scheduled exit can fall between any two commands of a
run. The workspace path `W` (the script's `WORKSPACE_FOLDER`) fixes the command lines
the launched processes show to `ps`. The actions are `[ -f ]` (`fileExists`), `cat`
(`readPid`), `ps -p` (`psAlive`), `echo $PID >` (`writePid`), `rm` (`rmWhere`, `rmFile`),
`kill` and `kill -9` (`signal`), `nohup ... &` with `$!` (`spawn`), `sleep`, the tests
`[ -d ]`, `command -v` and the status of `npm` (`envCheck`), the glob `worker_*.pid`,
`nginx -t` (`nginxTest`), the nginx launch, the write of `ragflow.conf` (`writeConf`), and
`ps -ef | grep ... | grep -v grep | awk` (`psSelect`), which reads each line of `ps -ef` as
the bare command line.
-/

namespace PowerRag.Deploy

open PowerRag.Text

abbrev Sh := StateM Host

/-- One command of the script: the scheduled exits happen, then `f`. -/
def act {α : Type} (f : Host → α × Host) : Sh α := fun h => f h.tick

section Paths

variable (W : String)

def python : String := W ++ "/.venv/bin/python"
def ragflowServer : String := W ++ "/api/ragflow_server.py"
def taskExecutor : String := W ++ "/rag/svr/task_executor.py"
def webDir : String := W ++ "/web"

/-- The command line `ps -ef` shows for a process the script launched. -/
def cmdline : Service → String
  | .ragflowServer => python W ++ " " ++ ragflowServer W
  | .worker id => python W ++ " " ++ taskExecutor W ++ " " ++ toString id
  | .webFrontend => "nginx -c " ++ W ++ "/nginx_conf/nginx.conf -g pid " ++ W ++ "/pids/nginx.pid;"

end Paths

def serverPidFile : String := "ragflow_server.pid"
def workerPidFile (workerId : String) : String := "worker_" ++ workerId ++ ".pid"
def webPidFile : String := "web_frontend.pid"
def nginxPidFile : String := "nginx.pid"

def Service.pidFile : Service → String
  | .ragflowServer => serverPidFile
  | .worker id => workerPidFile (toString id)
  | .webFrontend => webPidFile

def workerGlob (name : String) : Bool :=
  "worker_".toList.isPrefixOf name.toList && ".pid".toList.isSuffixOf name.toList &&
    11 ≤ name.length

/-- The split of `s` at its last `.pid`. -/
def lastPid : List Char → Option (List Char × List Char)
  | [] => none
  | c :: s =>
      match lastPid s with
      | some (g, rest) => some (c :: g, rest)
      | none => if ".pid".toList <+: c :: s then some ([], s.drop 3) else none

/-- The leftmost `worker_` followed by a `.pid` is replaced, up to the last `.pid`, by the
text between them. -/
def sedWorkerIdGo : List Char → List Char
  | [] => []
  | c :: s =>
      if "worker_".toList <+: c :: s then
        match lastPid (s.drop 6) with
        | some (g, rest) => g ++ rest
        | none => c :: sedWorkerIdGo s
      else c :: sedWorkerIdGo s

def lines : List Char → List (List Char)
  | [] => [[]]
  | c :: s =>
      if c = '\n' then [] :: lines s
      else match lines s with
        | [] => [[c]]
        | l :: ls => (c :: l) :: ls

/-- `sed` edits each line, and the command substitution drops the trailing newlines. -/
def sedWorkerId (name : String) : String :=
  ⟨(List.intercalate ['\n'] ((lines name.toList).map sedWorkerIdGo)).rdropWhile (· == '\n')⟩

section Actions

def fileExists (name : String) : Sh Bool := act fun h => (h.dir.has name, h)

def readPid (name : String) : Sh (Option Nat) := act fun h => (h.dir.read name, h)

/-- An empty `PID` is not a running process. -/
def psAlive (pid : Option Nat) : Sh Bool :=
  act fun h => (match pid with | some p => h.alive p | none => false, h)

def writePid (name : String) (pid : Option Nat) : Sh Unit :=
  act fun h => ((), { h with dir := h.dir.write name pid })

def rmWhere (p : String → Bool) : Sh Unit :=
  act fun h => ((), { h with dir := h.dir.removeWhere p })

def rmFile (name : String) : Sh Unit := rmWhere (· == name)

def signal (graceful : Bool) (pid : Option Nat) : Sh Unit :=
  act fun h => ((), match pid with | some p => h.kill p graceful | none => h)

def spawn (svc : Service) : Sh Nat :=
  act fun h => (h.procs.next, { h with procs := h.procs.spawn svc })

def sleep : Sh Unit := act fun h => ((), h)

/-- A test whose answer the host does not hold. -/
def envCheck (b : Bool) : Sh Bool := act fun h => (b, h)

def globWorkerPidFiles : Sh (List String) :=
  act fun h => (h.dir.names.filter workerGlob, h)

/-- A configuration that passes `nginx -t` has its `pid` file opened, and created empty. -/
def nginxTest (passes : Bool) : Sh Bool :=
  act fun h => (passes, if passes then { h with dir := h.dir.touch nginxPidFile } else h)

/-- When nginx `starts`, its master writes its pid to `pids/nginx.pid`. -/
def nginxLaunch (starts : Bool) : Sh Unit :=
  act fun h => ((), if starts then
    { h with
      procs := h.procs.spawn .webFrontend
      dir := h.dir.write nginxPidFile (some h.procs.next) }
    else h)

def writeConf (c : SiteConf) : Sh Unit := act fun h => ((), { h with conf := some c })

/-- The pids of the live processes whose command line the pattern keeps and which do not
mention `grep`. -/
def psSelect (W pattern : String) : Sh (List Nat) :=
  act fun h => ((h.procs.live.filter fun p =>
    grep pattern.toList (cmdline W p.svc).toList &&
      !grep "grep".toList (cmdline W p.svc).toList).map Proc.pid, h)

end Actions

end PowerRag.Deploy
