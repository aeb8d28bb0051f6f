import PowerRag.Text.Pattern
import PowerRag.Text.Replace
import PowerRag.Deploy.Host
import PowerRag.Deploy.Grep
import PowerRag.Deploy.Shell
import PowerRag.Deploy.Script
import PowerRag.Deploy.System
import PowerRag.Deploy.Wp
import PowerRag.Deploy.Invariant
import PowerRag.Deploy.Names
import PowerRag.Deploy.Stop
import PowerRag.Deploy.Web
import PowerRag.Deploy.ForceStop
import PowerRag.Deploy.Registry
import PowerRag.Deploy.Status
import PowerRag.Deploy.Restart
import PowerRag.Deploy.Effect
import PowerRag.Deploy.Refinement
import PowerRag.Deploy.Exit
import PowerRag.Tailwind.Patch
import PowerRag.Tailwind.Idempotence
import PowerRag.Tailwind.Edits
