import MediaOrchard.Cli.Clients
import MediaOrchard.Cli.Main
import MediaOrchard.Controller.Api
import MediaOrchard.Controller.Models
import MediaOrchard.Controller.Policies
import MediaOrchard.Controller.Priorities
import MediaOrchard.Controller.Scheduling
import MediaOrchard.Controller.StateMachine
import MediaOrchard.Lib.Binary64
import MediaOrchard.Lib.Effects
import MediaOrchard.Lib.Getopt
import MediaOrchard.Lib.Greedy
import MediaOrchard.Lib.Growth
import MediaOrchard.Lib.Lease
import MediaOrchard.Lib.Linear
import MediaOrchard.Lib.Network
import MediaOrchard.Lib.Posix
import MediaOrchard.Lib.Prog
import MediaOrchard.Lib.Script
import MediaOrchard.Lib.Service
import MediaOrchard.Lib.Shell
import MediaOrchard.Lib.Srt
import MediaOrchard.Lib.Table
import MediaOrchard.Lib.Text
import MediaOrchard.Proof.Access
import MediaOrchard.Proof.Allowlist
import MediaOrchard.Proof.Backlog
import MediaOrchard.Proof.Bootstrap
import MediaOrchard.Proof.Clients
import MediaOrchard.Proof.Creation
import MediaOrchard.Proof.Dictionaries
import MediaOrchard.Proof.Doctor
import MediaOrchard.Proof.Effect
import MediaOrchard.Proof.Exec
import MediaOrchard.Proof.Execution
import MediaOrchard.Proof.Handlers
import MediaOrchard.Proof.Isolation
import MediaOrchard.Proof.JobRaces
import MediaOrchard.Proof.JobRows
import MediaOrchard.Proof.Jobs
import MediaOrchard.Proof.Leases
import MediaOrchard.Proof.Limits
import MediaOrchard.Proof.Loop
import MediaOrchard.Proof.NodeOrder
import MediaOrchard.Proof.Overtaking
import MediaOrchard.Proof.Paging
import MediaOrchard.Proof.Pass
import MediaOrchard.Proof.Pipelines
import MediaOrchard.Proof.Preference
import MediaOrchard.Proof.Preflight
import MediaOrchard.Proof.Priorities
import MediaOrchard.Proof.Quality
import MediaOrchard.Proof.Reclaim
import MediaOrchard.Proof.Records
import MediaOrchard.Proof.Redaction
import MediaOrchard.Proof.Registry
import MediaOrchard.Proof.Rejected
import MediaOrchard.Proof.Restart
import MediaOrchard.Proof.Retries
import MediaOrchard.Proof.Rows
import MediaOrchard.Proof.Sandbox
import MediaOrchard.Proof.Steps
import MediaOrchard.Proof.Storage
import MediaOrchard.Proof.Subtitles
import MediaOrchard.Proof.ToolCalls
import MediaOrchard.Proof.Writes
import MediaOrchard.Shared.Access
import MediaOrchard.Shared.Basic
import MediaOrchard.Shared.Commands
import MediaOrchard.Shared.Redaction
import MediaOrchard.Shared.Storage
import MediaOrchard.Worker.Attempts
import MediaOrchard.Worker.Bootstrap
import MediaOrchard.Worker.Deployment
import MediaOrchard.Worker.Executor
import MediaOrchard.Worker.Loop
import MediaOrchard.Worker.Pipelines
import MediaOrchard.Worker.Preflight
import MediaOrchard.Worker.Runtime
