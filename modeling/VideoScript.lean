import VideoScript.Main
import VideoScript.Proofs.Assembly.Contract
import VideoScript.Proofs.Assembly.Conversation
import VideoScript.Proofs.Assembly.Protocol
import VideoScript.Proofs.Json.Pointer
import VideoScript.Proofs.Json.WellFormed
import VideoScript.Proofs.Json.Rewrite
import VideoScript.Proofs.Json.Places
import VideoScript.Proofs.Placeholder.Pieces
import VideoScript.Proofs.Document
import VideoScript.Proofs.Placeholder.Scan
import VideoScript.Proofs.Rules.Coverage
import VideoScript.Proofs.Assembly.Sources
import VideoScript.Proofs.Assembly.Edit
import VideoScript.Proofs.Media.Lookup
import VideoScript.Proofs.Check
import VideoScript.Proofs.Assembly.Submission
import VideoScript.Proofs.Assembly.Checked
import VideoScript.Proofs.Placeholder.Splitting
import VideoScript.Proofs.Placeholder.Matches
import VideoScript.Proofs.Rules.Layout
import VideoScript.Proofs.Media.Sequential
import VideoScript.Proofs.Media.Bindings
import VideoScript.Proofs.Media.Sources
import VideoScript.Proofs.Strict
import VideoScript.Proofs.Render.Budget
import VideoScript.Proofs.Rules.Entries
import VideoScript.Proofs.Json.Numbers
import VideoScript.Proofs.ShotList.Plan
import VideoScript.Proofs.ShotList.Building
import VideoScript.Proofs.ShotList.Texts
import VideoScript.Proofs.ShotList.Media
import VideoScript.Proofs.ShotList.Timeline
import VideoScript.Proofs.ShotList.Document
import VideoScript.Proofs.ShotList.Check
import VideoScript.Proofs.ShotList.References
import VideoScript.Proofs.ShotList.Edit
import VideoScript.Proofs.Assembly.Scripts
import VideoScript.Proofs.Assembly.Alike
import VideoScript.Proofs.ShotList.Modes
import VideoScript.Proofs.Disk.Walk
import VideoScript.Proofs.Media.Blocked
import VideoScript.Proofs.Render.Keys
import VideoScript.Proofs.Assembly.Bound
import VideoScript.Proofs.Settings.Environment
import VideoScript.Proofs.Settings.Layers
import VideoScript.Proofs.Command.Settings
import VideoScript.Proofs.Rules.Places
import VideoScript.Proofs.Places
import VideoScript.Proofs.Assembly.Polling
import VideoScript.Proofs.ShotList.Shapes
import VideoScript.Proofs.Command.Arguments
import VideoScript.Proofs.Command.CheckArguments
import VideoScript.Proofs.Command.Verdict
import VideoScript.Proofs.Text.Lines
import VideoScript.Proofs.ShotList.Cells
import VideoScript.Proofs.Decimal.Floats
import VideoScript.Proofs.ShotList.Clips
import VideoScript.Proofs.ShotList.Rows
import VideoScript.Proofs.ShotList.Accounts
import VideoScript.Proofs.Assembly.Destination
import VideoScript.Proofs.Disk.Paths
import VideoScript.Proofs.Media.Taken
import VideoScript.Proofs.ShotList.Placeholders
import VideoScript.Proofs.Json.Skipping
import VideoScript.Proofs.Json.Passing
import VideoScript.Proofs.Json.Entries
import VideoScript.Proofs.Render.Refusals
import VideoScript.Proofs.Media.Visits
import VideoScript.Proofs.Json.Walk
import VideoScript.Proofs.Placeholder.Walk
import VideoScript.Proofs.Rules.Steps
import VideoScript.Proofs.Rules.Values
import VideoScript.Proofs.Json.Digits
import VideoScript.Proofs.Json.Printed
import VideoScript.Proofs.Report
import VideoScript.Proofs.Placeholder.Whole
import VideoScript.Proofs.Json.Addresses
import VideoScript.Proofs.Disk.Saving
import VideoScript.Proofs.Render.Download
import VideoScript.Proofs.Assembly.Telling
