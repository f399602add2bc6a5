import CallProfiler.Image.Rehearsal
import CallProfiler.Main
import CallProfiler.Memory.Listing
import CallProfiler.Memory.Shown
import CallProfiler.Proofs.CallTree.Paths
import CallProfiler.Proofs.Replay.ClosedForm
import CallProfiler.Proofs.Replay.Placement
import CallProfiler.Proofs.Replay.Batches
import CallProfiler.Proofs.Replay.Overlay
import CallProfiler.Proofs.CallTree.Linkage
import CallProfiler.Proofs.Replay.Accounting
import CallProfiler.Proofs.Image.Obliging
import CallProfiler.Proofs.Image.Realization
import CallProfiler.Proofs.Image.Events
import CallProfiler.Proofs.Image.Refinement
import CallProfiler.Proofs.Image.Agreement
import CallProfiler.Proofs.Image.Stations
import CallProfiler.Recording.Interleaving
import CallProfiler.Proofs.Recording.Buffers
import CallProfiler.Proofs.Recording.Conservation
import CallProfiler.Proofs.Recording.Stopping
import CallProfiler.Proofs.Recording.Uninterrupted
import CallProfiler.Proofs.Instruction.NearBranches
import CallProfiler.Proofs.Memory.Bytes
import CallProfiler.Proofs.Code.Lengths
import CallProfiler.Proofs.Code.Moving
import CallProfiler.Proofs.Memory.Reservations
import CallProfiler.Code.Patchwork
import CallProfiler.Proofs.Code.Making
import CallProfiler.Proofs.Code.Restoration
import CallProfiler.Proofs.Code.Building
import CallProfiler.Proofs.Code.Diversion
import CallProfiler.Proofs.Code.Frame
import CallProfiler.Proofs.Replay.Balance
import CallProfiler.Proofs.Recording.Execution
import CallProfiler.Proofs.Recording.Progress
import CallProfiler.Proofs.Replay.Stored
import CallProfiler.Proofs.Replay.Reordering
import CallProfiler.Proofs.Report.Reading
import CallProfiler.Proofs.Image.Listening
import CallProfiler.Proofs.Image.Stages
import CallProfiler.Proofs.Image.Observation
import CallProfiler.Proofs.Image.Endurance
import CallProfiler.Proofs.Image.Lives
import CallProfiler.Proofs.Image.Endings
import CallProfiler.Proofs.Memory.Tables
import CallProfiler.Proofs.Memory.Requests
import CallProfiler.Proofs.Memory.Blocks
import CallProfiler.Proofs.Code.Ownership
import CallProfiler.Proofs.Image.Phases
import CallProfiler.Proofs.Image.Possession
import CallProfiler.Proofs.Image.Upkeep
import CallProfiler.Proofs.Image.Retention
import CallProfiler.Proofs.Recording.Returns
import CallProfiler.Proofs.Recording.Heights
import CallProfiler.Proofs.Recording.Unwinding
import CallProfiler.Proofs.Code.Scanning
import CallProfiler.Proofs.Code.Rendering
import CallProfiler.Proofs.Lookup
import CallProfiler.Proofs.Memory.Reach
import CallProfiler.Proofs.Code.Reach
import CallProfiler.Proofs.Memory.Gaps
import CallProfiler.Proofs.CallTree.Growth
import CallProfiler.Proofs.CallTree.Merging
import CallProfiler.Proofs.CallTree.Totals
import CallProfiler.Proofs.CallTree.Grove
import CallProfiler.Proofs.Recording.Shares
import CallProfiler.Proofs.Recording.Abandonment
import CallProfiler.Proofs.Memory.Layout
import CallProfiler.Proofs.CallTree.Ranking
import CallProfiler.Proofs.Code.InPlace
import CallProfiler.Proofs.Text.Words
import CallProfiler.Proofs.Text.Addresses
import CallProfiler.Proofs.Memory.Listings
import CallProfiler.Proofs.Report.Writing
import CallProfiler.Proofs.Code.Linking
import CallProfiler.Proofs.Instruction.Decoders
import CallProfiler.Proofs.Code.Filling
import CallProfiler.Proofs.Code.Windows
