import SnapshotArchive.Text.Class
import SnapshotArchive.Move
import SnapshotArchive.Copy
import SnapshotArchive.Configuring
import SnapshotArchive.Capture
import SnapshotArchive.Value
import SnapshotArchive.Value.Reader
import SnapshotArchive.Store.Path
import SnapshotArchive.Record
import SnapshotArchive.Outline
import SnapshotArchive.Archive
import SnapshotArchive.Operation
import SnapshotArchive.Settings
import SnapshotArchive.Startup
import SnapshotArchive.Arguments
import SnapshotArchive.Command
import SnapshotArchive.Command.Help
import SnapshotArchive.Store.Document
import SnapshotArchive.Main
import SnapshotArchive.Proofs.Integrity
import SnapshotArchive.Proofs.Checks
import SnapshotArchive.Proofs.Interleaving
import SnapshotArchive.Proofs.Copying.Duplicates
import SnapshotArchive.Proofs.Copying.Placement
import SnapshotArchive.Proofs.History
import SnapshotArchive.Proofs.Effects.Basic
import SnapshotArchive.Proofs.Effects.Nodes
import SnapshotArchive.Proofs.Effects.Contents
import SnapshotArchive.Proofs.Effects
import SnapshotArchive.Proofs.Revisions
import SnapshotArchive.Proofs.Versions
import SnapshotArchive.Proofs.Committed
import SnapshotArchive.Proofs.Copying.Isomorphic
import SnapshotArchive.Proofs.Ordering
import SnapshotArchive.Proofs.Footprint
import SnapshotArchive.Proofs.Listings
import SnapshotArchive.Proofs.Golden
import SnapshotArchive.Proofs.Locality.Region
import SnapshotArchive.Proofs.Locality.Changes
import SnapshotArchive.Proofs.Locality.Copies
import SnapshotArchive.Proofs.Locality.Operations
import SnapshotArchive.Proofs.Locality.Requests
import SnapshotArchive.Proofs.Disjoint
import SnapshotArchive.Proofs.DeepCopy
import SnapshotArchive.Proofs.Paths
import SnapshotArchive.Proofs.Drafts
import SnapshotArchive.Proofs.Completeness.Nodes
import SnapshotArchive.Proofs.Completeness.Variables
import SnapshotArchive.Proofs.Completeness.Snapshots
import SnapshotArchive.Proofs.Completeness
import SnapshotArchive.Proofs.Atomicity
import SnapshotArchive.Proofs.Relocation
import SnapshotArchive.Proofs.Matching
import SnapshotArchive.Proofs.Captures
import SnapshotArchive.Proofs.Saving
import SnapshotArchive.Proofs.Committing
import SnapshotArchive.Proofs.Variables
import SnapshotArchive.Proofs.Updating
import SnapshotArchive.Proofs.Matching.Faults
import SnapshotArchive.Proofs.Deleting
import SnapshotArchive.Proofs.Relinking
import SnapshotArchive.Proofs.Suffixes
import SnapshotArchive.Proofs.Variables.Naming
import SnapshotArchive.Proofs.Variables.Cleaning
import SnapshotArchive.Proofs.Golden.Marks
import SnapshotArchive.Proofs.Tags
import SnapshotArchive.Proofs.Ages
import SnapshotArchive.Proofs.Copying.Readouts
import SnapshotArchive.Proofs.Walks
import SnapshotArchive.Proofs.Cycles
import SnapshotArchive.Proofs.Positions
import SnapshotArchive.Proofs.Documents
import SnapshotArchive.Proofs.Outlines
import SnapshotArchive.Proofs.Commands
import SnapshotArchive.Proofs.Documents.Texts
