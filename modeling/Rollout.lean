import Rollout.Main
import Rollout.Proofs.Action
import Rollout.Proofs.Evolution
import Rollout.Proofs.FileSystem.Access
import Rollout.Proofs.Conduct
import Rollout.Proofs.TerminalEvents
import Rollout.Proofs.Archive.RoundTrip
import Rollout.Proofs.Deletion
import Rollout.Proofs.Extraction
import Rollout.Proofs.Deflate.Finished
import Rollout.Proofs.Archive.Grammar
import Rollout.Proofs.Archive.Compressed
import Rollout.Proofs.Archive.Pieces
import Rollout.Proofs.Delegation
import Rollout.Proofs.Blame
import Rollout.Proofs.PackUnpack
import Rollout.Proofs.TokenBoundaries
import Rollout.Proofs.Leniency
import Rollout.Proofs.Inlining
import Rollout.Proofs.Refusals
import Rollout.Proofs.Renewal
import Rollout.Proofs.Assignments
import Rollout.Proofs.Layout
import Rollout.Proofs.Provision
import Rollout.Proofs.LayoutRuns
import Rollout.Proofs.Separators
import Rollout.Proofs.Launching
import Rollout.Proofs.Substitution
import Rollout.Proofs.BaseDirectory
import Rollout.Proofs.Numeral
import Rollout.Proofs.VersionOrder
import Rollout.Proofs.Attributes
import Rollout.Proofs.Outline
import Rollout.Proofs.Upgrade
import Rollout.Proofs.VersionPassing
import Rollout.Proofs.SavedValues
import Rollout.Proofs.Archive.Capture
import Rollout.Proofs.DeniedDeletion
import Rollout.Proofs.Conditions
import Rollout.Proofs.Presets
import Rollout.Proofs.ServiceWait
import Rollout.Proofs.Killing
import Rollout.Proofs.Overwriting
import Rollout.Proofs.Packing
import Rollout.Proofs.Readings
import Rollout.Proofs.Quoting
import Rollout.Proofs.NearestMarker
import Rollout.Proofs.AbsentTokens
