import Stowplan.Domain.Placement
import Stowplan.Domain.Stored
import Stowplan.Domain.Tolerance
import Stowplan.Server.ExactlyOnce
import Stowplan.Client.Accounts
import Stowplan.Client.Counting
import Stowplan.Server.Authority
import Stowplan.Server.Compaction
import Stowplan.Governance.Custody
import Stowplan.Governance.Invitations
import Stowplan.Lib.Program
import Stowplan.Lib.Table
import Stowplan.Live.Room
import Stowplan.Csv.Encode
import Stowplan.Server.Retained
import Stowplan.Domain.AppUrl
import Stowplan.Client.ConflictReview
import Stowplan.Domain.AccessOrder
import Stowplan.Client.CaptureOrder
import Stowplan.Domain.WorkspaceLinks
import Stowplan.Shared.LiveCollaboration
import Stowplan.Server.Bounded
import Stowplan.Domain.Generated
import Stowplan.Lib.Ascent
import Stowplan.Domain.Pinned
import Stowplan.Server.Linear
import Stowplan.Domain.Reviewed
import Stowplan.Lib.Tally
import Stowplan.Domain.Moves
import Stowplan.Domain.Undo
import Stowplan.Client.Refused
