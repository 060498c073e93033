import Frameleaf.AlbumTree.HierarchyLaws
import Frameleaf.AttemptTree.TreeLaws
import Frameleaf.CloudBackup.Retention
import Frameleaf.Coalesced.TaskLaws
import Frameleaf.DesktopGrants.GrantLaws
import Frameleaf.Develop.GeometryLaws
import Frameleaf.DevelopEnvelope.EnvelopeLaws
import Frameleaf.DraftSync.DraftLaws
import Frameleaf.DuplicateReview.DecisionLaws
import Frameleaf.EditOperation.Endings
import Frameleaf.EditTransform.CornerOrder
import Frameleaf.HiddenClips.ClipLaws
import Frameleaf.JpegRepair.CandidateLaws
import Frameleaf.JustifiedLayout.LayoutLaws
import Frameleaf.JustifiedRows.FlowLaws
import Frameleaf.LibraryMove.MoveLaws
import Frameleaf.LibraryWalk.OnceLaws
import Frameleaf.LockedCrypto.RecoveryTexts
import Frameleaf.LockedFormat.TamperLaws
import Frameleaf.LockedKeys.HolderLaws
import Frameleaf.Manager.AutostartLines
import Frameleaf.Manager.ImportActivation
import Frameleaf.Manager.StoreLaws
import Frameleaf.MediaOperation.ChunkResume
import Frameleaf.Preservation.AlbumOrder
import Frameleaf.Queue.DependencyLaws
import Frameleaf.Queue.Retries
import Frameleaf.Queue.Tokens
import Frameleaf.RationalTime.ClipLaws
import Frameleaf.RationalTime.Decimal
import Frameleaf.Relay.FrameLaws
import Frameleaf.RenderAdmission.AdmissionLaws
import Frameleaf.SettingsDraft.PrivacyLaws
import Frameleaf.StorageMove.MoveLaws
import Frameleaf.StudioGraph.Comparisons
import Frameleaf.StudioVector.ClosureLaws
import Frameleaf.TagTree.TreeLaws
import Frameleaf.VirtualWorkspace.WorkspaceLaws
import Frameleaf.Zip.StudioLaws
import Frameleaf.Zip.TakeoutLaws
