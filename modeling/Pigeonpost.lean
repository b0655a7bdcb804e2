import Pigeonpost.Verification.Calendar.Durations
import Pigeonpost.Verification.Calendar.Expansion
import Pigeonpost.Verification.Checkpoint.Signed
import Pigeonpost.Verification.Checkpoint.Freshness
import Pigeonpost.Verification.Client.Chunks
import Pigeonpost.Verification.Client.ComplianceAgreement
import Pigeonpost.Verification.Client.Soundness
import Pigeonpost.Verification.Destination.Stability
import Pigeonpost.Verification.Directory.Lifecycle
import Pigeonpost.Verification.Directory.Promise
import Pigeonpost.Verification.Directory.Rendezvous
import Pigeonpost.Verification.Disclosure.Execution
import Pigeonpost.Verification.Group.Authority
import Pigeonpost.Verification.Group.Blobs
import Pigeonpost.Verification.Keystore.Crashes
import Pigeonpost.Verification.Loft.Accounting
import Pigeonpost.Verification.Loft.Forwarded
import Pigeonpost.Verification.Loft.History
import Pigeonpost.Verification.Loft.Paging
import Pigeonpost.Verification.Log.Inclusion
import Pigeonpost.Verification.Nests.Limits
import Pigeonpost.Verification.Retention.Lifecycle
import Pigeonpost.Verification.Seal.Pinned
import Pigeonpost.Verification.Seal.Planning
import Pigeonpost.Verification.Signed.Payloads
import Pigeonpost.Verification.Storage.Admission
import Pigeonpost.Verification.Storage.Publication
import Pigeonpost.Verification.Storage.Append
import Pigeonpost.Verification.Storage.Streams
import Pigeonpost.Verification.Tunnel.Kill
import Pigeonpost.Verification.Witness.LostResponse
import Pigeonpost.Verification.Witness.SplitView
