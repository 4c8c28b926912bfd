import Irlume.Retry.FaceBudget
import Irlume.Retry.GuessBudget
import Irlume.Arbiter.Slots
import Irlume.Arbiter.Client
import Irlume.Cameras.Order
import Irlume.Cameras.Pinned
import Irlume.Cameras.Retried
import Irlume.Config.CameraPin
import Irlume.Replacement.Settled
import Irlume.Pam.Pairing
import Irlume.Inventory.Lease
import Irlume.Inventory.Classification
import Irlume.Lifecycle.Census
import Irlume.Split.Numbers
import Irlume.Storage.Encryption
import Irlume.EventLog.Bound
import Irlume.EventLog.Format
import Irlume.Uvc.SourceGraph
import Irlume.Uvc.View
import Irlume.Inventory.Pins
import Irlume.Lease.Exclusion
import Irlume.Lease.Session
import Irlume.Frame.Unbroken
import Irlume.Emitter.Attempts
import Irlume.Emitter.Protected
import Irlume.Emitter.Stream.Exclusion
import Irlume.Capture.Retained
import Irlume.Capture.Ownership
import Irlume.Ek.Found
import Irlume.StorageKey.Reported
import Irlume.StorageKey.Remembered
import Irlume.Keyring.Delivery
import Irlume.Live.Hidden
import Irlume.Diagnostics.Listed
import Irlume.Diagnostics.Accounting
import Irlume.Authenticate.Consent
import Irlume.Sealed.Token
import Irlume.Request.Route
import Irlume.Addition.Added
import Irlume.Connections.Slots
import Irlume.Attempts.Runs
import Irlume.Retry.ReadBack
import Irlume.Pam.Unedited
import Irlume.Pam.RemoteSeat
import Irlume.Pam.Delivery
import Irlume.Split.Rewritten
import Irlume.Uninstall.Forgotten
import Irlume.Addition.GroupId
import Irlume.EventLog.PcrValue
import Irlume.Cameras.Staging
import Irlume.Emitter.Stream.Unanswered
import Irlume.Frame.Rate
