import Containers.Description
import Containers.DynArray.Command
import Containers.DynArray.History
import Containers.Proofs.Amortization
import Containers.Proofs.AscendingKeys
import Containers.Proofs.Backends
import Containers.Proofs.BulkAppend
import Containers.Proofs.GreatestFirst
import Containers.Proofs.Hysteresis
import Containers.Proofs.RoundedSizes
import Containers.Proofs.CapacityChanges
import Containers.Proofs.Passages
import Containers.Proofs.ServiceOrder
import Containers.Proofs.FailedOperations
import Containers.Proofs.Untouched
import Containers.Proofs.Conservation
import Containers.Proofs.AnyPredicate
import Containers.Proofs.Custody
import Containers.Proofs.CanonicalForm
import Containers.Proofs.Draining
import Containers.Proofs.NeverWraps
import Containers.Proofs.GrowthPath
import Containers.Proofs.StandardPolicy
import Containers.Proofs.Twins
import Containers.Proofs.Forms
import Containers.Proofs.BothEnds
import Containers.Proofs.NearestEven
import Containers.Proofs.PolicyValidation
import Containers.Proofs.KeyRank
