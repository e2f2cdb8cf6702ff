import WowmaxStellar.Lib.Loop
import WowmaxStellar.Lib.Track
import WowmaxStellar.Lib.Split
import WowmaxStellar.Lib.Flow
import WowmaxStellar.Lib.Dataflow
import WowmaxStellar.Lib.Path
import WowmaxStellar.Lib.Network
import WowmaxStellar.Router.Entry
import WowmaxStellar.Logic.Journal
import WowmaxStellar.Logic.MergeRuns
import WowmaxStellar.Logic.SwapRuns
import WowmaxStellar.Logic.Calls
import WowmaxStellar.Logic.Twin
import WowmaxStellar.Logic.Agreement
import WowmaxStellar.Logic.Mirror
import WowmaxStellar.Logic.Honest
import WowmaxStellar.Logic.Desk
import WowmaxStellar.Theorems.Custody
import WowmaxStellar.Theorems.VenueAccounting
import WowmaxStellar.Theorems.Provenance
import WowmaxStellar.Theorems.FlowConservation
import WowmaxStellar.Theorems.Stranded
import WowmaxStellar.Theorems.ExecutorsAgree
import WowmaxStellar.Theorems.DirectRefines
import WowmaxStellar.Theorems.Noninterference
import WowmaxStellar.Theorems.StageOrder
import WowmaxStellar.Theorems.RouteContract
import WowmaxStellar.Theorems.IntegerSplit
import WowmaxStellar.Theorems.EncodersLossless
import WowmaxStellar.Theorems.ZeroWeight
import WowmaxStellar.Theorems.StrandIsolation
import WowmaxStellar.Theorems.Deadlines
import WowmaxStellar.Theorems.ExactOutput
import WowmaxStellar.Theorems.StrandOrder
import WowmaxStellar.Theorems.PlanCheck
import WowmaxStellar.Theorems.Deployment
import WowmaxStellar.Theorems.ExactInput
import WowmaxStellar.Theorems.Composition
import WowmaxStellar.Theorems.Footprint
import WowmaxStellar.Theorems.Quotes
import WowmaxStellar.Theorems.Batches
import WowmaxStellar.Theorems.SplitRoutes
import WowmaxStellar.Theorems.StrandsAsStages
import WowmaxStellar.Theorems.FillOrder
import WowmaxStellar.Theorems.Ratios
import WowmaxStellar.Theorems.Spending
import WowmaxStellar.Theorems.Networks
import WowmaxStellar.Theorems.Books
