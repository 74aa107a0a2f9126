import DemandPaging.Machine.Ownership
import DemandPaging.Space.Request
import DemandPaging.Proofs.Backing.SlotStore
import DemandPaging.Proofs.Coherence
import DemandPaging.Proofs.Machine.Copies
import DemandPaging.Proofs.Course
import DemandPaging.Proofs.Effects
import DemandPaging.Proofs.Space.Pages
import DemandPaging.Proofs.Space.Faults
import DemandPaging.Proofs.Space.Mapping
import DemandPaging.Proofs.Space.Lifetime
import DemandPaging.Proofs.Space.Outcome
import DemandPaging.Proofs.Space.Labels
import DemandPaging.Proofs.Space.Regions
import DemandPaging.Proofs.Space.Places
import DemandPaging.Proofs.PageTable.Count
import DemandPaging.Proofs.PageTable.FlatMap
import DemandPaging.Proofs.Run
import DemandPaging.Proofs.FrameOwnership
import DemandPaging.Proofs.SlotOwnership
import DemandPaging.Proofs.FlatMemory
import DemandPaging.Proofs.Fate
import DemandPaging.Proofs.AnonymousMemory
import DemandPaging.Proofs.Keeps
import DemandPaging.Proofs.Space.Others
import DemandPaging.Proofs.Handles
import DemandPaging.Proofs.HandleOwnership
import DemandPaging.Proofs.FailedFork
import DemandPaging.Proofs.Fork
import DemandPaging.Proofs.WriteBack
import DemandPaging.Proofs.MappedFile
import DemandPaging.Proofs.WriteCalls
import DemandPaging.Proofs.Panics
import DemandPaging.Proofs.Teardown
import DemandPaging.Proofs.UserMemory
import DemandPaging.Proofs.MappedRegions
import DemandPaging.Proofs.RecycledFrames
import DemandPaging.Proofs.StackGrowth
import DemandPaging.Proofs.SwapSizing
import DemandPaging.Proofs.VictimSelection
import DemandPaging.Proofs.Claiming
import DemandPaging.Proofs.Availability
import DemandPaging.Proofs.FailedLoads
import DemandPaging.Proofs.Refusal
import DemandPaging.Proofs.Admission
import DemandPaging.Proofs.FaultOutcome
import DemandPaging.Proofs.UserAccess
import DemandPaging.Proofs.HeldBytes
import DemandPaging.Proofs.FirstReading
import DemandPaging.Proofs.Duplication
import DemandPaging.Proofs.Transparency
import DemandPaging.Proofs.Fairness
import DemandPaging.Proofs.Memory.FlatPool
import DemandPaging.Proofs.PageTable.Packing
import DemandPaging.Proofs.Pins
import DemandPaging.Proofs.PageTable.Splitting
import DemandPaging.Proofs.Backing.RoundTrip
import DemandPaging.Proofs.ForkedMappings
