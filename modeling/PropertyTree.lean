import PropertyTree.PatchSet.Text
import PropertyTree.Samples
import PropertyTree.Selector.Operation
import PropertyTree.Version
import PropertyTree.Proofs.Address
import PropertyTree.Proofs.FanOut
import PropertyTree.Proofs.SetUpdate
import PropertyTree.Proofs.RoundTrip
import PropertyTree.Proofs.WellFormed
import PropertyTree.Proofs.Similar
import PropertyTree.Proofs.SimilarWalks
import PropertyTree.Proofs.SimilarRuns
import PropertyTree.Proofs.Equality
import PropertyTree.Proofs.TableLaws
import PropertyTree.Proofs.TableHistory
import PropertyTree.Proofs.ChainFailure
import PropertyTree.Proofs.PatchChain
import PropertyTree.Proofs.SortedFields
import PropertyTree.Proofs.IndependentSets
import PropertyTree.Proofs.RepeatedSet
import PropertyTree.Proofs.Records
import PropertyTree.Proofs.Delivery
import PropertyTree.Proofs.ReadBack
import PropertyTree.Proofs.SavedRecords
import PropertyTree.Proofs.DoubleBounds
import PropertyTree.Proofs.JsonTrees
import PropertyTree.Proofs.SaveLoad
import PropertyTree.Proofs.KeptFields
import PropertyTree.Proofs.Searches
import PropertyTree.Proofs.JobEdits
import PropertyTree.Proofs.RunFrame
import PropertyTree.Proofs.Selection
import PropertyTree.Proofs.StalePositions
import PropertyTree.Proofs.SegmentForms
import PropertyTree.Proofs.PathReads
import PropertyTree.Proofs.VivifyingWalks
import PropertyTree.Proofs.Removal
import PropertyTree.Proofs.ReadTwice
import PropertyTree.Proofs.TreeConversion
import PropertyTree.Proofs.Collecting
import PropertyTree.Proofs.NamedJobs
import PropertyTree.Proofs.ChainLog
import PropertyTree.Proofs.PathTexts
import PropertyTree.Proofs.SequenceIndices
import PropertyTree.Proofs.ByteOrder
import PropertyTree.Proofs.IterationOrder
import PropertyTree.Proofs.PermutedWalks
import PropertyTree.Proofs.PermutedManifests
import PropertyTree.Proofs.PermutedRuns
