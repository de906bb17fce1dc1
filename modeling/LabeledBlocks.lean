import LabeledBlocks.BlockMap.MergeSamples
import LabeledBlocks.BlockMap.MergeProperties
import LabeledBlocks.BlockMap.SplitSamples
import LabeledBlocks.BlockMap.FlattenComponents
import LabeledBlocks.Container.Whole
import LabeledBlocks.Description
import LabeledBlocks.Labels.Json
import LabeledBlocks.LogFormat
import LabeledBlocks.Proofs.Labels.Valid
import LabeledBlocks.Proofs.Block.Consistent
import LabeledBlocks.Proofs.BlockMap.Consistent
import LabeledBlocks.Proofs.Container.Reading
import LabeledBlocks.Proofs.Container.Contents
import LabeledBlocks.Proofs.Container.Writing
import LabeledBlocks.Proofs.Container.Enclosed
import LabeledBlocks.Proofs.Container.RoundTrip
import LabeledBlocks.Proofs.Block.Gathered
import LabeledBlocks.Proofs.Block.Joining
import LabeledBlocks.Proofs.Block.JoinSamples
import LabeledBlocks.Proofs.Block.JoinGathered
import LabeledBlocks.Proofs.Labels.Selection
import LabeledBlocks.Proofs.BlockMap.Grouping
import LabeledBlocks.Proofs.Block.Merges
import LabeledBlocks.Proofs.BlockMap.MergeSamples
import LabeledBlocks.Proofs.BlockMap.SplitSamples
import LabeledBlocks.Proofs.BlockMap.SplitMerged
import LabeledBlocks.Proofs.Block.Divided
import LabeledBlocks.Proofs.BlockMap.SplitDivides
import LabeledBlocks.Proofs.Labels.SetOperations
import LabeledBlocks.Proofs.Block.Widens
import LabeledBlocks.Proofs.Block.JoinProperties
import LabeledBlocks.Proofs.Block.JoinWidens
import LabeledBlocks.Proofs.BlockMap.MergeProperties
import LabeledBlocks.Proofs.Container.SelfDelimiting
import LabeledBlocks.Proofs.Container.Damage
import LabeledBlocks.Proofs.Container.Contained
import LabeledBlocks.Proofs.Container.Canonical
import LabeledBlocks.Proofs.Block.Sound
import LabeledBlocks.Proofs.Block.Flatten
import LabeledBlocks.Proofs.RowMajor
import LabeledBlocks.Proofs.Block.Flattened
import LabeledBlocks.Proofs.BlockMap.FlattenComponents
import LabeledBlocks.Proofs.BlockMap.Moves
import LabeledBlocks.Proofs.Reachable
import LabeledBlocks.Proofs.Container.ReaderHistory
import LabeledBlocks.Proofs.Container.Sinks
import LabeledBlocks.Proofs.Container.WriterHistory
import LabeledBlocks.Proofs.Container.Exact
import LabeledBlocks.Proofs.Container.Torn
import LabeledBlocks.Proofs.Block.Assembled
import LabeledBlocks.Proofs.Block.JoinAssembled
import LabeledBlocks.Proofs.Block.Reordered
import LabeledBlocks.Proofs.BlockMap.TwoMoves
import LabeledBlocks.Proofs.BlockMap.Commute
import LabeledBlocks.Proofs.Block.Following
import LabeledBlocks.Proofs.Block.JoinRefusals
import LabeledBlocks.Proofs.Block.Compatible
import LabeledBlocks.Proofs.BlockMap.GroupSamples
import LabeledBlocks.Proofs.BlockMap.MergeRefusals
import LabeledBlocks.Proofs.BlockMap.Mergeable
import LabeledBlocks.Proofs.BlockMap.MergeTwice
import LabeledBlocks.Proofs.Block.DividedParts
import LabeledBlocks.Proofs.Block.Relabelled
import LabeledBlocks.Proofs.BlockMap.SplitRegrouped
import LabeledBlocks.Proofs.Block.FlattenTwice
import LabeledBlocks.Proofs.Block.Flattenable
import LabeledBlocks.Proofs.BlockMap.FlattenTwice
import LabeledBlocks.Proofs.Block.Fits
import LabeledBlocks.Proofs.Block.JoinFits
import LabeledBlocks.Proofs.BlockMap.Widenable
import LabeledBlocks.Proofs.BlockMap.MergePropertiesTwice
import LabeledBlocks.Proofs.Container.Asked
import LabeledBlocks.Proofs.Container.Machine
import LabeledBlocks.Proofs.InPlace.Access
import LabeledBlocks.Proofs.InPlace.Labels
import LabeledBlocks.Proofs.InPlace.Joining
import LabeledBlocks.Proofs.InPlace.JoinSamples
import LabeledBlocks.Proofs.InPlace.JoinProperties
import LabeledBlocks.Proofs.InPlace.FlattenAxes
import LabeledBlocks.Proofs.InPlace.Combinations
import LabeledBlocks.Proofs.InPlace.Grouping
import LabeledBlocks.Proofs.InPlace.Merging
import LabeledBlocks.Proofs.InPlace.Splitting
import LabeledBlocks.Proofs.InPlace.Moves
import LabeledBlocks.Proofs.Container.Allocators
import LabeledBlocks.Proofs.Labels.Stored
import LabeledBlocks.Proofs.Labels.Making
import LabeledBlocks.Proofs.Labels.Faithful
import LabeledBlocks.Proofs.Labels.Selected
import LabeledBlocks.Proofs.Block.JoinBlame
import LabeledBlocks.Proofs.Block.Collectable
import LabeledBlocks.Proofs.BlockMap.Splittable
import LabeledBlocks.Proofs.BlockMap.MergeBlame
import LabeledBlocks.Proofs.BlockMap.MovableProperties
import LabeledBlocks.Proofs.Labels.Comparison
import LabeledBlocks.Proofs.Labels.OrderedSets
import LabeledBlocks.Proofs.Labels.Projected
import LabeledBlocks.Proofs.Labels.Offence
import LabeledBlocks.Proofs.BlockMap.Misfits
import LabeledBlocks.Proofs.Container.Stepwise
import LabeledBlocks.Proofs.Container.Faults
