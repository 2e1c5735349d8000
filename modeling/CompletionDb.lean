import CompletionDb.File.Disk
import CompletionDb.Main
import CompletionDb.Proofs.AncestorNames
import CompletionDb.Proofs.ArchiveRoundTrip
import CompletionDb.Proofs.Confinement
import CompletionDb.Proofs.CutArchives
import CompletionDb.Proofs.DepthLimit
import CompletionDb.Proofs.ExtractionByPath
import CompletionDb.Proofs.GenerationFrame
import CompletionDb.Proofs.HiddenTypes
import CompletionDb.Proofs.JsonRoundTrip
import CompletionDb.Proofs.MergeLaws
import CompletionDb.Proofs.MergeReport
import CompletionDb.Proofs.ModuleIndependence
import CompletionDb.Proofs.OpaqueStrings
import CompletionDb.Proofs.OptionalGroups
import CompletionDb.Proofs.ParenthesisMatching
import CompletionDb.Proofs.ReadBack
import CompletionDb.Proofs.RearrangedRecords
import CompletionDb.Proofs.RecordPaths
import CompletionDb.Proofs.Regeneration
import CompletionDb.Proofs.RegenerationFixpoint
import CompletionDb.Proofs.RegenerationInPlace
import CompletionDb.Proofs.SignatureScan
import CompletionDb.Proofs.SnapshotGrowth
import CompletionDb.Proofs.SoundSnapshots
import CompletionDb.Proofs.SpelledNames
import CompletionDb.Proofs.StoreAsMap
import CompletionDb.Proofs.Strategies
import CompletionDb.Proofs.WrittenSignatures
