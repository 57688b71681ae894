import EvidenceTags.Flags.Lemmas
import EvidenceTags.ItemSet.Lemmas
import EvidenceTags.Machine
import EvidenceTags.Main
import EvidenceTags.Proofs.AdditionOrder
import EvidenceTags.Proofs.BitOrder
import EvidenceTags.Proofs.Calls.TouchedSession
import EvidenceTags.Proofs.CheckedExisting
import EvidenceTags.Proofs.CheckedRuns
import EvidenceTags.Proofs.DeadTags
import EvidenceTags.Proofs.FilterMeaning
import EvidenceTags.Proofs.FilterOrder
import EvidenceTags.Proofs.HitColumns
import EvidenceTags.Proofs.ItemQueries
import EvidenceTags.Proofs.KeptDirectories
import EvidenceTags.Proofs.LegacyMembers
import EvidenceTags.Proofs.Links.Agreement
import EvidenceTags.Proofs.LiveTags
import EvidenceTags.Proofs.LoadingWhole
import EvidenceTags.Proofs.Migration
import EvidenceTags.Proofs.NewTags
import EvidenceTags.Proofs.NumberSearch
import EvidenceTags.Proofs.Operations
import EvidenceTags.Proofs.PackedBits
import EvidenceTags.Proofs.PackedBySize
import EvidenceTags.Proofs.PlainRoster
import EvidenceTags.Proofs.ProbedTarget
import EvidenceTags.Proofs.SaveAndReopen
import EvidenceTags.Proofs.Saves.LastSave
import EvidenceTags.Proofs.Saves.Overtaking
import EvidenceTags.Proofs.Saves.Wakeups
import EvidenceTags.Proofs.SnapshotDetermines
import EvidenceTags.Proofs.SoundState
import EvidenceTags.Proofs.TagLife
import EvidenceTags.Proofs.TagNumbers
import EvidenceTags.Proofs.Wire.EntryOrder
import EvidenceTags.Proofs.Wire.Packing
import EvidenceTags.Proofs.Wire.SnapshotRoundTrip
import EvidenceTags.Proofs.Wire.Truncation
import EvidenceTags.TagMap.Lemmas
