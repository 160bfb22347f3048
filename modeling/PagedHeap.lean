import PagedHeap.Ident
import PagedHeap.KeyMap
import PagedHeap.Record
import PagedHeap.Error
import PagedHeap.Config
import PagedHeap.Page.Basic
import PagedHeap.Lock.Table
import PagedHeap.Lock.Wait
import PagedHeap.Storage.Basic
import PagedHeap.Pool.Placement
import PagedHeap.Engine
import PagedHeap.Shell
import PagedHeap.Main
import PagedHeap.Page.Laws
import PagedHeap.Storage.Laws
import PagedHeap.Proofs.EngineLaws
import PagedHeap.Proofs.LockHolders
import PagedHeap.Proofs.ShellLaws
import PagedHeap.Proofs.Guards
import PagedHeap.Proofs.Reads
import PagedHeap.Proofs.GuardedRuns
import PagedHeap.Proofs.Openings
import PagedHeap.Proofs.RepeatableReads
import PagedHeap.Proofs.FailedCommits
import PagedHeap.Proofs.Marks
import PagedHeap.Proofs.Shutdown
import PagedHeap.Proofs.CacheCommits
import PagedHeap.Proofs.ShellAborts
import PagedHeap.Proofs.TwinRuns
import PagedHeap.Proofs.Lifetimes
import PagedHeap.Proofs.PageStores
import PagedHeap.Proofs.EndingOrder
import PagedHeap.Proofs.TablesApart
import PagedHeap.Proofs.Autocommit
import PagedHeap.Proofs.Searches
import PagedHeap.Proofs.Inserts
import PagedHeap.Proofs.WriteFree
import PagedHeap.Proofs.FailedEdits
import PagedHeap.Proofs.Frames
import PagedHeap.Proofs.Cursors
import PagedHeap.Proofs.YieldedRecords
import PagedHeap.Proofs.SlotMaps
import PagedHeap.Proofs.LockFootprints
import PagedHeap.Proofs.RetriedCommits
import PagedHeap.Proofs.CompleteWalks
import PagedHeap.Proofs.Waits
import PagedHeap.Proofs.Upkeep
import PagedHeap.Proofs.Fetches
import PagedHeap.Proofs.TableNumbers
import PagedHeap.Proofs.InsertPasses
import PagedHeap.Proofs.FileGrowth
import PagedHeap.Proofs.Pinning
import PagedHeap.Proofs.StoredValues
