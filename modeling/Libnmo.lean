import Libnmo.App.CreatedObjects
import Libnmo.App.DeserializedObjects
import Libnmo.App.FileImage
import Libnmo.Format.ObjectTree
import Libnmo.App.ContextLifetime
import Libnmo.Schema.ClassHierarchy
import Libnmo.App.FinishLoading
import Libnmo.App.FinishObjects
import Libnmo.App.ManagerRecords
import Libnmo.App.References
import Libnmo.App.SavedHeader
import Libnmo.Core.ArenaBlocks
import Libnmo.Core.ArenaOwned
import Libnmo.Core.ArrayOps
import Libnmo.Core.BitArray
import Libnmo.Core.FiledEntries
import Libnmo.Core.HashSet
import Libnmo.Core.HashTable
import Libnmo.Core.Hashing
import Libnmo.Core.IndexedMap
import Libnmo.Core.MapLinked
import Libnmo.Core.Murmur
import Libnmo.Core.NmoList
import Libnmo.Core.ProbesEnd
import Libnmo.Core.StringRuns
import Libnmo.Core.TableRefines
import Libnmo.Format.ChunkClone
import Libnmo.Format.ChunkEdits
import Libnmo.Format.ChunkPool
import Libnmo.Format.ChunkReadBack
import Libnmo.Format.ChunkRoom
import Libnmo.Format.ChunkTreeCopied
import Libnmo.Format.ChunkTreeRoundTrip
import Libnmo.Format.CursorBounds
import Libnmo.Format.DataSectionLayout
import Libnmo.Format.DataSectionRoundTrip
import Libnmo.Format.DataSectionSize
import Libnmo.Format.DeclaredLengths
import Libnmo.Format.FileHeader
import Libnmo.Format.Header1Again
import Libnmo.Format.Header1Recovered
import Libnmo.Format.Header1RoundTrip
import Libnmo.Format.Header1Stored
import Libnmo.Format.Header1Stores
import Libnmo.Format.IdentifierMarks
import Libnmo.Format.IdentifierThread
import Libnmo.Format.LostPlace
import Libnmo.Format.PackedRemap
import Libnmo.Format.PackedSections
import Libnmo.Format.PackedStored
import Libnmo.Format.ParseRemains
import Libnmo.Format.PositionBounds
import Libnmo.Format.ReadStops
import Libnmo.Format.RemapFrame
import Libnmo.Format.SeekEnds
import Libnmo.Format.StreamFills
import Libnmo.Format.StreamObjects
import Libnmo.Format.StreamPairing
import Libnmo.Format.StreamReader
import Libnmo.Format.StreamRecords
import Libnmo.Format.StreamRequests
import Libnmo.Format.StreamRoundTrip
import Libnmo.Format.StreamSlices
import Libnmo.Format.StreamSource
import Libnmo.Format.StreamWriter
import Libnmo.Format.StreamWrites
import Libnmo.Format.StringArrays
import Libnmo.Format.SubChunkRecord
import Libnmo.Format.SubchunkExtent
import Libnmo.Format.SubchunkRemap
import Libnmo.Format.TypedRoundTrip
import Libnmo.Format.WriterExchange
import Libnmo.Format.WriterHistory
import Libnmo.Format.WriterSteps
import Libnmo.Format.WriterWrites
import Libnmo.Format.WrittenIds
import Libnmo.Io.ChecksumIo
import Libnmo.Io.CompressedIo
import Libnmo.Io.MemoryFile
import Libnmo.Io.Transaction
import Libnmo.Lib.Abreast
import Libnmo.Lib.Advances
import Libnmo.Lib.KeyedEntries
import Libnmo.Lib.KeyedSlots
import Libnmo.Lib.Machine
import Libnmo.Lib.Parses
import Libnmo.Lib.Stopping
import Libnmo.Schema.BeObjectWords
import Libnmo.Schema.BehaviorRoundTrip
import Libnmo.Schema.BehaviorState
import Libnmo.Schema.ManagerRoundTrip
import Libnmo.Schema.ManagerStates
import Libnmo.Schema.MaterialRoundTrip
import Libnmo.Schema.MaterialStates
import Libnmo.Schema.ObjectRoundTrip
import Libnmo.Schema.ObjectStates
import Libnmo.Schema.ParameterRoundTrip
import Libnmo.Schema.ParameterStates
import Libnmo.Schema.ParsedSections
import Libnmo.Schema.ReaderContained
import Libnmo.Schema.ReaderEscapes
import Libnmo.Schema.SceneRoundTrip
import Libnmo.Schema.SceneState
import Libnmo.Schema.SchemaReader
import Libnmo.Schema.SchemaRoundTrip
import Libnmo.Schema.SchemaWriter
import Libnmo.Schema.SectionReads
import Libnmo.Session.Builder
import Libnmo.Session.IndexLoops
import Libnmo.Session.IndexTracked
import Libnmo.Session.MappingViews
import Libnmo.Session.ObjectIndex
import Libnmo.Session.ObjectQueries
import Libnmo.Session.PlanRoundTrip
import Libnmo.Session.ReferenceResolver
import Libnmo.Session.RepositoryNames
import Libnmo.Format.GuidText
import Libnmo.Schema.EntityRoundTrip
import Libnmo.Format.SequenceStarts
import Libnmo.Lib.Links
import Libnmo.Schema.ParamTypeTable
import Libnmo.Format.ManagerRegistry
import Libnmo.Format.RawBitmap
import Libnmo.Format.EncodedBitmap
