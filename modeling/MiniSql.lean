import MiniSql.BPlusTree
import MiniSql.BPlusTreeContext
import MiniSql.BPlusTreeFind
import MiniSql.BPlusTreeGrow
import MiniSql.BPlusTreeInsert
import MiniSql.BPlusTreeMap
import MiniSql.BPlusTreeMerge
import MiniSql.BPlusTreeMoves
import MiniSql.BPlusTreePool
import MiniSql.BPlusTreePoolInsert
import MiniSql.BPlusTreePoolRemove
import MiniSql.BPlusTreePoolRules
import MiniSql.BPlusTreePoolRuns
import MiniSql.BPlusTreeRedistribute
import MiniSql.BPlusTreeRemoveAbsent
import MiniSql.BPlusTreeRuns
import MiniSql.BPlusTreeSearch
import MiniSql.BPlusTreeShape
import MiniSql.BPlusTreeShrink
import MiniSql.BPlusTreeStored
import MiniSql.BitmapOffsets
import MiniSql.BitmapPage
import MiniSql.BufferPoolContents
import MiniSql.BufferPoolDelete
import MiniSql.CatalogBounds
import MiniSql.CatalogDirectories
import MiniSql.CatalogManager
import MiniSql.CatalogMeta
import MiniSql.CatalogReopen
import MiniSql.CatalogSound
import MiniSql.Command
import MiniSql.CommandGrammar
import MiniSql.CompareOperator
import MiniSql.Connector
import MiniSql.CurrentDatabase
import MiniSql.DeleteWhere
import MiniSql.DirectoryRoundTrip
import MiniSql.DiskAllocation
import MiniSql.DiskCells
import MiniSql.DiskCounters
import MiniSql.DiskManager
import MiniSql.DiskReopen
import MiniSql.DropStorage
import MiniSql.ExecuteEngine
import MiniSql.FailedStatements
import MiniSql.Family
import MiniSql.FileOffsets
import MiniSql.GenericKey
import MiniSql.HeapOrder
import MiniSql.HeapUpdate
import MiniSql.IndexConsistency
import MiniSql.IndexIterator
import MiniSql.IndexRootsMap
import MiniSql.IndexRootsPage
import MiniSql.IteratorSteps
import MiniSql.KeyIndex
import MiniSql.LeafChain
import MiniSql.LexPatterns
import MiniSql.LexemeText
import MiniSql.LibraryStock
import MiniSql.Loops
import MiniSql.LowerBound
import MiniSql.LruOrder
import MiniSql.Machine
import MiniSql.MaximalMunch
import MiniSql.MetadataRoundTrip
import MiniSql.MinisqlGrammar
import MiniSql.MinisqlLex
import MiniSql.NullTest
import MiniSql.PagedHeap
import MiniSql.PagedHeapChain
import MiniSql.PagedHeapInsert
import MiniSql.PagedHeapPool
import MiniSql.PagedTable
import MiniSql.ParseText
import MiniSql.ParserItems
import MiniSql.ParserTables
import MiniSql.PinBalance
import MiniSql.PinnedUses
import MiniSql.PoolCalls
import MiniSql.RangeScan
import MiniSql.Record
import MiniSql.RejectedInserts
import MiniSql.Relocation
import MiniSql.RepeatedUpdates
import MiniSql.RootRecord
import MiniSql.RowLimits
import MiniSql.RowsInPlace
import MiniSql.SearchTree
import MiniSql.SelectInserted
import MiniSql.SelectWhere
import MiniSql.Session
import MiniSql.ShiftReduce
import MiniSql.SqlGrammar
import MiniSql.StatementEffects
import MiniSql.StorageEngine
import MiniSql.SyntaxTree
import MiniSql.TableHeap
import MiniSql.TableIterator
import MiniSql.TablePageLinks
import MiniSql.TablePageRefines
import MiniSql.TreeBalance
import MiniSql.Triples
import MiniSql.TypeChar
import MiniSql.UniqueKeys
import MiniSql.UpdateRows
import MiniSql.UpdatesInPlace
import MiniSql.UpdatesRight
import MiniSql.Where
import MiniSql.Yylex
import MiniSql.Yyparse
