import Auger.Balance
import Auger.BinaryText
import Auger.CatalogFile
import Auger.CatalogMap
import Auger.CheckedShift
import Auger.Coerced
import Auger.Comparable
import Auger.ConsoleRows
import Auger.Counters
import Auger.Crash
import Auger.DecimalCells
import Auger.Drift
import Auger.Encode
import Auger.Grammar
import Auger.Instants
import Auger.IntegerCells
import Auger.LikeTexts
import Auger.Listings
import Auger.Login
import Auger.Lookups
import Auger.Mutations
import Auger.Nesting
import Auger.NullTests
import Auger.ObjectIdText
import Auger.OidViews
import Auger.Partial
import Auger.Partitions
import Auger.Persist
import Auger.PlanMeaning
import Auger.Promise
import Auger.QualifyBytes
import Auger.Query
import Auger.RareFields
import Auger.Redact
import Auger.Rendering
import Auger.Reobserved
import Auger.Restart
import Auger.RowStream
import Auger.SampleOrder
import Auger.Sampling
import Auger.ScaledIntegers
import Auger.ScanRanges
import Auger.Schemas
import Auger.Sessions
import Auger.Splitting
import Auger.StoredFields
import Auger.Stream
import Auger.Stripping
import Auger.Supported
import Auger.Unseen
import Auger.Widened
import Auger.WireDecimals
