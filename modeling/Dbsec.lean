import Dbsec.Framing
import Dbsec.Outcome
import Dbsec.Envelope
import Dbsec.KeyCache
import Dbsec.Transform
import Dbsec.CellBinding
import Dbsec.Table
import Dbsec.Reachable
import Dbsec.Params
import Dbsec.Portal
import Dbsec.Attribution
import Dbsec.Text
import Dbsec.Sql
import Dbsec.Unprotected
import Dbsec.Accumulate
import Dbsec.Catalog
import Dbsec.Literals
import Dbsec.Scope
import Dbsec.RowKeys
import Dbsec.ArrayParam
import Dbsec.Rewrite
import Dbsec.Seal
import Dbsec.Predicate
import Dbsec.QueryWalk
import Dbsec.Statements
import Dbsec.Writes
import Dbsec.SealedForm
import Dbsec.KeyedWrites
import Dbsec.SealedWrites
import Dbsec.AtRest
import Dbsec.References
import Dbsec.CopyReads
import Dbsec.Settings
import Dbsec.Lexer
import Dbsec.Batch
import Dbsec.Untouched
import Dbsec.BoundParams
import Dbsec.RowStore
import Dbsec.PinnedRow
import Dbsec.RowBinding
import Dbsec.Upserts
import Dbsec.KeptValues
import Dbsec.PinnedWrites
import Dbsec.RowInvariant
import Dbsec.RowRuns
import Dbsec.SearchLogic
import Dbsec.SearchForms
import Dbsec.SearchMeaning
import Dbsec.KeyBudget
import Dbsec.Protection
import Dbsec.Resolve
import Dbsec.ReadPath
import Dbsec.StrictReads
import Dbsec.StoredForms
import Dbsec.SettingMoves
import Dbsec.Startup
import Dbsec.SettingRuns
import Dbsec.Spellings
import Dbsec.StoredKeys
import Dbsec.KeyInputs
import Dbsec.LiteralKeys
import Dbsec.Masks
import Dbsec.BindFrames
import Dbsec.RowRewrite
import Dbsec.Publication
import Dbsec.PublicationRuns
import Dbsec.ArrayText
import Dbsec.ArrayForms
import Dbsec.ArrayInput
import Dbsec.Calls
import Dbsec.IndexKeys
import Dbsec.IndexKeyRuns
import Dbsec.FormatPreserving
import Dbsec.ByteLexer
import Dbsec.Reassembly
import Dbsec.PortalState
import Dbsec.Relay
import Dbsec.Redaction
import Dbsec.PasswordPlaces
import Dbsec.Frames
import Dbsec.Refusals
import Dbsec.Conversation
import Dbsec.QueueAlignment
import Dbsec.QueueRuns
import Dbsec.QueueSafety
import Dbsec.WritePath
import Dbsec.PolicyColumns
import Dbsec.KeptLiterals
