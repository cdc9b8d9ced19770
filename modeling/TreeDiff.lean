import TreeDiff.Json.Parser
import TreeDiff.Json.Printer
import TreeDiff.Text.Order
import TreeDiff.Text.Quoted
import TreeDiff.Text.Truncate
import TreeDiff.Text.Similarity
import TreeDiff.Text.Encoding
import TreeDiff.Tree.Codec
import TreeDiff.Tree.File
import TreeDiff.Schema.Expansion
import TreeDiff.Schema.Reader
import TreeDiff.Schema.Lookup
import TreeDiff.Extraction
import TreeDiff.Diff.Classify
import TreeDiff.Diff.Table
import TreeDiff.Language
import TreeDiff.Value.Shown
import TreeDiff.Value.Merge
import TreeDiff.Settings.Section
import TreeDiff.Settings.Load
import TreeDiff.Log.Router
import TreeDiff.Log.Session
import TreeDiff.Parsing.Pool
import TreeDiff.Json.Map
import TreeDiff.Value.Codec
import TreeDiff.Settings.Codec
import TreeDiff.Tree.Brief
import TreeDiff.Parsing.Recording
import TreeDiff.Text.Width
import TreeDiff.Main
import TreeDiff.Proofs.KeyPairing
import TreeDiff.Proofs.Numbering
import TreeDiff.Proofs.Rounding
import TreeDiff.Proofs.CommonBlocks
import TreeDiff.Proofs.Cutoffs
import TreeDiff.Proofs.BestFirst
import TreeDiff.Proofs.Siblings
import TreeDiff.Proofs.SiblingPairs
import TreeDiff.Proofs.Children
import TreeDiff.Proofs.Descent
import TreeDiff.Proofs.Worklists
import TreeDiff.Proofs.Moves
import TreeDiff.Proofs.Soundness
import TreeDiff.Proofs.EqualTexts
import TreeDiff.Proofs.Leftovers
import TreeDiff.Proofs.Ties
import TreeDiff.Proofs.Orders
import TreeDiff.Proofs.MatchingStates
import TreeDiff.Proofs.Mirror
import TreeDiff.Proofs.ReportOrder
import TreeDiff.Proofs.Accounts
import TreeDiff.Proofs.Shapes
import TreeDiff.Proofs.Rearrangements
import TreeDiff.Proofs.KeptSiblings
import TreeDiff.Proofs.Edits
import TreeDiff.Proofs.Renames
import TreeDiff.Proofs.Insertions
import TreeDiff.Proofs.Relocations
import TreeDiff.Proofs.ParserCache
import TreeDiff.Proofs.Counterparts
import TreeDiff.Proofs.Silence
import TreeDiff.Proofs.MoveFlags
import TreeDiff.Proofs.FieldUnions
import TreeDiff.Proofs.Reading
import TreeDiff.Proofs.Supertypes
import TreeDiff.Proofs.SchemaIndex
import TreeDiff.Proofs.DistinctNames
import TreeDiff.Proofs.TreeDescriptions
import TreeDiff.Proofs.SchemaAnswers
import TreeDiff.Proofs.SchemaGrammar
import TreeDiff.Proofs.IntentValues
import TreeDiff.Proofs.Places
import TreeDiff.Proofs.Traversals
import TreeDiff.Proofs.Breadcrumbs
import TreeDiff.Proofs.Unplaced
import TreeDiff.Proofs.Presentation
import TreeDiff.Proofs.Verbatim
import TreeDiff.Proofs.TableRows
import TreeDiff.Proofs.FileGrowth
import TreeDiff.Proofs.Routing
import TreeDiff.Proofs.PlainPaths
import TreeDiff.Proofs.Merging
import TreeDiff.Proofs.SameKeys
import TreeDiff.Proofs.MergedPaths
import TreeDiff.Proofs.SingleSettings
import TreeDiff.Proofs.TextCaps
import TreeDiff.Proofs.Readers
import TreeDiff.Proofs.YamlKeys
import TreeDiff.Proofs.VariableLayers
import TreeDiff.Proofs.Precedence
import TreeDiff.Proofs.Rejections
import TreeDiff.Proofs.Escapes
