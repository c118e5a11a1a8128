import Criteria.Association
import Criteria.Catalog.Basic
import Criteria.Catalog.Definition
import Criteria.Catalog.Snapshot
import Criteria.Catalog.Source
import Criteria.Decimal.Basic
import Criteria.Decimal.Binary64
import Criteria.Error
import Criteria.Grammar
import Criteria.Json.Basic
import Criteria.Json.Quoted
import Criteria.Json.Reader
import Criteria.Json.Writer
import Criteria.PhraseTrie
import Criteria.Reading.Basic
import Criteria.Reading.Run
import Criteria.Reading.Scan
import Criteria.Rendering
import Criteria.Session
import Criteria.Settings.Basic
import Criteria.Settings.Path
import Criteria.Settings.Value
import Criteria.Text.Words
import Criteria.Text.Case
import Criteria.Text.CaseTable
import Criteria.Text.CharacterSet
import Criteria.Text.Integer
import Criteria.Token.Basic
import Criteria.Token.Codec
import Criteria.Token.Kind
import Criteria.Toml.Document
import Criteria.Toml.Moment
import Criteria.Toml.Scalar
import Criteria.Toml.Statement
import Criteria.Toml.Text
import Criteria.Proofs.LegalSequences
import Criteria.Proofs.ReachableSessions
import Criteria.Proofs.ExpressionLanguage
import Criteria.Proofs.PhraseLookup
import Criteria.Proofs.TextFolding
import Criteria.Proofs.TextConservation
import Criteria.Proofs.CanonicalTokens
import Criteria.Proofs.DisplayedTokens
import Criteria.Proofs.SaveAndReopen
import Criteria.Proofs.PhraseMap
import Criteria.Proofs.CatalogSpelling
import Criteria.Proofs.FinishedSessions
import Criteria.Proofs.RespelledFactors
import Criteria.Proofs.MaskedSequences
import Criteria.Proofs.CatalogLookups
import Criteria.Proofs.CatalogOrder
import Criteria.Proofs.ExpressionWords
import Criteria.Proofs.SettledReading
import Criteria.Proofs.ShownWords
import Criteria.Proofs.ShownReading
import Criteria.Proofs.RepairedPieces
import Criteria.Proofs.SettledTexts
import Criteria.Proofs.ReloadStability
import Criteria.Proofs.TokenPasses
import Criteria.Proofs.Parentheses
import Criteria.Proofs.AlignedTexts
import Criteria.Proofs.FinishedTokens
import Criteria.Proofs.TypedRanges
import Criteria.Proofs.FetchedCatalogs
import Criteria.Proofs.UndoneEdits
import Criteria.Proofs.ReadingSteps
import Criteria.Proofs.KnownFactors
import Criteria.Proofs.FactorForms
import Criteria.Proofs.LetterCase
import Criteria.Proofs.LogicalPhrases
import Criteria.Proofs.RangeForm
import Criteria.Proofs.StoredCatalogs
import Criteria.Proofs.OverlaidTrees
import Criteria.Proofs.DocumentNames
import Criteria.Proofs.VariablePaths
import Criteria.Proofs.LayeredSettings
