import Stylesheet.Token
import Stylesheet.Session
import Stylesheet.Proofs.PatternLemmas
import Stylesheet.Proofs.TextLemmas
import Stylesheet.Proofs.DirectiveForms
import Stylesheet.Proofs.HeaderForms
import Stylesheet.Proofs.BlockLemmas
import Stylesheet.Proofs.StyleRuleLemmas
import Stylesheet.Proofs.NestedRules
import Stylesheet.Proofs.ParseDepth
import Stylesheet.Proofs.NestingCap
import Stylesheet.Proofs.Appending
import Stylesheet.Proofs.JsonTrees
import Stylesheet.Proofs.JsonReading
import Stylesheet.Proofs.Decoding
import Stylesheet.Proofs.JsonRoundTrip
import Stylesheet.Proofs.JsonNesting
import Stylesheet.Proofs.CanonicalForm
import Stylesheet.Proofs.Walks
import Stylesheet.Proofs.BalancedText
import Stylesheet.Proofs.DeclarationReading
import Stylesheet.Proofs.RuleReading
import Stylesheet.Proofs.CommentReading
import Stylesheet.Proofs.Keywords
import Stylesheet.Proofs.ElementReading
import Stylesheet.Proofs.SheetReading
import Stylesheet.Proofs.RoundTrip
import Stylesheet.Proofs.AttachedComments
import Stylesheet.Proofs.ParsedRules
import Stylesheet.Proofs.PlainRoundTrip
import Stylesheet.Proofs.ByteOffsets
import Stylesheet.Proofs.Fragments
import Stylesheet.Proofs.DecodedValues
import Stylesheet.Proofs.Redecoding
import Stylesheet.Proofs.ParsedLines
import Stylesheet.Proofs.Interchange
import Stylesheet.Proofs.LeadingText
import Stylesheet.Proofs.LeadingBlanks
import Stylesheet.Proofs.CommentedOut
import Stylesheet.Proofs.WellFormed
import Stylesheet.Proofs.LineNumbers
import Stylesheet.Proofs.MediaInteriors
import Stylesheet.Proofs.DirectiveEnds
import Stylesheet.Proofs.StyleSequences
import Stylesheet.Proofs.ClosingBraces
import Stylesheet.Proofs.NestedBlocks
import Stylesheet.Proofs.SkippedRuns
import Stylesheet.Proofs.RuleComments
import Stylesheet.Proofs.InventoriedComments
import Stylesheet.Proofs.CheckedText
import Stylesheet.Proofs.CheckedBraces
import Stylesheet.Proofs.CheckedComments
import Stylesheet.Proofs.CheckedStyles
import Stylesheet.Proofs.CheckedBlocks
import Stylesheet.Proofs.CheckedParse
import Stylesheet.Proofs.CommentsBefore
import Stylesheet.Proofs.SelectorPlaces
import Stylesheet.Proofs.KeyframeSteps
import Stylesheet.Proofs.RereadDeclarations
import Stylesheet.Proofs.StepEnds
import Stylesheet.Proofs.EmptySelectors
import Stylesheet.Proofs.DirectivePlaces
import Stylesheet.Proofs.KeyframesHeaders
import Stylesheet.Proofs.StrippedDeclarations
import Stylesheet.Proofs.TokenTiling
import Stylesheet.Proofs.CommentTokens
import Stylesheet.Proofs.ListedComments
import Stylesheet.Proofs.JsonLayouts
import Stylesheet.Proofs.Merging
import Stylesheet.Proofs.KindOrder
