import Stencil.Main
import Stencil.Options.Json
import Stencil.Session
import Stencil.Proofs.AttributeReading
import Stencil.Proofs.LegibleMarkup
import Stencil.Proofs.MarkupReading
import Stencil.Proofs.TemplateReading
import Stencil.Proofs.SourceRendering
import Stencil.Proofs.IndentedLines
import Stencil.Proofs.HoistInvariant
import Stencil.Proofs.Literals
import Stencil.Proofs.LosslessGeneration
import Stencil.Proofs.PrintedTemplate
import Stencil.Proofs.BalancedCode
import Stencil.Proofs.ModuleBalance
import Stencil.Proofs.TemplateComposition
import Stencil.Proofs.CompiledModule
import Stencil.Proofs.LoopForms
import Stencil.Proofs.OpeningCalls
import Stencil.Proofs.HoistedReferences
import Stencil.Proofs.NameCapture
import Stencil.Proofs.NormalGeneration
import Stencil.Proofs.HoistHistory
import Stencil.Proofs.TemplateInvariant
import Stencil.Proofs.ExactSpans
import Stencil.Proofs.FaultPlaces
import Stencil.Proofs.ShownFaults
import Stencil.Proofs.FileLocations
import Stencil.Proofs.BuildEffects
import Stencil.Proofs.BuildOrder
import Stencil.Proofs.LosslessJson
import Stencil.Proofs.AttributeSets
import Stencil.Proofs.LoopSearch
import Stencil.Proofs.LoopDirectives
import Stencil.Proofs.NestedStatements
import Stencil.Proofs.BalancedGrammar
import Stencil.Proofs.SpelledLoops
import Stencil.Proofs.LiteralScanning
import Stencil.Proofs.DecodedAttributes
import Stencil.Proofs.RestoredText
import Stencil.Proofs.NormalForm
import Stencil.Proofs.LoopKeys
import Stencil.Proofs.PathComponents
import Stencil.Proofs.PatternSearch
import Stencil.Proofs.MatchedInputs
import Stencil.Proofs.GrammarRuns
import Stencil.Proofs.SilentScanners
import Stencil.Proofs.ScannedGrammar
import Stencil.Proofs.GrammarFaults
import Stencil.Proofs.CaretAlignment
import Stencil.Proofs.TerminatingRuns
import Stencil.Proofs.SufficientBudget
import Stencil.Proofs.StackRuns
import Stencil.Proofs.TagStack
