import ThemeTokens.Compiler
import ThemeTokens.Number.Binary64
import ThemeTokens.Preset
import ThemeTokens.Proofs.Agreement
import ThemeTokens.Proofs.Color.Notation
import ThemeTokens.Proofs.Color.Spelling
import ThemeTokens.Proofs.Completion
import ThemeTokens.Proofs.Composite
import ThemeTokens.Proofs.Content
import ThemeTokens.Proofs.Contrast.Narrow
import ThemeTokens.Proofs.Contrast.Pole
import ThemeTokens.Proofs.Declaration.Fallback
import ThemeTokens.Proofs.Declaration.Influence
import ThemeTokens.Proofs.Declaration.Literal
import ThemeTokens.Proofs.Document.Deciders
import ThemeTokens.Proofs.Document.Leaves
import ThemeTokens.Proofs.Document.Remarks
import ThemeTokens.Proofs.Document.Scope
import ThemeTokens.Proofs.Finalize
import ThemeTokens.Proofs.GamutMap
import ThemeTokens.Proofs.QtPalette
import ThemeTokens.Proofs.Recipe
import ThemeTokens.Proofs.Recognition
import ThemeTokens.Proofs.Reference
import ThemeTokens.Proofs.Stylesheet
import ThemeTokens.Proofs.Synthesis
import ThemeTokens.Proofs.Targets
import ThemeTokens.Proofs.Write
