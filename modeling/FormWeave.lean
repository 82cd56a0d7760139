import FormWeave.Main
import FormWeave.Proofs.MergeCalls
import FormWeave.Proofs.RoundTrip
import FormWeave.Writer.Script
import FormWeave.Proofs.MergeProtocol
import FormWeave.Proofs.GoMerge
import FormWeave.Proofs.DesignIds
import FormWeave.Proofs.EditableSections
import FormWeave.Proofs.Editing
import FormWeave.Proofs.CountedBytes
import FormWeave.Proofs.Regeneration
import FormWeave.Proofs.TagLines
import FormWeave.Proofs.LineEdits
import FormWeave.Proofs.MarkerFree
import FormWeave.Proofs.ClearEmission
import FormWeave.Proofs.ClearCode
import FormWeave.Proofs.ClearRuns
import FormWeave.Proofs.ScanMeaning
import FormWeave.Proofs.Reformatting
import FormWeave.Proofs.TreeWalk
import FormWeave.Proofs.Composition
import FormWeave.Proofs.UntaggedRuns
import FormWeave.Proofs.IdentifierTable
import FormWeave.Proofs.Frames
import FormWeave.Proofs.NodeFrames
import FormWeave.Proofs.Subtrees
import FormWeave.Proofs.Pieces
import FormWeave.Proofs.Nesting
import FormWeave.Proofs.Indentation
import FormWeave.Proofs.Flattening
import FormWeave.Proofs.Members
import FormWeave.Proofs.Spelling
import FormWeave.Proofs.NodeSpans
import FormWeave.Proofs.Wiring
import FormWeave.Proofs.DesignDocuments
import FormWeave.Proofs.Translations
import FormWeave.Proofs.CatalogNumbers
import FormWeave.Proofs.StringLiterals
import FormWeave.Proofs.MessageKeys
import FormWeave.Proofs.LiteralDialects
import FormWeave.Proofs.JsonScalars
import FormWeave.Proofs.JsonText
import FormWeave.Proofs.DesignFields
import FormWeave.Proofs.DesignJson
import FormWeave.Proofs.SavedDesigns
import FormWeave.Proofs.FileSystems
import FormWeave.Proofs.OpenedOutputs
import FormWeave.Proofs.GeneratedFiles
import FormWeave.Proofs.MergedDesigns
import FormWeave.Proofs.MergeAnswers
import FormWeave.Proofs.LoadedFiles
import FormWeave.Proofs.SafeSaves
import FormWeave.Proofs.MergeCommand
import FormWeave.Proofs.NormalForm
import FormWeave.Proofs.SmallEdits
import FormWeave.Proofs.Numerals
import FormWeave.Proofs.TagGrammar
import FormWeave.Proofs.LiteralMeanings
import FormWeave.Proofs.PrologueSpans
import FormWeave.Proofs.TextLiterals
import FormWeave.Proofs.IdAssignment
import FormWeave.Proofs.TrackedRuns
import FormWeave.Proofs.SourceRanges
import FormWeave.Proofs.IndentedText
import FormWeave.Proofs.BlockLevels
import FormWeave.Proofs.IndentedBlocks
import FormWeave.Proofs.EditCycles
import FormWeave.Proofs.DryRuns
import FormWeave.Proofs.LocalVariables
import FormWeave.Proofs.LiteralLines
import FormWeave.Proofs.ArrayInitializers
import FormWeave.Proofs.OnceLines
import FormWeave.Proofs.UsedFlags
import FormWeave.Proofs.OwnerRenaming
import FormWeave.Proofs.PreviewRuns
import FormWeave.Proofs.BlockChecksums
import FormWeave.Proofs.IdentifierSearch
