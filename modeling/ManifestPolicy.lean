import ManifestPolicy.FileTree
import ManifestPolicy.Main
import ManifestPolicy.Proofs.Precedence
import ManifestPolicy.Proofs.Grammar
import ManifestPolicy.Proofs.Nesting
import ManifestPolicy.Proofs.Attachment
import ManifestPolicy.Proofs.Directives
import ManifestPolicy.Proofs.Renumbering
import ManifestPolicy.Proofs.Flattening
import ManifestPolicy.Proofs.RequireBlocks
import ManifestPolicy.Proofs.Overwrites
import ManifestPolicy.Proofs.QuotedStrings
import ManifestPolicy.Proofs.Rows
import ManifestPolicy.Proofs.Acceptance
import ManifestPolicy.Proofs.RelatedLayouts
import ManifestPolicy.Proofs.OutlyingComments
import ManifestPolicy.Proofs.GoDirectives
import ManifestPolicy.Proofs.CommentEdits
import ManifestPolicy.Proofs.Namespaces
import ManifestPolicy.Proofs.EmptyDirectives
import ManifestPolicy.Proofs.CommandOutcome
import ManifestPolicy.Proofs.EncodedStrings
import ManifestPolicy.Proofs.RelatedLines
import ManifestPolicy.Proofs.WrittenRequirements
import ManifestPolicy.Proofs.PathSpelling
import ManifestPolicy.Proofs.EncodedOctets
import ManifestPolicy.Proofs.Sources
import ManifestPolicy.Proofs.Concatenation
import ManifestPolicy.Proofs.OpenQuotes
import ManifestPolicy.Proofs.ReportedFault
import ManifestPolicy.Proofs.NilPolicy
import ManifestPolicy.Proofs.Provenance
import ManifestPolicy.Proofs.PrintedReports
import ManifestPolicy.Proofs.PrintedWarnings
import ManifestPolicy.Proofs.Relocation
import ManifestPolicy.Proofs.BlankLines
import ManifestPolicy.Proofs.LineLayouts
import ManifestPolicy.Proofs.Respacing
import ManifestPolicy.Proofs.ArgumentLists
import ManifestPolicy.Proofs.DirectiveFields
import ManifestPolicy.Proofs.DocumentLines
import ManifestPolicy.Proofs.LongNumbers
import ManifestPolicy.Proofs.SettingsFiles
import ManifestPolicy.Proofs.InputPath
import ManifestPolicy.Proofs.SettingsSources
