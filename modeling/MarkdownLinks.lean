import MarkdownLinks.Main
import MarkdownLinks.Proofs.Code.Fences
import MarkdownLinks.Proofs.Code.Runs
import MarkdownLinks.Code.Outline
import MarkdownLinks.Proofs.Code.Placeholder
import MarkdownLinks.Proofs.Code.BlocksByLine
import MarkdownLinks.Proofs.Code.BlockInterior
import MarkdownLinks.Proofs.Code.Exhaustive
import MarkdownLinks.Proofs.Code.PairedRuns
import MarkdownLinks.Proofs.Code.Rendering
import MarkdownLinks.Proofs.Code.Outline
import MarkdownLinks.Proofs.Code.Restoring
import MarkdownLinks.Proofs.Code.Words
import MarkdownLinks.Proofs.Code.Substitution
import MarkdownLinks.Proofs.Link.Enclosed
import MarkdownLinks.Proofs.SourceHost.Revision
import MarkdownLinks.Proofs.SourceHost.Publish
import MarkdownLinks.Proofs.Code.FewerTicks
import MarkdownLinks.Proofs.Code.SettledEdit
import MarkdownLinks.Proofs.SourceHost.KeptBlocks
import MarkdownLinks.Proofs.SourceHost.KeptSpans
import MarkdownLinks.Proofs.SourceHost.MappedLinks
import MarkdownLinks.Proofs.SourceHost.PublishTwice
import MarkdownLinks.Proofs.Text.PercentDecoding
import MarkdownLinks.Proofs.SourceHost.UrlPath
import MarkdownLinks.Proofs.Prose.Region
import MarkdownLinks.Proofs.Prose.Traversal
import MarkdownLinks.Proofs.Text.EndedLine
import MarkdownLinks.Proofs.Text.Blank
import MarkdownLinks.Proofs.Prose.WellFenced
import MarkdownLinks.Proofs.Check.RawText
import MarkdownLinks.Proofs.Link.Title
import MarkdownLinks.Proofs.Link.Spaced
import MarkdownLinks.Proofs.Check.SpacedParts
import MarkdownLinks.Proofs.Check.TokenParts
import MarkdownLinks.Proofs.Check.Reference
import MarkdownLinks.Proofs.Check.CodeLine
import MarkdownLinks.Proofs.FileTree.PathOrder
import MarkdownLinks.Proofs.Lint.SortedPaths
import MarkdownLinks.Proofs.Prose.Append
import MarkdownLinks.Proofs.FileTree.Join
import MarkdownLinks.Proofs.FileTree.Walk
import MarkdownLinks.Proofs.FileTree.Resolve
import MarkdownLinks.Proofs.Lint.Discovery
import MarkdownLinks.Proofs.FileTree.Removal
import MarkdownLinks.Proofs.Lint.Reading
import MarkdownLinks.Proofs.CommandLine.Arguments
import MarkdownLinks.Proofs.CommandLine.Spelling
import MarkdownLinks.Proofs.CommandLine.Request
import MarkdownLinks.Proofs.CommandLine.Check
import MarkdownLinks.Proofs.Lint.Unread
import MarkdownLinks.Proofs.FileTree.Writing
import MarkdownLinks.Proofs.CommandLine.Publish
import MarkdownLinks.Proofs.FileTree.LeadingDot
import MarkdownLinks.Proofs.Lint.LeadingDot
import MarkdownLinks.Proofs.Lint.Overlap
import MarkdownLinks.Proofs.Text.LetterCase
import MarkdownLinks.Proofs.Link.Target
import MarkdownLinks.Proofs.Link.EncodedTarget
import MarkdownLinks.Proofs.Check.EscapedTarget
import MarkdownLinks.Proofs.Check.EncodedDocument
import MarkdownLinks.Proofs.Link.Titled
import MarkdownLinks.Proofs.SourceHost.TitledLink
import MarkdownLinks.Proofs.Check.WrittenTargets
