import MarkdownLinks.CommandLine.Run
import MarkdownLinks.Proofs.CommandLine.Arguments
import MarkdownLinks.Proofs.CommandLine.Spelling

/-! What the arguments of a command come to. They are refused if they spell nothing, or something that the command
cannot take; else help is given if they ask for it, and if they do not the command is run. -/

namespace MarkdownLinks.CommandLine

section
variable {arguments : List Argument}

end

section
variable {name : CommandName} {args : List Text} {arguments : List Argument}

end

section
variable {t : FileTree} {stdin : ByteArray} {args : List Text}

end

end MarkdownLinks.CommandLine
