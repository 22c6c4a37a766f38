import MarkdownLinks.Proofs.CommandLine.Request
import MarkdownLinks.Proofs.FileTree.Writing

/-! The command that publishes a document. It reads the document before it chooses a place for the result, and it
chooses the place before it writes; writing is its last step, and either it is refused or it is done. So a run that
fails leaves every file as it was and standard output empty, and a run that does not fail hands the published text
over in one place and changes nothing else, unless its arguments ask for help. -/

namespace MarkdownLinks.CommandLine

open FileTree

namespace Publish

end Publish

section
variable {arguments : List Argument} {o : Opt} {value path : Text}

end

section
variable {t : FileTree} {stdin : ByteArray} {args : List Text} {c : Publish} {o : Outcome} {text : Text}

end

end MarkdownLinks.CommandLine
