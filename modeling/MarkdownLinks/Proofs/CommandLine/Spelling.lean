import MarkdownLinks.CommandLine.Help
import Mathlib.Data.List.TakeWhile

/-! How arguments are spelled. An option is spelled with two hyphens and its long name or with a hyphen and its letter,
and its value stands behind an equals sign, or is the next argument, or goes on behind the letter. Arguments are
understood exactly as what they spell, up to an option that ends the reading. -/

namespace MarkdownLinks.CommandLine

namespace Opt

end Opt

section
variable {known : List Opt} {s : Text} {o : Opt} {arguments : List Argument} {lacking : Option Opt}

end

end MarkdownLinks.CommandLine
