import MarkdownLinks.CommandLine.Command

/-! Arguments that are understood one after the other. What is understood are options that the command has; the
arguments before others, if they can be understood alone, are understood as before, and alone if one of them ends
the reading; and a command that has one option more than another understands every argument as that one does,
except for the one that is the option. -/

namespace MarkdownLinks.CommandLine

section
variable {arguments : List Argument} {o : Opt} {value : Text}

end

section
variable {known : List Opt} {s : Text} {o : Opt}

end

/-! One option more. -/

section
variable {known : List Opt} {o : Opt} {s : Text}

end

end MarkdownLinks.CommandLine
