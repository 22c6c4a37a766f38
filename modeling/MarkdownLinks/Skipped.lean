import MarkdownLinks.Text.Native

/-! What a run leaves unchecked, and why: an exclude pattern that cannot be read, a place that the walk
cannot enter, a file that cannot be read. Nothing of this fails a run. -/

namespace MarkdownLinks

namespace Skipped

inductive Reason where
  | unreadable
  | tooLarge
  | notUtf8
  | unwalkable
  | badPattern
  deriving DecidableEq

def Reason.name : Reason → Text
  | .unreadable => "io_error".toList
  | .tooLarge => "file_too_large".toList
  | .notUtf8 => "invalid_encoding".toList
  | .unwalkable => "walk_error".toList
  | .badPattern => "invalid_exclude_pattern".toList

end Skipped

/-- A file, a place or a pattern that was left out, with the reason. -/
structure Skipped where
  file : Text
  reason : Skipped.Reason
  message : Text
  deriving DecidableEq

/-- A skip on one line. -/
def Skipped.render (s : Skipped) : Text := Native.display s.file ++ ": [skipped] ".toList ++ s.message

/-- Why a document cannot be read. -/
inductive ReadFault where
  /-- The system refuses the file, with its own message. -/
  | system (message : Text)
  | tooLarge (limit : Nat)
  | notUtf8
  deriving DecidableEq

namespace ReadFault

def reason : ReadFault → Skipped.Reason
  | .system _ => .unreadable
  | .tooLarge _ => .tooLarge
  | .notUtf8 => .notUtf8

def message : ReadFault → Text
  | .system m => "Failed to read file: ".toList ++ m
  | .tooLarge limit => "File exceeds maximum size of ".toList ++ decimal limit ++ " bytes".toList
  | .notUtf8 => "File is not valid UTF-8".toList

end ReadFault

end MarkdownLinks
