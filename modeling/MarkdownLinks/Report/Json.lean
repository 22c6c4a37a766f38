import MarkdownLinks.Report.Basic

/-! The report as JSON, laid out with two spaces to a level and one member to a line; an empty array
stays on its line. Strings escape what the format demands and nothing else: the quotation mark, the
backslash and the control characters, which have short escapes or four hexadecimal digits. A path that
is not UTF-8 has no place in JSON. -/

namespace MarkdownLinks.Json

/-- A character inside a string. -/
def escapeChar (c : Char) : Text :=
  if c = '"' then ['\\', '"']
  else if c = '\\' then ['\\', '\\']
  else if c = '\x08' then ['\\', 'b']
  else if c = '\x0c' then ['\\', 'f']
  else if c = '\n' then ['\\', 'n']
  else if c = '\r' then ['\\', 'r']
  else if c = '\t' then ['\\', 't']
  else if c.toNat < 0x20 then
    ['\\', 'u', '0', '0', Nat.digitChar (c.toNat / 16), Nat.digitChar (c.toNat % 16)]
  else [c]

def string (s : Text) : Text := '"' :: (s.flatMap escapeChar ++ ['"'])

def bool (b : Bool) : Text := (if b then "true" else "false").toList

/-- The start of a line at a depth. -/
def newLine (depth : Nat) : Text := '\n' :: List.replicate (2 * depth) ' '

/-- Members between brackets, each on a line of its own one level below `depth`. -/
def block (opening closing : Char) (depth : Nat) (members : List Text) : Text :=
  if members = [] then [opening, closing]
  else
    opening :: (List.intercalate [','] (members.map fun m => newLine (depth + 1) ++ m) ++
      newLine depth ++ [closing])

def object (depth : Nat) (fields : List (String × Text)) : Text :=
  block '\x7b' '\x7d' depth (fields.map fun (name, value) => string name.toList ++ ": ".toList ++ value)

def array (depth : Nat) (items : List Text) : Text := block '[' ']' depth items

end MarkdownLinks.Json

namespace MarkdownLinks

def Issue.json (depth : Nat) (i : Issue) : Text :=
  Json.object depth
    [("file", Json.string i.file), ("line", decimal i.line), ("kind", Json.string i.kind.name),
      ("text", Json.string i.text), ("target", Json.string i.target), ("message", Json.string i.message)]

def Skipped.json (depth : Nat) (s : Skipped) : Text :=
  Json.object depth
    [("file", Json.string s.file), ("reason", Json.string s.reason.name),
      ("message", Json.string s.message)]

/-- Whether a report can be put into JSON: the path of every issue and every skip is UTF-8. -/
def Report.isJson (r : Report) : Bool :=
  r.issues.all (fun i => Native.isUtf8 i.file) && r.skipped.all fun s => Native.isUtf8 s.file

/-- The report as a JSON document, ended by a line feed. -/
def Report.json (r : Report) : Text :=
  Json.object 0
    [("scanned_files", decimal r.scannedFiles), ("skipped_files", decimal r.skippedFiles),
      ("ok", Json.bool r.ok), ("issues", Json.array 1 (r.issues.map (Issue.json 2))),
      ("skipped", Json.array 1 (r.skipped.map (Skipped.json 2)))] ++ ['\n']

end MarkdownLinks
