import MarkdownLinks.CommandLine.Run
import MarkdownLinks.FileTree.Make

/-! The program. It takes a snapshot of the part of the disk that a command may look at, runs the command
line over the snapshot, prints what the run prints, and writes the files that the run has changed. In
the snapshot a symbolic link leads straight to where the chain of links ends, and one that leads nowhere
has a target that fails in the same way; a link to something that may be created by writing to it is left
out. What the system refuses is refused in the snapshot; a write that it refuses is known only when it is
tried, and the command line is run once more then. Arguments and names come to the program as strings, so
those that are not UTF-8 are not what they were. -/

namespace MarkdownLinks

/-- A part of the disk as a file tree. -/
structure Snapshot where
  tree : FileTree := .empty
  /-- The directories whose contents are in the tree. -/
  entered : List Location := []

namespace Snapshot

/-- What is on the disk at an absolute path. -/
def onDisk (path : String) : IO.FS.DirEntry := ⟨"/", path⟩

def locationOf (path : String) : Location := (path.toList.splitOn '/').filter (· ≠ [])

def pathOf (location : Location) : String :=
  String.ofList (location.flatMap fun name => '/' :: name)

/-- The fault that an error of the system stands for. Some calls give its code the opposite sign. -/
def faultOf : IO.Error → FileTree.Fault
  | .noFileOrDirectory .. => .notFound
  | .inappropriateType _ code _ => if min code (0 - code) = 20 then .notADirectory else .isADirectory
  | .invalidArgument _ code details =>
      match min code (0 - code) with
      | 36 => .nameTooLong
      | 40 => .tooManyLinks
      | _ => refused code details
  | .permissionDenied _ code details | .resourceExhausted _ code details => refused code details
  | .resourceBusy code details | .hardwareFault code details | .otherError code details => refused code details
  | e => .refused (toString e).toList
where
  refused (code : UInt32) (details : String) : FileTree.Fault :=
    .refused (details ++ " (os error " ++ toString (min code (0 - code)) ++ ")").toList

/-- The place that a path leads to, or why it leads nowhere. -/
def real (path : String) : BaseIO (Except FileTree.Fault String) := do
  let result ← EIO.toBaseIO do
    let _ ← (onDisk path).path.metadata
    return (← IO.FS.realPath path).toString
  return result.mapError faultOf

/-- A file that every disk has. -/
def nullDevice : Location := ["dev".toList, "null".toList]

/-- A directory that no disk has, in which no name is looked up. -/
def closedDirectory (message : Text) : Location := nullDevice.dropLast ++ ['\x00' :: message.filter (· ≠ '/')]

/-- A target for a link, such that following the link ends in the same fault as on the disk. -/
def deadEnd (link : String) : FileTree.Fault → Text
  | .notADirectory => (pathOf nullDevice ++ "/.").toList
  | .nameTooLong => List.replicate (FileTree.maxNameBytes + 1) '-'
  | .tooManyLinks => link.toList
  | _ => []

/-- Whether something on the disk is a directory, and no link to one. -/
def isDirectory (entry : IO.FS.DirEntry) : BaseIO Bool := do
  match ← EIO.toBaseIO entry.path.symlinkMetadata with
  | .ok data => return data.type == .dir
  | .error _ => return false

/-- Which parts of the disk a snapshot takes in. -/
structure Extent where
  /-- Whether it takes in what is below directories. -/
  deep : Bool
  followLinks : Bool := true
  skipDirs : List Text := []

def put (s : Snapshot) (location : Location) (entry : Entry) : Snapshot :=
  { s with tree := s.tree.put location entry }

/-- A tree in which more is refused at a location. -/
def refuse (t : FileTree) (location : Location) (more : FileTree.Refusals → FileTree.Refusals) : FileTree :=
  { t with refusals := fun l => if l = location then more (t.refusals l) else t.refusals l }

/-- A tree in which no file is written at a location. -/
def refuseWrite (t : FileTree) (location : Location) (fault : FileTree.Fault) : FileTree :=
  if (t.entry? location).isSome then refuse t location fun r => { r with write := some fault }
  else refuse t location.dropLast fun r => { r with create := some fault }

/-- The snapshot with what is at a path, whose directory must be canonical. The bytes of a file are
taken in if they are wanted, or if it has the markdown extension. -/
partial def load (extent : Extent) (wanted : Bool) (s : Snapshot) (path : String) : IO Snapshot := do
  let location := locationOf path
  let known := (s.tree.entries.lookup location).isSome
  let plain := if known then s else s.put location (.file .empty)
  match ← EIO.toBaseIO (onDisk path).path.symlinkMetadata with
  | .error e =>
      let fault := faultOf e
      if fault = .notFound then return s
      return { plain with tree := refuse plain.tree location.dropLast fun r => { r with lookUp := some fault } }
  | .ok data =>
      match data.type with
      | .dir =>
          let s := if known then s else s.put location .directory
          if !extent.deep || s.entered.contains location then return s
          let s := { s with entered := location :: s.entered }
          match ← EIO.toBaseIO (onDisk path).path.readDir with
          | .error e => return { s with tree := refuse s.tree location fun r => { r with list := some (faultOf e) } }
          | .ok entries =>
              entries.foldlM (fun s entry => do
                if extent.skipDirs.contains entry.fileName.toList && (← isDirectory entry) then return s
                load extent false s entry.path.toString) s
      | .symlink =>
          match ← real path with
          | .ok target =>
              let s := s.put location (.link target.toList)
              if extent.followLinks then load extent true s target else return s
          | .error (.refused message) =>
              let closed := closedDirectory message
              let s := (s.put closed .directory).put location (.link (pathOf closed ++ "/.").toList)
              return { s with tree := refuse s.tree closed fun r => { r with lookUp := some (.refused message) } }
          | .error fault =>
              if fault = .notFound && !extent.deep then return s
              return s.put location (.link (deadEnd path fault))
      | _ =>
          if !wanted && !Path.isMarkdown path.toList then return plain
          match ← EIO.toBaseIO (IO.FS.readBinFile path) with
          | .ok bytes => return s.put location (.file bytes)
          | .error e =>
              return { plain with tree := refuse plain.tree location fun r => { r with read := some (0, faultOf e) } }

/-- The snapshot with everything that leads to a path, and what is there. -/
def loadPath (extent : Extent) (s : Snapshot) (path : Text) : IO Snapshot := do
  let mut s := s
  let mut reached := (← IO.currentDir).toString
  if path.head? = some '/' then reached := "/"
  for name in path.splitOn '/' do
    match ← real reached with
    | .error _ => return s
    | .ok directory =>
        reached := directory ++ "/" ++ String.ofList name
        if !List.contains ["".toList, ".".toList, "..".toList] name then
          s ← load { deep := false } true s reached
  match ← real reached with
  | .error _ => return s
  | .ok target => load extent true s target

/-- The file tree of a snapshot for some paths, with all directories that its entries lie in. -/
def take (extent : Extent) (paths : List Text) : IO FileTree := do
  let working := locationOf (← IO.currentDir).toString
  let s ← paths.foldlM (loadPath extent) (({} : Snapshot).put nullDevice (.file .empty))
  let directories := working :: s.tree.entries.map fun e => e.1.dropLast
  match directories.foldlM (fun t names => (t.makeDirectories [] names).map Prod.fst) s.tree with
  | .ok t => return { t with working := working }
  | .error fault => throw (.userError (String.ofList fault.message))

/-- The file tree for a command. -/
def ofCommand : CommandLine.Command → IO FileTree
  | .scan c =>
      let extent := { deep := true, followLinks := c.search.followLinks, skipDirs := c.search.skipDirs }
      take extent c.search.paths
  | .publish c => take { deep := false } (c.source?.toList ++ c.output.toList)

/-- Writes a file, if the system lets it. -/
def tryWrite (location : Location) (bytes : ByteArray) : BaseIO (Option FileTree.Fault) := do
  match ← EIO.toBaseIO (IO.FS.writeBinFile (pathOf location) bytes) with
  | .ok () => return none
  | .error e => return some (faultOf e)

/-- Writes the files that are new or different in the second tree, up to one that the system refuses,
and tells why it does. -/
def writeBack (before after : FileTree) : BaseIO (Option (Location × FileTree.Fault)) :=
  after.entries.findSomeM? fun (location, entry) => do
    match entry with
    | .file bytes =>
        let same := match before.entry? location with
          | some (.file old) => old.data == bytes.data
          | _ => false
        if same then return none
        return (← tryWrite location bytes).map fun fault => (location, fault)
    | _ => return none

end Snapshot

end MarkdownLinks

open MarkdownLinks in
def main (args : List String) : IO UInt32 := do
  let args := args.map String.toList
  let request := CommandLine.requestOf args
  let (t, stdin) ← match request with
    | some (.run c) => do
        let t ← Snapshot.ofCommand c
        let stdin ← if c.readsStandardInput then (← IO.getStdin).readBinToEnd else pure .empty
        pure (t, stdin)
    | _ => pure (FileTree.empty, .empty)
  let outcome := CommandLine.run t stdin args
  let outcome ← match ← Snapshot.writeBack t outcome.tree with
    | none => pure outcome
    | some (location, fault) => pure (CommandLine.run (Snapshot.refuseWrite t location fault) stdin args)
  IO.print (String.ofList outcome.stdout)
  IO.eprint (String.ofList outcome.stderr)
  return outcome.code.toUInt32
