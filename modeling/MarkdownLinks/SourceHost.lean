import MarkdownLinks.Code.Hidden
import MarkdownLinks.Link.Enclosed
import MarkdownLinks.Text.Percent

/-! Links to source files. Documents link to the sources of their repository by paths; on the page of a
documentation site the same links lead to the place where the repository is hosted. A path that ends in
a segment with a dot names a file, every other path a directory. Links inside code stay as they are. -/

namespace MarkdownLinks

/-- What a path names, judged by its last segment. -/
inductive PathShape where
  | file
  | directory
  deriving DecidableEq

namespace PathShape

/-- A last segment with a dot in it names a file. -/
def ofPath (path : Text) : PathShape :=
  if (path.reverse.takeWhile (· != '/')).contains '.' then .file else .directory

/-- The part of a URL by which the host tells files from directories. -/
def urlSegment : PathShape → Text
  | .file => "blob".toList
  | .directory => "tree".toList

end PathShape

/-- Where the sources of a repository are hosted, and which targets name them. -/
structure SourceHost where
  repository : Text := "https://github.com/wallstop/DxMessaging".toList
  branch : Text := "master".toList
  /-- Targets that begin with one of these name a source. -/
  sourceRoots : List Text := ["Runtime/", "Tests/", "Editor/", "Samples~/"].map String.toList
  deriving DecidableEq

namespace SourceHost

/-- Whether a target names a source. -/
def isSource (host : SourceHost) (target : Text) : Bool :=
  host.sourceRoots.any fun root => root.isPrefixOf target

/-- The URL of the repository without the slashes at its end. -/
def base (host : SourceHost) : Text := (host.repository.reverse.dropWhile (· == '/')).reverse

/-- The URL of a source at the host. -/
def url (host : SourceHost) (path : Text) : Text :=
  host.base ++ '/' :: ((PathShape.ofPath path).urlSegment ++
    '/' :: (host.branch ++ '/' :: Percent.encodePath path))

/-- A link with the URL of its source for a target, if it has a source. -/
def relink (host : SourceHost) (link : Link) : Link :=
  if host.isSource link.target then ⟨link.text, host.url link.target⟩ else link

/-- Every link to a source replaced by a link to its URL, in code too. -/
def relinkAll (host : SourceHost) (text : Text) : Text :=
  Link.enclosed.replace (fun link => (host.relink link).write) text

/-- Every link to a source outside code replaced by a link to its URL. -/
def publish (host : SourceHost) (text : Text) : Text := Code.editAround host.relinkAll text

end SourceHost

end MarkdownLinks
