import ManifestPolicy.Access

/-!
# Trees of files

The files below a working directory, and how a path leads to one of them. Every name
before the last must lead to a directory, also when two dots lead up from it again. Paths
that leave the working directory lead to no file.

The system has limits of its own, on the octets of a name and of a whole path.

## Main definitions

* `FileTree`: files and directories by the names that lead to them.
* `FileTree.access`: what comes of trying to read the file a path leads to.
-/

namespace ManifestPolicy

/-- A tree of files: the names that lead to each file with its octets, and those that lead
to a directory. The directories above a listed one need not be listed. -/
structure FileTree where
  files : List (List Text × List UInt8)
  directories : List (List Text) := []

namespace FileTree

/-- The octets of the file that the names lead to directly. -/
def file? (tree : FileTree) (names : List Text) : Option (List UInt8) :=
  (tree.files.find? fun f => f.1 = names).map Prod.snd

/-- Whether the names lead directly to a directory. -/
def hasDirectory (tree : FileTree) (names : List Text) : Bool :=
  (tree.directories.any fun d => names.isPrefixOf d) ||
    tree.files.any fun f => names.isPrefixOf f.1 && names ≠ f.1

/-- What comes of a path that is too long, or has a name that is. -/
def tooLong (p : Path) : Access :=
  .failed (Text.ofString "[Errno 36] File name too long: " ++ p.display.display)

/-- Follows names from a directory to a file. -/
def follow (tree : FileTree) (p : Path) (directory : List Text) : List Text → Access
  | [] => .missing
  | name :: rest =>
    if 255 < (Utf8.encode name).length then tooLong p
    else if name = Path.up then
      if directory.isEmpty then .missing else follow tree p directory.dropLast rest
    else if rest.isEmpty then ((file? tree (directory ++ [name])).map .file).getD .missing
    else if hasDirectory tree (directory ++ [name]) then
      follow tree p (directory ++ [name]) rest
    else .missing

/-- What comes of trying to read the file a path leads to. -/
def access (tree : FileTree) (p : Path) : Access :=
  match p.malformed? with
  | some error => .malformed error
  | none =>
    if 4095 < (Utf8.encode p.display).length then tooLong p
    else if p.root.isEmpty then follow tree p [] p.names
    else .missing

end FileTree

end ManifestPolicy
