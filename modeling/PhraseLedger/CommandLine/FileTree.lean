import PhraseLedger.Text.Words

/-!
# Files by path

The program reads one file, by a path that is given to it.  A path is followed name by
name from the root directory, or from the current one if it does not begin with a
slash.  The first step that is not possible tells why the file cannot be read.

Main definitions:

- Definition {lit}`FileFault.message`: why a file cannot be read, in words.
- Definition {lit}`FileTree.read`: the bytes of the file at a path.
-/

namespace PhraseLedger

/-- Why a file cannot be read. -/
inductive FileFault where
  /-- A directory has no entry of the name. -/
  | missing
  /-- A name is looked up in something that is not a directory. -/
  | notDirectory
  /-- The path leads to a directory. -/
  | isDirectory
  /-- A name, or the path as a whole, is too long. -/
  | nameTooLong
  /-- Reading is not allowed. -/
  | denied
  /-- The path holds a zero byte. -/
  | zeroByte
  /-- Something else, in the words of the system. -/
  | other (text : String)
deriving DecidableEq, Repr

namespace FileFault

/-- The wording of a fault. -/
def message : FileFault → String
  | .missing => "No such file or directory (os error 2)"
  | .notDirectory => "Not a directory (os error 20)"
  | .isDirectory => "Is a directory (os error 21)"
  | .nameTooLong => "File name too long (os error 36)"
  | .denied => "Permission denied (os error 13)"
  | .zeroByte => "file name contained an unexpected NUL byte"
  | .other text => text

end FileFault

/-- A file, or a directory with everything in it. -/
inductive FileTree where
  | file (content : Text)
  | directory (entries : List (String × FileTree))

/-- A place in a tree, and the directories above it, the nearest one first. -/
structure Place where
  here : FileTree
  above : List FileTree

namespace Place

/-- The largest number of bytes in a name. -/
def nameLimit : Nat := 255

/-- The place that a name leads to.  An empty name and a single point lead to the
place itself, and two points lead to the directory above, if there is one. -/
def enter (place : Place) (name : String) : Except FileFault Place :=
  match place.here with
  | .file _ => .error .notDirectory
  | .directory entries =>
    if name = "" ∨ name = "." then .ok place
    else if name = ".." then
      match place.above with
      | [] => .ok place
      | parent :: above => .ok ⟨parent, above⟩
    else if nameLimit < name.utf8ByteSize then .error .nameTooLong
    else
      match entries.lookup name with
      | none => .error .missing
      | some entry => .ok ⟨entry, place.here :: place.above⟩

/-- The place that names lead to, one after the other. -/
def follow (place : Place) (names : List String) : Except FileFault Place :=
  names.foldlM enter place

end Place

namespace FileTree

/-- The least number of bytes for which a path is too long. -/
def pathLimit : Nat := 4096

/-- The place that a path leads to, which is absolute if it begins with a slash and
starts from the directory `current` otherwise. -/
def locate (root : FileTree) (current : List String) (path : String) :
    Except FileFault Place := do
  let start : Place := ⟨root, []⟩
  let start ← if path.startsWith "/" then pure start else start.follow current
  start.follow (path.splitOn "/")

/-- The bytes of the file at a path. -/
def read (root : FileTree) (current : List String) (path : String) :
    Except FileFault Text := do
  if path.contains (Char.ofNat 0) then throw .zeroByte
  if pathLimit ≤ path.utf8ByteSize then throw .nameTooLong
  match (← root.locate current path).here with
  | .file content => return content
  | .directory _ => throw .isDirectory

end FileTree

end PhraseLedger
