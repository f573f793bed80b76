import LiveSchema.Error
import LiveSchema.NameMap

/-!
# Directories

The files of a project lie in one directory, which maps the names of files to their texts.  Files are
read and written by paths that start in the directory.  Not every path leads to a file of the
directory; writing under such a path fails.
-/

namespace LiveSchema

/-- The texts of files, by name. -/
abbrev Directory := NameMap String

namespace Directory

/-- The most bytes that the name of a file may have. -/
def maxNameSize : Nat := 255

/-- Whether a file of a directory can have a name. -/
def admits (file : String) : Bool :=
  file.utf8ByteSize ≤ maxNameSize && file.toList.all fun c => c ≠ '/' && c ≠ '\x00'

/-- The name of the file that a path leads to.  The path may stay in the directory by steps that are
empty or a single point; it leads nowhere through other directories, nor from the root. -/
def fileAt? (path : String) : Option String :=
  let characters := path.toList
  let steps := characters.splitOn '/'
  let file := String.ofList (steps.getLastD [])
  let stays := steps.dropLast.all fun step => step = [] || step = ['.']
  if characters.head? ≠ some '/' ∧ stays ∧ admits file then some file else none

/-- The text of the file that a path leads to. -/
def read? (files : Directory) (path : String) : Option String :=
  (fileAt? path).bind files.get?

/-- Writes the file that a path leads to, over one that is there. -/
def write (files : Directory) (path text : String) : Except Error Directory :=
  match fileAt? path with
  | some file => .ok (files.insert file text)
  | none => .error (.persistence path)

/-- Adds a text at the end of the file that a path leads to. -/
def append (files : Directory) (path text : String) : Except Error Directory :=
  files.write path (((files.read? path).getD "") ++ text)

/-- Writes files one after the other, up to the first that cannot be written. -/
def writeAll (files : Directory) : List (String × String) → Directory × Except Error Unit
  | [] => (files, .ok ())
  | (path, text) :: rest =>
    match files.write path text with
    | .ok files => writeAll files rest
    | .error error => (files, .error error)

end Directory
end LiveSchema
