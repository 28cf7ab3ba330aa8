/-
Files as a path finds them.

The working directory has the files a desk is given, and the directories that
their paths imply. Of what lies outside it nothing is known but that there are
directories above it, the directories at the root that every system has, and the
null device, which reads as empty.

A path is followed part by part, as its slashes divide it. An empty part and `.`
stay where they are and `..` goes up, but all three, like a name, can only be
followed in a directory. So a slash after the name of a file fails, and the first
part that cannot be followed decides how the path fails (`FileError`).
-/
import LineScript.Table

namespace LineScript

/-- Why a file cannot be read. -/
inductive FileError
  /-- The path holds a null character. -/
  | nullCharacter
  /-- There is nothing of that name. -/
  | notFound
  /-- The path goes on after a file. -/
  | notDirectory
  /-- The path leads to a directory. -/
  | isDirectory
  /-- A name or the whole path is longer than the system allows. -/
  | nameTooLong
  deriving DecidableEq

/-- The wording of a reason, with the number the system gives it. -/
def FileError.text : FileError → String
  | .nullCharacter => "file name contained an unexpected NUL byte"
  | .notFound => "No such file or directory (os error 2)"
  | .notDirectory => "Not a directory (os error 20)"
  | .isDirectory => "Is a directory (os error 21)"
  | .nameTooLong => "File name too long (os error 36)"

/-- Where the names that lead to a place begin. -/
inductive Origin
  /-- The working directory. -/
  | working
  /-- A directory above the working directory. -/
  | above
  /-- The root directory of the system. -/
  | root
  deriving DecidableEq

/-- Where the directory above lies. The root directory stands in itself. -/
def Origin.up : Origin → Origin
  | .working => .above
  | .above => .above
  | .root => .root

/-- A place where a file or directory may be. -/
structure Place where
  origin : Origin
  /-- The names that lead there, the last one first. -/
  names : List String := []
  deriving DecidableEq

namespace Place

/-- The place of a name in a directory. -/
def child (p : Place) (name : String) : Place := { p with names := name :: p.names }

/-- The directory above. -/
def parent (p : Place) : Place :=
  match p.names with
  | [] => ⟨p.origin.up, []⟩
  | _ :: names => { p with names }

@[simp]
theorem parent_child (p : Place) (name : String) : (p.child name).parent = p := rfl

end Place

/-- What is at a place. -/
inductive Entry
  | file (text : String)
  | directory
  deriving DecidableEq

/-- Files and directories at their places. -/
structure FileTree where
  files : List (Place × String) := [(⟨.root, ["null", "dev"]⟩, "")]
  directories : List Place :=
    ["bin", "boot", "dev", "etc", "home", "lib", "media", "mnt", "opt", "run", "sbin", "srv",
     "tmp", "usr", "var"].map fun name => ⟨.root, [name]⟩

namespace FileTree

/-- The longest name in a directory, in bytes. -/
def maxName : Nat := 255

/-- The longest path, in bytes. -/
def maxPath : Nat := 4095

/-- The parts of a path between its slashes. There is always one, maybe empty. -/
def parts (path : List Char) : List (List Char) :=
  path.foldr
    (fun c rest =>
      if c = '/' then [] :: rest
      else (c :: rest.headD []) :: rest.tail)
    [[]]

/-- Where a path begins: at the root if it begins with a slash. -/
def originOf (path : List Char) : Origin :=
  if path.head? = some '/' then .root else .working

/-- Adds a file to the working directory. Its path names the directories on the
way. -/
def add (t : FileTree) (path text : String) : FileTree :=
  let names := (parts path.toList).map String.ofList
  { t with files := (⟨.working, names.reverse⟩, text) :: t.files }

/-- A file lies below the place. -/
def isAbove (t : FileTree) (p : Place) : Bool :=
  t.files.any fun f => f.1.origin = p.origin && p.names.isSuffixOf f.1.names

/-- What is at a place, if there is anything. -/
def entry? (t : FileTree) (p : Place) : Option Entry :=
  match t.files.lookup p with
  | some text => some (.file text)
  | none =>
    if p.names = [] ∨ p ∈ t.directories ∨ t.isAbove p then some .directory else none

/-- Follows one part of a path from a place with an entry. -/
def follow (t : FileTree) (p : Place) (entry : Entry) (part : String) :
    Except FileError (Place × Entry) :=
  match entry with
  | .file _ => .error .notDirectory
  | .directory =>
    if part = "" ∨ part = "." then .ok (p, .directory)
    else if part = ".." then .ok (p.parent, .directory)
    else if maxName < part.utf8ByteSize then .error .nameTooLong
    else
      match t.entry? (p.child part) with
      | some entry => .ok (p.child part, entry)
      | none => .error .notFound

/-- Follows the parts of a path from a place with an entry. -/
def walk (t : FileTree) (p : Place) (entry : Entry) : List String → Except FileError Entry
  | [] => .ok entry
  | part :: rest => do
    let (p, entry) ← t.follow p entry part
    t.walk p entry rest

/-- What a path leads to. -/
def find (t : FileTree) (path : String) : Except FileError Entry :=
  let cs := path.toList
  if '\x00' ∈ cs then .error .nullCharacter
  else if cs = [] then .error .notFound
  else if maxPath < path.utf8ByteSize then .error .nameTooLong
  else t.walk ⟨originOf cs, []⟩ .directory ((parts cs).map String.ofList)

/-- The text of the file that a path leads to. -/
def read (t : FileTree) (path : String) : Except FileError String := do
  match ← t.find path with
  | .file text => .ok text
  | .directory => .error .isDirectory

/-! ### Following paths -/

@[simp]
theorem walk_nil (t : FileTree) (p : Place) (entry : Entry) : t.walk p entry [] = .ok entry := rfl

/-- No path goes on after a file. -/
theorem walk_file_cons (t : FileTree) (p : Place) (text part : String) (rest : List String) :
    t.walk p (.file text) (part :: rest) = .error .notDirectory := rfl

/-- A part that is empty or a single dot makes no difference in a directory. -/
theorem walk_directory_stay (t : FileTree) (p : Place) {part : String} (rest : List String)
    (h : part = "" ∨ part = ".") :
    t.walk p .directory (part :: rest) = t.walk p .directory rest := by
  simp only [walk, follow, if_pos h]
  rfl

end FileTree
end LineScript
