import DemandPaging.Fault

/-!
# Files

Programs and traces are read from a directory of named files.  A path is
first put in normal form: components separated by one slash, no empty or
`.` components, `..` kept as it is; a path with no components is `.`.  A
path that starts with exactly two slashes keeps both, one that starts with
one or with three or more keeps one.  The normal form is also how messages
show the path.

Opening a path follows the system's rules.  A path holding a null character
cannot be named at all.  A path of `pathLimit` bytes or more is too long, and
so is a component of more than `nameLimit` bytes when it is looked up.
Opening walks the components from the directory: a component naming a file
cannot be walked through (not a directory), a missing name is not found,
and a path that ends at a directory cannot be read as a file.  Above the
directory lies a directory with none of its files.
-/

namespace DemandPaging

/-- Where a path starts: at the working directory, or at the root, which a
path written with exactly two leading slashes names with two. -/
inductive Anchor where
  | here
  | root
  | doubleRoot
  deriving DecidableEq, Repr

/-- The leading slashes of a path's normal form. -/
def Anchor.text : Anchor → String
  | .here => ""
  | .root => "/"
  | .doubleRoot => "//"

/-- A path in normal form: where it starts, and its components. -/
structure PathName where
  anchor : Anchor
  components : List String
  deriving DecidableEq, Repr

/-- The most bytes a path may have, its terminating null included. -/
def pathLimit : Nat := 4096

/-- The most bytes one path component may have. -/
def nameLimit : Nat := 255

namespace PathName

/-- The anchor of a path text, from its leading slashes. -/
def anchorOf (s : String) : Anchor :=
  match (s.toList.takeWhile (· = '/')).length with
  | 0 => .here
  | 2 => .doubleRoot
  | _ => .root

/-- The normal form of a path text. -/
def parse (s : String) : PathName where
  anchor := anchorOf s
  components := (s.splitOn "/").filter (fun c => c ≠ "" && c ≠ ".")

/-- The text of a path in normal form. -/
def render (p : PathName) : String :=
  let body := "/".intercalate p.components
  if p.anchor = .here && body.isEmpty then "." else p.anchor.text ++ body

/-- Whether the path holds a null character. -/
def hasNull (p : PathName) : Bool :=
  p.components.any (·.contains '\x00')

end PathName

/-- The files of one directory, by name. -/
structure Directory where
  files : List (String × List UInt8)

/-- Where files are read from: the bytes of the file at a path, or why it
cannot be opened.  Paths handed to a source hold no null character. -/
structure FileSource where
  read : PathName → Except OpenFailure (List UInt8)

/-- The bytes of the file at `p` of `src`, or the fault of a path with a null
character, or the fault `unreadable` makes of why it cannot be opened. -/
def FileSource.load (src : FileSource) (p : PathName) (unreadable : OpenFailure → Fault) :
    Except Fault (List UInt8) :=
  if p.hasNull then .error .nullInPath else (src.read p).mapError unreadable

/-- What a walk through the directory has reached. -/
inductive Place where
  /-- The directory itself. -/
  | home
  /-- A directory holding none of the directory's files. -/
  | elsewhere
  /-- A file, with its bytes. -/
  | file (bytes : List UInt8)

namespace Directory

/-- The place reached from `here` by one path component.  `..` is followed
without a look-up; any other name is looked up, and fails when too long. -/
def step (d : Directory) (here : Place) (component : String) : Except OpenFailure Place :=
  match here with
  | .file _ => .error .notDirectory
  | _ =>
    if component = ".." then .ok .elsewhere
    else if nameLimit < component.utf8ByteSize then .error .nameTooLong
    else match here with
      | .home =>
        match d.files.lookup component with
        | some bytes => .ok (.file bytes)
        | none => .error .notFound
      | _ => .error .notFound

/-- The bytes of the file at `p`, or why it cannot be opened. -/
def openFile (d : Directory) (p : PathName) : Except OpenFailure (List UInt8) := do
  if pathLimit ≤ p.render.utf8ByteSize then throw .nameTooLong
  let start : Place := if p.anchor = .here then .home else .elsewhere
  let last ← p.components.foldlM (d.step) start
  match last with
  | .file bytes => .ok bytes
  | _ => .error .isDirectory

/-- The directory as a source of files. -/
def source (d : Directory) : FileSource := ⟨d.openFile⟩

end Directory

end DemandPaging
