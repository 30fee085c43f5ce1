import StackVM.Text.Layout

/-!
# Files

What the commands need of files: reading all bytes of one and writing one anew, by path, in any
monad that provides `MonadFiles`. `FileTree` is such a provider, a tree of files and directories as
a value. A path is walked in it name by name: from the working directory, or from the root of the
system if it starts with a slash. Beyond the working directory nothing is known but that the
directories above it are there.

A tree is less than a system has. There are no links, so that a file has one place only, and `..`
leads back. The place of the working directory below the root is not known, so that a path with a
slash in front and one without never mean the same file. Whatever is there may be read and written:
no file is refused for its permissions, and no device fails or is full. `FileError.system` stands
for such errors, which other providers of `MonadFiles` may give; a tree never does.

* `Place.descend` says where a name leads, `FileTree.locate` where a path leads.
* `FileTree.find?_put` says what a change at one place does to all places, and
  `FileTree.write_eq_ok_iff` that writing is one such change.
-/

set_option autoImplicit false

namespace StackVM.CommandLine

inductive FileError where
  | notFound
  | notDirectory
  | isDirectory
  | nameTooLong
  | notText
  | system (description : String) (code : Nat)
  deriving DecidableEq, Repr

def FileError.message : FileError → String
  | notFound => "No such file or directory (os error 2)"
  | notDirectory => "Not a directory (os error 20)"
  | isDirectory => "Is a directory (os error 21)"
  | nameTooLong => "File name too long (os error 36)"
  | notText => "stream did not contain valid UTF-8"
  | system description code => s!"{description} (os error {code})"

/-- Reading and writing whole files. A file that is written takes the place of one at that path. -/
class MonadFiles (m : Type → Type) where
  readFile : String → m (Except FileError (List UInt8))
  writeFile : String → List UInt8 → m (Except FileError Unit)

/-! ## Paths -/

def nameLimit : Nat := 255

def pathLimit : Nat := 4095

def pathNames (path : String) : List String :=
  (Text.runs (· == '/') path.toList).map String.ofList

/-- Whether a path ends in a slash, so that it can only mean a directory. -/
def endsInSlash (path : String) : Bool := path.toList.getLast? == some '/'

/-- A place among the files: the names on the shortest way to it from the working directory. Names
`..` stand in front only; places that are reached from the root of the system have the slash as
their first name. -/
abbrev Place := List String

namespace Place

def here : Place := []

def root : Place := ["/"]

def origin (path : String) : Place := if path.toList.head? = some '/' then root else here

/-- Whether a place is the working directory or one above it, the root of the system included. These
are directories in every tree. -/
def isAnchor (place : Place) : Bool := place == root || place.all (· == "..")

/-- Where a name leads from a place. -/
def descend (place : Place) (name : String) : Place :=
  if name = "." then place
  else if name ≠ ".." then place ++ [name]
  else if place = root then root
  else if place.isAnchor then place ++ [".."]
  else place.dropLast

end Place

/-! ## Trees of files -/

inductive Entry where
  | file (bytes : List UInt8)
  | directory
  deriving DecidableEq, Repr

/-- Files and directories by their places. Of several entries at one place the first counts. -/
structure FileTree where
  entries : List (Place × Entry)
  deriving DecidableEq, Repr

namespace FileTree

def empty : FileTree := ⟨[]⟩

def find? (t : FileTree) (place : Place) : Option Entry :=
  if place.isAnchor then some .directory else t.entries.lookup place

def put (t : FileTree) (place : Place) (entry : Entry) : FileTree :=
  ⟨(place, entry) :: t.entries⟩

/-- Looks for what stands at a place, by the last of its names. -/
def lookUp (t : FileTree) (place : Place) : Except FileError (Option Entry) :=
  if place.getLast?.any (nameLimit < ·.utf8ByteSize) then .error .nameTooLong
  else .ok (t.find? place)

def enter (t : FileTree) (place : Place) : Except FileError Place := do
  match ← t.lookUp place with
  | some .directory => return place
  | some (.file _) => throw .notDirectory
  | none => throw .notFound

/-- The place to which names lead from a place, each of them to a directory. -/
def walk (t : FileTree) (place : Place) (names : List String) : Except FileError Place :=
  names.foldlM (fun place name => t.enter (place.descend name)) place

/-- The place that a path means, whether or not there is something. -/
def locate (t : FileTree) (path : String) : Except FileError Place :=
  if path = "" then .error .notFound
  else if pathLimit < path.utf8ByteSize then .error .nameTooLong
  else match (pathNames path).getLast? with
    | none => .ok (Place.origin path)
    | some name => (t.walk (Place.origin path) (pathNames path).dropLast).map (·.descend name)

def read (t : FileTree) (path : String) : Except FileError (List UInt8) := do
  match ← t.lookUp (← t.locate path) with
  | none => throw .notFound
  | some .directory => throw .isDirectory
  | some (.file bytes) => if endsInSlash path then throw .notDirectory else return bytes

/-- The tree with a file of these bytes at a path, in the place of one that is there. -/
def write (t : FileTree) (path : String) (bytes : List UInt8) : Except FileError FileTree := do
  let place ← t.locate path
  if endsInSlash path then throw .isDirectory
  if (← t.lookUp place) = some .directory then throw .isDirectory
  return t.put place (.file bytes)

/-- The tree with an entry at a path, and with directories at the places above it. -/
def install (t : FileTree) (path : String) (entry : Entry) : FileTree :=
  let place := (pathNames path).foldl Place.descend (Place.origin path)
  let above := (List.range place.length).map place.take
  (above.foldl (fun t place => t.put place .directory) t).put place entry

/-! ## Changes -/

/-- What is put at a place stands there, and every other place is as before. -/
theorem find?_put (t : FileTree) {place : Place} (entry : Entry) (h : place.isAnchor = false)
    (q : Place) :
    (t.put place entry).find? q = if q = place then some entry else t.find? q := by
  by_cases hq : q = place
  · simp [find?, put, hq, h]
  · have : (q == place) = false := by simpa using hq
    simp [find?, put, hq, List.lookup_cons, this]

/-- Reading finds a file at the place that the path means. -/
theorem read_eq_ok_iff {t : FileTree} {path : String} {bytes : List UInt8} :
    t.read path = .ok bytes ↔ ∃ place, t.locate path = .ok place ∧ endsInSlash path = false ∧
      t.lookUp place = .ok (some (.file bytes)) := by
  unfold read
  rcases hl : t.locate path with e | place
  · simp [bind, Except.bind]
  rcases hs : t.lookUp place with e | _ | ⟨content⟩ | _
  · simp [bind, Except.bind, hs]
  · simp [bind, Except.bind, hs, throw, throwThe, MonadExceptOf.throw]
  · by_cases hslash : endsInSlash path
    · simp [bind, Except.bind, hs, hslash, throw, throwThe, MonadExceptOf.throw]
    · simp [bind, Except.bind, hs, hslash, pure, Except.pure]
  · simp [bind, Except.bind, hs, throw, throwThe, MonadExceptOf.throw]

/-- Writing puts one file, at the place that the path means, and never where a directory stands. -/
theorem write_eq_ok_iff {t t' : FileTree} {path : String} {bytes : List UInt8} :
    t.write path bytes = .ok t' ↔ ∃ place found, t.locate path = .ok place ∧
      endsInSlash path = false ∧ t.lookUp place = .ok found ∧ found ≠ some .directory ∧
        t' = t.put place (.file bytes) := by
  unfold write
  rcases hl : t.locate path with e | place
  · simp [bind, Except.bind]
  by_cases hslash : endsInSlash path
  · simp [bind, Except.bind, hslash, throw, throwThe, MonadExceptOf.throw]
  rcases hs : t.lookUp place with e | found
  · simp [bind, Except.bind, hs, hslash]
  by_cases hfound : found = some .directory
  · simp [bind, Except.bind, hs, hslash, hfound, throw, throwThe, MonadExceptOf.throw]
  · simp [bind, Except.bind, hs, hslash, hfound, pure, Except.pure, eq_comm]

end FileTree

instance : MonadFiles (StateM FileTree) where
  readFile path := return (← get).read path
  writeFile path bytes := do
    match (← get).write path bytes with
    | .ok t => set t; return .ok ()
    | .error e => return .error e

end StackVM.CommandLine
