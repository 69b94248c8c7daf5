/-!
# Files.Tree — a tree of files and directories

Entries are found by the names on the way from the root.  A path is followed name by name from the root or from the
working directory: each name but the last has to be a directory, `.` stays and `..` goes up.  What is refused, and
with which words, is what a POSIX system does.
-/

namespace LogCorrelation.Files

/-- Why a path cannot be used. -/
inductive Fault
  | notFound
  | notADirectory
  | isADirectory
  | nameTooLong
  /-- The path holds a character that ends a name for the system. -/
  | nul
deriving DecidableEq, Repr

/-- The system's words for a fault. -/
def Fault.message : Fault → String
  | .notFound => "No such file or directory (os error 2)"
  | .notADirectory => "Not a directory (os error 20)"
  | .isADirectory => "Is a directory (os error 21)"
  | .nameTooLong => "File name too long (os error 36)"
  | .nul => "file name contained an unexpected NUL byte"

/-- What stands at a place of the tree. -/
inductive Entry (α : Type)
  | file (content : α)
  | directory

/-- A tree of files with content in `α`, and the working directory in it. -/
structure Tree (α : Type) where
  workingDirectory : List String
  entries : List (List String × Entry α)

namespace Tree

variable {α : Type}

/-- The entry at a place; the root is always a directory. -/
def find? (t : Tree α) (place : List String) : Option (Entry α) :=
  if place = [] then some .directory else t.entries.lookup place

/-- Puts content into the file at a place, a new one if there is none. -/
def put (t : Tree α) (place : List String) (content : α) : Tree α :=
  { t with entries := (place, .file content) :: t.entries.filter (·.1 ≠ place) }

theorem find?_put_self (t : Tree α) {place : List String} (h : place ≠ []) (content : α) :
    (t.put place content).find? place = some (.file content) := by
  simp [find?, put, h]

theorem lookup_filter_ne {β : Type} {place other : List String} (h : other ≠ place)
    (entries : List (List String × β)) :
    (entries.filter (·.1 ≠ place)).lookup other = entries.lookup other := by
  induction entries with
  | nil => rfl
  | cons e rest ih =>
    by_cases he : e.1 = place
    · have : (other == e.1) = false := by simp [he, h]
      rw [List.filter_cons_of_neg (by simp [he]), ih, List.lookup_cons, this]
    · rw [List.filter_cons_of_pos (by simp [he]), List.lookup_cons, List.lookup_cons, ih]

theorem find?_put_of_ne (t : Tree α) {place other : List String} (h : other ≠ place) (content : α) :
    (t.put place content).find? other = t.find? other := by
  have : (other == place) = false := by simp [h]
  simp only [find?, put, List.lookup_cons, this, lookup_filter_ne h]

/-! ### Paths -/

/-- The greatest number of bytes in a name. -/
def nameLimit : Nat := 255

/-- The greatest number of bytes in a path. -/
def pathLimit : Nat := 4095

/-- The entry at a place; the name that leads to it must not be too long. -/
def visit (t : Tree α) (place : List String) : Except Fault (Option (Entry α)) :=
  if place.getLast?.any (nameLimit < ·.utf8ByteSize) then .error .nameTooLong else .ok (t.find? place)

/-- The directory that names lead to from another one. -/
def enter (t : Tree α) (start : List String) : List String → Except Fault (List String)
  | [] => .ok start
  | name :: rest =>
    if name = "." then enter t start rest
    else if name = ".." then enter t start.dropLast rest
    else
      match t.visit (start ++ [name]) with
      | .error fault => .error fault
      | .ok (some .directory) => enter t (start ++ [name]) rest
      | .ok (some (.file _)) => .error .notADirectory
      | .ok none => .error .notFound

/-- Where a path leads. -/
inductive Target
  /-- To a directory that exists. -/
  | directory
  /-- To a place in a directory that exists; a slash at the end asks for a directory there. -/
  | place (names : List String) (slash : Bool)

/-- The names in a path. -/
def names (path : String) : List String :=
  ((path.toList.splitOn '/').filter (· ≠ [])).map String.ofList

/-- Follows a path. -/
def follow (t : Tree α) (path : String) : Except Fault Target := do
  if path.toList.contains '\x00' then .error .nul
  if path = "" then .error .notFound
  if pathLimit < path.utf8ByteSize then .error .nameTooLong
  let start := if path.toList.head? = some '/' then [] else t.workingDirectory
  match (names path).getLast? with
  | none => .ok .directory
  | some last =>
    if last = "." ∨ last = ".." then
      let _ ← t.enter start (names path)
      .ok .directory
    else
      let parent ← t.enter start (names path).dropLast
      .ok (.place (parent ++ [last]) (path.toList.getLast? == some '/'))

/-! ### Reading and writing -/

/-- What opening a path for reading gives. -/
inductive Opened (α : Type)
  | content (a : α)
  /-- A directory can be opened, but not read. -/
  | directory

/-- Opens a path for reading. -/
def openFile (t : Tree α) (path : String) : Except Fault (Opened α) := do
  match ← t.follow path with
  | .directory => .ok .directory
  | .place names slash =>
    match ← t.visit names with
    | none => .error .notFound
    | some .directory => .ok .directory
    | some (.file a) => if slash then .error .notADirectory else .ok (.content a)

/-- The content of the file at a path. -/
def read (t : Tree α) (path : String) : Except Fault α := do
  match ← t.openFile path with
  | .directory => .error .isADirectory
  | .content a => .ok a

/-- The tree after content has been written to the file at a path; a slash at its end is refused before the name is
looked up. -/
def write (t : Tree α) (path : String) (content : α) : Except Fault (Tree α) := do
  match ← t.follow path with
  | .directory => .error .isADirectory
  | .place names slash =>
    if slash then .error .isADirectory
    match ← t.visit names with
    | some .directory => .error .isADirectory
    | _ => .ok (t.put names content)

end Tree

end LogCorrelation.Files
