import ClientGen.Dictionary
import ClientGen.Document.Utf8
import ClientGen.Files.Location

/-!
# File trees

The files that a run can see, as a value: what there is at each location. The working directory, the
directories that hold it and the root are always there. A name is followed only out of a directory, and
two dots lead back to the directory that holds it.
-/

namespace ClientGen.Files

/-- What there is at a location. -/
inductive Entry where
  | file (bytes : List UInt8)
  | directory
  deriving DecidableEq, Repr

/-- Why a location cannot be followed. -/
inductive Blocked where
  | missing
  | notADirectory
  deriving DecidableEq, Repr

/-- Why a text cannot be read. -/
inductive ReadFailure where
  | blocked (b : Blocked)
  | isADirectory
  | undecodable (f : Document.Utf8.Failure)
  deriving DecidableEq, Repr

/-- A system error as it is told. -/
def systemError (number : Nat) (words : String) (l : Location) : String :=
  "[Errno " ++ toString number ++ "] " ++ words ++ ": " ++ Text.quoted l.text

/-- What is told about a text that cannot be read. -/
def ReadFailure.message (l : Location) : ReadFailure → String
  | .blocked .missing => systemError 2 "No such file or directory" l
  | .blocked .notADirectory => systemError 20 "Not a directory" l
  | .isADirectory => systemError 21 "Is a directory" l
  | .undecodable f => f.message

/-- What there is at each location, by its names. -/
abbrev Tree := Dictionary (List String) Entry

namespace Tree

/-- What there is at plain names, which hold two dots only at the front. -/
def entry? (t : Tree) (names : List String) : Option Entry :=
  if names == ["/"] || names.all (· == "..") then some .directory else Dictionary.get? t names

/-- The directory that holds plain names. -/
def holder (names : List String) : List String :=
  if names == ["/"] then names
  else if names.all (· == "..") then ".." :: names
  else names.dropLast

/-- The plain names that a name leads to from a directory. -/
def enter (here : List String) (name : String) : List String :=
  if name == ".." then holder here else here ++ [name]

/-- The plain names that names lead to from a directory. -/
def follow (t : Tree) (here : List String) : List String → Except Blocked (List String)
  | [] => .ok here
  | name :: rest =>
    match t.entry? here with
    | none => .error .missing
    | some (.file _) => .error .notADirectory
    | some .directory => t.follow (enter here name) rest

/-- What there is at a location. -/
def look (t : Tree) (l : Location) : Except Blocked Entry := do
  match t.entry? (← t.follow [] l.names) with
  | some e => return e
  | none => throw .missing

/-- The text with every line end written as a line feed. -/
def plainLines : List Char → List Char
  | '\r' :: '\n' :: rest => '\n' :: plainLines rest
  | '\r' :: rest => '\n' :: plainLines rest
  | c :: rest => c :: plainLines rest
  | [] => []

/-- The text of a file. -/
def readText (t : Tree) (l : Location) : Except ReadFailure String :=
  match t.look l with
  | .error b => .error (.blocked b)
  | .ok .directory => .error .isADirectory
  | .ok (.file bytes) =>
    match Document.Utf8.decode bytes with
    | .ok cs => .ok (.ofList (plainLines cs))
    | .error f => .error (.undecodable f)

/-- Put a file at names, with the directories that hold it. -/
def putFile (t : Tree) (names : List String) (bytes : List UInt8) : Tree :=
  let holders := (List.range names.length).map fun n => (names.take n, Entry.directory)
  Dictionary.put (Dictionary.overlay t (holders.drop 1)) names (.file bytes)

end Tree

end ClientGen.Files
