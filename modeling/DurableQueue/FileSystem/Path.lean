import DurableQueue.Text.Encoding

/-!
# Paths

A path is a text whose parts are set off by slashes; what a path leads to is decided part by
part. A part is a `Name`: a text, or, for the names that only a listing can bring up, bytes
that spell none. `join` puts a name under a directory and keeps the text of both as they
are, so that a path is shown the way it was written.
-/

namespace DurableQueue.FileSystem

/-- The name of a directory entry. -/
inductive Name where
  | text (s : String)
  /-- Bytes that are not the form of any text. -/
  | raw (bs : Bytes)
  deriving DecidableEq, Repr

namespace Name

/-- The name that bytes spell. -/
def ofBytes (bs : Bytes) : Name :=
  match Text.decode bs with
  | some s => text s
  | none => raw bs

/-- The bytes of a name. -/
def bytes : Name → Bytes
  | text s => Text.encode s
  | raw bs => bs

/-- The text of a name, if it is one. -/
def toText? : Name → Option String
  | text s => some s
  | raw _ => none

/-- A name as it is shown. -/
def shown : Name → String
  | text s => s
  | raw bs => Text.decodeLossy bs

/-- The longest name, in bytes, that a directory can hold. -/
def maxSize : Nat := 255

/-- Whether a name is too long for any directory. -/
def isTooLong (n : Name) : Bool := maxSize < n.bytes.length

theorem ofBytes_encode (s : String) : ofBytes (Text.encode s) = text s := by
  simp [ofBytes, Text.decode_encode]

theorem bytes_ofBytes (bs : Bytes) : (ofBytes bs).bytes = bs := by
  unfold ofBytes
  split
  · next s h => exact (Text.eq_encode_of_decode h).symm
  · rfl

end Name

namespace Path

/-- Whether a path starts at the root. -/
def isAbsolute (path : String) : Bool := path.toList.head? == some '/'

/-- Whether a path ends in a slash. -/
def endsOpen (path : String) : Bool := path.toList.getLast? == some '/'

/-- The path of `name` in `dir`. A name that starts at the root stands alone. -/
def join (dir name : String) : String :=
  if isAbsolute name then name
  else if dir.isEmpty || endsOpen dir then dir ++ name
  else dir ++ "/" ++ name

/-- The names between the slashes. -/
def names (path : String) : List Name :=
  ((path.toList.splitOn '/').filter (· ≠ [])).map fun cs => .text (String.ofList cs)

/-- The parts that lead to what a path means: its names, and after a slash at the end a dot,
since what such a path means must be a directory. -/
def parts (path : String) : List Name :=
  names path ++ if endsOpen path then [.text "."] else []

/-- Whether a path holds a NUL, which no system call accepts. -/
def hasNul (path : String) : Bool := path.toList.contains '\x00'

/-- Whether two paths have the same parts, a dot between other parts not counting. -/
def same (p q : String) : Bool :=
  let dotless (ns : List Name) : List Name :=
    match ns with
    | [] => []
    | n :: rest => n :: rest.filter (· ≠ .text ".")
  let tidy (path : String) : List Name :=
    if isAbsolute path then (names path).filter (· ≠ .text ".") else dotless (names path)
  isAbsolute p == isAbsolute q && tidy p == tidy q

theorem join_of_isAbsolute {dir name : String} (h : isAbsolute name = true) :
    join dir name = name := if_pos h

example : join "a" "b" = "a/b" ∧ join "a/" "b" = "a/b" ∧ join "" "b" = "b" ∧
    join "a" "/b" = "/b" := by decide +kernel

end Path

end DurableQueue.FileSystem
