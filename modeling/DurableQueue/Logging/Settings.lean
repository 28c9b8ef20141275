import DurableQueue.Logging.Format

/-!
# Settings of the log

Settings arrive as a value: an object whose fields are looked at in the order of their
names, or an array with the fields in the order in which they are declared. A field that is
missing keeps its standard value, and a field that nobody knows is passed over. What is
wrong with a value is told by the first field that does not fit.
-/

namespace DurableQueue.Logging

/-- A value as settings are given in. -/
inductive Value where
  | null
  | bool (b : Bool)
  | int (n : Int)
  | string (s : String)
  | array (items : List Value)
  | object (fields : List (String × Value))
  deriving Inhabited

/-- How a log is kept. -/
structure Settings where
  /-- The directory for log files; none are written if it is empty. -/
  dir : String := ""
  /-- Which notices are kept. -/
  level : Option String := none
  format : Format := .standard
  maxFiles : Nat := 720
  appendStdout : Bool := true
  useStderr : Bool := false
  deriving DecidableEq, Repr

namespace Value

/-- What a value is called when it does not fit. -/
def describe : Value → String
  | null => "null"
  | bool b => s!"boolean `{b}`"
  | int n => s!"integer `{n}`"
  | string s => s!"string {Text.quote s}"
  | array _ => "sequence"
  | object _ => "map"

/-- The complaint about a value of the wrong kind. -/
def misfit (v : Value) (expected : String) : String :=
  s!"invalid type: {v.describe}, expected {expected}"

/-- A text. -/
def toText : Value → Except String String
  | string s => .ok s
  | v => .error (v.misfit "a string")

/-- A truth value. -/
def toBool : Value → Except String Bool
  | bool b => .ok b
  | v => .error (v.misfit "a boolean")

/-- A count. -/
def toCount : Value → Except String Nat
  | int (.ofNat n) => .ok n
  | v@(int (.negSucc _)) => .error s!"invalid value: {v.describe}, expected usize"
  | v => .error (v.misfit "usize")

/-- A log format; the empty text means the standard one. Unlike on the command line the case
of its letters matters. -/
def toFormat (v : Value) : Except String Format := do
  let s ← v.toText
  if s = "" then return .standard
  match Format.ofName? s with
  | some f => return f
  | none =>
    throw (s!"invalid value, expect empty string, err: unknown variant `{s}`" ++
      ", expected `json` or `text`")

end Value

namespace Settings

/-- The names of the fields, in the order of their declaration. -/
def fieldNames : List String :=
  ["dir", "level", "log_format", "max_log_files", "append_stdout", "use_stderr"]

/-- The settings with one field taken from a value. -/
def set (s : Settings) (field : String) (v : Value) : Except String Settings :=
  match field with
  | "dir" => do return { s with dir := ← v.toText }
  | "level" =>
    match v with
    | .null => .ok { s with level := none }
    | v => do return { s with level := some (← v.toText) }
  | "log_format" => do return { s with format := ← v.toFormat }
  | "max_log_files" => do return { s with maxFiles := ← v.toCount }
  | "append_stdout" => do return { s with appendStdout := ← v.toBool }
  | "use_stderr" => do return { s with useStderr := ← v.toBool }
  | _ => .ok s

/-- The settings with fields taken from values, one after the other. -/
def setAll (s : Settings) (fields : List (String × Value)) : Except String Settings :=
  fields.foldlM (fun s f => s.set f.1 f.2) s

/-- Fields in the order of their names. -/
def sorted (fields : List (String × Value)) : List (String × Value) :=
  fields.mergeSort fun a b => a.1 ≤ b.1

/-- The settings that a value holds, or what is wrong with it. -/
def ofValue : Value → Except String Settings
  | .object fields => setAll {} (sorted fields)
  | .array items => do
    let s ← setAll {} (fieldNames.zip items)
    if items.length ≤ fieldNames.length then return s
    throw s!"invalid length {items.length}, expected fewer elements in array"
  | v => .error (v.misfit "struct LoggingOptions")

end Settings

end DurableQueue.Logging
