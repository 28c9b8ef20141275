import DurableQueue.Text.Quoted

/-!
# Log formats

A log is written as text for people or as one object per notice for programs. The name of a
format is read without regard to the case of ASCII letters.
-/

namespace DurableQueue.Logging

/-- How a log is written. -/
inductive Format where
  | json
  | text
  deriving DecidableEq, Repr

namespace Format

/-- The format that is used unless another is asked for. -/
def standard : Format := .text

/-- The name of a format. -/
def name : Format → String
  | json => "json"
  | text => "text"

/-- `s` with its ASCII letters in lower case. -/
def lower (s : String) : String := String.ofList (s.toList.map Char.toLower)

/-- The format with exactly this name. -/
def ofName? : String → Option Format
  | "json" => some json
  | "text" => some text
  | _ => none

/-- The format that a user names, or what to tell who named none. -/
def parse (s : String) : Except String Format :=
  match ofName? (lower s) with
  | some f => .ok f
  | none => .error s!"unknown log format {Text.quote (lower s)}, expected text or json"

theorem ofName?_name (f : Format) : ofName? f.name = some f := by cases f <;> rfl

end Format

end DurableQueue.Logging
