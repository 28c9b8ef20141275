import DurableQueue.Logging.Format
import DurableQueue.Notice

/-!
# Lines of a log

How one notice is written: in words for people, or as an object for programs.
-/

namespace DurableQueue.Logging.Format

/-- The line of a notice. -/
def line : Format → Notice → String
  | text, n => s!"{n.severity.label} {n.target}: {n.title}"
  | json, n =>
    let field (key value : String) : String := s!"{Text.quote key}:{Text.quote value}"
    let fields := [field "level" n.severity.label, field "target" n.target,
      field "message" n.title]
    "\x7b" ++ ",".intercalate fields ++ "\x7d"

end DurableQueue.Logging.Format
