import DurableQueue.Text.Printable
import DurableQueue.Text.Combining

/-!
# Quoted text

A text as it is shown inside a message: between double quotes, with a backslash before a
double quote or a backslash, with the short escapes of tab, line feed, carriage return and
NUL, and with the code point in braces for any other character that cannot be seen. A
single quote stays as it is.
-/

namespace DurableQueue.Text

/-- A code point in lower-case hexadecimal, between braces. -/
def codePoint (c : Char) : List Char :=
  ['\\', 'u', '\x7b'] ++ Nat.toDigits 16 c.toNat ++ ['\x7d']

/-- A character as it is shown between double quotes. -/
def escape (c : Char) : List Char :=
  match c with
  | '\x00' => ['\\', '0']
  | '\t' => ['\\', 't']
  | '\n' => ['\\', 'n']
  | '\r' => ['\\', 'r']
  | '"' => ['\\', '"']
  | '\\' => ['\\', '\\']
  | c => if isPrintable c && !isCombining c then [c] else codePoint c

/-- A text between double quotes. -/
def quote (s : String) : String := String.ofList ('"' :: s.toList.flatMap escape ++ ['"'])

/-- A character that shows as itself is neither a quote nor a backslash. -/
theorem escape_eq_singleton {c : Char} (h : escape c = [c]) : c ≠ '"' ∧ c ≠ '\\' := by
  constructor <;> rintro rfl <;> simp [escape] at h

example : quote "a\"b\\c\td" = "\"a\\\"b\\\\c\\td\"" := by decide +kernel
example : quote "e\u0301 x\u00a0" = "\"e\\u\x7b301\x7d x\\u\x7ba0\x7d\"" := by decide +kernel

end DurableQueue.Text
