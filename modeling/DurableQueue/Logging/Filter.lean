import DurableQueue.Logging.Settings
import DurableQueue.Notice
import DurableQueue.Text.Decimal
import DurableQueue.Word

/-!
# Log filters

A filter says which notices are kept. It is written as directives with commas between them:
a level alone (`warn`) is for every notice, `target=level` for those of a part of the
program and of all parts whose names go on from there, `target[{field}]=level` only for
those that carry the field, and a bare `target` keeps everything of it. Of the directives
that apply to a notice the most specific decides alone, and of two for the same notices the
later; a notice that no directive is for is dropped.
-/

namespace DurableQueue.Logging

open Text

/-- Up to which severity notices are kept: none at rank zero. -/
abbrev Level := Nat

/-- A rule of a filter. -/
structure Directive where
  /-- How the target of a notice must begin; any will do if there is none. -/
  target : Option String
  /-- The details that a notice must carry. -/
  fields : List String
  level : Level
  deriving DecidableEq, Repr

/-- What decides which notices are kept: its directives, the most specific first. -/
structure Filter where
  directives : List Directive
  deriving DecidableEq, Repr

namespace Level

/-- The level that a word or a digit stands for; the empty word stands for errors alone. -/
def parse (s : String) : Option Level :=
  let digit := (Decimal.readBelow Word.limit s.toList).filter (· ≤ 5)
  let word := match Format.lower s with
    | "" | "error" => some 1
    | "warn" => some 2
    | "info" => some 3
    | "debug" => some 4
    | "trace" => some 5
    | "off" => some 0
    | _ => none
  digit.or word

end Level

namespace Directive

/-- `cs` in pieces, cut at each `"[{"`. -/
def splitAtFields : List Char → List (List Char)
  | '[' :: '\x7b' :: rest => [] :: splitAtFields rest
  | c :: rest =>
    match splitAtFields rest with
    | piece :: more => (c :: piece) :: more
    | [] => [[c]]
  | [] => [[]]

/-- `cs`, given backwards, without the closing brackets that it begins with. -/
def dropClosing : List Char → List Char
  | ']' :: '\x7d' :: rest => dropClosing rest
  | cs => cs

/-- The fields that are named before a closing bracket. -/
def parseFields (cs : List Char) : Option (List String) :=
  match cs.reverse with
  | ']' :: '\x7d' :: _ =>
    some ((((dropClosing cs.reverse).reverse.splitOn ',').filter (· ≠ [])).map String.ofList)
  | _ => none

/-- The directive that a piece of a filter spells. -/
def parse (piece : List Char) : Option Directive :=
  match piece.splitOn '=' with
  | [bare] =>
    match Level.parse (String.ofList bare) with
    | some level => some { target := none, fields := [], level }
    | none => some { target := some (String.ofList bare), fields := [], level := 5 }
  | [before, after] => do
    let (target, fields) ←
      match splitAtFields before with
      | [target] => some (target, [])
      | [target, fields] => do some (target, ← parseFields fields)
      | _ => none
    let level ← Level.parse (String.ofList after)
    some { target := some (String.ofList target), fields, level }
  | _ => none

/-- Whether a directive is for a notice. -/
def appliesTo (d : Directive) (n : Notice) : Bool :=
  (match d.target with
    | none => true
    | some target => target.toList.isPrefixOf n.target.toList) &&
  d.fields.all fun f => n.fields.contains f

/-- What the order of directives goes by: the length of the target, the number of fields, and
then their texts. -/
def key (d : Directive) : List Nat × List String :=
  ([match d.target with
    | none => 0
    | some target => target.utf8ByteSize + 1, d.fields.length],
   d.target.getD "" :: d.fields)

/-- Whether `d` is looked at before `e`. -/
def isBefore (d e : Directive) : Bool :=
  e.key.1 < d.key.1 || (e.key.1 = d.key.1 && e.key.2 < d.key.2)

/-- Whether two directives are for the same notices by the same words. -/
def sameScope (d e : Directive) : Bool := d.target = e.target && d.fields = e.fields

end Directive

namespace Filter

/-- The directives with one more in its place; one with the same scope gives way to it. -/
def insert (d : Directive) : List Directive → List Directive
  | [] => [d]
  | e :: rest =>
    if d.sameScope e then d :: rest
    else if d.isBefore e then d :: e :: rest
    else e :: insert d rest

/-- The filter that a text spells. -/
def parse (s : String) : Option Filter := do
  let directives ← (s.toList.splitOn ',').mapM Directive.parse
  return ⟨directives.foldl (fun placed d => insert d placed) []⟩

/-- The filter of a log with these settings. -/
def ofSettings (s : Settings) : Option Filter := parse (s.level.getD "info")

/-- Whether a filter keeps a notice. -/
def keeps (f : Filter) (n : Notice) : Bool :=
  match f.directives.find? (·.appliesTo n) with
  | some d => n.severity.rank ≤ d.level
  | none => false

end Filter

end DurableQueue.Logging
