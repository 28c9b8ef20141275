import DurableQueue.Config
import DurableQueue.Logging.Settings
import DurableQueue.Text.Decimal
import DurableQueue.Word

/-!
# Arguments

The words of a command line name one command and, with options, the queue that it is for:

    --data-path /var/lib/queues --name jobs push first second
    --name jobs pop --count 10

The general options may stand before the command or after it, and for each of them there is
an environment variable. What stands after the command counts before what stands in front of
it, that before the environment, and the environment before the standard values. Every value
must fit its option, also one that does not count in the end; a variable is not looked at if
its option stands both before and after the command.
-/

namespace DurableQueue.CommandLine

open Text

/-- An option. Each takes a value. -/
inductive Flag where
  | dataPath
  | name
  | maxBytesPerFile
  | minMsgSize
  | maxMsgSize
  | syncEvery
  | syncTimeout
  | logLevel
  | logFormat
  | logDir
  | count
  | timeout
  deriving DecidableEq, Repr

namespace Flag

/-- The options that every command knows. -/
def general : List Flag :=
  [dataPath, name, maxBytesPerFile, minMsgSize, maxMsgSize, syncEvery, syncTimeout, logLevel,
    logFormat, logDir]

/-- How an option is written, after two dashes. -/
def word : Flag → String
  | dataPath => "data-path"
  | name => "name"
  | maxBytesPerFile => "max-bytes-per-file"
  | minMsgSize => "min-msg-size"
  | maxMsgSize => "max-msg-size"
  | syncEvery => "sync-every"
  | syncTimeout => "sync-timeout-ms"
  | logLevel => "log-level"
  | logFormat => "log-format"
  | logDir => "log-dir"
  | count => "count"
  | timeout => "timeout-ms"

/-- The environment variable of a general option. -/
def variableName (f : Flag) : String :=
  "DISKQ_" ++ String.ofList (f.word.toList.map fun c => if c = '-' then '_' else c.toUpper)

end Flag

/-- The name of a command. -/
inductive Verb where
  | push
  | pop
  | len
  | stat
  | clear
  | purge
  deriving DecidableEq, Repr

namespace Verb

/-- The command that a word names. -/
def ofWord? : String → Option Verb
  | "push" => some push
  | "pop" => some pop
  | "len" => some len
  | "stat" => some stat
  | "clear" => some clear
  | "purge" => some purge
  | _ => none

/-- The options that may stand after a command. -/
def flags : Verb → List Flag
  | pop => Flag.general ++ [.count, .timeout]
  | _ => Flag.general

end Verb

/-- What a user is told who asks for help. -/
def usage : String :=
  let line (f : Flag) : String := s!"  --{f.word} <value>  [{f.variableName}]\n"
  "Usage: diskq [options] push [message]...\n" ++
    "       diskq [options] pop [--count <number>] [--timeout-ms <number>]\n" ++
    "       diskq [options] len | stat | clear | purge\n\n" ++
    "Options, each also as an environment variable:\n" ++
    String.join (Flag.general.map line)

/-- Why a command line asks for nothing that can be done. -/
inductive Refusal where
  /-- The words make no command. -/
  | usage
  /-- Help was asked for. -/
  | help
  | version
  deriving DecidableEq, Repr

/-- What a word is, by its form alone. -/
inductive Form where
  /-- Two dashes and a key, perhaps with an equals sign and a value. -/
  | option (key : String) (value : Option String)
  /-- A dash and letters, of which the first decides. -/
  | letters (first : Char)
  /-- Two dashes: everything after them is plain. -/
  | stop
  | plain
  deriving DecidableEq, Repr

/-- The form of a word. A single dash is plain. -/
def Form.ofWord (word : String) : Form :=
  match word.toList with
  | ['-', '-'] => .stop
  | '-' :: '-' :: rest =>
    let key := String.ofList (rest.takeWhile (· ≠ '='))
    match rest.dropWhile (· ≠ '=') with
    | [] => .option key none
    | _ :: value => .option key (some (String.ofList value))
  | '-' :: c :: _ => .letters c
  | _ => .plain

/-! ### Taking a command line apart -/

/-- The parts of a command line. -/
structure Parts where
  /-- Options before the command, in their order. -/
  before : List (Flag × String) := []
  verb : Option Verb
  /-- Options after the command, in their order. -/
  after : List (Flag × String) := []
  messages : List String := []

namespace Parts

/-- The parts with one more option in front, which stands before the command or after it. -/
def withOption (p : Parts) (verb : Option Verb) (f : Flag) (value : String) : Parts :=
  match verb with
  | none => { p with before := (f, value) :: p.before }
  | some _ => { p with after := (f, value) :: p.after }

/-- The parts with one more message in front. -/
def withMessage (p : Parts) (message : String) : Parts :=
  { p with messages := message :: p.messages }

/-- Whether no option is repeated on one side of the command. -/
def unrepeated (p : Parts) : Bool :=
  decide (p.before.map (·.1)).Nodup && decide (p.after.map (·.1)).Nodup

/-- Whether an option is given on both sides of the command. -/
def onBothSides (p : Parts) (f : Flag) : Bool :=
  (p.before.map (·.1)).contains f && (p.after.map (·.1)).contains f

end Parts

/-- The option that a key names in front of the command or, if there is a `verb`, after it. -/
def flagNamed (verb : Option Verb) (key : String) : Except Refusal Flag :=
  let known := match verb with
    | none => Flag.general
    | some verb => verb.flags
  match known.find? (·.word = key) with
  | some f => .ok f
  | none => .error .usage

/-- What a key asks for that stands alone although no option with a value is named so. -/
def loneRefusal (verb : Option Verb) : String → Refusal
  | "help" => .help
  | "version" => if verb.isNone then .version else .usage
  | _ => .usage

/-- What a dash with letters asks for. -/
def letterRefusal (verb : Option Verb) : Char → Refusal
  | 'h' => .help
  | 'V' => if verb.isNone then .version else .usage
  | _ => .usage

/-- Takes the words apart. `verb` is the command if it was met before them. -/
def takeApart : Option Verb → List String → Except Refusal Parts
  | verb, [] => .ok { verb }
  | verb, word :: rest =>
    match Form.ofWord word with
    | .plain =>
      match verb with
      | none =>
        match Verb.ofWord? word with
        | some verb => takeApart (some verb) rest
        | none => .error (if word = "help" then .help else .usage)
      | some .push => (takeApart verb rest).map (·.withMessage word)
      | some _ => .error .usage
    | .stop =>
      match verb with
      | some .push => .ok { verb, messages := rest }
      | some _ => if rest = [] then .ok { verb } else .error .usage
      | none => .error .usage
    | .letters c => .error (letterRefusal verb c)
    | .option key (some value) => do
      let f ← flagNamed verb key
      return (← takeApart verb rest).withOption verb f value
    | .option key none =>
      match flagNamed verb key, rest with
      | .error _, _ => .error (loneRefusal verb key)
      | .ok _, [] => .error .usage
      | .ok f, value :: rest =>
        if Form.ofWord value = .plain then
          (takeApart verb rest).map (·.withOption verb f value)
        else .error .usage

/-! ### What the options come to -/

/-- The choices that options make. -/
structure Choices where
  config : Config
  log : Logging.Settings := { level := some "warn", useStderr := true }
  count : Option Nat := none
  timeout : Nat := 1000

namespace Choices

/-- A number that fits a word of 64 bits. -/
def number (value : String) : Option Nat := Decimal.readBelow Word.limit value.toList

/-- A size that fits a word of 32 bits; a sign may be written, also before zero. -/
def size (value : String) : Option Nat :=
  (Decimal.readWithin Word.signedLimit value.toList).bind fun n =>
    if 0 ≤ n ∧ n < Word.smallLimit then some n.toNat else none

/-- The choices after an option, if its value fits it. -/
def set (c : Choices) (f : Flag) (value : String) : Option Choices :=
  match f with
  | .dataPath =>
    if value = "" then none else some { c with config := { c.config with dataPath := value } }
  | .name => some { c with config := { c.config with name := value } }
  | .maxBytesPerFile => do
    return { c with config := { c.config with maxBytesPerFile := ← number value } }
  | .minMsgSize => do return { c with config := { c.config with minMsgSize := ← size value } }
  | .maxMsgSize => do return { c with config := { c.config with maxMsgSize := ← size value } }
  | .syncEvery => do return { c with config := { c.config with syncEvery := ← number value } }
  | .syncTimeout => do return { c with config := { c.config with syncTimeout := ← number value } }
  | .logLevel => some { c with log := { c.log with level := some value } }
  | .logFormat => do
    return { c with log := { c.log with format := ← (Logging.Format.parse value).toOption } }
  | .logDir => some { c with log := { c.log with dir := value } }
  | .count => do return { c with count := some (← number value) }
  | .timeout => do return { c with timeout := ← number value }

/-- The choices after several options; a later one counts before an earlier one. -/
def setAll (c : Choices) (options : List (Flag × String)) : Option Choices :=
  options.foldlM (fun c o => c.set o.1 o.2) c

end Choices

/-- A command with all that it needs to know. -/
inductive Command where
  /-- Appends messages; without any, each line of the input is one. -/
  | push (messages : List String)
  /-- Takes up to `count` messages, or all; a run waits `timeout` milliseconds for each. -/
  | pop (count : Option Nat) (timeout : Nat)
  | len
  | stat
  | clear
  | purge
  deriving DecidableEq, Repr

/-- The command of a verb. -/
def Verb.command (c : Choices) (messages : List String) : Verb → Command
  | push => .push messages
  | pop => .pop c.count c.timeout
  | len => .len
  | stat => .stat
  | clear => .clear
  | purge => .purge

/-- What a run is to do. -/
structure Invocation where
  config : Config
  log : Logging.Settings
  command : Command

/-- The environment variables of a run, each with its value. -/
abbrev Environment := List (String × String)

namespace Invocation

/-- The options that the environment gives. -/
def fromEnvironment (environment : Environment) (p : Parts) : List (Flag × String) :=
  (Flag.general.filter fun f => !p.onBothSides f).filterMap fun f =>
    (environment.lookup f.variableName).map fun value => (f, value)

/-- What the words of a command line ask for. Queues are kept in `home` unless another
directory is named. -/
def parse (home : String) (environment : Environment) (words : List String) :
    Except Refusal Invocation := do
  let p ← takeApart none words
  match p.verb with
  | none => throw .usage
  | some verb =>
    if !p.unrepeated then throw .usage
    let options := fromEnvironment environment p ++ p.before ++ p.after
    match ({ config := { dataPath := home } } : Choices).setAll options with
    | none => throw .usage
    | some c => return { config := c.config, log := c.log, command := verb.command c p.messages }

end Invocation

end DurableQueue.CommandLine
