import DurableQueue.Error
import DurableQueue.Text.Quoted

/-!
# Queue settings

What is fixed when a queue is opened. `Config.flaw?` names the first rule that a
configuration breaks, in the order in which the rules are tried; a configuration without a
flaw is `Config.Valid`.
-/

namespace DurableQueue

/-- The settings of a queue. -/
structure Config where
  /-- Begins the name of every file of the queue. -/
  name : String := "default"
  /-- The directory that holds the files. -/
  dataPath : String
  /-- A segment is left once its write offset is above this. -/
  maxBytesPerFile : Nat := 9223372036854775807
  minMsgSize : Nat := 0
  maxMsgSize : Nat := 2147483647
  /-- After how many pushes and deliveries a sync is due. -/
  syncEvery : Nat := 20
  /-- The time between two ticks, in milliseconds. -/
  syncTimeout : Nat := 1000
  deriving DecidableEq, Repr

namespace Config

/-- The largest bound on messages that a queue may have. -/
def maxMsgSizeLimit : Nat := 2147483647

/-- A rule that a configuration breaks. -/
inductive Flaw where
  | emptyName
  | separatorInName (name : String)
  | zeroSegmentSize
  | messageBoundTooLarge
  | boundsCrossed (least most : Nat)
  | zeroSyncEvery
  | zeroSyncTimeout
  deriving DecidableEq, Repr

/-- What a flaw is called. -/
def Flaw.reason : Flaw → String
  | emptyName => "name must not be empty"
  | separatorInName name => s!"name {Text.quote name} must not contain a path separator"
  | zeroSegmentSize => "max_bytes_per_file must be positive"
  | messageBoundTooLarge => s!"max_msg_size must not exceed {maxMsgSizeLimit}"
  | boundsCrossed least most => s!"min_msg_size {least} is greater than max_msg_size {most}"
  | zeroSyncEvery => "sync_every must be positive"
  | zeroSyncTimeout => "sync_timeout must be positive"

/-- The first rule that a configuration breaks. -/
def flaw? (c : Config) : Option Flaw :=
  if c.name = "" then some .emptyName
  else if c.name.toList.contains '/' then some (.separatorInName c.name)
  else if c.maxBytesPerFile = 0 then some .zeroSegmentSize
  else if maxMsgSizeLimit < c.maxMsgSize then some .messageBoundTooLarge
  else if c.maxMsgSize < c.minMsgSize then some (.boundsCrossed c.minMsgSize c.maxMsgSize)
  else if c.syncEvery = 0 then some .zeroSyncEvery
  else if c.syncTimeout = 0 then some .zeroSyncTimeout
  else none

/-- Accepts a configuration without a flaw. -/
def validate (c : Config) : Except Error Unit :=
  match c.flaw? with
  | some flaw => .error (.invalidConfig flaw.reason)
  | none => .ok ()

/-- What a configuration must keep to. -/
structure Valid (c : Config) : Prop where
  name_ne : c.name ≠ ""
  no_separator : '/' ∉ c.name.toList
  maxBytesPerFile_pos : 0 < c.maxBytesPerFile
  maxMsgSize_le : c.maxMsgSize ≤ maxMsgSizeLimit
  min_le_max : c.minMsgSize ≤ c.maxMsgSize
  syncEvery_pos : 0 < c.syncEvery
  syncTimeout_pos : 0 < c.syncTimeout

theorem flaw?_eq_none_iff {c : Config} : c.flaw? = none ↔ c.Valid := by
  unfold flaw?
  constructor
  · intro h
    repeat' split at h
    all_goals simp_all
    constructor <;> (first | assumption | omega)
  · intro h
    simp [h.name_ne, h.no_separator, Nat.ne_of_gt h.maxBytesPerFile_pos,
      Nat.not_lt.2 h.maxMsgSize_le, Nat.not_lt.2 h.min_le_max, Nat.ne_of_gt h.syncEvery_pos,
      Nat.ne_of_gt h.syncTimeout_pos]

theorem validate_eq_ok_iff {c : Config} : c.validate = .ok () ↔ c.Valid := by
  rw [← flaw?_eq_none_iff, validate]
  split <;> simp_all

end Config

end DurableQueue
