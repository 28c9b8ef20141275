/-!
# Bytes

The contents of files and messages are lists of bytes. Two operations on them are needed
beyond those of lists: the four-byte big-endian word that heads every frame, and the
overwriting of part of a file in place, where a gap past the old end reads as zeros.
-/

namespace DurableQueue

/-- A run of bytes. -/
abbrev Bytes := List UInt8

namespace Bytes

/-- A number as four bytes, the most significant first; it is taken modulo `2 ^ 32`. -/
def ofWord (n : Nat) : Bytes :=
  [UInt8.ofNat (n / 16777216), UInt8.ofNat (n / 65536), UInt8.ofNat (n / 256), UInt8.ofNat n]

/-- The number that bytes spell, the most significant first. -/
def toWord (bs : Bytes) : Nat := bs.foldl (fun n b => n * 256 + b.toNat) 0

/-- `old` with `new` written at `pos`. Nothing written changes nothing; a gap between the old
end and `pos` is filled with zeros. -/
def overwrite (old : Bytes) (pos : Nat) (new : Bytes) : Bytes :=
  if new.isEmpty then old
  else old.take pos ++ List.replicate (pos - old.length) 0 ++ new ++ old.drop (pos + new.length)

/-- `bs` cut or filled with zeros to `n` bytes. -/
def resize (bs : Bytes) (n : Nat) : Bytes := bs.take n ++ List.replicate (n - bs.length) 0

@[simp] theorem length_ofWord (n : Nat) : (ofWord n).length = 4 := rfl

theorem toWord_ofWord {n : Nat} (h : n < 4294967296) : toWord (ofWord n) = n := by
  simp only [toWord, ofWord, List.foldl_cons, List.foldl_nil, UInt8.toNat_ofNat']
  omega

theorem toWord_lt {bs : Bytes} (h : bs.length = 4) : toWord bs < 4294967296 := by
  match bs, h with
  | [a, b, c, d], _ =>
    have ha := a.toNat_lt; have hb := b.toNat_lt
    have hc := c.toNat_lt; have hd := d.toNat_lt
    simp only [toWord, List.foldl_cons, List.foldl_nil]
    omega

theorem ofWord_toWord {bs : Bytes} (h : bs.length = 4) : ofWord (toWord bs) = bs := by
  match bs, h with
  | [a, b, c, d], _ =>
    have ha := a.toNat_lt; have hb := b.toNat_lt
    have hc := c.toNat_lt; have hd := d.toNat_lt
    simp only [toWord, ofWord, List.foldl_cons, List.foldl_nil, List.cons.injEq, and_true]
    refine ⟨?_, ?_, ?_, ?_⟩ <;>
      (apply UInt8.toNat_inj.1; simp only [UInt8.toNat_ofNat']; omega)

@[simp] theorem overwrite_nil (old : Bytes) (pos : Nat) : overwrite old pos [] = old := rfl

theorem overwrite_of_le {old new : Bytes} {pos : Nat} (h : pos ≤ old.length) :
    overwrite old pos new = old.take pos ++ new ++ old.drop (pos + new.length) := by
  cases new with
  | nil => simp
  | cons b bs => simp [overwrite, Nat.sub_eq_zero_of_le h]

theorem overwrite_length (old new : Bytes) : overwrite old old.length new = old ++ new := by
  rw [overwrite_of_le (Nat.le_refl _)]
  simp

/-- Bytes below the place of writing stay. -/
theorem take_overwrite {old new : Bytes} {pos n : Nat} (h : n ≤ pos) (hp : pos ≤ old.length) :
    (overwrite old pos new).take n = old.take n := by
  rw [overwrite_of_le hp, List.append_assoc, List.take_append_of_le_length (by simp; omega),
    List.take_take, Nat.min_eq_left h]

end Bytes

end DurableQueue
