import DurableQueue.Bytes

/-!
# Text as bytes

A text is stored as its UTF-8 form. `decode` reads one back and refuses bytes that are not
the form of any text: `decode bs = some s` holds exactly when `bs = encode s`.
`decodeLossy` shows any bytes at all: a longest run that begins a character without
finishing it is shown as one replacement character.
-/

namespace DurableQueue.Text

/-- The UTF-8 form of a text. -/
def encode (s : String) : Bytes := s.toList.flatMap String.utf8EncodeChar

/-- The text whose UTF-8 form is `bs`, if there is one. -/
def decode (bs : Bytes) : Option String :=
  bs.toByteArray.utf8Decode?.map fun cs => String.ofList cs.toList

theorem decode_encode (s : String) : decode (encode s) = some s := by
  have h : (encode s).toByteArray = s.toList.utf8Encode := rfl
  rw [decode, h, List.utf8Decode?_utf8Encode]
  simp

theorem eq_encode_of_decode {bs : Bytes} {s : String} (h : decode bs = some s) :
    bs = encode s := by
  obtain ⟨cs, hcs, rfl⟩ := Option.map_eq_some_iff.1 h
  have hb : cs.toList.utf8Encode = bs.toByteArray := by
    have := ByteArray.utf8Encode_get_utf8Decode? (b := bs.toByteArray) (h := by simp [hcs])
    simpa [hcs] using this
  have : (encode (String.ofList cs.toList)).toByteArray = bs.toByteArray := by
    rw [← hb]; simp only [encode, String.toList_ofList]; rfl
  exact (List.toByteArray_inj.1 this).symm

theorem decode_eq_some_iff {bs : Bytes} {s : String} : decode bs = some s ↔ bs = encode s :=
  ⟨eq_encode_of_decode, fun h => h ▸ decode_encode s⟩

theorem encode_append (s t : String) : encode (s ++ t) = encode s ++ encode t := by
  simp [encode]

theorem encode_inj {s t : String} : encode s = encode t ↔ s = t :=
  ⟨fun h => by simpa [decode_encode] using congrArg decode h, fun h => h ▸ rfl⟩

/-- Whether a byte continues a character begun before it. -/
def isTail (b : UInt8) : Bool := 0x80 ≤ b && b ≤ 0xBF

/-- Whether `b` may be the second byte of a character of more than two bytes that begins
with `a`. -/
def mayFollow (a b : UInt8) : Bool :=
  if a = 0xE0 then 0xA0 ≤ b && b ≤ 0xBF
  else if a = 0xED then 0x80 ≤ b && b ≤ 0x9F
  else if a = 0xF0 then 0x90 ≤ b && b ≤ 0xBF
  else if a = 0xF4 then 0x80 ≤ b && b ≤ 0x8F
  else isTail b

/-- How many of the first bytes are shown together: a whole character, or the longest run
that could have begun one. -/
def shownTogether : Bytes → Nat
  | [] => 0
  | a :: rest =>
    let tails (most : Nat) : Nat := ((rest.drop 1).take most).takeWhile isTail |>.length
    if 0xC2 ≤ a && a ≤ 0xDF then 1 + ((rest.take 1).takeWhile isTail).length
    else if 0xE0 ≤ a && a ≤ 0xEF then
      if rest.head?.any (mayFollow a) then 2 + tails 1 else 1
    else if 0xF0 ≤ a && a ≤ 0xF4 then
      if rest.head?.any (mayFollow a) then 2 + tails 2 else 1
    else 1

theorem shownTogether_pos (b : UInt8) (bs : Bytes) : 0 < shownTogether (b :: bs) := by
  simp only [shownTogether]
  repeat' split
  all_goals omega

/-- The text of `bs`, with a replacement character for what is not text. -/
def decodeLossy : Bytes → String
  | [] => ""
  | b :: bs =>
    let n := shownTogether (b :: bs)
    (decode ((b :: bs).take n)).getD "\uFFFD" ++ decodeLossy ((b :: bs).drop n)
termination_by bs => bs.length
decreasing_by
  have := shownTogether_pos b bs
  simp only [List.length_drop, List.length_cons]
  omega

end DurableQueue.Text
