import DurableQueue.Config
import DurableQueue.Frame

/-!
# Reading a frame, exactly

A frame is read from whatever hands out bytes. `Supplies` says that a source hands out the
bytes that lie ahead of it and fails when there are too few; from such a source a message is
read exactly when its frame lies ahead (`decodeFrom_of_ahead`, `ahead_of_decodeFrom`), so what
a reader gets can be told from the bytes alone.
-/

namespace DurableQueue

open FileSystem (FileError)

/-- A message within the bounds of a queue. -/
def Config.Admits (c : Config) (message : Bytes) : Prop :=
  c.minMsgSize ≤ message.length ∧ message.length ≤ c.maxMsgSize

instance (c : Config) (message : Bytes) : Decidable (c.Admits message) :=
  inferInstanceAs (Decidable (_ ∧ _))

theorem Config.Valid.admits_lt {c : Config} (valid : c.Valid) {message : Bytes}
    (admitted : c.Admits message) : message.length < 4294967296 := by
  have bound := valid.maxMsgSize_le
  have most := admitted.2
  simp only [Config.maxMsgSizeLimit] at bound
  omega

namespace Frame

variable {σ : Type} {take : Nat → σ → Except FileError Bytes × σ} {ahead : σ → Nat → Bytes → Prop}
  {c : Config} {message bs : Bytes} {place : Nat} {s : σ}

/-- While enough bytes lie ahead, `take` hands out the first of them. `ahead s place bs` means
that the source stands at `place` and `bs` lies ahead of it there. -/
def Supplies (take : Nat → σ → Except FileError Bytes × σ) (ahead : σ → Nat → Bytes → Prop) :
    Prop :=
  ∀ ⦃n s place bs⦄, ahead s place bs → n ≤ bs.length →
    ∃ s', take n s = (.ok (bs.take n), s') ∧ ahead s' (place + n) (bs.drop n)

/-- With too few bytes ahead `take` fails. -/
def Exhausts (take : Nat → σ → Except FileError Bytes × σ) (ahead : σ → Nat → Bytes → Prop) :
    Prop :=
  ∀ ⦃n s place bs⦄, ahead s place bs → bs.length < n → ∃ e s', take n s = (.error e, s')

/-- A message whose frame lies ahead is read, and the source stands after it. -/
theorem decodeFrom_of_ahead (supplies : Supplies take ahead) (valid : c.Valid)
    (admitted : c.Admits message) (there : ahead s place bs) (frame : encode message <+: bs) :
    ∃ s', decodeFrom take c.minMsgSize c.maxMsgSize s = (.ok message, s') ∧
      ahead s' (place + diskSize message.length) (bs.drop (diskSize message.length)) := by
  obtain ⟨rest, rfl⟩ := frame
  have word := Bytes.toWord_ofWord (valid.admits_lt admitted)
  have split : encode message ++ rest = Bytes.ofWord message.length ++ (message ++ rest) := by
    simp [encode]
  have four : (Bytes.ofWord message.length).length = headerSize := rfl
  rw [split] at there
  obtain ⟨s₁, header, there⟩ := supplies (n := headerSize) there (by simp [headerSize])
  rw [List.take_left' four] at header
  rw [List.drop_left' four] at there
  obtain ⟨s₂, body, there⟩ := supplies (n := message.length) there (by simp)
  rw [List.take_left] at body
  rw [List.drop_left] at there
  refine ⟨s₂, ?_, ?_⟩
  · have within : ¬(message.length < c.minMsgSize ∨ c.maxMsgSize < message.length) := by
      have := admitted
      simp only [Config.Admits] at this
      omega
    simp only [decodeFrom, header, word, if_neg within, body]
  · rw [← length_encode, List.drop_left, length_encode, diskSize, ← Nat.add_assoc]
    exact there

/-- What is read is within the bounds of the queue, and lay ahead as a frame. -/
theorem ahead_of_decodeFrom (supplies : Supplies take ahead) (exhausts : Exhausts take ahead)
    (there : ahead s place bs)
    (read : (decodeFrom take c.minMsgSize c.maxMsgSize s).1 = .ok message) :
    c.Admits message ∧ encode message <+: bs := by
  by_cases short : bs.length < headerSize
  · obtain ⟨e, s', failed⟩ := exhausts there short
    simp only [decodeFrom, failed] at read
    cases read
  obtain ⟨s₁, header, there⟩ := supplies there (Nat.le_of_not_lt short)
  have four : (bs.take headerSize).length = 4 := by
    simp only [headerSize] at short ⊢
    simp only [List.length_take]
    omega
  simp only [decodeFrom, header] at read
  split at read
  · cases read
  next within =>
  by_cases few : (bs.drop headerSize).length < Bytes.toWord (bs.take headerSize)
  · obtain ⟨e, s', failed⟩ := exhausts there few
    simp only [failed] at read
    cases read
  · obtain ⟨s₂, body, -⟩ := supplies there (Nat.le_of_not_lt few)
    simp only [body, Except.ok.injEq] at read
    have size : Bytes.toWord (bs.take headerSize) = message.length := by
      rw [← read, List.length_take]
      omega
    rw [size, not_or, Nat.not_lt, Nat.not_lt] at within
    refine ⟨within, (bs.drop headerSize).drop message.length, ?_⟩
    rw [encode, ← size, Bytes.ofWord_toWord four, ← read, List.append_assoc,
      List.take_append_drop, List.take_append_drop]

/-- Sources that hand out the same bytes are read alike. -/
theorem decodeFrom_alike {τ : Type} {take' : Nat → τ → Except FileError Bytes × τ}
    {R : σ → τ → Prop} {least most : Nat}
    (alike : ∀ n s t, R s t → (take n s).1 = (take' n t).1 ∧ R (take n s).2 (take' n t).2)
    {t : τ} (related : R s t) :
    (decodeFrom take least most s).1 = (decodeFrom take' least most t).1 ∧
      R (decodeFrom take least most s).2 (decodeFrom take' least most t).2 := by
  obtain ⟨header, related₁⟩ := alike headerSize s t related
  unfold decodeFrom
  revert header related₁
  cases take headerSize s with
  | mk result s₁ =>
    cases take' headerSize t with
    | mk result' t₁ =>
      rintro ⟨⟩ related₁
      cases result with
      | error e => exact ⟨rfl, related₁⟩
      | ok bytes =>
        simp only
        split
        · exact ⟨rfl, related₁⟩
        · obtain ⟨body, related₂⟩ := alike (Bytes.toWord bytes) s₁ t₁ related₁
          revert body related₂
          cases take (Bytes.toWord bytes) s₁ with
          | mk result s₂ =>
            cases take' (Bytes.toWord bytes) t₁ with
            | mk result' t₂ =>
              rintro ⟨⟩ related₂
              cases result with
              | error e => exact ⟨rfl, related₂⟩
              | ok message => exact ⟨rfl, related₂⟩

theorem encode_ne_nil (message : Bytes) : encode message ≠ [] := by
  simp [encode, Bytes.ofWord]

end Frame

end DurableQueue
