import SchemaDoc.Text.Basic

/-!
# UTF-8

`Utf8.encode` gives the bytes of a text. `Utf8.decode` reads any bytes: it goes through them one by
one, remembers the beginning of a character that is not complete yet, and puts one replacement
character in place of every beginning that the next byte cannot continue. Such a beginning is thus
always as long as it can be, and the byte that cut it short is read afresh.

`decodeFrom_append_ascii` says that an ASCII byte, wherever it stands, ends what came before it, so
that bytes can be decoded line by line.
-/

namespace SchemaDoc

namespace Utf8

/-- The bytes of `t`. -/
def encode (t : Text) : Bytes := t.flatMap String.utf8EncodeChar

@[simp]
theorem encode_nil : encode [] = [] := rfl

@[simp]
theorem encode_cons (c : Char) (t : Text) :
    encode (c :: t) = String.utf8EncodeChar c ++ encode t := by
  simp [encode]

@[simp]
theorem encode_append (s t : Text) : encode (s ++ t) = encode s ++ encode t := by
  simp [encode]

/-- The character that stands for bytes that are no character. -/
def replacement : Char := '\uFFFD'

/-- The beginning of a character of several bytes. -/
structure Pending where
  /-- The bits of the character collected so far. -/
  bits : Nat
  /-- The least value of a byte that continues the character. -/
  least : UInt8
  /-- The greatest value of a byte that continues the character. -/
  greatest : UInt8
  /-- The number of bytes to come behind the next one. -/
  owed : Nat
  deriving DecidableEq, Repr

/-- Reads a byte between two characters: what it completes and what it begins. The bounds on the
second byte leave out overlong forms, surrogates and numbers beyond the last character. -/
def first (b : UInt8) : Text × Option Pending :=
  if b < 0x80 then ([Char.ofNat b.toNat], none)
  else if b < 0xC2 then ([replacement], none)
  else if b < 0xE0 then ([], some ⟨b.toNat % 0x20, 0x80, 0xBF, 0⟩)
  else if b < 0xF0 then
    let least := if b = 0xE0 then 0xA0 else 0x80
    let greatest := if b = 0xED then 0x9F else 0xBF
    ([], some ⟨b.toNat % 0x10, least, greatest, 1⟩)
  else if b < 0xF5 then
    let least := if b = 0xF0 then 0x90 else 0x80
    let greatest := if b = 0xF4 then 0x8F else 0xBF
    ([], some ⟨b.toNat % 0x08, least, greatest, 2⟩)
  else ([replacement], none)

/-- Reads a byte behind the beginning of a character. -/
def Pending.next (p : Pending) (b : UInt8) : Text × Option Pending :=
  if p.least ≤ b ∧ b ≤ p.greatest then
    let bits := p.bits * 0x40 + b.toNat % 0x40
    match p.owed with
    | 0 => ([Char.ofNat bits], none)
    | owed + 1 => ([], some ⟨bits, 0x80, 0xBF, owed⟩)
  else
    let (text, pending) := first b
    (replacement :: text, pending)

/-- Reads a byte. -/
def step (p : Option Pending) (b : UInt8) : Text × Option Pending :=
  match p with
  | none => first b
  | some p => p.next b

/-- The text of `bs` behind the beginning `p` of a character. -/
def decodeFrom (p : Option Pending) : Bytes → Text
  | [] => if p.isSome then [replacement] else []
  | b :: bs =>
    let (text, pending) := step p b
    text ++ decodeFrom pending bs

/-- The text of `bs`, with a replacement character for each stretch that is no character. -/
def decode (bs : Bytes) : Text := decodeFrom none bs

/-- The text of `bs` when `bs` is the UTF-8 form of one. -/
def decode? (bs : Bytes) : Option Text :=
  let t := decode bs
  if encode t = bs then some t else none

/-! ### ASCII bytes end what came before -/

theorem step_ascii {p : Option Pending} (h : ∀ q ∈ p, (0x80 : UInt8) ≤ q.least) {b : UInt8}
    (hb : b < 0x80) : step p b = (decodeFrom p [] ++ [Char.ofNat b.toNat], none) := by
  cases p with
  | none => simp [step, first, hb, decodeFrom]
  | some q =>
    have hq : ¬ q.least ≤ b := fun hle =>
      absurd (UInt8.le_trans (h q rfl) hle) (UInt8.not_le.2 hb)
    simp [step, Pending.next, hq, decodeFrom, first, hb]

theorem least_of_mem_first {b : UInt8} {q : Pending} (h : q ∈ (first b).2) :
    (0x80 : UInt8) ≤ q.least := by
  simp only [first] at h
  split at h
  · simp at h
  · split at h
    · simp at h
    · split at h
      · simp only [Option.mem_def, Option.some.injEq] at h; subst h; simp
      · split at h
        · simp only [Option.mem_def, Option.some.injEq] at h; subst h; dsimp only
          split <;> decide
        · split at h
          · simp only [Option.mem_def, Option.some.injEq] at h; subst h; dsimp only
            split <;> decide
          · simp at h

theorem least_of_mem_step {p : Option Pending} {b : UInt8} {q : Pending} (h : q ∈ (step p b).2) :
    (0x80 : UInt8) ≤ q.least := by
  cases p with
  | none => exact least_of_mem_first h
  | some p =>
    simp only [step, Pending.next] at h
    split at h
    · split at h
      · simp at h
      · simp only [Option.mem_def, Option.some.injEq] at h; subst h; simp
    · exact least_of_mem_first h

/-- Decoding starts afresh behind an ASCII byte. -/
theorem decodeFrom_append_ascii {p : Option Pending} (h : ∀ q ∈ p, (0x80 : UInt8) ≤ q.least)
    {b : UInt8} (hb : b < 0x80) (bs cs : Bytes) :
    decodeFrom p (bs ++ b :: cs) = decodeFrom p bs ++ Char.ofNat b.toNat :: decode cs := by
  induction bs generalizing p with
  | nil =>
    show (step p b).1 ++ decodeFrom (step p b).2 cs = _
    rw [step_ascii h hb]
    simp [decode]
  | cons c bs ih =>
    simp only [List.cons_append, decodeFrom, List.append_assoc]
    rw [ih fun q hq => least_of_mem_step hq]

end Utf8

end SchemaDoc
