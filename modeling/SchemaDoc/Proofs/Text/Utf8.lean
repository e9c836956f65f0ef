import SchemaDoc.Text.Utf8
import Mathlib.Data.List.Basic

/-!
# Decoding and encoding

Decoding undoes encoding, `decode_encode`, so that encoded text is never damaged on its way through
bytes. The converse fails on ill-formed bytes, but ASCII survives in both directions: an ASCII
character is decoded where its byte stands and nowhere else (`decode_append_ascii`,
`mem_decode_ascii_iff`). The second half needs that a character of several bytes is never ASCII.
That is the invariant `Pending.Promising` of the decoder: whatever way the beginning of a character
can be completed leads to a character beyond ASCII.
-/

namespace SchemaDoc

namespace Utf8

@[simp]
theorem decode_nil : decode [] = [] := rfl

/-! ### One byte at a time -/

section Byte

variable {b : UInt8}

theorem first_of_lt_80 (h : b.toNat < 0x80) : first b = ([Char.ofNat b.toNat], none) := by
  simp [first, UInt8.lt_iff_toNat_lt, h]

theorem first_of_lt_E0 (h : 0xC2 ≤ b.toNat) (h' : b.toNat < 0xE0) :
    first b = ([], some ⟨b.toNat % 0x20, 0x80, 0xBF, 0⟩) := by
  simp [first, UInt8.lt_iff_toNat_lt, h', show ¬ b.toNat < 0x80 by omega,
    show ¬ b.toNat < 0xC2 by omega]

theorem first_of_lt_F0 (h : 0xE0 ≤ b.toNat) (h' : b.toNat < 0xF0) :
    first b = ([], some ⟨b.toNat % 0x10, if b = 0xE0 then 0xA0 else 0x80,
      if b = 0xED then 0x9F else 0xBF, 1⟩) := by
  simp [first, UInt8.lt_iff_toNat_lt, h', show ¬ b.toNat < 0x80 by omega,
    show ¬ b.toNat < 0xC2 by omega, show ¬ b.toNat < 0xE0 by omega]

theorem first_of_lt_F5 (h : 0xF0 ≤ b.toNat) (h' : b.toNat < 0xF5) :
    first b = ([], some ⟨b.toNat % 0x08, if b = 0xF0 then 0x90 else 0x80,
      if b = 0xF4 then 0x8F else 0xBF, 2⟩) := by
  simp [first, UInt8.lt_iff_toNat_lt, h', show ¬ b.toNat < 0x80 by omega,
    show ¬ b.toNat < 0xC2 by omega, show ¬ b.toNat < 0xE0 by omega,
    show ¬ b.toNat < 0xF0 by omega]

/-- The bytes that begin no character. -/
theorem first_of_ill (h : 0x80 ≤ b.toNat ∧ b.toNat < 0xC2 ∨ 0xF5 ≤ b.toNat) :
    first b = ([replacement], none) := by
  rcases h with ⟨h, h'⟩ | h
  · simp [first, UInt8.lt_iff_toNat_lt, h', show ¬ b.toNat < 0x80 by omega]
  · simp [first, UInt8.lt_iff_toNat_lt, show ¬ b.toNat < 0x80 by omega,
      show ¬ b.toNat < 0xC2 by omega, show ¬ b.toNat < 0xE0 by omega,
      show ¬ b.toNat < 0xF0 by omega, show ¬ b.toNat < 0xF5 by omega]

/-- What a byte can be between two characters. -/
theorem firstByte_cases (b : UInt8) :
    b.toNat < 0x80 ∨ (0x80 ≤ b.toNat ∧ b.toNat < 0xC2 ∨ 0xF5 ≤ b.toNat) ∨
      (0xC2 ≤ b.toNat ∧ b.toNat < 0xE0) ∨ (0xE0 ≤ b.toNat ∧ b.toNat < 0xF0) ∨
      (0xF0 ≤ b.toNat ∧ b.toNat < 0xF5) := by
  omega

/-- A byte that continues the beginning of a character. -/
theorem Pending.next_of_mem {p : Pending} (h : p.least ≤ b) (h' : b ≤ p.greatest) :
    p.next b = match p.owed with
      | 0 => ([Char.ofNat (p.bits * 0x40 + b.toNat % 0x40)], none)
      | owed + 1 => ([], some ⟨p.bits * 0x40 + b.toNat % 0x40, 0x80, 0xBF, owed⟩) := by
  exact if_pos ⟨h, h'⟩

/-- A byte that does not, and is read afresh behind a replacement character. -/
theorem Pending.next_of_notMem {p : Pending} (h : ¬ (p.least ≤ b ∧ b ≤ p.greatest)) :
    p.next b = (replacement :: (first b).1, (first b).2) := by
  rw [Pending.next, if_neg h]

end Byte

/-! ### Decoding undoes encoding -/

private theorem toNat_ofNat_of_lt {n : Nat} (h : n < 0x100) : (UInt8.ofNat n).toNat = n := by
  rw [UInt8.toNat_ofNat', Nat.mod_eq_of_lt h]

/-- A bound that depends on the first byte, by its number. -/
private theorem toNat_ite_eq (a b x y : UInt8) :
    (if a = b then x else y).toNat = if a.toNat = b.toNat then x.toNat else y.toNat := by
  rw [apply_ite UInt8.toNat]
  simp only [UInt8.toNat_inj]

/-- A byte that carries six bits of a character continues it. -/
private theorem decodeFrom_cons_six {bits n owed : Nat} {least greatest : UInt8} (bs : Bytes)
    (h : least.toNat ≤ n % 0x40 + 0x80) (h' : n % 0x40 + 0x80 ≤ greatest.toNat) :
    decodeFrom (some ⟨bits, least, greatest, owed⟩) (UInt8.ofNat (n % 0x40 + 0x80) :: bs) =
      match owed with
      | 0 => Char.ofNat (bits * 0x40 + n % 0x40) :: decode bs
      | owed + 1 => decodeFrom (some ⟨bits * 0x40 + n % 0x40, 0x80, 0xBF, owed⟩) bs := by
  have hn := toNat_ofNat_of_lt (n := n % 0x40 + 0x80) (by omega)
  have hbits : (n % 0x40 + 0x80) % 0x40 = n % 0x40 := by omega
  rw [decodeFrom, step, Pending.next_of_mem (by rw [UInt8.le_iff_toNat_le, hn]; exact h)
    (by rw [UInt8.le_iff_toNat_le, hn]; exact h'), hn, hbits]
  cases owed <;> simp [decode]

/-- A character of one byte. -/
private theorem decode_cons_one {n : Nat} (h : n < 0x80) (bs : Bytes) :
    decode (UInt8.ofNat n :: bs) = Char.ofNat n :: decode bs := by
  have hn := toNat_ofNat_of_lt (n := n) (by omega)
  rw [decode, decodeFrom, step, first_of_lt_80 (by omega), hn]
  simp [decode]

/-- A character of two bytes. -/
private theorem decode_cons_two {n : Nat} (h : 0x80 ≤ n) (h' : n < 0x800) (bs : Bytes) :
    decode (UInt8.ofNat (n / 64 % 0x20 + 0xC0) :: UInt8.ofNat (n % 0x40 + 0x80) :: bs) =
      Char.ofNat n :: decode bs := by
  have hn := toNat_ofNat_of_lt (n := n / 64 % 0x20 + 0xC0) (by omega)
  rw [decode, decodeFrom, step, first_of_lt_E0 (by omega) (by omega), hn]
  dsimp only [List.nil_append]
  rw [decodeFrom_cons_six bs (by simp) (by simp; omega)]
  dsimp only
  congr 2
  omega

/-- A character of three bytes: the bounds on the second keep out what two bytes can say and the
surrogates. -/
private theorem decode_cons_three {n : Nat} (h : 0x800 ≤ n) (h' : n < 0x10000)
    (hvalid : n < 0xD800 ∨ 0xDFFF < n) (bs : Bytes) :
    decode (UInt8.ofNat (n / 4096 % 0x10 + 0xE0) :: UInt8.ofNat (n / 64 % 0x40 + 0x80) ::
      UInt8.ofNat (n % 0x40 + 0x80) :: bs) = Char.ofNat n :: decode bs := by
  have hn := toNat_ofNat_of_lt (n := n / 4096 % 0x10 + 0xE0) (by omega)
  rw [decode, decodeFrom, step, first_of_lt_F0 (by omega) (by omega), hn]
  dsimp only [List.nil_append]
  rw [decodeFrom_cons_six _ ?_ ?_]
  · dsimp only
    rw [decodeFrom_cons_six bs (by simp) (by simp; omega)]
    dsimp only
    congr 2
    omega
  · rw [toNat_ite_eq, hn]
    split
    · simp_all
      omega
    · simp
  · rw [toNat_ite_eq, hn]
    split
    · simp_all
      omega
    · simp
      omega

/-- A character of four bytes: the bounds on the second keep out what three bytes can say and what
lies beyond the last character. -/
private theorem decode_cons_four {n : Nat} (h : 0x10000 ≤ n) (h' : n < 0x110000) (bs : Bytes) :
    decode (UInt8.ofNat (n / 262144 % 0x08 + 0xF0) :: UInt8.ofNat (n / 4096 % 0x40 + 0x80) ::
      UInt8.ofNat (n / 64 % 0x40 + 0x80) :: UInt8.ofNat (n % 0x40 + 0x80) :: bs) =
      Char.ofNat n :: decode bs := by
  have hn := toNat_ofNat_of_lt (n := n / 262144 % 0x08 + 0xF0) (by omega)
  rw [decode, decodeFrom, step, first_of_lt_F5 (by omega) (by omega), hn]
  dsimp only [List.nil_append]
  rw [decodeFrom_cons_six _ ?_ ?_]
  · dsimp only
    rw [decodeFrom_cons_six _ (by simp) (by simp; omega)]
    dsimp only
    rw [decodeFrom_cons_six bs (by simp) (by simp; omega)]
    dsimp only
    congr 2
    omega
  · rw [toNat_ite_eq, hn]
    split
    · simp_all
      omega
    · simp
  · rw [toNat_ite_eq, hn]
    split
    · simp_all
      omega
    · simp
      omega

theorem decode_utf8EncodeChar_append (c : Char) (bs : Bytes) :
    decode (String.utf8EncodeChar c ++ bs) = c :: decode bs := by
  have hvalid : c.val.toNat < 0xD800 ∨ 0xDFFF < c.val.toNat ∧ c.val.toNat < 0x110000 := c.valid
  have hbytes : decode (String.utf8EncodeChar c ++ bs) = Char.ofNat c.val.toNat :: decode bs := by
    unfold String.utf8EncodeChar
    dsimp only
    split
    · exact decode_cons_one (by omega) bs
    · split
      · exact decode_cons_two (by omega) (by omega) bs
      · split
        · exact decode_cons_three (by omega) (by omega) (by omega) bs
        · exact decode_cons_four (by omega) (by omega) bs
  rw [hbytes, show c.val.toNat = c.toNat from rfl, Char.ofNat_toNat]

/-- **Decoding undoes encoding.** -/
@[simp]
theorem decode_encode (t : Text) : decode (encode t) = t := by
  induction t with
  | nil => rfl
  | cons c t ih => rw [encode_cons, decode_utf8EncodeChar_append, ih]

theorem decode?_encode (t : Text) : decode? (encode t) = some t := by
  rw [decode?, decode_encode, if_pos rfl]

/-! ### ASCII survives -/

/-- Every character that the bits `n` and so many more bytes make up lies beyond ASCII. -/
def BeyondAscii (n : Nat) : Nat → Prop
  | 0 => 0x80 ≤ n ∧ n.isValidChar
  | owed + 1 => ∀ b : UInt8, 0x80 ≤ b → b ≤ 0xBF → BeyondAscii (n * 0x40 + b.toNat % 0x40) owed

/-- A beginning **promises** a character beyond ASCII, however it is completed. -/
def Pending.Promising (p : Pending) : Prop :=
  ∀ b : UInt8, p.least ≤ b → b ≤ p.greatest → BeyondAscii (p.bits * 0x40 + b.toNat % 0x40) p.owed

theorem promising_of_mem_first {b : UInt8} {q : Pending} (h : q ∈ (first b).2) : q.Promising := by
  rcases firstByte_cases b with hb | hb | ⟨hb, hb'⟩ | ⟨hb, hb'⟩ | ⟨hb, hb'⟩
  · simp [first_of_lt_80 hb] at h
  · simp [first_of_ill hb] at h
  · rw [first_of_lt_E0 hb hb'] at h
    obtain rfl : _ = q := by simpa using h
    intro x hx hx'
    rw [UInt8.le_iff_toNat_le] at hx hx'
    simp [BeyondAscii, Nat.isValidChar] at hx hx' ⊢
    omega
  · rw [first_of_lt_F0 hb hb'] at h
    obtain rfl : _ = q := by simpa using h
    -- the bounds on the second byte depend on the first
    intro x hx hx' y hy hy'
    simp only [UInt8.le_iff_toNat_le, toNat_ite_eq] at hx hx' hy hy'
    simp [BeyondAscii, Nat.isValidChar] at hx hx' hy hy' ⊢
    split at hx <;> split at hx' <;> omega
  · rw [first_of_lt_F5 hb hb'] at h
    obtain rfl : _ = q := by simpa using h
    intro x hx hx' y hy hy' z hz hz'
    simp only [UInt8.le_iff_toNat_le, toNat_ite_eq] at hx hx' hy hy' hz hz'
    simp [BeyondAscii, Nat.isValidChar] at hx hx' hy hy' hz hz' ⊢
    split at hx <;> split at hx' <;> omega

theorem promising_of_mem_step {p : Option Pending} (hp : ∀ q ∈ p, q.Promising) {b : UInt8}
    {q : Pending} (h : q ∈ (step p b).2) : q.Promising := by
  cases p with
  | none => exact promising_of_mem_first h
  | some p =>
    rw [step] at h
    by_cases hb : p.least ≤ b ∧ b ≤ p.greatest
    · have hbits := hp p rfl b hb.1 hb.2
      rw [Pending.next_of_mem hb.1 hb.2] at h
      -- with nothing owed the character is complete and nothing is pending
      split at h
      · simp at h
      · next owed howed =>
        obtain rfl : _ = q := by simpa using h
        rw [howed] at hbits
        exact hbits
    · rw [Pending.next_of_notMem hb] at h
      exact promising_of_mem_first h

private theorem toNat_ofNat_of_isValidChar {n : Nat} (h : n.isValidChar) :
    (Char.ofNat n).toNat = n := by
  rw [Char.ofNat, dif_pos h]
  rfl

/-- An ASCII character that a byte completes is that byte's own. -/
theorem toNat_eq_of_mem_step {p : Option Pending} (hp : ∀ q ∈ p, q.Promising) {b : UInt8}
    {c : Char} (h : c ∈ (step p b).1) (hc : c.toNat < 0x80) : c.toNat = b.toNat := by
  have hfirst (hmem : c ∈ (first b).1) : c.toNat = b.toNat := by
    rcases firstByte_cases b with hb | hb | ⟨hb, hb'⟩ | ⟨hb, hb'⟩ | ⟨hb, hb'⟩
    · rw [first_of_lt_80 hb, List.mem_singleton] at hmem
      rw [hmem, toNat_ofNat_of_isValidChar (Or.inl (by omega))]
    · rw [first_of_ill hb, List.mem_singleton] at hmem
      exact absurd hc (by rw [hmem]; decide)
    · simp [first_of_lt_E0 hb hb'] at hmem
    · simp [first_of_lt_F0 hb hb'] at hmem
    · simp [first_of_lt_F5 hb hb'] at hmem
  cases p with
  | none => exact hfirst h
  | some p =>
    rw [step] at h
    by_cases hb : p.least ≤ b ∧ b ≤ p.greatest
    · have hbits := hp p rfl b hb.1 hb.2
      rw [Pending.next_of_mem hb.1 hb.2] at h
      split at h
      · next howed =>
        -- a character of several bytes was promised to lie beyond ASCII
        rw [howed] at hbits
        obtain rfl : c = _ := by simpa using h
        rw [toNat_ofNat_of_isValidChar hbits.2] at hc
        exact absurd hbits.1 (by omega)
      · simp at h
    · rw [Pending.next_of_notMem hb] at h
      rcases List.mem_cons.mp h with rfl | h
      · exact absurd hc (by decide)
      · exact hfirst h

private theorem mem_of_mem_decodeFrom {b : UInt8} (hb : b < 0x80) {p : Option Pending}
    (hp : ∀ q ∈ p, q.Promising) {bs : Bytes} (h : Char.ofNat b.toNat ∈ decodeFrom p bs) :
    b ∈ bs := by
  rw [UInt8.lt_iff_toNat_lt] at hb
  have hvalid : (Char.ofNat b.toNat).toNat = b.toNat :=
    toNat_ofNat_of_isValidChar (Or.inl (Nat.lt_trans hb (by decide)))
  induction bs generalizing p with
  | nil =>
    -- at the end of the bytes only a replacement character comes out
    have hreplacement : Char.ofNat b.toNat = replacement := by
      rw [decodeFrom] at h
      split at h <;> simp_all
    rw [hreplacement] at hvalid
    rw [← hvalid] at hb
    exact absurd hb (by decide)
  | cons c bs ih =>
    rw [decodeFrom] at h
    rcases List.mem_append.mp h with h | h
    · have hc := toNat_eq_of_mem_step hp h (by rw [hvalid]; exact hb)
      rw [hvalid, UInt8.toNat_inj] at hc
      simp [hc]
    · exact List.mem_cons_of_mem c (ih (fun q hq => promising_of_mem_step hp hq) h)

/-- An ASCII byte is decoded where it stands, and decoding starts afresh behind it. -/
theorem decode_append_ascii {b : UInt8} (hb : b < 0x80) (bs cs : Bytes) :
    decode (bs ++ b :: cs) = decode bs ++ Char.ofNat b.toNat :: decode cs :=
  decodeFrom_append_ascii (by simp) hb bs cs

/-- **ASCII survives decoding**: an ASCII character is decoded exactly when its byte is there. -/
theorem mem_decode_ascii_iff {b : UInt8} (hb : b < 0x80) {bs : Bytes} :
    Char.ofNat b.toNat ∈ decode bs ↔ b ∈ bs := by
  constructor
  · exact mem_of_mem_decodeFrom hb (by simp)
  · intro h
    obtain ⟨bs, cs, rfl⟩ := List.append_of_mem h
    simp [decode_append_ascii hb]

/-- **ASCII survives encoding.** -/
theorem mem_encode_ascii_iff {b : UInt8} (hb : b < 0x80) {t : Text} :
    b ∈ encode t ↔ Char.ofNat b.toNat ∈ t := by
  rw [← mem_decode_ascii_iff hb, decode_encode]

/-- An ASCII character is decoded as often as its byte is there. -/
theorem count_decode_ascii {b : UInt8} (hb : b < 0x80) (bs : Bytes) :
    (decode bs).count (Char.ofNat b.toNat) = bs.count b := by
  induction hcount : bs.count b generalizing bs with
  | zero =>
    rw [List.count_eq_zero] at hcount ⊢
    exact fun hmem => hcount ((mem_decode_ascii_iff hb).mp hmem)
  | succ n ih =>
    have hmem : b ∈ bs := List.count_pos_iff.mp (by omega)
    -- cut the bytes at the first place of `b`
    obtain ⟨front, back, rfl, hfront⟩ := List.eq_append_cons_of_mem hmem
    have hnone : (decode front).count (Char.ofNat b.toNat) = 0 :=
      List.count_eq_zero.mpr fun hmem => hfront ((mem_decode_ascii_iff hb).mp hmem)
    rw [List.count_append, List.count_cons_self, List.count_eq_zero.mpr hfront] at hcount
    rw [decode_append_ascii hb, List.count_append, List.count_cons_self, hnone,
      ih back (by omega), Nat.zero_add]

theorem count_encode_ascii {b : UInt8} (hb : b < 0x80) (t : Text) :
    (encode t).count b = t.count (Char.ofNat b.toNat) := by
  rw [← count_decode_ascii hb, decode_encode]

private theorem decodeFrom_some_ne_nil (p : Pending) (bs : Bytes) :
    decodeFrom (some p) bs ≠ [] := by
  induction bs generalizing p with
  | nil => simp [decodeFrom]
  | cons b bs ih =>
    rw [decodeFrom, step]
    by_cases hb : p.least ≤ b ∧ b ≤ p.greatest
    · rw [Pending.next_of_mem hb.1 hb.2]
      cases p.owed with
      | zero => simp
      | succ owed => simpa using ih _
    · simp [Pending.next_of_notMem hb]

/-- Bytes never decode to nothing. -/
theorem decode_eq_nil_iff {bs : Bytes} : decode bs = [] ↔ bs = [] := by
  constructor
  · intro h
    cases bs with
    | nil => rfl
    | cons b bs =>
      rw [decode, decodeFrom, step] at h
      rcases firstByte_cases b with hb | hb | ⟨hb, hb'⟩ | ⟨hb, hb'⟩ | ⟨hb, hb'⟩
      · simp [first_of_lt_80 hb] at h
      · simp [first_of_ill hb] at h
      · simp [first_of_lt_E0 hb hb', decodeFrom_some_ne_nil] at h
      · simp [first_of_lt_F0 hb hb', decodeFrom_some_ne_nil] at h
      · simp [first_of_lt_F5 hb hb', decodeFrom_some_ne_nil] at h
  · rintro rfl
    rfl

/-- Text ends in an ASCII character exactly when its bytes end in that character's: behind the last
place where the byte stands, its character does not come up again. -/
theorem getLast?_decode_eq_some_ascii_iff {b : UInt8} (hb : b < 0x80) {bs : Bytes} :
    (decode bs).getLast? = some (Char.ofNat b.toNat) ↔ bs.getLast? = some b := by
  constructor
  · intro h
    have hmem : b ∈ bs := (mem_decode_ascii_iff hb).mp (List.mem_of_getLast? h)
    -- cut the bytes at the last place of `b`
    obtain ⟨back, front, hbs, hback⟩ := List.eq_append_cons_of_mem (List.mem_reverse.mpr hmem)
    obtain rfl : bs = front.reverse ++ b :: back.reverse := by
      rw [← List.reverse_reverse bs, hbs]
      simp
    rcases eq_or_ne back [] with rfl | hne
    · simp
    · have hne' : decode back.reverse ≠ [] := by
        rw [Ne, decode_eq_nil_iff]
        simpa using hne
      rw [decode_append_ascii hb, List.getLast?_append_cons, List.getLast?_cons_of_ne_nil hne'] at h
      have hmem' := (mem_decode_ascii_iff hb).mp (List.mem_of_getLast? h)
      exact absurd (List.mem_reverse.mp hmem') hback
  · intro h
    obtain ⟨front, rfl⟩ := List.getLast?_eq_some_iff.mp h
    rw [decode_append_ascii hb, List.getLast?_append_cons, decode_nil, List.getLast?_singleton]

theorem getLast?_encode_eq_some_ascii_iff {b : UInt8} (hb : b < 0x80) {t : Text} :
    (encode t).getLast? = some b ↔ t.getLast? = some (Char.ofNat b.toNat) := by
  rw [← getLast?_decode_eq_some_ascii_iff hb, decode_encode]

end Utf8

end SchemaDoc
