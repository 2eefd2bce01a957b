/-
  File:      RedisTimers/Library/PyText.lean
  Subject:   STRINGS OF CODE POINTS AND THEIR BYTES. A string may hold lone surrogates; the codecs
             read as with the error handler `surrogatepass`. Nothing here names a program.

  * `encodeUtf8`, `decodeUtf8`, `decodeUtf16le`, `decodeUtf32le` -- the codecs, without byte order
    marks;
  * `hex`, `fromhex` -- bytes as hexadecimal digits;
  * `decodeUtf8_encodeUtf8`, `fromhex_hex` -- what is written reads back.
-/
import Mathlib.Data.List.Basic

namespace PyText

/-- A `str`: its code points. -/
abbrev Text := List Nat

/-- Every code point is one. -/
def Valid (t : Text) : Prop := ∀ c ∈ t, c < 0x110000

instance (t : Text) : Decidable (Valid t) :=
  inferInstanceAs (Decidable (∀ c ∈ t, c < 0x110000))

@[simp] theorem valid_nil : Valid [] := fun _ hc => nomatch hc

@[simp] theorem valid_cons {c : Nat} {t : Text} : Valid (c :: t) ↔ c < 0x110000 ∧ Valid t :=
  List.forall_mem_cons

@[simp] theorem valid_append {s t : Text} : Valid (s ++ t) ↔ Valid s ∧ Valid t :=
  List.forall_mem_append

theorem valid_flatMap {α : Type} {l : List α} {f : α → Text} (h : ∀ a ∈ l, Valid (f a)) :
    Valid (l.flatMap f) := fun c hc => by
  obtain ⟨a, ha, hca⟩ := List.mem_flatMap.mp hc
  exact h a ha c hca

/-- The text of a literal. -/
def codes (s : List Char) : Text := s.map Char.toNat

def isHighSurrogate (c : Nat) : Bool := 0xD800 ≤ c && c < 0xDC00

def isLowSurrogate (c : Nat) : Bool := 0xDC00 ≤ c && c < 0xE000

def joinSurrogates (hi lo : Nat) : Nat := 0x10000 + (hi - 0xD800) * 0x400 + (lo - 0xDC00)

/-! ## 1. UTF-8 -/

/-- The bytes of a code point. -/
def utf8Bytes (c : Nat) : List UInt8 :=
  if c < 0x80 then [.ofNat c]
  else if c < 0x800 then [.ofNat (0xC0 + c / 0x40), .ofNat (0x80 + c % 0x40)]
  else if c < 0x10000 then
    [.ofNat (0xE0 + c / 0x1000), .ofNat (0x80 + c / 0x40 % 0x40), .ofNat (0x80 + c % 0x40)]
  else
    [.ofNat (0xF0 + c / 0x40000), .ofNat (0x80 + c / 0x1000 % 0x40),
      .ofNat (0x80 + c / 0x40 % 0x40), .ofNat (0x80 + c % 0x40)]

/-- `str.encode("utf-8", "surrogatepass")`. -/
def encodeUtf8 (t : Text) : List UInt8 := t.flatMap utf8Bytes

/-- What a codec makes of the front of some bytes: a code point, and the bytes behind it. -/
abbrev Reader :=
  (bs : List UInt8) → Option (Nat × {rest : List UInt8 // rest.length < bs.length})

/-- All of the bytes, `none` where the codec raises UnicodeDecodeError. -/
def decodeAll (read : Reader) (bs : List UInt8) : Option Text :=
  if bs = [] then some []
  else
    match read bs with
    | none => none
    | some (c, ⟨rest, _⟩) => (decodeAll read rest).map (c :: ·)
termination_by bs.length

theorem decodeAll_nil (read : Reader) : decodeAll read [] = some [] := by
  rw [decodeAll, if_pos rfl]

theorem decodeAll_of_read {read : Reader} {bs rest : List UInt8} {c : Nat}
    {h : rest.length < bs.length} (hr : read bs = some (c, ⟨rest, h⟩)) :
    decodeAll read bs = (decodeAll read rest).map (c :: ·) := by
  have hne : bs ≠ [] := fun hb => by
    rw [hb] at h
    exact Nat.not_lt_zero _ h
  rw [decodeAll, if_neg hne, hr]

/-- The six bits of a continuation byte. -/
def continuation (b : UInt8) : Option Nat :=
  if 0x80 ≤ b.toNat ∧ b.toNat < 0xC0 then some (b.toNat - 0x80) else none

/-- A code point that is not below `low`, the least of its length. -/
def scalar (low c : Nat) : Option Nat := if low ≤ c ∧ c < 0x110000 then some c else none

def readUtf8 : Reader
  | [] => none
  | a :: rest =>
    if a.toNat < 0x80 then some (a.toNat, ⟨rest, by simp only [List.length_cons]; omega⟩)
    else if a.toNat < 0xC0 then none
    else if a.toNat < 0xE0 then
      match rest with
      | b :: rest => do
          let x ← continuation b
          let c ← scalar 0x80 ((a.toNat - 0xC0) * 0x40 + x)
          some (c, ⟨rest, by simp only [List.length_cons]; omega⟩)
      | _ => none
    else if a.toNat < 0xF0 then
      match rest with
      | b :: b' :: rest => do
          let x ← continuation b
          let y ← continuation b'
          let c ← scalar 0x800 (((a.toNat - 0xE0) * 0x40 + x) * 0x40 + y)
          some (c, ⟨rest, by simp only [List.length_cons]; omega⟩)
      | _ => none
    else
      match rest with
      | b :: b' :: b'' :: rest => do
          let x ← continuation b
          let y ← continuation b'
          let z ← continuation b''
          let c ← scalar 0x10000 ((((a.toNat - 0xF0) * 0x40 + x) * 0x40 + y) * 0x40 + z)
          some (c, ⟨rest, by simp only [List.length_cons]; omega⟩)
      | _ => none

/-- `bytes.decode("utf-8", "surrogatepass")`. -/
def decodeUtf8 : List UInt8 → Option Text := decodeAll readUtf8

theorem toNat_ofNat_of_lt {n : Nat} (h : n < 0x100) : (UInt8.ofNat n).toNat = n := by
  rw [UInt8.toNat_ofNat']
  omega

theorem continuation_ofNat {n : Nat} (h : n < 0x40) :
    continuation (.ofNat (0x80 + n)) = some n := by
  have hn : (UInt8.ofNat (0x80 + n)).toNat = 0x80 + n := toNat_ofNat_of_lt (by omega)
  unfold continuation
  rw [hn, if_pos ⟨by omega, by omega⟩, Nat.add_sub_cancel_left]

theorem scalar_eq {low c v : Nat} (hv : v = c) (hl : low ≤ c) (hc : c < 0x110000) :
    scalar low v = some c := by
  rw [hv, scalar, if_pos ⟨hl, hc⟩]

theorem readUtf8_one {a : UInt8} (h : a.toNat < 0x80) (rest : List UInt8) :
    ∃ hlt, readUtf8 (a :: rest) = some (a.toNat, ⟨rest, hlt⟩) := by
  refine ⟨by simp only [List.length_cons]; omega, ?_⟩
  show (if a.toNat < 0x80 then some (a.toNat, _) else _) = _
  rw [if_pos h]

theorem readUtf8_two {a b : UInt8} {w x c : Nat} (ha : a.toNat = 0xC0 + w) (hw : w < 0x20)
    (hb : continuation b = some x) (hc : scalar 0x80 (w * 0x40 + x) = some c)
    (rest : List UInt8) :
    ∃ hlt, readUtf8 (a :: b :: rest) = some (c, ⟨rest, hlt⟩) := by
  refine ⟨by simp only [List.length_cons]; omega, ?_⟩
  simp only [readUtf8, ha, hb, Nat.add_sub_cancel_left, Option.bind_eq_bind, Option.bind_some, hc]
  rw [if_neg (by omega), if_neg (by omega), if_pos (by omega)]

theorem readUtf8_three {a b b' : UInt8} {w x y c : Nat} (ha : a.toNat = 0xE0 + w)
    (hw : w < 0x10) (hb : continuation b = some x) (hb' : continuation b' = some y)
    (hc : scalar 0x800 ((w * 0x40 + x) * 0x40 + y) = some c) (rest : List UInt8) :
    ∃ hlt, readUtf8 (a :: b :: b' :: rest) = some (c, ⟨rest, hlt⟩) := by
  refine ⟨by simp only [List.length_cons]; omega, ?_⟩
  simp only [readUtf8, ha, hb, hb', Nat.add_sub_cancel_left, Option.bind_eq_bind,
    Option.bind_some, hc]
  rw [if_neg (by omega), if_neg (by omega), if_neg (by omega), if_pos (by omega)]

theorem readUtf8_four {a b b' b'' : UInt8} {w x y z c : Nat} (ha : a.toNat = 0xF0 + w)
    (hb : continuation b = some x) (hb' : continuation b' = some y)
    (hb'' : continuation b'' = some z)
    (hc : scalar 0x10000 (((w * 0x40 + x) * 0x40 + y) * 0x40 + z) = some c)
    (rest : List UInt8) :
    ∃ hlt, readUtf8 (a :: b :: b' :: b'' :: rest) = some (c, ⟨rest, hlt⟩) := by
  refine ⟨by simp only [List.length_cons]; omega, ?_⟩
  simp only [readUtf8, ha, hb, hb', hb'', Nat.add_sub_cancel_left, Option.bind_eq_bind,
    Option.bind_some, hc]
  rw [if_neg (by omega), if_neg (by omega), if_neg (by omega), if_neg (by omega)]

/-- **The bytes of a code point are read as that code point**, whatever follows. -/
theorem readUtf8_utf8Bytes {c : Nat} (hc : c < 0x110000) (rest : List UInt8) :
    ∃ hlt, readUtf8 (utf8Bytes c ++ rest) = some (c, ⟨rest, hlt⟩) := by
  have hsix : ∀ n, continuation (.ofNat (0x80 + n % 0x40)) = some (n % 0x40) := fun n =>
    continuation_ofNat (Nat.mod_lt n (by omega))
  rcases Nat.lt_or_ge c 0x80 with h1 | h1
  · have hb : (UInt8.ofNat c).toNat = c := toNat_ofNat_of_lt (by omega)
    rw [utf8Bytes, if_pos h1]
    have h := readUtf8_one (a := .ofNat c) (by omega) rest
    rwa [hb] at h
  rcases Nat.lt_or_ge c 0x800 with h2 | h2
  · rw [utf8Bytes, if_neg (by omega), if_pos h2]
    exact readUtf8_two (toNat_ofNat_of_lt (by omega)) (by omega) (hsix c)
      (scalar_eq (by omega) h1 hc) rest
  rcases Nat.lt_or_ge c 0x10000 with h3 | h3
  · rw [utf8Bytes, if_neg (by omega), if_neg (by omega), if_pos h3]
    exact readUtf8_three (toNat_ofNat_of_lt (by omega)) (by omega) (hsix (c / 0x40)) (hsix c)
      (scalar_eq (by omega) h2 hc) rest
  · rw [utf8Bytes, if_neg (by omega), if_neg (by omega), if_neg (by omega)]
    exact readUtf8_four (toNat_ofNat_of_lt (by omega)) (hsix (c / 0x1000)) (hsix (c / 0x40))
      (hsix c) (scalar_eq (by omega) h3 hc) rest

/-- **A text's UTF-8 reads back as the text.** -/
theorem decodeUtf8_encodeUtf8 {t : Text} (h : Valid t) : decodeUtf8 (encodeUtf8 t) = some t := by
  induction t with
  | nil => exact decodeAll_nil readUtf8
  | cons c t ih =>
      have ht : decodeUtf8 (encodeUtf8 t) = some t := ih fun d hd => h d (List.mem_cons_of_mem c hd)
      obtain ⟨hlt, hr⟩ := readUtf8_utf8Bytes (h c List.mem_cons_self) (encodeUtf8 t)
      have hd : decodeAll readUtf8 (utf8Bytes c ++ encodeUtf8 t) =
          (decodeUtf8 (encodeUtf8 t)).map (c :: ·) := decodeAll_of_read hr
      rw [ht] at hd
      exact hd

/-! ## 2. The codecs of wider units -/

/-- The 16-bit unit of two bytes, the low one first. -/
def unit16 (a b : UInt8) : Nat := a.toNat + b.toNat * 0x100

def readUtf16le : Reader
  | a :: b :: rest =>
    match rest with
    | c :: d :: rest' =>
      if isHighSurrogate (unit16 a b) ∧ isLowSurrogate (unit16 c d) then
        some (joinSurrogates (unit16 a b) (unit16 c d),
          ⟨rest', by simp only [List.length_cons]; omega⟩)
      else some (unit16 a b, ⟨c :: d :: rest', by simp only [List.length_cons]; omega⟩)
    | rest => some (unit16 a b, ⟨rest, by simp only [List.length_cons]; omega⟩)
  | _ => none

/-- `bytes.decode("utf-16-le", "surrogatepass")`. -/
def decodeUtf16le : List UInt8 → Option Text := decodeAll readUtf16le

def readUtf32le : Reader
  | a :: b :: c :: d :: rest => do
      let c ← scalar 0 (unit16 a b + unit16 c d * 0x10000)
      some (c, ⟨rest, by simp only [List.length_cons]; omega⟩)
  | _ => none

/-- `bytes.decode("utf-32-le", "surrogatepass")`. -/
def decodeUtf32le : List UInt8 → Option Text := decodeAll readUtf32le

/-! ## 3. Hexadecimal digits -/

def hexDigit (c : Nat) : Option Nat :=
  if 0x30 ≤ c ∧ c ≤ 0x39 then some (c - 0x30)
  else if 0x41 ≤ c ∧ c ≤ 0x46 then some (c - 0x37)
  else if 0x61 ≤ c ∧ c ≤ 0x66 then some (c - 0x57)
  else none

/-- The lower-case digit of a number below sixteen. -/
def hexChar (n : Nat) : Nat := if n < 10 then 0x30 + n else 0x57 + n

/-- `bytes.hex()`. -/
def hex (bs : List UInt8) : Text :=
  bs.flatMap fun b => [hexChar (b.toNat / 16), hexChar (b.toNat % 16)]

theorem hexChar_lt {n : Nat} (h : n < 16) : hexChar n < 0x80 := by
  unfold hexChar
  split <;> omega

theorem valid_hex (bs : List UInt8) : Valid (hex bs) := by
  refine valid_flatMap fun b _ => ?_
  have hb : b.toNat < 256 := b.toNat_lt_size
  have hhi := hexChar_lt (n := b.toNat / 16) (by omega)
  have hlo := hexChar_lt (n := b.toNat % 16) (by omega)
  simp only [valid_cons, valid_nil, and_true]
  omega

/-- ASCII whitespace. -/
def isAsciiSpace (c : Nat) : Bool := c == 0x20 || (0x09 ≤ c && c ≤ 0x0D)

/-- `bytes.fromhex(t)`, `none` where it raises ValueError: blanks may stand before and behind the
    two digits of a byte, not between them. -/
def fromhex : Text → Option (List UInt8)
  | [] => some []
  | [c] => if isAsciiSpace c then some [] else none
  | c :: d :: rest =>
    if isAsciiSpace c then fromhex (d :: rest)
    else do
      let hi ← hexDigit c
      let lo ← hexDigit d
      let bs ← fromhex rest
      some (.ofNat (16 * hi + lo) :: bs)

theorem hexDigit_hexChar {n : Nat} (h : n < 16) : hexDigit (hexChar n) = some n := by
  unfold hexChar hexDigit
  split
  · rw [if_pos (by omega), Nat.add_sub_cancel_left]
  · rw [if_neg (by omega), if_neg (by omega), if_pos (by omega), Nat.add_sub_cancel_left]

theorem isAsciiSpace_hexChar {n : Nat} (h : n < 16) : isAsciiSpace (hexChar n) = false := by
  unfold hexChar isAsciiSpace
  split <;> simp <;> omega

/-- **The digits of some bytes are read as those bytes.** -/
theorem fromhex_hex (bs : List UInt8) : fromhex (hex bs) = some bs := by
  induction bs with
  | nil => rfl
  | cons b bs ih =>
      have hb : b.toNat < 256 := b.toNat_lt_size
      have hhi : b.toNat / 16 < 16 := by omega
      have hlo : b.toNat % 16 < 16 := Nat.mod_lt _ (by omega)
      have hback : UInt8.ofNat (16 * (b.toNat / 16) + b.toNat % 16) = b := by
        rw [Nat.div_add_mod, UInt8.ofNat_toNat]
      have hcons : hex (b :: bs) =
          hexChar (b.toNat / 16) :: hexChar (b.toNat % 16) :: hex bs := rfl
      rw [hcons, fromhex, isAsciiSpace_hexChar hhi, if_neg Bool.false_ne_true,
        hexDigit_hexChar hhi, hexDigit_hexChar hlo, ih]
      exact congrArg (fun c => some (c :: bs)) hback

end PyText
