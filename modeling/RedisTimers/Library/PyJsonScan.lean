/-
  File:      RedisTimers/Library/PyJsonScan.lean
  Subject:   JSON AS PYTHON READS IT, 1: values, blanks, strings and numbers. Strings are strict,
             lone surrogates are kept, a float is its literal. Nothing here names a program.

  The interpreter refuses an integer literal by its number of digits: `fits` says which it takes.

  * `string`, `number` -- the scanners; `string` has fuel for the characters;
  * `Chars`, `Numeral` -- what a string and a number may look like;
  * `chars_spell` -- every string can be written;
  * `Chars.string_eq`, `chars_of_string`, `Numeral.Ok.number_eq`, `number_text` -- the scanners
    read exactly these.
-/
import Mathlib.Algebra.Ring.Nat
import Mathlib.Data.List.TakeWhile
import RedisTimers.Library.PyText

/-- What a text spells. An object keeps its members as they stand; the `dict` keeps the last of
    each key (`PyJson.get`). -/
inductive PyJson where
  | null
  | bool (b : Bool)
  | int (z : Int)
  /-- `mantissa * 10 ^ exponent`. -/
  | float (mantissa exponent : Int)
  | nan
  | infinity (negative : Bool)
  | str (s : PyText.Text)
  | arr (vs : List PyJson)
  | obj (ms : List (PyText.Text × PyJson))

namespace PyJson

open PyText

/-- `d.get(key)` of the `dict` an object loads as. -/
def get (ms : List (Text × PyJson)) (key : Text) : Option PyJson := ms.reverse.lookup key

/-- `bool(v)`. A literal of at most `2 ^ -1075` is the float zero. -/
def truthy : PyJson → Bool
  | null => false
  | bool b => b
  | int z => decide (z ≠ 0)
  | float m e => decide (10 ^ (-e).toNat < m.natAbs * 10 ^ e.toNat * 2 ^ 1075)
  | nan | infinity _ => true
  | str s => !s.isEmpty
  | arr vs => !vs.isEmpty
  | obj ms => !ms.isEmpty

/-! ## 1. Blanks and single characters -/

def quote : Nat := 0x22
def backslash : Nat := 0x5C
def comma : Nat := 0x2C
def colon : Nat := 0x3A
def lbracket : Nat := 0x5B
def rbracket : Nat := 0x5D
def lbrace : Nat := 0x7B
def rbrace : Nat := 0x7D

/-- WHITESPACE of `json.decoder`. -/
def isSpace (c : Nat) : Bool := c == 0x20 || c == 0x09 || c == 0x0A || c == 0x0D

def skipSpace (t : Text) : Text := t.dropWhile isSpace

/-- What follows `c`, where `c` is next but for blanks. -/
def after (c : Nat) (t : Text) : Option Text :=
  match skipSpace t with
  | [] => none
  | d :: rest => if d = c then some rest else none

/-- Blanks, then `rest`. -/
def Blank (t rest : Text) : Prop := ∃ s, t = s ++ rest ∧ ∀ c ∈ s, isSpace c = true

theorem Blank.refl (t : Text) : Blank t t := ⟨[], rfl, by simp⟩

theorem Blank.length_le {t rest : Text} (h : Blank t rest) : rest.length ≤ t.length := by
  obtain ⟨s, rfl, -⟩ := h
  simp

theorem blank_skipSpace (t : Text) : Blank t (skipSpace t) :=
  ⟨t.takeWhile isSpace, (List.takeWhile_append_dropWhile).symm,
    fun _ hc => List.mem_takeWhile_imp hc⟩

/-- The blanks before what is no blank are those `skipSpace` skips. -/
theorem Blank.skipSpace {t rest : Text} {c : Nat} (h : Blank t (c :: rest))
    (hc : isSpace c = false) : skipSpace t = c :: rest := by
  obtain ⟨s, rfl, hs⟩ := h
  rw [PyJson.skipSpace, List.dropWhile_append_of_pos hs, List.dropWhile_cons_of_neg (by simp [hc])]

theorem Blank.skipSpace_nil {t : Text} (h : Blank t []) : PyJson.skipSpace t = [] := by
  obtain ⟨s, rfl, hs⟩ := h
  rw [PyJson.skipSpace, List.dropWhile_append_of_pos hs, List.dropWhile_nil]

/-- **`after` finds a character exactly where only blanks stand before it.** -/
theorem after_eq_some {c : Nat} (hc : isSpace c = false) {t rest : Text} :
    after c t = some rest ↔ Blank t (c :: rest) := by
  constructor
  · intro h
    have hb := blank_skipSpace t
    unfold after at h
    cases hs : PyJson.skipSpace t with
    | nil =>
        rw [hs] at h
        cases h
    | cons d u =>
        simp only [hs] at h
        split at h
        · rename_i hd
          cases h
          rwa [hs, hd] at hb
        · cases h
  · intro h
    simp only [after, h.skipSpace hc, if_true]

/-! ## 2. Strings -/

/-- BACKSLASH of `json.decoder`: what a one-character escape stands for. -/
def escapes : List (Nat × Nat) :=
  [(0x22, 0x22), (0x5C, 0x5C), (0x2F, 0x2F), (0x62, 0x08), (0x66, 0x0C), (0x6E, 0x0A),
    (0x72, 0x0D), (0x74, 0x09)]

def hex4 : Text → Option (Nat × Text)
  | a :: b :: c :: d :: rest => do
      let w ← hexDigit a
      let x ← hexDigit b
      let y ← hexDigit c
      let z ← hexDigit d
      some (w * 0x1000 + x * 0x100 + y * 0x10 + z, rest)
  | _ => none

/-- A low surrogate that stands as an escape. -/
def lowEscape : Text → Option (Nat × Text)
  | b :: u :: rest => do
      if b ≠ backslash ∨ u ≠ 0x75 then none
      else
        let (c, rest) ← hex4 rest
        if isLowSurrogate c then some (c, rest) else none
  | _ => none

/-- The escape behind a backslash: its code point and what follows. Two escapes of a surrogate
    pair are one code point. -/
def escape : Text → Option (Nat × Text)
  | [] => none
  | c :: rest =>
    if c = 0x75 then do
      let (hi, rest) ← hex4 rest
      match if isHighSurrogate hi then lowEscape rest else none with
      | some (lo, rest) => some (joinSurrogates hi lo, rest)
      | none => some (hi, rest)
    else (escapes.lookup c).map (·, rest)

/-- `scanstring`, behind the opening quote. -/
def string : Nat → Text → Option (Text × Text)
  | 0, _ => none
  | _, [] => none
  | n + 1, c :: rest =>
    if c = quote then some ([], rest)
    else if c = backslash then do
      let (d, rest) ← escape rest
      let (s, rest) ← string n rest
      some (d :: s, rest)
    else if c < 0x20 then none
    else do
      let (s, rest) ← string n rest
      some (c :: s, rest)

/-- `Chars t s rest`: behind an opening quote, `t` spells `s`, the closing quote and `rest`. -/
inductive Chars : Text → Text → Text → Prop where
  | close {rest : Text} : Chars (quote :: rest) [] rest
  | plain {c : Nat} {t s rest : Text} (hq : c ≠ quote) (hb : c ≠ backslash) (hc : 0x20 ≤ c)
      (h : Chars t s rest) : Chars (c :: t) (c :: s) rest
  | escaped {t u s rest : Text} {d : Nat} (hd : escape t = some (d, u))
      (h : Chars u s rest) : Chars (backslash :: t) (d :: s) rest

theorem hex4_length {t rest : Text} {c : Nat} (h : hex4 t = some (c, rest)) :
    t.length = rest.length + 4 := by
  unfold hex4 at h
  split at h
  · simp only [Option.bind_eq_bind, Option.bind_eq_some_iff, Option.some.injEq,
      Prod.mk.injEq] at h
    obtain ⟨w, -, x, -, y, -, z, -, -, rfl⟩ := h
    rfl
  · cases h

theorem lowEscape_length {t rest : Text} {c : Nat} (h : lowEscape t = some (c, rest)) :
    rest.length < t.length := by
  unfold lowEscape at h
  split at h
  · split at h
    · cases h
    · simp only [Option.bind_eq_bind, Option.bind_eq_some_iff] at h
      obtain ⟨⟨d, u⟩, hd, h⟩ := h
      have hlen := hex4_length hd
      split at h
      · cases h
        simp only [List.length_cons]
        omega
      · cases h
  · cases h

theorem escape_length {t rest : Text} {c : Nat} (h : escape t = some (c, rest)) :
    rest.length < t.length := by
  unfold escape at h
  split at h
  · cases h
  · split at h
    · simp only [Option.bind_eq_bind, Option.bind_eq_some_iff] at h
      obtain ⟨⟨hi, u⟩, hhi, h⟩ := h
      have hlen := hex4_length hhi
      split at h
      · rename_i lo v hlo
        obtain ⟨-, rfl⟩ := Prod.mk.inj (Option.some.inj h)
        split at hlo
        · have hlow : v.length < u.length := lowEscape_length hlo
          simp only [List.length_cons]
          omega
        · cases hlo
      · cases h
        simp only [List.length_cons]
        omega
    · obtain ⟨d, -, hd⟩ := Option.map_eq_some_iff.mp h
      cases hd
      exact Nat.lt_succ_self _

theorem Chars.length_lt {t s rest : Text} (h : Chars t s rest) : rest.length < t.length := by
  induction h with
  | close => exact Nat.lt_succ_self _
  | plain hq hb hc h ih => exact Nat.lt_succ_of_lt ih
  | escaped hd h ih => exact Nat.lt_succ_of_lt (Nat.lt_trans ih (escape_length hd))

/-- Every string the grammar spells is scanned, with fuel for its characters. -/
theorem Chars.string_eq {t s rest : Text} (h : Chars t s rest) {n : Nat} (hn : t.length ≤ n) :
    string n t = some (s, rest) := by
  induction h generalizing n with
  | close =>
      cases n with
      | zero => cases hn
      | succ n => rw [string, if_pos rfl]
  | plain hq hb hc h ih =>
      cases n with
      | zero => cases hn
      | succ n =>
          rw [string, if_neg hq, if_neg hb, if_neg (by omega), ih (Nat.le_of_succ_le_succ hn)]
          rfl
  | escaped hd h ih =>
      cases n with
      | zero => cases hn
      | succ n =>
          have hlen := escape_length hd
          have hle := Nat.le_of_succ_le_succ hn
          have hs := ih (n := n) (by omega)
          rw [string, if_neg (by decide), if_pos rfl]
          simp only [hd, hs, Option.bind_eq_bind, Option.bind_some]

/-- What is scanned as a string is spelled by the grammar. -/
theorem chars_of_string {n : Nat} {t s rest : Text} (h : string n t = some (s, rest)) :
    Chars t s rest := by
  induction n generalizing t s rest with
  | zero => cases h
  | succ n ih =>
      cases t with
      | nil => cases h
      | cons c t =>
          unfold string at h
          split at h
          · rename_i hq
            cases h
            rw [hq]
            exact .close
          · rename_i hq
            split at h
            · rename_i hb
              simp only [Option.bind_eq_bind, Option.bind_eq_some_iff] at h
              obtain ⟨⟨d, u⟩, hd, ⟨s', rest'⟩, hs, h⟩ := h
              cases h
              rw [hb]
              exact .escaped hd (ih hs)
            · rename_i hb
              split at h
              · cases h
              · rename_i hc
                simp only [Option.bind_eq_bind, Option.bind_eq_some_iff] at h
                obtain ⟨⟨s', rest'⟩, hs, h⟩ := h
                cases h
                exact .plain hq hb (Nat.le_of_not_lt hc) (ih hs)

/-- A character as a writer puts it: a quote, a backslash or a control character as an escape. -/
def spellChar (c : Nat) : Text :=
  if c < 0x20 ∨ c = quote ∨ c = backslash then
    [backslash, 0x75, 0x30, 0x30, hexChar (c / 16), hexChar (c % 16)]
  else [c]

theorem valid_spell {s : Text} (h : Valid s) : Valid (s.flatMap spellChar) := by
  refine valid_flatMap fun c hc => ?_
  have hlt := h c hc
  unfold spellChar
  split
  · rename_i hesc
    simp only [quote, backslash] at hesc
    have hhi := hexChar_lt (n := c / 16) (by omega)
    have hlo := hexChar_lt (n := c % 16) (by omega)
    simp only [valid_cons, valid_nil, and_true, backslash]
    omega
  · exact valid_cons.mpr ⟨hlt, valid_nil⟩

theorem escape_hex {c : Nat} (h : c < 0x80) (t : Text) :
    escape (0x75 :: 0x30 :: 0x30 :: hexChar (c / 16) :: hexChar (c % 16) :: t) = some (c, t) := by
  have h0 : hexDigit 0x30 = some 0 := rfl
  have hc : 0 * 0x1000 + 0 * 0x100 + c / 16 * 0x10 + c % 16 = c := by omega
  have hhigh : isHighSurrogate c = false := by
    simp only [isHighSurrogate, Bool.and_eq_false_iff, decide_eq_false_iff_not]
    omega
  simp only [escape, hex4, h0, hexDigit_hexChar (n := c / 16) (by omega),
    hexDigit_hexChar (n := c % 16) (by omega), Option.bind_eq_bind, Option.bind_some, hc, hhigh,
    if_true, Bool.false_eq_true, if_false]

/-- **Every string can be spelled.** -/
theorem chars_spell (s rest : Text) : Chars (s.flatMap spellChar ++ quote :: rest) s rest := by
  induction s with
  | nil => exact .close
  | cons c s ih =>
      rw [List.flatMap_cons, List.append_assoc, spellChar]
      split
      · rename_i hc
        have hlt : c < 0x80 := by
          simp only [quote, backslash] at hc
          omega
        exact .escaped (escape_hex hlt _) ih
      · rename_i hc
        exact .plain (by omega) (by omega) (by omega) ih

/-! ## 3. Numbers -/

def isDigit (c : Nat) : Bool := 0x30 ≤ c && c ≤ 0x39

structure Exponent where
  /-- `e` or `E`. -/
  marker : Nat
  /-- `+` or `-`, where one stands. -/
  sign : Option Nat
  digits : Text

/-- The literal of a number; `fraction` are the digits behind the point. -/
structure Numeral where
  negative : Bool
  whole : Text
  fraction : Text
  exponent : Option Exponent

def Exponent.text (e : Exponent) : Text := e.marker :: (e.sign.toList ++ e.digits)

def Numeral.text (n : Numeral) : Text :=
  (if n.negative then [0x2D] else []) ++
    (n.whole ++ ((if n.fraction = [] then [] else 0x2E :: n.fraction) ++
      n.exponent.elim [] Exponent.text))

structure Exponent.Ok (e : Exponent) : Prop where
  marker : e.marker = 0x65 ∨ e.marker = 0x45
  sign : ∀ c ∈ e.sign, c = 0x2B ∨ c = 0x2D
  nonempty : e.digits ≠ []
  digits : ∀ c ∈ e.digits, isDigit c = true

structure Numeral.Ok (n : Numeral) : Prop where
  nonempty : n.whole ≠ []
  whole : ∀ c ∈ n.whole, isDigit c = true
  /-- No leading zero. -/
  leading : ∀ ds, n.whole = 0x30 :: ds → ds = []
  fraction : ∀ c ∈ n.fraction, isDigit c = true
  exponent : ∀ e ∈ n.exponent, e.Ok

/-- The number decimal digits spell. -/
def natOf (ds : Text) : Nat := ds.foldl (fun n d => 10 * n + (d - 0x30)) 0

def signed (negative : Bool) (n : Nat) : Int := if negative then -n else n

def Exponent.value (e : Exponent) : Int := signed (e.sign = some 0x2D) (natOf e.digits)

/-- `int(literal)` or `float(literal)`; `none` where `int` raises ValueError for the number of
    digits. -/
def Numeral.json (fits : Nat → Bool) (n : Numeral) : Option PyJson :=
  if n.fraction = [] ∧ n.exponent.isNone then
    if fits n.whole.length then some (.int (signed n.negative (natOf n.whole))) else none
  else
    some (.float (signed n.negative (natOf (n.whole ++ n.fraction)))
      (n.exponent.elim 0 Exponent.value - n.fraction.length))

def minusPart : Text → Bool × Text
  | [] => (false, [])
  | c :: rest => if c = 0x2D then (true, rest) else (false, c :: rest)

def wholePart : Text → Option (Text × Text)
  | [] => none
  | c :: rest =>
    if c = 0x30 then some ([c], rest)
    else if isDigit c then some (c :: rest.takeWhile isDigit, rest.dropWhile isDigit)
    else none

def fractionPart : Text → Text × Text
  | [] => ([], [])
  | c :: rest =>
    if c = 0x2E ∧ rest.takeWhile isDigit ≠ [] then
      (rest.takeWhile isDigit, rest.dropWhile isDigit)
    else ([], c :: rest)

def signPart : Text → Option Nat × Text
  | [] => (none, [])
  | c :: rest => if c = 0x2B ∨ c = 0x2D then (some c, rest) else (none, c :: rest)

def exponentPart : Text → Option Exponent × Text
  | [] => (none, [])
  | c :: rest =>
    if (c = 0x65 ∨ c = 0x45) ∧ (signPart rest).2.takeWhile isDigit ≠ [] then
      (some ⟨c, (signPart rest).1, (signPart rest).2.takeWhile isDigit⟩,
        (signPart rest).2.dropWhile isDigit)
    else (none, c :: rest)

/-- `_match_number`: the longest literal at the front. -/
def number (t : Text) : Option (Numeral × Text) := do
  let (whole, u) ← wholePart (minusPart t).2
  some (⟨(minusPart t).1, whole, (fractionPart u).1, (exponentPart (fractionPart u).2).1⟩,
    (exponentPart (fractionPart u).2).2)

theorem minusPart_text (t : Text) :
    t = (if (minusPart t).1 then [0x2D] else []) ++ (minusPart t).2 := by
  cases t with
  | nil => rfl
  | cons c t =>
      rw [minusPart]
      split
      · rename_i hc
        rw [hc]
        rfl
      · rfl

theorem signPart_text (t : Text) : t = (signPart t).1.toList ++ (signPart t).2 := by
  cases t with
  | nil => rfl
  | cons c t =>
      rw [signPart]
      split <;> rfl

theorem signPart_ok (t : Text) : ∀ c ∈ (signPart t).1, c = 0x2B ∨ c = 0x2D := by
  cases t with
  | nil => simp [signPart]
  | cons c t =>
      rw [signPart]
      split
      · rename_i hc
        intro d hd
        rwa [← Option.some.inj hd]
      · simp

theorem digits_takeWhile (t : Text) : ∀ c ∈ t.takeWhile isDigit, isDigit c = true :=
  fun _ hc => List.mem_takeWhile_imp hc

theorem fractionPart_text (t : Text) :
    t = (if (fractionPart t).1 = [] then [] else 0x2E :: (fractionPart t).1) ++
      (fractionPart t).2 := by
  cases t with
  | nil => rfl
  | cons c t =>
      rw [fractionPart]
      split
      · rename_i hc
        rw [if_neg hc.2, hc.1, List.cons_append, List.takeWhile_append_dropWhile]
      · rfl

theorem fractionPart_ok (t : Text) : ∀ c ∈ (fractionPart t).1, isDigit c = true := by
  cases t with
  | nil => simp [fractionPart]
  | cons c t =>
      rw [fractionPart]
      split
      · exact digits_takeWhile t
      · simp

theorem exponentPart_text (t : Text) :
    t = (exponentPart t).1.elim [] Exponent.text ++ (exponentPart t).2 := by
  cases t with
  | nil => rfl
  | cons c t =>
      rw [exponentPart]
      split
      · rw [Option.elim_some, Exponent.text, List.cons_append, List.append_assoc,
          List.takeWhile_append_dropWhile, ← signPart_text]
      · rfl

theorem exponentPart_ok (t : Text) : ∀ e ∈ (exponentPart t).1, e.Ok := by
  cases t with
  | nil => simp [exponentPart]
  | cons c t =>
      rw [exponentPart]
      split
      · rename_i hc
        intro e he
        cases he
        exact ⟨hc.1, signPart_ok t, hc.2, digits_takeWhile _⟩
      · simp

theorem wholePart_ok {t whole rest : Text} (h : wholePart t = some (whole, rest)) :
    t = whole ++ rest ∧ whole ≠ [] ∧ (∀ c ∈ whole, isDigit c = true) ∧
      ∀ ds, whole = 0x30 :: ds → ds = [] := by
  cases t with
  | nil => cases h
  | cons c t =>
      rw [wholePart] at h
      split at h
      · rename_i hc
        cases h
        exact ⟨rfl, List.cons_ne_nil _ _, by simp [hc, isDigit], fun ds hds => by cases hds; rfl⟩
      · rename_i hz
        split at h
        · rename_i hc
          cases h
          refine ⟨?_, List.cons_ne_nil _ _, ?_, fun ds hds => ?_⟩
          · rw [List.cons_append, List.takeWhile_append_dropWhile]
          · intro d hd
            rcases List.mem_cons.mp hd with rfl | hd
            · exact hc
            · exact digits_takeWhile t d hd
          · exact absurd (List.cons.inj hds).1 hz
        · cases h

/-- **What is read as a number is the text of a literal.** -/
theorem number_text {t rest : Text} {n : Numeral} (h : number t = some (n, rest)) :
    n.Ok ∧ t = n.text ++ rest := by
  simp only [number, Option.bind_eq_bind, Option.bind_eq_some_iff] at h
  obtain ⟨⟨whole, u⟩, hw, h⟩ := h
  cases h
  obtain ⟨htext, hne, hdigits, hlead⟩ := wholePart_ok hw
  refine ⟨⟨hne, hdigits, hlead, fractionPart_ok u, exponentPart_ok _⟩, ?_⟩
  rw [Numeral.text, List.append_assoc, List.append_assoc, List.append_assoc, ← exponentPart_text,
    ← fractionPart_text, ← htext, ← minusPart_text]

/-- A number may end here: nothing follows, or a blank, a comma or a closing bracket. -/
def Stops (t : Text) : Prop :=
  ∀ c ∈ t.head?, isSpace c = true ∨ c = comma ∨ c = rbracket ∨ c = rbrace

theorem stops_nil : Stops [] := fun _ hc => nomatch hc

theorem Stops.head {t : Text} (h : Stops t) {c : Nat} (hc : c ∈ t.head?) :
    isDigit c = false ∧ c ≠ 0x2E ∧ c ≠ 0x65 ∧ c ≠ 0x45 := by
  have hs := h c hc
  simp only [isSpace, Bool.or_eq_true, beq_iff_eq, comma, rbracket, rbrace] at hs
  have hd : isDigit c = false := by
    simp only [isDigit, Bool.and_eq_false_iff, decide_eq_false_iff_not]
    omega
  exact ⟨hd, by omega, by omega, by omega⟩

/-- Blanks, then a character that may follow a number. -/
theorem Blank.stops {t rest : Text} {c : Nat} (h : Blank t (c :: rest))
    (hc : c = comma ∨ c = rbracket ∨ c = rbrace) : Stops t := by
  obtain ⟨s, rfl, hs⟩ := h
  intro d hd
  cases s with
  | nil =>
      cases hd
      exact .inr hc
  | cons b s =>
      cases hd
      exact .inl (hs d List.mem_cons_self)

theorem Blank.stops_nil {t : Text} (h : Blank t []) : Stops t := by
  obtain ⟨s, rfl, hs⟩ := h
  intro d hd
  rw [List.append_nil] at hd
  exact .inl (hs d (List.mem_of_mem_head? hd))

theorem digits_span {ds u : Text} (hds : ∀ c ∈ ds, isDigit c = true)
    (hu : ∀ c ∈ u.head?, isDigit c = false) :
    (ds ++ u).takeWhile isDigit = ds ∧ (ds ++ u).dropWhile isDigit = u := by
  rw [List.takeWhile_append_of_pos hds, List.dropWhile_append_of_pos hds]
  cases u with
  | nil => exact ⟨List.append_nil ds, rfl⟩
  | cons c u =>
      have hc : ¬ isDigit c = true := by simp [hu c rfl]
      rw [List.takeWhile_cons_of_neg hc, List.dropWhile_cons_of_neg hc]
      exact ⟨List.append_nil ds, rfl⟩

theorem signPart_eq {sign : Option Nat} {ds : Text} (hs : ∀ c ∈ sign, c = 0x2B ∨ c = 0x2D)
    (hds : ∀ c ∈ ds.head?, isDigit c = true) :
    signPart (sign.toList ++ ds) = (sign, ds) := by
  cases sign with
  | some c => rw [Option.toList_some, List.singleton_append, signPart, if_pos (hs c rfl)]
  | none =>
      cases ds with
      | nil => rfl
      | cons d ds =>
          have hd : ¬ (d = 0x2B ∨ d = 0x2D) := by
            have hdigit := hds d rfl
            simp only [isDigit, Bool.and_eq_true, decide_eq_true_eq] at hdigit
            omega
          rw [Option.toList_none, List.nil_append, signPart, if_neg hd]

theorem exponentPart_eq {x : Option Exponent} {rest : Text} (hx : ∀ e ∈ x, e.Ok)
    (hr : Stops rest) : exponentPart (x.elim [] Exponent.text ++ rest) = (x, rest) := by
  cases x with
  | none =>
      cases rest with
      | nil => rfl
      | cons c rest =>
          obtain ⟨-, -, he, hE⟩ := hr.head (c := c) rfl
          rw [Option.elim_none, List.nil_append, exponentPart,
            if_neg fun h => h.1.elim he hE]
  | some e =>
      have ho := hx e rfl
      have hhead : ∀ c ∈ (e.digits ++ rest).head?, isDigit c = true := fun c hc => by
        rw [List.head?_append_of_ne_nil _ ho.nonempty] at hc
        exact ho.digits c (List.mem_of_mem_head? hc)
      obtain ⟨htake, hdrop⟩ := digits_span ho.digits fun c hc => (hr.head hc).1
      rw [Option.elim_some, Exponent.text, List.cons_append, List.append_assoc, exponentPart,
        signPart_eq ho.sign hhead, htake, hdrop, if_pos ⟨ho.marker, ho.nonempty⟩]

theorem fractionPart_eq {f u : Text} (hf : ∀ c ∈ f, isDigit c = true)
    (hu : ∀ c ∈ u.head?, isDigit c = false ∧ c ≠ 0x2E) :
    fractionPart ((if f = [] then [] else 0x2E :: f) ++ u) = (f, u) := by
  obtain ⟨htake, hdrop⟩ := digits_span hf fun c hc => (hu c hc).1
  split
  · rename_i hnil
    rw [hnil, List.nil_append]
    cases u with
    | nil => rfl
    | cons c u => rw [fractionPart, if_neg fun h => (hu c rfl).2 h.1]
  · rename_i hne
    rw [List.cons_append, fractionPart, htake, hdrop, if_pos ⟨rfl, hne⟩]

theorem wholePart_eq {w u : Text} (hne : w ≠ []) (hw : ∀ c ∈ w, isDigit c = true)
    (hz : ∀ ds, w = 0x30 :: ds → ds = []) (hu : ∀ c ∈ u.head?, isDigit c = false) :
    wholePart (w ++ u) = some (w, u) := by
  cases w with
  | nil => exact absurd rfl hne
  | cons d ds =>
      rw [List.cons_append, wholePart]
      split
      · rename_i hd
        rw [hz ds (by rw [hd])]
        rfl
      · obtain ⟨htake, hdrop⟩ := digits_span (fun c hc => hw c (List.mem_cons_of_mem d hc)) hu
        rw [if_pos (hw d List.mem_cons_self), htake, hdrop]

/-- **The text of a literal is read as that literal**, where what follows lets it end. -/
theorem Numeral.Ok.number_eq {n : Numeral} (h : n.Ok) {rest : Text} (hr : Stops rest) :
    number (n.text ++ rest) = some (n, rest) := by
  obtain ⟨d, ds, hw⟩ := List.exists_cons_of_ne_nil h.nonempty
  have hexp : ∀ c ∈ (n.exponent.elim [] Exponent.text ++ rest).head?,
      isDigit c = false ∧ c ≠ 0x2E := by
    intro c hc
    cases hx : n.exponent with
    | none =>
        rw [hx] at hc
        have hs := hr.head hc
        exact ⟨hs.1, hs.2.1⟩
    | some e =>
        rw [hx] at hc
        cases hc
        rcases (h.exponent e hx).marker with hm | hm <;> rw [hm] <;> exact ⟨rfl, by decide⟩
  have hfrac : ∀ c ∈ ((if n.fraction = [] then [] else 0x2E :: n.fraction) ++
      (n.exponent.elim [] Exponent.text ++ rest)).head?, isDigit c = false := by
    intro c hc
    split at hc
    · exact (hexp c hc).1
    · cases hc
      rfl
  have hminus : minusPart (n.text ++ rest) = (n.negative, n.whole ++
      ((if n.fraction = [] then [] else 0x2E :: n.fraction) ++
        (n.exponent.elim [] Exponent.text ++ rest))) := by
    rw [Numeral.text, List.append_assoc, List.append_assoc, List.append_assoc]
    cases n.negative with
    | true => rfl
    | false =>
        have hd : d ≠ 0x2D := by
          have hdigit := h.whole d (hw ▸ List.mem_cons_self)
          simp only [isDigit, Bool.and_eq_true, decide_eq_true_eq] at hdigit
          omega
        rw [hw, if_neg Bool.false_ne_true, List.nil_append, List.cons_append, minusPart,
          if_neg hd]
  simp only [number, hminus, wholePart_eq h.nonempty h.whole h.leading hfrac,
    fractionPart_eq h.fraction hexp, exponentPart_eq h.exponent hr, Option.bind_eq_bind,
    Option.bind_some]

end PyJson
