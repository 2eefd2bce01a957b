/-
  File:      RedisTimers/Library/PyJson.lean
  Subject:   JSON AS PYTHON READS IT, 2: json.loads, with the constants NaN, Infinity and -Infinity
             and duplicate keys. Nothing here names a program.

  Arrays and objects nested deeper than the interpreter's stack has room for are answered with
  RecursionError, which is no ValueError, as soon as the scanner opens the bracket; `depth` is the
  room.

  * `value`, `items`, `members`, `decodeText`, `loads` -- the decoder, with fuel;
  * `Spells`, `Document` -- the grammar: what a text spells, and what is left of it;
  * `Sinks`, `TooDeep` -- what the scanner reads of a text that nests too deep;
  * `decodeText_eq_ok`, `decodeText_eq_recursion` -- the decoder reads exactly the documents of the
    grammar, and gives up exactly on the texts that nest too deep;
  * `Document.taken` -- what loads holds no integer beyond the interpreter's limit.
-/
import RedisTimers.Library.PyJsonScan

namespace PyJson

open PyText

/-! ## 1. Values -/

def words : List (Text × PyJson) :=
  [(codes ['n', 'u', 'l', 'l'], null), (codes ['t', 'r', 'u', 'e'], bool true),
    (codes ['f', 'a', 'l', 's', 'e'], bool false), (codes ['N', 'a', 'N'], nan),
    (codes ['I', 'n', 'f', 'i', 'n', 'i', 't', 'y'], infinity false),
    (codes ['-', 'I', 'n', 'f', 'i', 'n', 'i', 't', 'y'], infinity true)]

def word (t : Text) : Option (PyJson × Text) :=
  words.findSome? fun w => if w.1.isPrefixOf t then some (w.2, t.drop w.1.length) else none

/-- What the decoder raises: ValueError, JSONDecodeError and UnicodeDecodeError included, or
    RecursionError. -/
inductive Refusal where
  | value
  | recursion
  deriving DecidableEq

/-- A scanner that finds nothing raises JSONDecodeError. -/
def orRaise {α : Type} : Option α → Except Refusal α
  | some a => .ok a
  | none => .error .value

section Decoder

variable (fits : Nat → Bool)

mutual

/-- `scan_once`, with room for `depth` brackets nested in one another. The fuel covers the values
    nested in it and their number. -/
def value : Nat → Nat → Text → Except Refusal (PyJson × Text)
  | 0, _, _ => .error .value
  | _, _, [] => .error .value
  | n + 1, depth, c :: t =>
    if c = quote then (orRaise (string t.length t)).map fun r => (str r.1, r.2)
    else if c = lbracket then
      match depth with
      | 0 => .error .recursion
      | depth + 1 =>
        match after rbracket t with
        | some rest => .ok (arr [], rest)
        | none => (items n depth (skipSpace t)).map fun r => (arr r.1, r.2)
    else if c = lbrace then
      match depth with
      | 0 => .error .recursion
      | depth + 1 =>
        match after rbrace t with
        | some rest => .ok (obj [], rest)
        | none => (members n depth (skipSpace t)).map fun r => (obj r.1, r.2)
    else
      match word (c :: t) with
      | some r => .ok r
      | none => orRaise ((number (c :: t)).bind fun r => (r.1.json fits).map (·, r.2))

/-- `JSONArray`, from its first value on. -/
def items : Nat → Nat → Text → Except Refusal (List PyJson × Text)
  | 0, _, _ => .error .value
  | n + 1, depth, t => do
      let (v, t) ← value n depth t
      match after rbracket t with
      | some rest => .ok ([v], rest)
      | none => do
          let t ← orRaise (after comma t)
          let (vs, rest) ← items n depth (skipSpace t)
          .ok (v :: vs, rest)

/-- `JSONObject`, from its first key on. -/
def members : Nat → Nat → Text → Except Refusal (List (Text × PyJson) × Text)
  | 0, _, _ => .error .value
  | _, _, [] => .error .value
  | n + 1, depth, c :: t =>
    if c ≠ quote then .error .value
    else do
      let (k, t) ← orRaise (string t.length t)
      let t ← orRaise (after colon t)
      let (v, t) ← value n depth (skipSpace t)
      match after rbrace t with
      | some rest => .ok ([(k, v)], rest)
      | none => do
          let t ← orRaise (after comma t)
          let (ms, rest) ← members n depth (skipSpace t)
          .ok ((k, v) :: ms, rest)

end

/-- `JSONDecoder.decode`. -/
def decodeText (depth : Nat) (t : Text) : Except Refusal PyJson := do
  let (v, rest) ← value fits (2 * t.length) depth (skipSpace t)
  if skipSpace rest = [] then .ok v else .error .value

/-- What a piece of text spells: a value, or the inside of an array or object with its closing
    bracket. -/
inductive Phrase where
  | value (v : PyJson)
  | items (vs : List PyJson)
  | members (ms : List (Text × PyJson))

/-- `Spells depth t p rest`: `t` spells `p` with at most `depth` brackets nested in one another, then
    `rest`. -/
inductive Spells : Nat → Text → Phrase → Text → Prop where
  | word {d : Nat} {w rest : Text} {v : PyJson} (h : (w, v) ∈ words) :
      Spells d (w ++ rest) (.value v) rest
  | number {d : Nat} {n : Numeral} {v : PyJson} {rest : Text} (hn : n.Ok)
      (hv : n.json fits = some v) : Spells d (n.text ++ rest) (.value v) rest
  | string {d : Nat} {t s rest : Text} (h : Chars t s rest) :
      Spells d (quote :: t) (.value (str s)) rest
  | emptyArray {d : Nat} {t rest : Text} (h : Blank t (rbracket :: rest)) :
      Spells (d + 1) (lbracket :: t) (.value (arr [])) rest
  | array {d : Nat} {t u rest : Text} {vs : List PyJson} (ht : Blank t u)
      (h : Spells d u (.items vs) rest) : Spells (d + 1) (lbracket :: t) (.value (arr vs)) rest
  | emptyObject {d : Nat} {t rest : Text} (h : Blank t (rbrace :: rest)) :
      Spells (d + 1) (lbrace :: t) (.value (obj [])) rest
  | object {d : Nat} {t u rest : Text} {ms : List (Text × PyJson)} (ht : Blank t u)
      (h : Spells d u (.members ms) rest) : Spells (d + 1) (lbrace :: t) (.value (obj ms)) rest
  | lastItem {d : Nat} {t u rest : Text} {v : PyJson} (h : Spells d t (.value v) u)
      (hu : Blank u (rbracket :: rest)) : Spells d t (.items [v]) rest
  | item {d : Nat} {t u w x rest : Text} {v : PyJson} {vs : List PyJson}
      (h : Spells d t (.value v) u) (hu : Blank u (comma :: w)) (hw : Blank w x)
      (hvs : Spells d x (.items vs) rest) : Spells d t (.items (v :: vs)) rest
  | lastMember {d : Nat} {t k u w x y rest : Text} {v : PyJson} (hk : Chars t k u)
      (hu : Blank u (colon :: w)) (hw : Blank w x) (h : Spells d x (.value v) y)
      (hy : Blank y (rbrace :: rest)) : Spells d (quote :: t) (.members [(k, v)]) rest
  | member {d : Nat} {t k u w x y z a rest : Text} {v : PyJson} {ms : List (Text × PyJson)}
      (hk : Chars t k u) (hu : Blank u (colon :: w)) (hw : Blank w x)
      (h : Spells d x (.value v) y) (hy : Blank y (comma :: z)) (hz : Blank z a)
      (hms : Spells d a (.members ms) rest) : Spells d (quote :: t) (.members ((k, v) :: ms)) rest

/-- `t` is a JSON text of the value `v`, with at most `depth` nested brackets. -/
def Document (depth : Nat) (t : Text) (v : PyJson) : Prop :=
  ∃ u rest, Blank t u ∧ Spells fits depth u (.value v) rest ∧ Blank rest []

/-- What is scanned: a value, or the inside of an array or object. -/
inductive Part where
  | value
  | items
  | members

/-- `Sinks depth t p`: the scan of `t` as `p` opens a bracket there is no room for. -/
inductive Sinks : Nat → Text → Part → Prop where
  | noArray {t : Text} : Sinks 0 (lbracket :: t) .value
  | noObject {t : Text} : Sinks 0 (lbrace :: t) .value
  | array {d : Nat} {t u : Text} (ht : Blank t u) (h : Sinks d u .items) :
      Sinks (d + 1) (lbracket :: t) .value
  | object {d : Nat} {t u : Text} (ht : Blank t u) (h : Sinks d u .members) :
      Sinks (d + 1) (lbrace :: t) .value
  | firstItem {d : Nat} {t : Text} (h : Sinks d t .value) : Sinks d t .items
  | item {d : Nat} {t u w x : Text} {v : PyJson} (h : Spells fits d t (.value v) u)
      (hu : Blank u (comma :: w)) (hw : Blank w x) (hx : Sinks d x .items) : Sinks d t .items
  | firstMember {d : Nat} {t k u w x : Text} (hk : Chars t k u) (hu : Blank u (colon :: w))
      (hw : Blank w x) (h : Sinks d x .value) : Sinks d (quote :: t) .members
  | member {d : Nat} {t k u w x y z a : Text} {v : PyJson} (hk : Chars t k u)
      (hu : Blank u (colon :: w)) (hw : Blank w x) (h : Spells fits d x (.value v) y)
      (hy : Blank y (comma :: z)) (hz : Blank z a) (ha : Sinks d a .members) :
      Sinks d (quote :: t) .members

end Decoder

/-! ## 2. The decoder reads the grammar -/

theorem word_eq {w rest : Text} {v : PyJson} (h : (w, v) ∈ words) :
    word (w ++ rest) = some (v, rest) := by
  simp only [words, List.mem_cons, List.not_mem_nil, or_false, Prod.mk.injEq] at h
  rcases h with ⟨rfl, rfl⟩ | ⟨rfl, rfl⟩ | ⟨rfl, rfl⟩ | ⟨rfl, rfl⟩ | ⟨rfl, rfl⟩ | ⟨rfl, rfl⟩ <;> rfl

theorem mem_words_of_word {t rest : Text} {v : PyJson} (h : word t = some (v, rest)) :
    ∃ w, (w, v) ∈ words ∧ t = w ++ rest := by
  obtain ⟨⟨w, v'⟩, hw, h⟩ := List.exists_of_findSome?_eq_some h
  split at h
  · rename_i hp
    cases h
    exact ⟨w, hw, (List.prefix_iff_eq_append.mp (List.isPrefixOf_iff_prefix.mp hp)).symm⟩
  · cases h

/-- What a value or a key may begin with. -/
def Opens (c : Nat) : Prop := isSpace c = false ∧ c ≠ rbracket ∧ c ≠ rbrace

instance (c : Nat) : Decidable (Opens c) := inferInstanceAs (Decidable (_ ∧ _ ∧ _))

/-- A number begins with a digit, or with a minus and a digit. -/
theorem Numeral.Ok.text_cons {n : Numeral} (h : n.Ok) (rest : Text) :
    ∃ d u, isDigit d = true ∧ (n.text ++ rest = d :: u ∨ n.text ++ rest = 0x2D :: d :: u) := by
  obtain ⟨d, ds, hw⟩ := List.exists_cons_of_ne_nil h.nonempty
  refine ⟨d, ds ++ ((if n.fraction = [] then [] else 0x2E :: n.fraction) ++
    n.exponent.elim [] Exponent.text) ++ rest, h.whole d (hw ▸ List.mem_cons_self), ?_⟩
  rw [Numeral.text, hw]
  cases n.negative with
  | false => exact .inl rfl
  | true => exact .inr rfl

theorem word_digit {d : Nat} (hd : isDigit d = true) (u : Text) :
    word (d :: u) = none ∧ word (0x2D :: d :: u) = none := by
  simp only [isDigit, Bool.and_eq_true, decide_eq_true_eq] at hd
  have hne : 0x6E ≠ d ∧ 0x74 ≠ d ∧ 0x66 ≠ d ∧ 0x4E ≠ d ∧ 0x49 ≠ d ∧ 0x2D ≠ d := by omega
  constructor <;> simp [word, words, codes, hne]

/-- A number's first character is none of a string, an array, an object or a constant. -/
theorem Numeral.Ok.head {n : Numeral} (h : n.Ok) (rest : Text) :
    ∃ c u, n.text ++ rest = c :: u ∧ Opens c ∧ c ≠ quote ∧ c ≠ lbracket ∧ c ≠ lbrace ∧
      word (c :: u) = none := by
  obtain ⟨d, u, hd, ht⟩ := h.text_cons rest
  have hw := word_digit hd u
  rcases ht with ht | ht
  · simp only [isDigit, Bool.and_eq_true, decide_eq_true_eq] at hd
    refine ⟨d, u, ht, ⟨?_, ?_, ?_⟩, ?_, ?_, ?_, hw.1⟩
    · simp only [isSpace, Bool.or_eq_false_iff, beq_eq_false_iff_ne]
      omega
    all_goals
      simp only [ne_eq, quote, lbracket, lbrace, rbracket, rbrace]
      omega
  · exact ⟨0x2D, d :: u, ht, by decide, by decide, by decide, by decide, hw.2⟩

theorem words_head {w : Text} {v : PyJson} (h : (w, v) ∈ words) (rest : Text) :
    ∃ c u, w ++ rest = c :: u ∧ Opens c ∧ c ≠ quote ∧ c ≠ lbracket ∧ c ≠ lbrace := by
  simp only [words, List.mem_cons, List.not_mem_nil, or_false, Prod.mk.injEq] at h
  rcases h with ⟨rfl, -⟩ | ⟨rfl, -⟩ | ⟨rfl, -⟩ | ⟨rfl, -⟩ | ⟨rfl, -⟩ | ⟨rfl, -⟩ <;>
    exact ⟨_, _, rfl, by decide, by decide, by decide, by decide⟩

variable {fits : Nat → Bool}

/-- What is spelled begins with no blank and no closing bracket. -/
theorem Spells.head {d : Nat} {t rest : Text} {p : Phrase} (h : Spells fits d t p rest) :
    ∃ c u, t = c :: u ∧ Opens c := by
  induction h with
  | word h =>
      obtain ⟨c, u, ht, hc, -⟩ := words_head h _
      exact ⟨c, u, ht, hc⟩
  | number hn hv =>
      obtain ⟨c, u, ht, hc, -⟩ := hn.head _
      exact ⟨c, u, ht, hc⟩
  | lastItem h hu ih => exact ih
  | item h hu hw hvs ih ih' => exact ih
  | string | emptyArray | array | emptyObject | object | lastMember | member =>
      exact ⟨_, _, rfl, by decide⟩

theorem Sinks.head {d : Nat} {t : Text} {p : Part} (h : Sinks fits d t p) :
    ∃ c u, t = c :: u ∧ Opens c := by
  induction h with
  | firstItem h ih => exact ih
  | item h hu hw hx ih => exact h.head
  | noArray | noObject | array | object | firstMember | member => exact ⟨_, _, rfl, by decide⟩

/-- Blanks before it are what `skipSpace` skips, and no closing bracket comes first. -/
theorem Blank.opens {t u : Text} (ht : Blank t u) (hu : ∃ c v, u = c :: v ∧ Opens c) :
    PyJson.skipSpace t = u ∧ after rbracket t = none ∧ after rbrace t = none := by
  obtain ⟨c, v, rfl, hc⟩ := hu
  have hs := ht.skipSpace hc.1
  exact ⟨hs, by rw [after, hs]; exact if_neg hc.2.1, by rw [after, hs]; exact if_neg hc.2.2⟩

theorem after_other {c d : Nat} (hc : isSpace c = false) (hd : c ≠ d) {t rest : Text}
    (h : Blank t (c :: rest)) : after d t = none := by
  rw [after, h.skipSpace hc]
  exact if_neg hd

theorem Spells.length_lt {d : Nat} {t rest : Text} {p : Phrase} (h : Spells fits d t p rest) :
    rest.length < t.length := by
  induction h with
  | word h =>
      obtain ⟨c, u, ht, -⟩ := words_head h []
      rw [List.append_nil] at ht
      rw [ht, List.length_append, List.length_cons]
      omega
  | number hn hv =>
      obtain ⟨c, u, ht, -⟩ := hn.head []
      rw [List.append_nil] at ht
      rw [ht, List.length_append, List.length_cons]
      omega
  | string h => exact Nat.lt_succ_of_lt h.length_lt
  | emptyArray h | emptyObject h => exact Nat.lt_succ_of_le (Nat.le_of_succ_le h.length_le)
  | array ht h ih | object ht h ih =>
      exact Nat.lt_succ_of_lt (Nat.lt_of_lt_of_le ih ht.length_le)
  | lastItem h hu ih => exact Nat.lt_of_le_of_lt (Nat.le_of_succ_le hu.length_le) ih
  | item h hu hw hvs ih ih' =>
      have hu := hu.length_le
      have hw := hw.length_le
      rw [List.length_cons] at hu
      omega
  | lastMember hk hu hw h hy ih =>
      have hk := hk.length_lt
      have hu := hu.length_le
      have hw := hw.length_le
      have hy := hy.length_le
      rw [List.length_cons] at hu hy
      rw [List.length_cons]
      omega
  | member hk hu hw h hy hz hms ih ih' =>
      have hk := hk.length_lt
      have hu := hu.length_le
      have hw := hw.length_le
      have hy := hy.length_le
      have hz := hz.length_le
      rw [List.length_cons] at hu hy
      rw [List.length_cons]
      omega

/-- The decoder reads the phrase, with fuel twice the text. -/
def Reads (fits : Nat → Bool) (n d : Nat) (t rest : Text) : Phrase → Prop
  | .value v => 2 * t.length ≤ n → Stops rest → value fits n d t = .ok (v, rest)
  | .items vs => 2 * t.length < n → items fits n d t = .ok (vs, rest)
  | .members ms => 2 * t.length < n → members fits n d t = .ok (ms, rest)

section Equations

variable (n d : Nat) (t : Text)

theorem value_quote : value fits (n + 1) d (quote :: t) =
    (orRaise (string t.length t)).map fun r => (str r.1, r.2) := by
  cases d <;> rw [value, if_pos rfl]

theorem value_lbracket : value fits (n + 1) (d + 1) (lbracket :: t) =
    match after rbracket t with
    | some rest => .ok (arr [], rest)
    | none => (items fits n d (PyJson.skipSpace t)).map fun r => (arr r.1, r.2) := by
  rw [value, if_neg (by decide), if_pos rfl]

theorem value_lbrace : value fits (n + 1) (d + 1) (lbrace :: t) =
    match after rbrace t with
    | some rest => .ok (obj [], rest)
    | none => (members fits n d (PyJson.skipSpace t)).map fun r => (obj r.1, r.2) := by
  rw [value, if_neg (by decide), if_neg (by decide), if_pos rfl]

theorem value_zero : value fits (n + 1) 0 (lbracket :: t) = .error .recursion ∧
    value fits (n + 1) 0 (lbrace :: t) = .error .recursion := by
  refine ⟨?_, ?_⟩
  · rw [value, if_neg (by decide), if_pos rfl]
  · rw [value, if_neg (by decide), if_neg (by decide), if_pos rfl]

theorem value_other {c : Nat} (hq : c ≠ quote) (hl : c ≠ lbracket) (hb : c ≠ lbrace) :
    value fits (n + 1) d (c :: t) =
    match word (c :: t) with
    | some r => .ok r
    | none => orRaise ((number (c :: t)).bind fun r => (r.1.json fits).map (·, r.2)) := by
  cases d <;> rw [value, if_neg hq, if_neg hl, if_neg hb]

end Equations

/-- **Every phrase of the grammar is read as what it spells.** -/
theorem Spells.reads {d : Nat} {t rest : Text} {p : Phrase} (h : Spells fits d t p rest) (n : Nat) :
    Reads fits n d t rest p := by
  induction h generalizing n with
  | @word d w rest v h =>
      intro hn hr
      obtain ⟨c, u, ht, hc, hq, hl, hb⟩ := words_head h rest
      rw [ht] at hn ⊢
      cases n with
      | zero => cases hn
      | succ n =>
          have hw : PyJson.word (c :: u) = some (v, rest) := ht ▸ word_eq h
          rw [value_other n d u hq hl hb, hw]
  | @number d m v rest hm hv =>
      intro hn hr
      obtain ⟨c, u, ht, hc, hq, hl, hb, hw⟩ := hm.head rest
      rw [ht] at hn ⊢
      cases n with
      | zero => cases hn
      | succ n =>
          have hnum : PyJson.number (c :: u) = some (m, rest) := ht ▸ hm.number_eq hr
          rw [value_other n d u hq hl hb, hw]
          simp only [hnum, hv, Option.bind_some, Option.map_some, orRaise]
  | string h =>
      intro hn hr
      cases n with
      | zero => cases hn
      | succ n =>
          rw [value_quote, h.string_eq (Nat.le_refl _)]
          rfl
  | emptyArray h =>
      intro hn hr
      cases n with
      | zero => cases hn
      | succ n => rw [value_lbracket, (after_eq_some (by decide)).mpr h]
  | array ht h ih =>
      intro hn hr
      cases n with
      | zero => cases hn
      | succ n =>
          obtain ⟨hs, hb, -⟩ := ht.opens h.head
          have hle := ht.length_le
          rw [List.length_cons] at hn
          rw [value_lbracket, hb, hs]
          simp only [ih n (by omega), Except.map]
  | emptyObject h =>
      intro hn hr
      cases n with
      | zero => cases hn
      | succ n => rw [value_lbrace, (after_eq_some (by decide)).mpr h]
  | object ht h ih =>
      intro hn hr
      cases n with
      | zero => cases hn
      | succ n =>
          obtain ⟨hs, -, hb⟩ := ht.opens h.head
          have hle := ht.length_le
          rw [List.length_cons] at hn
          rw [value_lbrace, hb, hs]
          simp only [ih n (by omega), Except.map]
  | lastItem h hu ih =>
      intro hn
      cases n with
      | zero => cases hn
      | succ n =>
          have hv := ih n (by omega) (hu.stops (by decide))
          rw [items]
          simp only [hv, (after_eq_some (by decide)).mpr hu, bind, Except.bind]
  | item h hu hw hvs ih ihs =>
      intro hn
      cases n with
      | zero => cases hn
      | succ n =>
          have hv := ih n (by omega) (hu.stops (by decide))
          have hlt := h.length_lt
          have hule := hu.length_le
          have hwle := hw.length_le
          rw [List.length_cons] at hule
          rw [items]
          simp only [hv, after_other (d := rbracket) (by decide) (by decide) hu,
            (after_eq_some (by decide)).mpr hu, (hw.opens hvs.head).1, ihs n (by omega), orRaise,
            bind, Except.bind]
  | lastMember hk hu hw h hy ih =>
      intro hn
      cases n with
      | zero => cases hn
      | succ n =>
          have hklt := hk.length_lt
          have hule := hu.length_le
          have hwle := hw.length_le
          rw [List.length_cons] at hn hule
          have hv := ih n (by omega) (hy.stops (by decide))
          rw [members, if_neg (by simp)]
          simp only [hk.string_eq (Nat.le_refl _), (after_eq_some (by decide)).mpr hu,
            (hw.opens h.head).1, hv, (after_eq_some (by decide)).mpr hy, orRaise, bind,
            Except.bind]
  | member hk hu hw h hy hz hms ih ihs =>
      intro hn
      cases n with
      | zero => cases hn
      | succ n =>
          have hklt := hk.length_lt
          have hule := hu.length_le
          have hwle := hw.length_le
          have hylt := h.length_lt
          have hyle := hy.length_le
          have hzle := hz.length_le
          rw [List.length_cons] at hn hule hyle
          have hv := ih n (by omega) (hy.stops (by decide))
          rw [members, if_neg (by simp)]
          simp only [hk.string_eq (Nat.le_refl _), (after_eq_some (by decide)).mpr hu,
            (hw.opens h.head).1, hv, after_other (d := rbrace) (by decide) (by decide) hy,
            (after_eq_some (by decide)).mpr hy, (hz.opens hms.head).1, ihs n (by omega), orRaise,
            bind, Except.bind]

/-- What a scanner makes of `t` is what `t` spells; where it gives up `t` nests too deep. -/
def Explains {α : Type} (fits : Nat → Bool) (d : Nat) (t : Text) (phrase : α → Phrase) (p : Part) :
    Except Refusal (α × Text) → Prop
  | .ok (a, rest) => Spells fits d t (phrase a) rest
  | .error .recursion => Sinks fits d t p
  | .error .value => True

/-- The scanners with fuel `n` read by the grammar. -/
structure Sound (fits : Nat → Bool) (n : Nat) : Prop where
  value : ∀ d t, Explains fits d t .value .value (value fits n d t)
  items : ∀ d t, Explains fits d t .items .items (items fits n d t)
  members : ∀ d t, Explains fits d t .members .members (members fits n d t)

theorem Sound.value_succ {n : Nat} (h : Sound fits n) (d : Nat) (t : Text) :
    Explains fits d t .value .value (PyJson.value fits (n + 1) d t) := by
  cases t with
  | nil => trivial
  | cons c t =>
      by_cases hq : c = quote
      · rw [hq, value_quote]
        cases hs : PyJson.string t.length t with
        | none => trivial
        | some r => exact .string (chars_of_string hs)
      by_cases hl : c = lbracket
      · rw [hl]
        cases d with
        | zero =>
            rw [(value_zero n t).1]
            exact .noArray
        | succ d =>
            rw [value_lbracket]
            cases ha : after rbracket t with
            | some rest => exact .emptyArray ((after_eq_some (by decide)).mp ha)
            | none =>
                have hi := h.items d (PyJson.skipSpace t)
                cases hr : PyJson.items fits n d (PyJson.skipSpace t) with
                | ok r =>
                    rw [hr] at hi
                    exact .array (blank_skipSpace t) hi
                | error e =>
                    rw [hr] at hi
                    cases e with
                    | value => trivial
                    | recursion => exact .array (blank_skipSpace t) hi
      by_cases hb : c = lbrace
      · rw [hb]
        cases d with
        | zero =>
            rw [(value_zero n t).2]
            exact .noObject
        | succ d =>
            rw [value_lbrace]
            cases ha : after rbrace t with
            | some rest => exact .emptyObject ((after_eq_some (by decide)).mp ha)
            | none =>
                have hm := h.members d (PyJson.skipSpace t)
                cases hr : PyJson.members fits n d (PyJson.skipSpace t) with
                | ok r =>
                    rw [hr] at hm
                    exact .object (blank_skipSpace t) hm
                | error e =>
                    rw [hr] at hm
                    cases e with
                    | value => trivial
                    | recursion => exact .object (blank_skipSpace t) hm
      · rw [value_other n d t hq hl hb]
        cases hw : word (c :: t) with
        | some r =>
            obtain ⟨w, hmem, ht⟩ := mem_words_of_word hw
            rw [ht]
            exact .word hmem
        | none =>
            cases hm : (number (c :: t)).bind fun r => (r.1.json fits).map (·, r.2) with
            | none => trivial
            | some r =>
                obtain ⟨⟨m, u⟩, hm, he⟩ := Option.bind_eq_some_iff.mp hm
                obtain ⟨w, hj, he⟩ := Option.map_eq_some_iff.mp he
                obtain ⟨hok, ht⟩ := number_text hm
                rw [← he, ht]
                exact .number hok hj

theorem Sound.items_succ {n : Nat} (h : Sound fits n) (d : Nat) (t : Text) :
    Explains fits d t .items .items (PyJson.items fits (n + 1) d t) := by
  have hv := h.value d t
  rw [PyJson.items]
  cases hr : PyJson.value fits n d t with
  | error e =>
      rw [hr] at hv
      cases e with
      | value => trivial
      | recursion => exact .firstItem hv
  | ok r =>
      obtain ⟨v, u⟩ := r
      rw [hr] at hv
      simp only [bind, Except.bind]
      cases ha : after rbracket u with
      | some w => exact .lastItem hv ((after_eq_some (by decide)).mp ha)
      | none =>
          cases hc : after comma u with
          | none => trivial
          | some w =>
              have hu := (after_eq_some (by decide)).mp hc
              have hi := h.items d (PyJson.skipSpace w)
              simp only [orRaise]
              cases hr' : PyJson.items fits n d (PyJson.skipSpace w) with
              | ok r =>
                  rw [hr'] at hi
                  exact .item hv hu (blank_skipSpace w) hi
              | error e =>
                  rw [hr'] at hi
                  cases e with
                  | value => trivial
                  | recursion => exact .item hv hu (blank_skipSpace w) hi

theorem Sound.members_succ {n : Nat} (h : Sound fits n) (d : Nat) (t : Text) :
    Explains fits d t .members .members (PyJson.members fits (n + 1) d t) := by
  cases t with
  | nil => trivial
  | cons c t =>
      rw [PyJson.members]
      split
      · trivial
      rename_i hc
      rw [not_not.mp hc]
      cases hk : PyJson.string t.length t with
      | none => trivial
      | some r =>
          obtain ⟨k, u⟩ := r
          have hkey := chars_of_string hk
          simp only [orRaise, bind, Except.bind]
          cases hw : after colon u with
          | none => trivial
          | some w =>
              have hcolon := (after_eq_some (by decide)).mp hw
              have hv := h.value d (PyJson.skipSpace w)
              simp only
              cases hr : PyJson.value fits n d (PyJson.skipSpace w) with
              | error e =>
                  rw [hr] at hv
                  cases e with
                  | value => trivial
                  | recursion => exact .firstMember hkey hcolon (blank_skipSpace w) hv
              | ok r =>
                  obtain ⟨v, y⟩ := r
                  rw [hr] at hv
                  simp only
                  cases ha : after rbrace y with
                  | some z =>
                      exact .lastMember hkey hcolon (blank_skipSpace w) hv
                        ((after_eq_some (by decide)).mp ha)
                  | none =>
                      cases hz : after comma y with
                      | none => trivial
                      | some z =>
                          have hy := (after_eq_some (by decide)).mp hz
                          have hm := h.members d (PyJson.skipSpace z)
                          simp only
                          cases hr' : PyJson.members fits n d (PyJson.skipSpace z) with
                          | ok r =>
                              rw [hr'] at hm
                              exact .member hkey hcolon (blank_skipSpace w) hv hy
                                (blank_skipSpace z) hm
                          | error e =>
                              rw [hr'] at hm
                              cases e with
                              | value => trivial
                              | recursion =>
                                  exact .member hkey hcolon (blank_skipSpace w) hv hy
                                    (blank_skipSpace z) hm

theorem sound (n : Nat) : Sound fits n := by
  induction n with
  | zero =>
      refine ⟨fun d t => ?_, fun d t => ?_, fun d t => ?_⟩
      · rw [value]
        trivial
      · rw [items]
        trivial
      · rw [members]
        trivial
  | succ n ih => exact ⟨ih.value_succ, ih.items_succ, ih.members_succ⟩

/-- **The decoder reads exactly the documents of the grammar**: it never runs out of fuel. -/
theorem decodeText_eq_ok {depth : Nat} {t : Text} {v : PyJson} :
    decodeText fits depth t = .ok v ↔ Document fits depth t v := by
  constructor
  · intro h
    have hs := (sound (2 * t.length) : Sound fits _).value depth (skipSpace t)
    unfold decodeText at h
    cases hr : value fits (2 * t.length) depth (skipSpace t) with
    | error e =>
        rw [hr] at h
        cases h
    | ok r =>
        obtain ⟨w, rest⟩ := r
        rw [hr] at h hs
        have hb := blank_skipSpace rest
        simp only [bind, Except.bind] at h
        split at h
        · rename_i hnil
          cases h
          rw [hnil] at hb
          exact ⟨_, rest, blank_skipSpace t, hs, hb⟩
        · cases h
  · rintro ⟨u, rest, ht, hu, hrest⟩
    have hle := ht.length_le
    have hv : value fits (2 * t.length) depth u = .ok (v, rest) :=
      hu.reads _ (by omega) hrest.stops_nil
    rw [decodeText, (ht.opens hu.head).1, hv]
    exact if_pos hrest.skipSpace_nil

/-- The limit `sys.get_int_max_str_digits()` on the digits of an integer literal, 0 for none. -/
def digitLimit (limit digits : Nat) : Bool := limit == 0 || digits ≤ limit

/-- Every literal is taken: JSON itself. -/
def unlimited (_digits : Nat) : Bool := true

theorem Spells.mono {fits' : Nat → Bool} (hf : ∀ n, fits n = true → fits' n = true) {d : Nat}
    {t rest : Text} {p : Phrase} (h : Spells fits d t p rest) {e : Nat} (hd : d ≤ e) :
    Spells fits' e t p rest := by
  induction h generalizing e with
  | word h => exact .word h
  | @number d n v rest hn hv =>
      refine .number hn ?_
      unfold Numeral.json at hv ⊢
      split at hv
      · rename_i hint
        rw [if_pos hint]
        split at hv
        · rename_i hfit
          rw [if_pos (hf _ hfit)]
          exact hv
        · cases hv
      · rename_i hint
        rw [if_neg hint]
        exact hv
  | string h => exact .string h
  | emptyArray h =>
      obtain ⟨e, rfl⟩ := Nat.exists_eq_add_of_lt hd
      exact .emptyArray h
  | array ht h ih =>
      obtain ⟨e, rfl⟩ := Nat.exists_eq_add_of_lt hd
      exact .array ht (ih (Nat.le_add_right _ _))
  | emptyObject h =>
      obtain ⟨e, rfl⟩ := Nat.exists_eq_add_of_lt hd
      exact .emptyObject h
  | object ht h ih =>
      obtain ⟨e, rfl⟩ := Nat.exists_eq_add_of_lt hd
      exact .object ht (ih (Nat.le_add_right _ _))
  | lastItem h hu ih => exact .lastItem (ih hd) hu
  | item h hu hw hvs ih ihs => exact .item (ih hd) hu hw (ihs hd)
  | lastMember hk hu hw h hy ih => exact .lastMember hk hu hw (ih hd) hy
  | member hk hu hw h hy hz hms ih ihs => exact .member hk hu hw (ih hd) hy hz (ihs hd)

/-- What loads within some limits loads within wider ones. -/
theorem Document.mono {fits' : Nat → Bool} (hf : ∀ n, fits n = true → fits' n = true) {d e : Nat}
    (hd : d ≤ e) {t : Text} {v : PyJson} (h : Document fits d t v) : Document fits' e t v := by
  obtain ⟨u, rest, ht, hu, hrest⟩ := h
  exact ⟨u, rest, ht, hu.mono hf hd, hrest⟩

/-- A text is a document of one value, whatever the limits. -/
theorem Document.unique {fits' : Nat → Bool} {d e : Nat} {t : Text} {v w : PyJson}
    (hv : Document fits d t v) (hw : Document fits' e t w) : v = w := by
  have hv' : Document unlimited (max d e) t v := hv.mono (fun _ _ => rfl) (le_max_left d e)
  have hw' : Document unlimited (max d e) t w := hw.mono (fun _ _ => rfl) (le_max_right d e)
  exact Except.ok.inj ((decodeText_eq_ok.mpr hv').symm.trans (decodeText_eq_ok.mpr hw'))

theorem Sinks.mono {fits' : Nat → Bool} (hf : ∀ n, fits n = true → fits' n = true) {d : Nat}
    {t : Text} {p : Part} (h : Sinks fits d t p) : Sinks fits' d t p := by
  induction h with
  | noArray => exact .noArray
  | noObject => exact .noObject
  | array ht h ih => exact .array ht ih
  | object ht h ih => exact .object ht ih
  | firstItem h ih => exact .firstItem ih
  | item h hu hw hx ih => exact .item (h.mono hf (Nat.le_refl _)) hu hw ih
  | firstMember hk hu hw h ih => exact .firstMember hk hu hw ih
  | member hk hu hw h hy hz ha ih =>
      exact .member hk hu hw (h.mono hf (Nat.le_refl _)) hy hz ih

theorem natOf_lt {ds : Text} (h : ∀ c ∈ ds, isDigit c = true) : natOf ds < 10 ^ ds.length := by
  have hfold : ∀ a, ds.foldl (fun n d => 10 * n + (d - 0x30)) a < (a + 1) * 10 ^ ds.length := by
    induction ds with
    | nil =>
        intro a
        simp
    | cons d ds ih =>
        intro a
        have hd := h d List.mem_cons_self
        simp only [isDigit, Bool.and_eq_true, decide_eq_true_eq] at hd
        have hstep := ih (fun c hc => h c (List.mem_cons_of_mem d hc)) (10 * a + (d - 0x30))
        rw [List.foldl_cons, List.length_cons, Nat.pow_succ']
        calc _ < (10 * a + (d - 0x30) + 1) * 10 ^ ds.length := hstep
          _ ≤ ((a + 1) * 10) * 10 ^ ds.length := Nat.mul_le_mul_right _ (by omega)
          _ = (a + 1) * (10 * 10 ^ ds.length) := Nat.mul_assoc _ _ _
  have h0 := hfold 0
  rwa [Nat.zero_add, Nat.one_mul] at h0

/-- The integer has no more digits than some literal the interpreter takes. -/
def Taken (fits : Nat → Bool) (v : PyJson) : Prop :=
  ∀ z, v = int z → ∃ n, fits n = true ∧ z.natAbs < 10 ^ n

def Phrase.Taken (fits : Nat → Bool) : Phrase → Prop
  | .value (.obj ms) | .members ms => ∀ m ∈ ms, PyJson.Taken fits m.2
  | .value v => PyJson.Taken fits v
  | .items _ => True

theorem Numeral.taken {n : Numeral} {v : PyJson} (hn : n.Ok) (hv : n.json fits = some v) :
    PyJson.Taken fits v ∧ ∀ ms, v ≠ obj ms := by
  unfold Numeral.json at hv
  split at hv
  · split at hv
    · rename_i hfit
      cases hv
      refine ⟨fun z hz => ?_, fun ms h => nomatch h⟩
      obtain rfl := int.inj hz
      refine ⟨_, hfit, ?_⟩
      have hlt := natOf_lt hn.whole
      unfold signed
      split <;> omega
    · cases hv
  · cases hv
    exact ⟨fun z hz => (nomatch hz), fun ms h => (nomatch h)⟩

theorem Spells.taken {d : Nat} {t rest : Text} {p : Phrase} (h : Spells fits d t p rest) :
    p.Taken fits := by
  have hno : ∀ {v : PyJson}, (∀ z, v ≠ int z) → PyJson.Taken fits v := fun hv z hz =>
    absurd hz (hv z)
  have hvalue : ∀ {v : PyJson}, (Phrase.value v).Taken fits → PyJson.Taken fits v := fun {v} hv => by
    cases v
    case obj ms => exact hno fun z hz => nomatch hz
    all_goals exact hv
  induction h with
  | word h =>
      simp only [words, List.mem_cons, List.not_mem_nil, or_false, Prod.mk.injEq] at h
      rcases h with ⟨-, rfl⟩ | ⟨-, rfl⟩ | ⟨-, rfl⟩ | ⟨-, rfl⟩ | ⟨-, rfl⟩ | ⟨-, rfl⟩ <;>
        exact fun z hz => nomatch hz
  | @number d n v rest hn hv =>
      obtain ⟨ht, hobj⟩ := Numeral.taken hn hv
      cases v
      case obj ms => exact absurd rfl (hobj ms)
      all_goals exact ht
  | string | emptyArray | array => exact fun z hz => nomatch hz
  | emptyObject => exact fun m hm => nomatch hm
  | object ht h ih => exact ih
  | lastItem | item => trivial
  | lastMember hk hu hw h hy ih =>
      intro m hm
      cases List.mem_singleton.mp hm
      exact hvalue ih
  | member hk hu hw h hy hz hms ih ihs =>
      intro m hm
      rcases List.mem_cons.mp hm with rfl | hm
      · exact hvalue ih
      · exact ihs m hm

/-- **No member of an object that loads is an integer of more digits than are taken.** -/
theorem Document.taken {d : Nat} {t : Text} {ms : List (Text × PyJson)}
    (h : Document fits d t (.obj ms)) :
    ∀ m ∈ ms, Taken fits m.2 := by
  obtain ⟨u, rest, -, hu, -⟩ := h
  exact hu.taken

/-! ## 4. Bytes -/

inductive Encoding where
  | utf8
  | utf16le
  | utf32le

/-- `json.detect_encoding`, of bytes that begin with an ASCII character other than NUL. -/
def detectEncoding : List UInt8 → Encoding
  | _ :: b :: c :: d :: _ =>
    if b ≠ 0 then .utf8 else if c ≠ 0 ∨ d ≠ 0 then .utf16le else .utf32le
  | [_, b] => if b ≠ 0 then .utf8 else .utf16le
  | _ => .utf8

/-- `s.decode(detect_encoding(s), "surrogatepass")`. -/
def decodeBytes (bs : List UInt8) : Option Text :=
  match detectEncoding bs with
  | .utf8 => decodeUtf8 bs
  | .utf16le => decodeUtf16le bs
  | .utf32le => decodeUtf32le bs

/-- `json.loads`. -/
def loads (fits : Nat → Bool) (depth : Nat) (bs : List UInt8) : Except Refusal PyJson :=
  orRaise (decodeBytes bs) >>= decodeText fits depth

theorem loads_eq_ok {depth : Nat} {bs : List UInt8} {v : PyJson} :
    loads fits depth bs = .ok v ↔ ∃ t, decodeBytes bs = some t ∧ Document fits depth t v := by
  unfold loads
  cases hd : decodeBytes bs with
  | none => simp [orRaise, bind, Except.bind]
  | some t => simp [orRaise, bind, Except.bind, decodeText_eq_ok]

theorem detectEncoding_utf8 (a : UInt8) {b : UInt8} (hb : b ≠ 0) (bs : List UInt8) :
    detectEncoding (a :: b :: bs) = .utf8 := by
  match bs with
  | [] => exact if_pos hb
  | [_] => rfl
  | _ :: _ :: _ => exact if_pos hb

theorem ofNat_ne_zero {c : Nat} (h0 : 0 < c) (h : c < 0x80) : UInt8.ofNat c ≠ 0 := fun he => by
  have hc : (UInt8.ofNat c).toNat = c := toNat_ofNat_of_lt (by omega)
  rw [he] at hc
  exact absurd hc (Nat.ne_of_lt h0)

/-- UTF-8 is detected where two ASCII characters come first. -/
theorem decodeBytes_encodeUtf8 {a b : Nat} {t : Text} (ha : a < 0x80) (h0 : 0 < b) (hb : b < 0x80)
    (h : Valid (a :: b :: t)) :
    decodeBytes (encodeUtf8 (a :: b :: t)) = some (a :: b :: t) := by
  have hbytes : encodeUtf8 (a :: b :: t) = .ofNat a :: .ofNat b :: encodeUtf8 t := by
    simp only [encodeUtf8, List.flatMap_cons, utf8Bytes, ha, hb, if_true, List.cons_append,
      List.nil_append]
  have hdetect := detectEncoding_utf8 (.ofNat a) (ofNat_ne_zero h0 hb) (encodeUtf8 t)
  rw [← hbytes] at hdetect
  simp only [decodeBytes, hdetect, decodeUtf8_encodeUtf8 h]

theorem Blank.head {t rest : Text} {c : Nat} (h : Blank t (c :: rest)) :
    ∃ b u, t = b :: u ∧ (isSpace b = true ∨ b = c) := by
  obtain ⟨s, rfl, hs⟩ := h
  cases s with
  | nil => exact ⟨c, rest, rfl, .inr rfl⟩
  | cons b s => exact ⟨b, s ++ c :: rest, rfl, .inl (hs b List.mem_cons_self)⟩

theorem Spells.members_head {d : Nat} {t rest : Text} {ms : List (Text × PyJson)}
    (h : Spells fits d t (.members ms) rest) : ∃ u, t = quote :: u := by
  cases h with
  | lastMember | member => exact ⟨_, rfl⟩

/-- Behind the opening brace of an object comes a blank, a quote or the closing brace. -/
theorem Spells.object_head {d : Nat} {t rest : Text} {ms : List (Text × PyJson)}
    (h : Spells fits d t (.value (.obj ms)) rest) :
    ∃ b u, t = lbrace :: b :: u ∧ (isSpace b = true ∨ b = quote ∨ b = rbrace) := by
  generalize hp : Phrase.value (.obj ms) = p at h
  cases h with
  | word hw =>
      cases hp
      exact absurd hw (by simp [words])
  | number hn hv =>
      cases hp
      exact absurd rfl ((Numeral.taken hn hv).2 ms)
  | emptyObject hb =>
      obtain ⟨b, u, rfl, hhead⟩ := hb.head
      exact ⟨b, u, rfl, hhead.imp_right .inr⟩
  | object hb hms =>
      obtain ⟨v, rfl⟩ := hms.members_head
      obtain ⟨b, u, rfl, hhead⟩ := hb.head
      exact ⟨b, u, rfl, hhead.imp_right .inl⟩
  | _ => cases hp

/-- **The UTF-8 of an object that begins with its brace is recognised as UTF-8.** -/
theorem Document.decodeBytes_encodeUtf8 {d : Nat} {t : Text} {ms : List (Text × PyJson)}
    (h : Document fits d t (.obj ms)) (hbrace : t.head? = some lbrace) (hv : Valid t) :
    decodeBytes (encodeUtf8 t) = some t ∧ (encodeUtf8 t).head? = some 0x7B := by
  obtain ⟨u, rest, ht, hu, -⟩ := h
  obtain ⟨b, w, rfl, hb⟩ := hu.object_head
  obtain ⟨c, x, rfl, -⟩ := ht.head
  obtain rfl : c = lbrace := Option.some.inj hbrace
  have hx : lbrace :: x = lbrace :: b :: w := by
    rw [← ht.skipSpace (by decide)]
    rfl
  obtain rfl := (List.cons.inj hx).2
  have hrange : 0 < b ∧ b < 0x80 := by
    simp only [isSpace, Bool.or_eq_true, beq_iff_eq, quote, rbrace] at hb
    omega
  refine ⟨PyJson.decodeBytes_encodeUtf8 (by decide) hrange.1 hrange.2 hv, ?_⟩
  rfl

end PyJson
