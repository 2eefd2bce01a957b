/-
  File:      RedisTimers/Redis.lean
  Subject:   WHAT THE PROGRAM SEES OF REDIS: byte strings and their UTF-8 texts, sorted sets,
             hashes, the key space with its type check, and the commands `store.py` sends.

  Clock readings, activation times and scores are exact rationals of seconds. A sorted set is an
  association list of members and scores read by `Ranked.upTo`, a hash one of fields and values.
  A command on a key that holds the other type answers WRONGTYPE and changes nothing; a collection
  that loses its last element loses its key. A transaction runs every command, also after an
  error, and the client raises the first error; a script stops at its first error and keeps what
  it wrote (`Footprint.Prog`).
-/
import Mathlib.Algebra.Order.Field.Rat
import Mathlib.Data.List.Lex
import RedisTimers.Library.Footprint
import RedisTimers.Library.Ranked

namespace RedisTimers

/-! ## 1. Bytes and texts -/

abbrev Bytes := List UInt8

instance instLinearOrderByte : LinearOrder UInt8 where
  le_refl := UInt8.le_refl
  le_trans _ _ _ := UInt8.le_trans
  le_antisymm _ _ := UInt8.le_antisymm
  le_total := UInt8.le_total
  lt_iff_le_not_ge a b := by
    simp only [UInt8.le_iff_toNat_le, UInt8.lt_iff_toNat_lt]
    omega
  toDecidableLE := inferInstance

/-- `str.encode()`: the UTF-8 bytes of a text. -/
def encode (s : String) : Bytes := s.toUTF8.data.toList

/-- `bytes.decode()`: the text of the bytes, `none` where Python raises UnicodeDecodeError. -/
def decode (b : Bytes) : Option String := String.fromUTF8? ⟨b.toArray⟩

@[simp] theorem decode_encode (s : String) : decode (encode s) = some s := by
  have h : (ByteArray.mk (encode s).toArray).IsValidUTF8 := s.isValidUTF8
  unfold decode String.fromUTF8?
  rw [dif_pos h]
  rfl

/-- Bytes that decode are the encoding of their text. -/
theorem encode_of_decode {b : Bytes} {s : String} (h : decode b = some s) : encode s = b := by
  unfold decode String.fromUTF8? at h
  split at h
  · cases h
    rfl
  · cases h

theorem encode_injective : Function.Injective encode := fun s t h => by
  have hs := decode_encode s
  rw [h, decode_encode] at hs
  exact (Option.some.inj hs).symm

@[simp] theorem encode_inj {s t : String} : encode s = encode t ↔ s = t :=
  encode_injective.eq_iff

/-- Exceptions the modelled code raises or sees raised. -/
inductive PyError where
  | responseError (msg : String)
  | unicodeDecodeError
  | valueError (msg : String)
  | indexError
  | overflowError
  | recursionError
  /-- The reply of a request never came: the connection failed, or a timeout ran out. -/
  | connectionError
  deriving DecidableEq, Repr

/-! ## 2. Sorted sets and hashes -/

abbrev ZSet := AList fun _ : Bytes => ℚ

abbrev Hash := AList fun _ : Bytes => Bytes

/-- ZRANGEBYSCORE from "-inf" to `max` (`none` is "+inf"), with LIMIT 0 `num` where one is given;
    a negative LIMIT count means all. -/
def zrangebyscore (z : ZSet) (max : Option ℚ) (num : Option Int) : List Bytes :=
  match num with
  | some n => if n < 0 then Ranked.upTo z max else (Ranked.upTo z max).take n.toNat
  | none => Ranked.upTo z max

/-- A LIMIT count that is not negative bounds what is read. -/
theorem length_zrangebyscore_le (z : ZSet) (max : Option ℚ) {n : Int} (hn : 0 ≤ n) :
    ((zrangebyscore z max (some n)).length : Int) ≤ n := by
  unfold zrangebyscore
  simp only [if_neg (not_lt.mpr hn), List.length_take]
  omega

theorem zrangebyscore_subset {z : ZSet} {max : Option ℚ} {num : Option Int} {m : Bytes}
    (h : m ∈ zrangebyscore z max num) : m ∈ Ranked.upTo z max := by
  unfold zrangebyscore at h
  split at h
  · split at h
    · exact h
    · exact List.mem_of_mem_take h
  · exact h

/-- How the client returns ids: as bytes, or as texts (`decode_responses=True`). -/
inductive ClientMode where
  | bytes
  | str
  deriving DecidableEq, Repr

/-- One id of a reply. -/
inductive RawId where
  | bytes (b : Bytes)
  | str (s : String)
  deriving DecidableEq, Repr

/-- The reply the client hands on: a text client decodes every id, or raises. -/
def ClientMode.reply : ClientMode → List Bytes → Except PyError (List RawId)
  | .bytes, ids => .ok (ids.map .bytes)
  | .str, ids => match ids.mapM decode with
    | some texts => .ok (texts.map .str)
    | none => .error .unicodeDecodeError

/-! ## 3. The key space -/

inductive Value where
  | zset (z : ZSet)
  | hash (h : Hash)
  deriving DecidableEq

/-- One Redis database: what each key holds. -/
abbrev Db := String → Option Value

/-- A Redis command, or a sequence of them, with its reply. -/
abbrev Cmd (α : Type) := Footprint.Prog String (Option Value) PyError α

open Footprint

def wrongType : PyError :=
  .responseError "WRONGTYPE Operation against a key holding the wrong kind of value"

/-- The sorted set under a key; a missing key is an empty one. -/
def readZSet (key : String) : Cmd ZSet := do
  match ← look key with
  | none => pure ∅
  | some (.zset z) => pure z
  | some (.hash _) => throw wrongType

def readHash (key : String) : Cmd Hash := do
  match ← look key with
  | none => pure ∅
  | some (.hash h) => pure h
  | some (.zset _) => throw wrongType

/-- A sorted set as the value of its key: an empty one has no key. -/
def zsetValue (z : ZSet) : Option Value := if z.entries = [] then none else some (.zset z)

def hashValue (h : Hash) : Option Value := if h.entries = [] then none else some (.hash h)

def zadd (key : String) (member : Bytes) (score : ℚ) : Cmd Nat := do
  let z ← readZSet key
  put key (zsetValue (z.insert member score))
  pure (if member ∈ z then 0 else 1)

def zscore (key : String) (member : Bytes) : Cmd (Option ℚ) := do
  let z ← readZSet key
  pure (z.lookup member)

def zrem (key : String) (member : Bytes) : Cmd Nat := do
  let z ← readZSet key
  put key (zsetValue (z.erase member))
  pure (if member ∈ z then 1 else 0)

def zcard (key : String) : Cmd Nat := do
  let z ← readZSet key
  pure z.entries.length

def zrange (key : String) (max : Option ℚ) (num : Option Int) : Cmd (List Bytes) := do
  let z ← readZSet key
  pure (zrangebyscore z max num)

def hset (key : String) (field value : Bytes) : Cmd Nat := do
  let h ← readHash key
  put key (hashValue (h.insert field value))
  pure (if field ∈ h then 0 else 1)

def hget (key : String) (field : Bytes) : Cmd (Option Bytes) := do
  let h ← readHash key
  pure (h.lookup field)

def hdel (key : String) (field : Bytes) : Cmd Nat := do
  let h ← readHash key
  put key (hashValue (h.erase field))
  pure (if field ∈ h then 1 else 0)

/-- UNLINK removes a key of any type. -/
def unlink (key : String) : Cmd Nat := do
  let v ← look key
  put key none
  pure (if v = none then 0 else 1)

/-- The commands of MULTI/EXEC, each run whatever the others answered. -/
def execEach : List (Cmd Nat) → Cmd (List (Except PyError Nat))
  | [] => pure []
  | c :: cs => do
    let r ← attempt c
    let rs ← execEach cs
    pure (r :: rs)

/-- The replies of an EXEC, or the first error among them. -/
def raiseFirst : List (Except PyError Nat) → Except PyError (List Nat)
  | [] => .ok []
  | .ok n :: rs => (raiseFirst rs).map (n :: ·)
  | .error e :: _ => .error e

/-- `pipeline(transaction=True)` with its `execute()`. -/
def transaction (cs : List (Cmd Nat)) : Cmd (List Nat) := do
  match raiseFirst (← execEach cs) with
  | .ok ns => pure ns
  | .error e => throw e

/-! ## 4. Footprints of the commands -/

section Footprints

variable {A : Set String} {key : String}

theorem local_readZSet (hk : key ∈ A) : Local A (readZSet key) :=
  local_bind (local_look hk) fun v => by
    rcases v with _ | ⟨z | h⟩
    · exact local_pure _
    · exact local_pure _
    · exact local_throw _

theorem local_readHash (hk : key ∈ A) : Local A (readHash key) :=
  local_bind (local_look hk) fun v => by
    rcases v with _ | ⟨z | h⟩
    · exact local_pure _
    · exact local_throw _
    · exact local_pure _

theorem local_zadd (hk : key ∈ A) (m : Bytes) (s : ℚ) : Local A (zadd key m s) :=
  local_bind (local_readZSet hk) fun _ => local_bind (local_put hk _) fun _ => local_pure _

theorem local_zscore (hk : key ∈ A) (m : Bytes) : Local A (zscore key m) :=
  local_bind (local_readZSet hk) fun _ => local_pure _

theorem local_zrem (hk : key ∈ A) (m : Bytes) : Local A (zrem key m) :=
  local_bind (local_readZSet hk) fun _ => local_bind (local_put hk _) fun _ => local_pure _

theorem local_zcard (hk : key ∈ A) : Local A (zcard key) :=
  local_bind (local_readZSet hk) fun _ => local_pure _

theorem local_zrange (hk : key ∈ A) (max : Option ℚ) (num : Option Int) :
    Local A (zrange key max num) :=
  local_bind (local_readZSet hk) fun _ => local_pure _

theorem local_hset (hk : key ∈ A) (f v : Bytes) : Local A (hset key f v) :=
  local_bind (local_readHash hk) fun _ => local_bind (local_put hk _) fun _ => local_pure _

theorem local_hget (hk : key ∈ A) (f : Bytes) : Local A (hget key f) :=
  local_bind (local_readHash hk) fun _ => local_pure _

theorem local_hdel (hk : key ∈ A) (f : Bytes) : Local A (hdel key f) :=
  local_bind (local_readHash hk) fun _ => local_bind (local_put hk _) fun _ => local_pure _

theorem local_unlink (hk : key ∈ A) : Local A (unlink key) :=
  local_bind (local_look hk) fun _ => local_bind (local_put hk _) fun _ => local_pure _

theorem local_execEach {cs : List (Cmd Nat)} (h : ∀ c ∈ cs, Local A c) : Local A (execEach cs) := by
  induction cs with
  | nil => exact local_pure _
  | cons c cs ih =>
      exact local_bind (local_attempt (h c List.mem_cons_self)) fun _ =>
        local_bind (ih fun d hd => h d (List.mem_cons_of_mem _ hd)) fun _ => local_pure _

theorem local_transaction {cs : List (Cmd Nat)} (h : ∀ c ∈ cs, Local A c) :
    Local A (transaction cs) :=
  local_bind (local_execEach h) fun rs => by
    cases raiseFirst rs with
    | ok ns => exact local_pure _
    | error e => exact local_throw _

end Footprints

/-! ## 5. What the commands do on a key of their type -/

section Execution

variable {key : String} {db : Db} {z : ZSet} {h : Hash}

theorem exec_readZSet (hk : db key = zsetValue z) : exec (readZSet key) db = (.ok z, db) := by
  unfold readZSet
  rw [exec_bind, exec_look, hk]
  by_cases hz : z.entries = []
  · have hempty : z = ∅ := AList.ext hz
    rw [hempty]
    rfl
  · rw [zsetValue, if_neg hz]
    rfl

theorem exec_readHash (hk : db key = hashValue h) : exec (readHash key) db = (.ok h, db) := by
  unfold readHash
  rw [exec_bind, exec_look, hk]
  by_cases hh : h.entries = []
  · have hempty : h = ∅ := AList.ext hh
    rw [hempty]
    rfl
  · rw [hashValue, if_neg hh]
    rfl

theorem exec_zadd (hk : db key = zsetValue z) (m : Bytes) (s : ℚ) : exec (zadd key m s) db =
    (.ok (if m ∈ z then 0 else 1), Function.update db key (zsetValue (z.insert m s))) := by
  unfold zadd
  rw [exec_bind, exec_readZSet hk]
  rfl

theorem exec_zscore (hk : db key = zsetValue z) (m : Bytes) :
    exec (zscore key m) db = (.ok (z.lookup m), db) := by
  unfold zscore
  rw [exec_bind, exec_readZSet hk]
  rfl

theorem exec_zrem (hk : db key = zsetValue z) (m : Bytes) : exec (zrem key m) db =
    (.ok (if m ∈ z then 1 else 0), Function.update db key (zsetValue (z.erase m))) := by
  unfold zrem
  rw [exec_bind, exec_readZSet hk]
  rfl

theorem exec_zcard (hk : db key = zsetValue z) :
    exec (zcard key) db = (.ok z.entries.length, db) := by
  unfold zcard
  rw [exec_bind, exec_readZSet hk]
  rfl

theorem exec_zrange (hk : db key = zsetValue z) (max : Option ℚ) (num : Option Int) :
    exec (zrange key max num) db = (.ok (zrangebyscore z max num), db) := by
  unfold zrange
  rw [exec_bind, exec_readZSet hk]
  rfl

theorem exec_hset (hk : db key = hashValue h) (f v : Bytes) : exec (hset key f v) db =
    (.ok (if f ∈ h then 0 else 1), Function.update db key (hashValue (h.insert f v))) := by
  unfold hset
  rw [exec_bind, exec_readHash hk]
  rfl

theorem exec_hget (hk : db key = hashValue h) (f : Bytes) :
    exec (hget key f) db = (.ok (h.lookup f), db) := by
  unfold hget
  rw [exec_bind, exec_readHash hk]
  rfl

theorem exec_hdel (hk : db key = hashValue h) (f : Bytes) : exec (hdel key f) db =
    (.ok (if f ∈ h then 1 else 0), Function.update db key (hashValue (h.erase f))) := by
  unfold hdel
  rw [exec_bind, exec_readHash hk]
  rfl

/-- The commands of a transaction run one after the other, errors included. -/
theorem execEach_cons_yields {P Q R : Db → Prop} {c : Cmd Nat} {cs : List (Cmd Nat)}
    {r : Except PyError Nat} {rs : List (Except PyError Nat)} (hc : Yields P c r Q)
    (hcs : Yields Q (execEach cs) (.ok rs) R) : Yields P (execEach (c :: cs)) (.ok (r :: rs)) R :=
  yields_bind (yields_attempt hc) (yields_bind hcs (yields_pure _))

theorem execEach_nil_yields {P : Db → Prop} : Yields P (execEach []) (.ok []) P := yields_pure []

/-- A transaction whose commands all succeed returns their replies. -/
theorem transaction_yields {P Q : Db → Prop} {cs : List (Cmd Nat)} {rs : List (Except PyError Nat)}
    {ns : List Nat} (hcs : Yields P (execEach cs) (.ok rs) Q) (hrs : raiseFirst rs = .ok ns) :
    Yields P (transaction cs) (.ok ns) Q := by
  refine yields_bind hcs ?_
  rw [hrs]
  exact yields_pure ns

end Execution

end RedisTimers
