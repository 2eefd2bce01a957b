/-
  File:      RedisTimers/Schemas.lean
  Subject:   WHAT A SUBSCRIPTION MAY BE CONFIGURED TO (schemas.py: TimerSub).

  `__post_init__` looks at `command_timeout` alone. `AcceptedSub` is a configuration it lets
  through; the two facts the subscriber relies on are read off it.

  * `TimerSubFields`, `postInit`, `effectiveCommandTimeout` -- the code;
  * `postInit_ok_iff` -- what is accepted; the defaults are;
  * `AcceptedSub.effective_eq` -- an accepted timeout is a number not above `lease_ttl`.
-/
import RedisTimers.Library.PyFloat
import RedisTimers.Redis

namespace RedisTimers

/-- The arguments of `TimerSub`. -/
structure TimerSubFields where
  topic : String
  pollingInterval : PyFloat
  maxPollingInterval : PyFloat
  maxConcurrent : Int
  leaseTtl : Int
  commandTimeout : Option PyFloat
  deriving DecidableEq

namespace TimerSubFields

/-- The defaults of the dataclass. -/
def defaults (topic : String) : TimerSubFields where
  topic := topic
  pollingInterval := .finite (1 / 20)
  maxPollingInterval := .finite 5
  maxConcurrent := 5
  leaseTtl := 30
  commandTimeout := none

/-- `__post_init__`; `text` is how a float is printed. -/
def postInit (text : PyFloat → String) (a : TimerSubFields) : Except PyError Unit :=
  match a.commandTimeout with
  | none => .ok ()
  | some t =>
    if !t.isFinite then
      .error (.valueError s!"command_timeout must be finite, got {text t}")
    else if t.le (.finite 0) then
      .error (.valueError s!"command_timeout must be > 0, got {text t}")
    else if (PyFloat.finite a.leaseTtl).lt t then
      .error (.valueError s!"command_timeout ({text t}) must be <= lease_ttl ({a.leaseTtl})")
    else .ok ()

/-- `effective_command_timeout`. -/
def effectiveCommandTimeout (a : TimerSubFields) : PyFloat :=
  match a.commandTimeout with
  | none => .finite a.leaseTtl
  | some t => t

/-- **What `__post_init__` accepts**: no timeout, or a positive one within the lease. -/
theorem postInit_ok_iff (text : PyFloat → String) (a : TimerSubFields) :
    a.postInit text = .ok () ↔ a.commandTimeout = none ∨
      ∃ q, a.commandTimeout = some (.finite q) ∧ 0 < q ∧ q ≤ a.leaseTtl := by
  unfold postInit
  cases a.commandTimeout with
  | none => simp
  | some t =>
      cases t with
      | finite q =>
          rcases lt_or_ge 0 q with hpos | hneg
          · rcases le_or_gt q (a.leaseTtl : ℚ) with hle | hgt
            · simp [PyFloat.isFinite, hpos, hle, not_le.mpr hpos, not_lt.mpr hle]
            · simp [PyFloat.isFinite, hgt, not_le.mpr hpos, not_le.mpr hgt]
          · simp [PyFloat.isFinite, hneg, not_lt.mpr hneg]
      | posInf => simp [PyFloat.isFinite]
      | negInf => simp [PyFloat.isFinite]
      | nan => simp [PyFloat.isFinite]

end TimerSubFields

/-- A configuration that `TimerSub` accepts. -/
structure AcceptedSub extends TimerSubFields where
  accepted : ∀ text, toTimerSubFields.postInit text = .ok ()

namespace AcceptedSub

theorem defaults_accepted (topic : String) (text : PyFloat → String) :
    (TimerSubFields.defaults topic).postInit text = .ok () := rfl

/-- The time a command is given: a number, and never more than the lease. -/
theorem effective_eq (a : AcceptedSub) :
    ∃ d : ℚ, a.effectiveCommandTimeout = .finite d ∧ d ≤ a.leaseTtl := by
  unfold TimerSubFields.effectiveCommandTimeout
  rcases (a.postInit_ok_iff fun _ => "").mp (a.accepted _) with h | ⟨q, h, _, hle⟩
  · rw [h]
    exact ⟨a.leaseTtl, rfl, le_rfl⟩
  · rw [h]
    exact ⟨q, rfl, hle⟩

end AcceptedSub

end RedisTimers
