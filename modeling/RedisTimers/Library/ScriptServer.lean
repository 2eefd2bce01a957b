/-
  File:      RedisTimers/Library/ScriptServer.lean
  Subject:   A SERVER THAT RUNS SCRIPTS BY THEIR HASH. It holds data and a cache of scripts; other
             clients change either between any two commands, and a connection may lose a command
             or its reply. General facts; nothing here names a program.

  * `Server`, `evalsha`, `load` -- the commands, with what each executes;
  * `Interference`, `disturb` -- what others do in between;
  * `Knows` -- under its hash the cache holds the script or nothing;
  * `evalsha_cases` -- an EVALSHA is refused, lost, or one execution.
-/
import RedisTimers.Library.Replay

namespace ScriptServer

open Replay

/-- What a command raises: an unknown script, or anything else. -/
inductive Raised (E : Type) where
  | noScript
  | other (e : E)
  deriving DecidableEq

structure Server (S H D : Type) where
  cache : H → Option S
  data : D

/-- What others do: the cache is another one now (a flush, a restart, a failover, their own
    loads), or a command changed the data. -/
inductive Interference (S H D : Type) where
  | scripts (cache : H → Option S)
  | command (f : D → D)

/-- What the connection does with a command. -/
inductive Link (E : Type) where
  | up
  | requestLost (e : E)
  | replyLost (e : E)
  deriving DecidableEq

/-- A command sent: what it raised or returned, the server after it, and how many scripts ran. -/
structure Sent (S H D E R : Type) where
  result : Except (Raised E) R
  server : Server S H D
  ran : Nat

variable {S H A D E R : Type}

def interfere (sv : Server S H D) : Interference S H D → Server S H D
  | .scripts cache => { sv with cache := cache }
  | .command f => { sv with data := f sv.data }

def disturb (sv : Server S H D) (es : List (Interference S H D)) : Server S H D := replay interfere sv es

/-- The data after what others did, and nothing else. -/
def dataAfter (d : D) (es : List (Interference S H D)) : D :=
  replay (fun d e => match e with
    | .scripts _ => d
    | .command f => f d) d es

/-- EVALSHA, with `exec` as what a script does to the data. -/
def evalsha (exec : S → A → D → Except (Raised E) R × D) (hash : H) (args : A) (link : Link E)
    (sv : Server S H D) : Sent S H D E R :=
  match link with
  | .requestLost e => ⟨.error (.other e), sv, 0⟩
  | .up => match sv.cache hash with
    | none => ⟨.error .noScript, sv, 0⟩
    | some s => ⟨(exec s args sv.data).1, { sv with data := (exec s args sv.data).2 }, 1⟩
  | .replyLost e => match sv.cache hash with
    | none => ⟨.error (.other e), sv, 0⟩
    | some s => ⟨.error (.other e), { sv with data := (exec s args sv.data).2 }, 1⟩

/-- SCRIPT LOAD: the script under its hash. -/
def load [DecidableEq H] (hash : S → H) (script : S) (link : Link E) (sv : Server S H D) :
    Sent S H D E Unit :=
  match link with
  | .requestLost e => ⟨.error (.other e), sv, 0⟩
  | .up => ⟨.ok (), { sv with cache := Function.update sv.cache (hash script) (some script) }, 0⟩
  | .replyLost e =>
      ⟨.error (.other e), { sv with cache := Function.update sv.cache (hash script) (some script) }, 0⟩

/-- Under the hash of the script a cache holds no other script. -/
def Knows (hash : S → H) (script : S) (cache : H → Option S) : Prop :=
  ∀ s, cache (hash script) = some s → s = script

/-- The same of everything others put there. -/
def AllKnow (hash : S → H) (script : S) (es : List (Interference S H D)) : Prop :=
  ∀ cache, .scripts cache ∈ es → Knows hash script cache

section Facts

variable {hash : S → H} {script : S} {sv : Server S H D} {es : List (Interference S H D)}

theorem disturb_data : (disturb sv es).data = dataAfter sv.data es :=
  replay_sim (f := Server.data) (I := fun _ => True) (fun _ _ _ _ => trivial)
    (fun _ e _ _ => by cases e <;> rfl) trivial

theorem dataAfter_append (d : D) (xs ys : List (Interference S H D)) :
    dataAfter d (xs ++ ys) = dataAfter (dataAfter d xs) ys :=
  replay_append _ _ _ _

/-- Interference keeps the names: what others put under the hash is the script. -/
theorem knows_disturb (h : Knows hash script sv.cache) (hes : AllKnow hash script es) :
    Knows hash script (disturb sv es).cache :=
  replay_invariant (I := fun sv : Server S H D => Knows hash script sv.cache)
    (fun sv e he h => by
      cases e with
      | scripts cache => exact hes cache he
      | command f => exact h) h

theorem load_data [DecidableEq H] (link : Link E) : (load hash script link sv).server.data = sv.data := by
  cases link <;> rfl

theorem knows_load [DecidableEq H] (h : Knows hash script sv.cache) (link : Link E) :
    Knows hash script (load hash script link sv).server.cache := by
  intro s hs
  cases link with
  | requestLost e => exact h s hs
  | up =>
      simp only [load, Function.update_self, Option.some.injEq] at hs
      exact hs.symm
  | replyLost e =>
      simp only [load, Function.update_self, Option.some.injEq] at hs
      exact hs.symm

/-- **An EVALSHA is refused, lost before it runs, or one execution of the script.** -/
theorem evalsha_cases (exec : S → A → D → Except (Raised E) R × D) (h : Knows hash script sv.cache)
    (args : A) (link : Link E) :
    let out := evalsha exec (hash script) args link sv
    (out.result = .error .noScript ∧ out.server = sv ∧ out.ran = 0) ∨
      (∃ e, out.result = .error (.other e) ∧ out.server = sv ∧ out.ran = 0) ∨
      (out.server.data = (exec script args sv.data).2 ∧ out.server.cache = sv.cache ∧ out.ran = 1 ∧
        (out.result = (exec script args sv.data).1 ∨ ∃ e, out.result = .error (.other e))) := by
  unfold evalsha
  cases link with
  | requestLost e => exact Or.inr (Or.inl ⟨e, rfl, rfl, rfl⟩)
  | up =>
      cases hc : sv.cache (hash script) with
      | none => exact Or.inl ⟨rfl, rfl, rfl⟩
      | some s =>
          cases h s hc
          exact Or.inr (Or.inr ⟨rfl, rfl, rfl, Or.inl rfl⟩)
  | replyLost e =>
      cases hc : sv.cache (hash script) with
      | none => exact Or.inr (Or.inl ⟨e, rfl, rfl, rfl⟩)
      | some s =>
          cases h s hc
          exact Or.inr (Or.inr ⟨rfl, rfl, rfl, Or.inr ⟨e, rfl⟩⟩)

end Facts

end ScriptServer
