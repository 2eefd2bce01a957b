/-
  File:      RedisTimers/Scripts.lean
  Subject:   SCRIPTS DISPATCHED BY THEIR HASH (store.py: _eval_cached, claim, remove).

  `_eval_cached` sends EVALSHA, and where the server does not know the script SCRIPT LOAD and
  EVALSHA again. Between the commands the server may lose its scripts and other clients may do
  anything; no two scripts the server ever holds share a hash.

  * `evalCached` -- the call, with the EVALSHA commands it sent and the executions it caused;
  * `PlainEval` -- it is a plain EVAL at one instant, or it did nothing;
  * `evalCached_plain` -- so it is for every script that never answers NOSCRIPT itself;
  * `claimText`, `commitText`, `runLua` -- the two scripts of the module, which never do.
-/
import RedisTimers.Library.ScriptServer
import RedisTimers.Store

namespace RedisTimers

open ScriptServer

/-! ## 1. The call -/

section Call

variable {H A D E R : Type} [DecidableEq H]

/-- A call of `_eval_cached`: its result, the server after it, the executions of the script and
    the EVALSHA commands sent. -/
structure CachedCall (H D E R : Type) where
  result : Except (Raised E) R
  server : Server String H D
  ran : Nat
  evalshas : Nat

/-- What the three commands of a call may meet: their links, and what others do before each. -/
structure Surroundings (H D E : Type) where
  link₁ : Link E
  link₂ : Link E
  link₃ : Link E
  before₁ : List (Interference String H D)
  before₂ : List (Interference String H D)
  before₃ : List (Interference String H D)

/-- `_eval_cached`, with `sha1` as the hash and `exec` as what a script does. -/
def evalCached (exec : String → A → D → Except (Raised E) R × D) (sha1 : String → H)
    (script : String) (args : A) (w : Surroundings H D E) (sv : Server String H D) :
    CachedCall H D E R :=
  let first := evalsha exec (sha1 script) args w.link₁ (disturb sv w.before₁)
  match first.result with
  | .error .noScript =>
    let loaded : Sent String H D E Unit := load sha1 script w.link₂ (disturb first.server w.before₂)
    match loaded.result with
    | .error e => ⟨.error e, loaded.server, first.ran, 1⟩
    | .ok _ =>
      let second := evalsha exec (sha1 script) args w.link₃ (disturb loaded.server w.before₃)
      ⟨second.result, second.server, first.ran + second.ran, 2⟩
  | .error (.other e) => ⟨.error (.other e), first.server, first.ran, 1⟩
  | .ok r => ⟨.ok r, first.server, first.ran, 1⟩

/-- The instants at which a call may execute: before its first command, and before its last. -/
def Surroundings.instants (w : Surroundings H D E) : List (List (Interference String H D)) :=
  [w.before₁, w.before₁ ++ w.before₂, w.before₁ ++ w.before₂ ++ w.before₃]

/-- A call is a plain EVAL at one instant, or it executed nothing. -/
structure PlainEval (exec : String → A → D → Except (Raised E) R × D) (script : String) (args : A)
    (w : Surroundings H D E) (sv : Server String H D) (out : CachedCall H D E R) : Prop where
  /-- Where it returns, the script ran once: on what others had made of the data by then, with
      the value and the data a plain EVAL gives. -/
  returned : ∀ r, out.result = .ok r → out.ran = 1 ∧
    ∃ es ∈ w.instants, exec script args (dataAfter sv.data es) = (.ok r, out.server.data)
  /-- Where it raises NoScriptError, the script did not run and the data is what others made it. -/
  refused : out.result = .error .noScript → out.ran = 0 ∧
    ∃ es ∈ w.instants, out.server.data = dataAfter sv.data es
  /-- However it ends, the script ran at most once, and the data shows just that. -/
  atMostOnce : out.ran ≤ 1 ∧ ∃ es ∈ w.instants, out.server.data = dataAfter sv.data es ∨
    out.server.data = (exec script args (dataAfter sv.data es)).2
  evalshas : out.evalshas ≤ 2

/-- No script that others put in the cache shares the hash of this one. -/
structure Surroundings.Knows (w : Surroundings H D E) (sha1 : String → H) (script : String) : Prop where
  before₁ : AllKnow sha1 script w.before₁
  before₂ : AllKnow sha1 script w.before₂
  before₃ : AllKnow sha1 script w.before₃

section Proof

variable {exec : String → A → D → Except (Raised E) R × D} {sha1 : String → H} {script : String}
  {args : A} {w : Surroundings H D E} {sv : Server String H D}

omit [DecidableEq H] in
/-- A single EVALSHA that is not refused is a plain EVAL, or it was lost. -/
theorem plain_of_sent (hquiet : ∀ args d, (exec script args d).1 ≠ .error .noScript)
    {out : Sent String H D E R} {sv' : Server String H D} {es : List (Interference String H D)}
    (hes : es ∈ w.instants) (hdata : sv'.data = dataAfter sv.data es) {n : Nat} (hn : n ≤ 2)
    (hout : (out.result = .error .noScript ∧ out.server = sv' ∧ out.ran = 0) ∨
      (∃ e, out.result = .error (.other e) ∧ out.server = sv' ∧ out.ran = 0) ∨
      (out.server.data = (exec script args sv'.data).2 ∧ out.server.cache = sv'.cache ∧ out.ran = 1 ∧
        (out.result = (exec script args sv'.data).1 ∨ ∃ e, out.result = .error (.other e)))) :
    PlainEval exec script args w sv ⟨out.result, out.server, out.ran, n⟩ := by
  rcases hout with ⟨hr, hs, hran⟩ | ⟨e, hr, hs, hran⟩ | ⟨hs, _, hran, hr⟩
  · have hkept : out.server.data = dataAfter sv.data es := by rw [hs, hdata]
    refine ⟨fun r h => ?_, fun _ => ⟨hran, es, hes, hkept⟩,
      ⟨hran.le.trans zero_le_one, es, hes, Or.inl hkept⟩, hn⟩
    rw [hr] at h
    cases h
  · have hkept : out.server.data = dataAfter sv.data es := by rw [hs, hdata]
    refine ⟨fun r h => ?_, fun h => ?_,
      ⟨hran.le.trans zero_le_one, es, hes, Or.inl hkept⟩, hn⟩
    · rw [hr] at h
      cases h
    · rw [hr] at h
      cases h
  · rw [hdata] at hs hr
    refine ⟨fun r h => ⟨hran, es, hes, ?_⟩, fun h => ?_, ⟨hran.le, es, hes, Or.inr hs⟩, hn⟩
    · rcases hr with hr | ⟨e, hr⟩
      · exact Prod.ext (hr.symm.trans h) hs.symm
      · rw [hr] at h
        cases h
    · rcases hr with hr | ⟨e, hr⟩
      · exact absurd (hr.symm.trans h) (hquiet args _)
      · rw [hr] at h
        cases h

/-- **A cached call is a plain EVAL at one instant, or did nothing**, for a script that does not
    itself answer NOSCRIPT. -/
theorem evalCached_plain (hquiet : ∀ args d, (exec script args d).1 ≠ .error .noScript)
    (hsv : Knows sha1 script sv.cache) (hw : w.Knows sha1 script) :
    PlainEval exec script args w sv (evalCached exec sha1 script args w sv) := by
  have hknows := knows_disturb hsv hw.before₁
  have hfirst := evalsha_cases exec hknows args w.link₁
  by_cases hr : (evalsha exec (sha1 script) args w.link₁ (disturb sv w.before₁)).result = .error .noScript
  · -- refused: nothing ran, so the second EVALSHA is the only execution
    have hkept : (evalsha exec (sha1 script) args w.link₁ (disturb sv w.before₁)).server =
        disturb sv w.before₁ ∧
        (evalsha exec (sha1 script) args w.link₁ (disturb sv w.before₁)).ran = 0 := by
      rcases hfirst with ⟨_, hs, hran⟩ | ⟨e, he, _⟩ | ⟨_, _, _, he | ⟨e, he⟩⟩
      · exact ⟨hs, hran⟩
      · rw [hr] at he
        cases he
      · exact absurd (he.symm.trans hr) (hquiet args _)
      · rw [hr] at he
        cases he
    unfold evalCached
    simp only [hr, hkept.1, hkept.2]
    have hloaded : (load sha1 script w.link₂ (disturb (disturb sv w.before₁) w.before₂)).server.data =
        dataAfter sv.data (w.before₁ ++ w.before₂) := by
      rw [load_data, disturb_data, disturb_data, dataAfter_append]
    cases hl : (load sha1 script w.link₂ (disturb (disturb sv w.before₁) w.before₂)).result with
    | error e =>
        have hother : e ≠ .noScript := by
          unfold load at hl
          intro he
          rw [he] at hl
          cases hlink : w.link₂ <;> rw [hlink] at hl <;> cases hl
        have hmem : w.before₁ ++ w.before₂ ∈ w.instants := by simp [Surroundings.instants]
        refine ⟨nofun, fun h => ?_, ⟨by simp, _, hmem, Or.inl hloaded⟩, by simp⟩
        simp only [Except.error.injEq] at h
        exact absurd h hother
    | ok u =>
        have hknows₃ := knows_disturb (knows_load (knows_disturb hknows hw.before₂) w.link₂) hw.before₃
        have hdata₃ : (disturb (load sha1 script w.link₂
            (disturb (disturb sv w.before₁) w.before₂)).server w.before₃).data =
            dataAfter sv.data (w.before₁ ++ w.before₂ ++ w.before₃) := by
          rw [disturb_data, hloaded, ← dataAfter_append]
        have hmem : w.before₁ ++ w.before₂ ++ w.before₃ ∈ w.instants := by simp [Surroundings.instants]
        have hplain := plain_of_sent hquiet hmem hdata₃ le_rfl (evalsha_cases exec hknows₃ args w.link₃)
        simpa only [Nat.zero_add] using hplain
  · -- answered: what the first EVALSHA did is the whole call
    have hmem : w.before₁ ∈ w.instants := by simp [Surroundings.instants]
    have hplain := plain_of_sent hquiet hmem disturb_data (by decide : 1 ≤ 2) hfirst
    unfold evalCached
    generalize hout : evalsha exec (sha1 script) args w.link₁ (disturb sv w.before₁) = out at *
    obtain ⟨result, server, ran⟩ := out
    rcases result with (_ | e) | r
    · exact absurd rfl hr
    · exact hplain
    · exact hplain

end Proof

end Call

/-! ## 2. The scripts of the module -/

/-- `_CLAIM_LUA`. -/
def claimText : String :=
  "local score = redis.call('ZSCORE', KEYS[1], ARGV[1])\n" ++
  "if not score or tonumber(score) > tonumber(ARGV[2]) then return nil end\n" ++
  "local payload = redis.call('HGET', KEYS[2], ARGV[1])\n" ++
  "if not payload then\n" ++
  "    redis.call('ZREM', KEYS[1], ARGV[1])\n" ++
  "    return nil\n" ++
  "end\n" ++
  "redis.call('ZADD', KEYS[1], ARGV[3], ARGV[1])\n" ++
  "return payload\n"

/-- `_COMMIT_LUA`. -/
def commitText : String :=
  "redis.call('ZREM', KEYS[1], ARGV[1])\n" ++
  "redis.call('HDEL', KEYS[2], ARGV[1])\n"

/-- ARGV: a member, and for a claim the clock and the new score. -/
structure Argv where
  member : Bytes
  numbers : List ℚ
  deriving DecidableEq

/-- What the server does with a script on the two keys of a topic; `others` for any other text. -/
def runLua (others : String → Argv → TopicStore → Except (Raised PyError) (Option Bytes) × TopicStore)
    (text : String) (argv : Argv) (k : TopicStore) :
    Except (Raised PyError) (Option Bytes) × TopicStore :=
  if text = claimText then
    match argv.numbers with
    | [now, claimScore] =>
        (.ok (k.claimLua argv.member now claimScore).1, (k.claimLua argv.member now claimScore).2)
    | _ => (.error (.other (.responseError "bad argument #1 to 'tonumber'")), k)
  else if text = commitText then (.ok none, k.commitLua argv.member)
  else others text argv k

section Module

variable {H : Type} [DecidableEq H]
  (others : String → Argv → TopicStore → Except (Raised PyError) (Option Bytes) × TopicStore)
  (sha1 : String → H) (w : Surroundings H TopicStore PyError) (sv : Server String H TopicStore)

/-- `TimerStore.claim` through `_eval_cached`. -/
def claimCached (timerId : String) (now : ℚ) (leaseTtl : ℚ) :
    CachedCall H TopicStore PyError (Option Bytes) :=
  evalCached (runLua others) sha1 claimText ⟨encode timerId, [now, now + leaseTtl]⟩ w sv

/-- `TimerStore.remove` through `_eval_cached`. -/
def removeCached (timerId : String) : CachedCall H TopicStore PyError (Option Bytes) :=
  evalCached (runLua others) sha1 commitText ⟨encode timerId, []⟩ w sv

theorem commitText_ne : commitText ≠ claimText := by decide

theorem runLua_claim (timerId : String) (now leaseTtl : ℚ) (k : TopicStore) :
    runLua others claimText ⟨encode timerId, [now, now + leaseTtl]⟩ k =
      (.ok (k.claim timerId now leaseTtl).1, (k.claim timerId now leaseTtl).2) := by
  unfold runLua
  rw [if_pos rfl]
  rfl

theorem runLua_commit (timerId : String) (k : TopicStore) :
    runLua others commitText ⟨encode timerId, []⟩ k = (.ok none, k.remove timerId) := by
  unfold runLua
  rw [if_neg commitText_ne, if_pos rfl]
  rfl

/-- Neither script of the module answers NOSCRIPT itself. -/
theorem runLua_quiet {text : String} (h : text = claimText ∨ text = commitText) (argv : Argv)
    (k : TopicStore) : (runLua others text argv k).1 ≠ .error .noScript := by
  unfold runLua
  rcases h with rfl | rfl
  · rw [if_pos rfl]
    split <;> nofun
  · rw [if_neg commitText_ne, if_pos rfl]
    nofun

/-- A claim through the cache is one claim at one instant, or none: no second lease, and no payload
    but the one it returns. -/
structure ClaimsOnce (timerId : String) (now leaseTtl : ℚ) : Prop where
  returned : ∀ r, (claimCached others sha1 w sv timerId now leaseTtl).result = .ok r →
    ∃ es ∈ w.instants, (dataAfter sv.data es).claim timerId now leaseTtl =
      (r, (claimCached others sha1 w sv timerId now leaseTtl).server.data)
  atMostOnce : (claimCached others sha1 w sv timerId now leaseTtl).ran ≤ 1 ∧ ∃ es ∈ w.instants,
    (claimCached others sha1 w sv timerId now leaseTtl).server.data = dataAfter sv.data es ∨
      (claimCached others sha1 w sv timerId now leaseTtl).server.data =
        ((dataAfter sv.data es).claim timerId now leaseTtl).2

/-- A removal through the cache that returns is executed. -/
structure CommitsOnce (timerId : String) : Prop where
  returned : ∀ r, (removeCached others sha1 w sv timerId).result = .ok r →
    ∃ es ∈ w.instants, (removeCached others sha1 w sv timerId).server.data =
      (dataAfter sv.data es).remove timerId
  atMostOnce : (removeCached others sha1 w sv timerId).ran ≤ 1

variable {others sha1 w sv}

theorem claimsOnce (hsv : Knows sha1 claimText sv.cache) (hw : w.Knows sha1 claimText)
    (timerId : String) (now leaseTtl : ℚ) : ClaimsOnce others sha1 w sv timerId now leaseTtl := by
  have h : PlainEval (runLua others) claimText ⟨encode timerId, [now, now + leaseTtl]⟩ w sv
      (claimCached others sha1 w sv timerId now leaseTtl) :=
    evalCached_plain (runLua_quiet others (Or.inl rfl)) hsv hw
  refine ⟨fun r hr => ?_, h.atMostOnce.1, ?_⟩
  · obtain ⟨es, hes, hexec⟩ := (h.returned r hr).2
    rw [runLua_claim] at hexec
    obtain ⟨hreply, hdata⟩ := Prod.mk.inj hexec
    exact ⟨es, hes, Prod.ext (Except.ok.inj hreply) hdata⟩
  · obtain ⟨es, hes, hdata⟩ := h.atMostOnce.2
    rw [runLua_claim] at hdata
    exact ⟨es, hes, hdata⟩

theorem commitsOnce (hsv : Knows sha1 commitText sv.cache) (hw : w.Knows sha1 commitText)
    (timerId : String) : CommitsOnce others sha1 w sv timerId := by
  have h : PlainEval (runLua others) commitText ⟨encode timerId, []⟩ w sv
      (removeCached others sha1 w sv timerId) :=
    evalCached_plain (runLua_quiet others (Or.inr rfl)) hsv hw
  refine ⟨fun r hr => ?_, h.atMostOnce.1⟩
  obtain ⟨es, hes, hexec⟩ := (h.returned r hr).2
  rw [runLua_commit] at hexec
  exact ⟨es, hes, (Prod.mk.inj hexec).2.symm⟩

end Module

/-- **CACHED DISPATCH EQUALS PLAIN EVAL** for every script that does not itself answer NOSCRIPT,
    whatever the server's script cache holds and whatever happens between the commands; so no
    claim is granted twice and no commit that returns was skipped. -/
theorem cached_dispatch {H : Type} [DecidableEq H] (sha1 : String → H) :
    (∀ (A D E R : Type) (exec : String → A → D → Except (Raised E) R × D) (script : String),
      (∀ args d, (exec script args d).1 ≠ .error .noScript) →
      ∀ (args : A) (w : Surroundings H D E) (sv : Server String H D),
        Knows sha1 script sv.cache → w.Knows sha1 script →
        PlainEval exec script args w sv (evalCached exec sha1 script args w sv)) ∧
    ∀ (others : String → Argv → TopicStore → Except (Raised PyError) (Option Bytes) × TopicStore)
      (w : Surroundings H TopicStore PyError) (sv : Server String H TopicStore) (timerId : String),
      (Knows sha1 claimText sv.cache → w.Knows sha1 claimText →
        ∀ now leaseTtl, ClaimsOnce others sha1 w sv timerId now leaseTtl) ∧
      (Knows sha1 commitText sv.cache → w.Knows sha1 commitText →
        CommitsOnce others sha1 w sv timerId) :=
  ⟨fun _ _ _ _ _ _ hquiet _ _ _ hsv hw => evalCached_plain hquiet hsv hw,
    fun _ _ _ timerId => ⟨fun hsv hw now leaseTtl => claimsOnce hsv hw timerId now leaseTtl,
      fun hsv hw => commitsOnce hsv hw timerId⟩⟩

/-- A script that counts its runs in the data, and the first time answers NOSCRIPT: the call takes
    the answer for an unknown script and runs it again. -/
theorem noscript_answer_runs_twice :
    let exec : String → Unit → Nat → Except (Raised PyError) Nat × Nat := fun _ _ runs =>
      if runs = 0 then (.error .noScript, 1) else (.ok runs, runs + 1)
    let w : Surroundings String Nat PyError := ⟨.up, .up, .up, [], [], []⟩
    let sv : Server String String Nat := ⟨some, 0⟩
    let script := "return redis.error_reply('NOSCRIPT again')"
    Knows id script sv.cache ∧ w.Knows id script ∧
      (evalCached exec id script () w sv).ran = 2 ∧
      ¬ PlainEval exec script () w sv (evalCached exec id script () w sv) := by
  intro exec w sv script
  refine ⟨fun s hs => (Option.some.inj hs).symm, ⟨nofun, nofun, nofun⟩, rfl, fun h => ?_⟩
  have hran := (h.returned 1 rfl).1
  exact absurd hran (by decide)

end RedisTimers
