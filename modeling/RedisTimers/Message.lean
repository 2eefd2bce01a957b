/-
  File:      RedisTimers/Message.lean
  Subject:   WHAT A SUBSCRIBER IS HANDED (message.py; parser/parser.py: parse_message): a claimed
             payload read as a stream message.

  The wire format is a parameter `parse`: body and headers, or the exception. What FastStream's
  `StreamMessage` keeps of the ids it is made with is a parameter `ids`.

  * `parseMessage`, `process` -- the code; a corrupt payload gives a message no handler sees;
  * `StreamIds` -- what is relied on of `StreamMessage`: it fills in empty ids;
  * `Receipt`, `handed` -- what a handler can tell of a delivery.
-/
import RedisTimers.Redis

namespace RedisTimers

/-- `TimerMessage`; its `type` is "timer" always. -/
structure TimerMessage where
  channel : String
  timerId : String
  data : Bytes
  deriving DecidableEq

abbrev Headers := List (String × String)

/-- The subclasses of `ValueError`. -/
def PyError.isValueError : PyError → Bool
  | .valueError _ | .unicodeDecodeError => true
  | .responseError _ | .indexError | .overflowError | .recursionError | .connectionError => false

/-- Of a message id and a correlation id those `StreamMessage` keeps, of the message it wraps. An id
    it draws is a function of the message here; no `publish` method leaves a correlation id empty. -/
abbrev KeptIds := TimerMessage → String → String → String × String

/-- What is relied on of `StreamMessage.__init__`: an id that is not empty is kept; in the place of an
    empty correlation id comes a new one, in that of an empty message id the correlation id. -/
structure StreamIds (ids : KeptIds) : Prop where
  correlation : ∀ msg messageId correlationId, correlationId ≠ "" →
    (ids msg messageId correlationId).2 = correlationId
  drawn : ∀ msg messageId, (ids msg messageId "").2 ≠ ""
  message : ∀ msg messageId correlationId, messageId ≠ "" →
    (ids msg messageId correlationId).1 = messageId
  defaulted : ∀ msg correlationId,
    (ids msg "" correlationId).1 = (ids msg "" correlationId).2

/-- One that draws the same id each time. -/
def fillIds : KeptIds := fun _ messageId correlationId =>
  let kept := if correlationId = "" then "drawn" else correlationId
  (if messageId = "" then kept else messageId, kept)

theorem fillIds_streamIds : StreamIds fillIds where
  correlation _ _ _ h := by simp [fillIds, h]
  drawn _ _ := by simp [fillIds]
  message _ _ _ h := by simp [fillIds, h]
  defaulted _ _ := by simp [fillIds]

structure TimerStreamMessage where
  rawMessage : TimerMessage
  body : Bytes
  headers : Headers
  contentType : Option String
  messageId : String
  correlationId : String
  replyTo : String
  /-- The error `decode` raises once it removed the timer, where the payload is corrupt. -/
  discardCorrupt : Option PyError
  deriving DecidableEq

/-- The correlation id `parse_message` passes on: the one of the headers, or else the timer id. -/
def TimerMessage.correlation (msg : TimerMessage) (headers : Headers) : String :=
  (headers.lookup "correlation_id").getD msg.timerId

/-- The message `parse_message` makes of a body and headers. -/
def TimerMessage.read (msg : TimerMessage) (ids : KeptIds) (body : Bytes) (headers : Headers)
    (discardCorrupt : Option PyError) : TimerStreamMessage where
  rawMessage := msg
  body := body
  headers := headers
  contentType := headers.lookup "content-type"
  messageId := (ids msg msg.timerId (msg.correlation headers)).1
  correlationId := (ids msg msg.timerId (msg.correlation headers)).2
  replyTo := (headers.lookup "reply_to").getD ""
  discardCorrupt := discardCorrupt

section Parse

variable (parse : Bytes → Except PyError (Bytes × Headers)) (ids : KeptIds)

/-- `TimerParser.parse_message`. -/
def parseMessage (msg : TimerMessage) : Except PyError TimerStreamMessage :=
  match parse msg.data with
  | .ok (body, headers) => .ok (msg.read ids body headers none)
  | .error e => if e.isValueError then .ok (msg.read ids msg.data [] (some e)) else .error e

/-- `parse_message` and `decode`, as a subscriber runs them before its handler. -/
def process (msg : TimerMessage) : Except PyError TimerStreamMessage := do
  let m ← parseMessage parse ids msg
  match m.discardCorrupt with
  | some e => throw e
  | none => return m

/-- What a handler can tell of a delivery. -/
structure Receipt where
  fullTopic : String
  messageId : String
  body : Bytes
  headers : Headers
  correlationId : String
  deriving DecidableEq

def TimerStreamMessage.receipt (m : TimerStreamMessage) : Receipt :=
  ⟨m.rawMessage.channel, m.messageId, m.body, m.headers, m.correlationId⟩

/-- The receipt of a message whose handler runs. -/
def handed (msg : TimerMessage) : Option Receipt :=
  ((process parse ids msg).map TimerStreamMessage.receipt).toOption

variable {parse ids}

/-- **The handler runs exactly on the payloads that parse**, and is handed what they carry. -/
theorem process_eq (msg : TimerMessage) :
    process parse ids msg = (parse msg.data).map fun r => msg.read ids r.1 r.2 none := by
  unfold process parseMessage
  cases hp : parse msg.data with
  | ok r => rfl
  | error e =>
      by_cases he : e.isValueError
      · simp only [he, if_true]
        rfl
      · simp only [he]
        rfl

end Parse

end RedisTimers
