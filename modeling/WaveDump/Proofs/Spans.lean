import WaveDump.Proofs.Frames
import WaveDump.Session

/-!
# Spans of a session

The calls on a session come in spans, each from a start that succeeds to the next finish that
succeeds. Within a span the session is one encoder: it returns what a fresh encoder returns for the
same logic packets, whatever else is called in between and whatever came before the span. A call
that fails leaves the session as it was, so failures are no part of any span.
-/

namespace WaveDump

inductive SessionCall where
  | start (capture : Capture) (options : EncoderOptions)
  | receive (packet : Packet)
  | finish
deriving DecidableEq, Repr

/-- What a call returns that succeeds. -/
inductive SessionReply where
  | started
  | received (text : Option String)
  | finished (statistics : EncoderStatistics)
deriving DecidableEq, Repr

abbrev SessionResult := Except SessionError SessionReply

/-- The frame that a call brings. -/
def SessionCall.frame? : SessionCall → Option Frame
  | .receive (.logic bytes stride) => some { bytes, stride }
  | _ => none

namespace SessionResult

/-- Whether a session is active after a call with this result, if the result tells. -/
def activity? : SessionResult → Option Bool
  | .ok .started => some true
  | .ok (.finished _) => some false
  | _ => none

def text? : SessionResult → Option String
  | .ok (.received text) => text
  | _ => none

end SessionResult

namespace Session

def perform (session : Session) : SessionCall → SessionResult × Session
  | .start capture options =>
    let report := session.start capture options
    (report.result.map fun _ => .started, report.session)
  | .receive packet =>
    let report := session.receive packet
    (report.result.map .received, report.session)
  | .finish =>
    let report := session.finish
    (report.result.map .finished, report.session)

/-- The results of calls one after the other, and the session after them. -/
def converse (session : Session) : List SessionCall → List SessionResult × Session
  | [] => ([], session)
  | call :: rest =>
    let (result, next) := session.perform call
    let (results, final) := next.converse rest
    (result :: results, final)

/-- The calls that a session refuses, each with its reason. -/
inductive Refuses (session : Session) : SessionCall → SessionError → Prop
  | alreadyStarted (active : session.isActive) (capture : Capture) (options : EncoderOptions) :
      Refuses session (.start capture options) .alreadyInitialized
  | rejected (inactive : ¬session.isActive) {capture : Capture} {options : EncoderOptions}
      {error : ConfigError} (invalid : (Encoder.create capture options).1 = .error error) :
      Refuses session (.start capture options) (.config error)
  | receiveIdle (inactive : ¬session.isActive) (packet : Packet) :
      Refuses session (.receive packet) .notInitialized
  | zeroStride (active : session.isActive) (bytes : List UInt8) :
      Refuses session (.receive (.logic bytes 0)) (.encode .zeroStride)
  | finishIdle (inactive : ¬session.isActive) : Refuses session .finish .notInitialized

theorem frame?_of_not_logic {packet : Packet} (other : ¬packet.isLogic) :
    SessionCall.frame? (.receive packet) = none := by
  cases packet with
  | logic bytes stride => simp [Packet.isLogic] at other
  | _ => rfl

/-! ## Single calls -/

section Calls

variable {encoder : Encoder} {session : Session}

def idle : Session := {}

def running (encoder : Encoder) : Session := { encoder := some encoder }

theorem eq_idle (inactive : ¬session.isActive) : session = idle := by
  rcases session with ⟨_ | encoder⟩
  · rfl
  · simp [isActive] at inactive

theorem eq_running (active : session.isActive) : ∃ encoder, session = running encoder := by
  rcases session with ⟨_ | encoder⟩
  · simp [isActive] at active
  · exact ⟨encoder, rfl⟩

theorem perform_start_of_ok {capture : Capture} {options : EncoderOptions}
    (accepted : (Encoder.create capture options).1 = .ok encoder) :
    idle.perform (.start capture options) = (.ok .started, running encoder) := by
  rcases created : Encoder.create capture options with ⟨result, log⟩
  rw [created] at accepted
  simp only at accepted
  subst accepted
  simp [perform, start, idle, created, running, Except.map]

theorem perform_start_of_error {capture : Capture} {options : EncoderOptions}
    {error : ConfigError} (rejected : (Encoder.create capture options).1 = .error error) :
    idle.perform (.start capture options) = (.error (.config error), idle) := by
  rcases created : Encoder.create capture options with ⟨result, log⟩
  rw [created] at rejected
  simp only at rejected
  subst rejected
  simp [perform, start, idle, created, Except.map]

theorem perform_receive_logic {bytes : List UInt8} {stride : Nat} (positive : 0 < stride) :
    (running encoder).perform (.receive (.logic bytes stride)) =
      (.ok (.received (some (encoder.frameText bytes stride))),
        running (encoder.afterFrame bytes stride)) := by
  rcases encoder.encode_of_pos bytes positive with ⟨log, encoded⟩
  simp [perform, receive, running, encoded, Except.map]

theorem perform_receive_zero (bytes : List UInt8) :
    (running encoder).perform (.receive (.logic bytes 0)) =
      (.error (.encode .zeroStride), running encoder) := rfl

/-- Packets without samples are passed over. -/
theorem perform_receive_other {packet : Packet} (other : ¬packet.isLogic) :
    (running encoder).perform (.receive packet) = (.ok (.received none), running encoder) := by
  cases packet with
  | logic bytes stride => simp [Packet.isLogic] at other
  | _ => rfl

theorem Refuses.perform_eq {call : SessionCall} {error : SessionError}
    (refused : session.Refuses call error) : session.perform call = (.error error, session) := by
  cases refused with
  | alreadyStarted active capture options =>
      rcases eq_running active with ⟨encoder, rfl⟩
      rfl
  | rejected inactive invalid => rw [eq_idle inactive, perform_start_of_error invalid]
  | receiveIdle inactive packet =>
      rw [eq_idle inactive]
      rfl
  | zeroStride active bytes =>
      rcases eq_running active with ⟨encoder, rfl⟩
      rfl
  | finishIdle inactive =>
      rw [eq_idle inactive]
      rfl

theorem perform_finish : (running encoder).perform .finish =
    (.ok (.finished encoder.statistics), idle) := rfl

/-- What can be called on a session: a call that it refuses, a start on an idle session, and on an
encoder a frame, a packet without samples or the finish. -/
theorem call_cases (session : Session) (call : SessionCall) :
    (∃ error, session.Refuses call error) ∨
    (∃ capture options encoder, session = idle ∧ call = .start capture options ∧
      (Encoder.create capture options).1 = .ok encoder) ∨
    (∃ encoder bytes stride, session = running encoder ∧
      call = .receive (.logic bytes stride) ∧ 0 < stride) ∨
    (∃ encoder packet, session = running encoder ∧ call = .receive packet ∧ ¬packet.isLogic) ∨
    ∃ encoder, session = running encoder ∧ call = .finish := by
  by_cases active : session.isActive
  · rcases eq_running active with ⟨encoder, isRunning⟩
    cases call with
    | start capture options => exact .inl ⟨_, .alreadyStarted active capture options⟩
    | receive packet =>
        cases packet with
        | logic bytes stride =>
            rcases Nat.eq_zero_or_pos stride with rfl | positive
            · exact .inl ⟨_, .zeroStride active bytes⟩
            · exact .inr (.inr (.inl ⟨encoder, bytes, stride, isRunning, rfl, positive⟩))
        | _ =>
            exact .inr (.inr (.inr (.inl ⟨encoder, _, isRunning, rfl, by simp [Packet.isLogic]⟩)))
    | finish => exact .inr (.inr (.inr (.inr ⟨encoder, isRunning, rfl⟩)))
  · have isIdle := eq_idle active
    cases call with
    | start capture options =>
        cases created : (Encoder.create capture options).1 with
        | ok encoder => exact .inr (.inl ⟨capture, options, encoder, isIdle, rfl, created⟩)
        | error invalid => exact .inl ⟨_, .rejected active created⟩
    | receive packet => exact .inl ⟨_, .receiveIdle active packet⟩
    | finish => exact .inl ⟨_, .finishIdle active⟩

/-- A call fails for the reasons for which it is refused, and for no others. -/
theorem perform_error_iff {call : SessionCall} {error : SessionError} :
    (session.perform call).1 = .error error ↔ session.Refuses call error := by
  constructor
  · intro failed
    rcases session.call_cases call with ⟨other, refused⟩ |
      ⟨capture, options, encoder, rfl, rfl, accepted⟩ |
      ⟨encoder, bytes, stride, rfl, rfl, positive⟩ | ⟨encoder, packet, rfl, rfl, ignored⟩ |
      ⟨encoder, rfl, rfl⟩
    · rw [refused.perform_eq] at failed
      rwa [← Except.error.inj failed]
    · simp [perform_start_of_ok accepted] at failed
    · simp [perform_receive_logic positive] at failed
    · simp [perform_receive_other ignored] at failed
    · simp [perform_finish] at failed
  · intro refused
    rw [refused.perform_eq]

/-- The result of a call tells whether the session is active after it, or the call changes
nothing about that. -/
theorem isActive_perform (session : Session) (call : SessionCall) :
    (session.perform call).2.isActive =
      (SessionResult.activity? (session.perform call).1).getD session.isActive := by
  rcases session.call_cases call with ⟨error, refused⟩ |
    ⟨capture, options, encoder, rfl, rfl, accepted⟩ |
    ⟨encoder, bytes, stride, rfl, rfl, positive⟩ | ⟨encoder, packet, rfl, rfl, ignored⟩ |
    ⟨encoder, rfl, rfl⟩
  · rw [refused.perform_eq]
    rfl
  · rw [perform_start_of_ok accepted]
    rfl
  · rw [perform_receive_logic positive]
    rfl
  · rw [perform_receive_other ignored]
    rfl
  · rfl

end Calls

/-! ## Histories -/

theorem isActive_converse (session : Session) (calls : List SessionCall) :
    (session.converse calls).2.isActive =
      ((session.converse calls).1.filterMap SessionResult.activity?).getLast?.getD
        session.isActive := by
  induction calls generalizing session with
  | nil => rfl
  | cons call rest ih =>
      rw [converse, ih, isActive_perform, List.filterMap_cons]
      cases SessionResult.activity? (session.perform call).1 <;> simp [List.getLast?_cons]

/-- A call that an active session refuses brings no frame that could be encoded. -/
theorem feed_of_refused {encoder : Encoder} {call : SessionCall} {error : SessionError}
    (refused : (running encoder).Refuses call error) (rest : List SessionCall) :
    encoder.feed ((call :: rest).filterMap SessionCall.frame?) =
      encoder.feed (rest.filterMap SessionCall.frame?) := by
  cases refused with
  | alreadyStarted => rfl
  | rejected inactive => exact absurd rfl inactive
  | receiveIdle inactive => exact absurd rfl inactive
  | zeroStride _ bytes => exact encoder.feed_cons_of_zero _ rfl
  | finishIdle inactive => exact absurd rfl inactive

/-- A session that is not finished is one encoder that is fed the frames. -/
theorem converse_running {encoder : Encoder} {calls : List SessionCall}
    (unfinished : ∀ result ∈ ((running encoder).converse calls).1,
      SessionResult.activity? result ≠ some false) :
    ((running encoder).converse calls).1.filterMap SessionResult.text? =
        (encoder.feed (calls.filterMap SessionCall.frame?)).2 ∧
      ((running encoder).converse calls).2 =
        running (encoder.feed (calls.filterMap SessionCall.frame?)).1 := by
  induction calls generalizing encoder with
  | nil => exact ⟨rfl, rfl⟩
  | cons call rest ih =>
      rw [converse] at unfinished ⊢
      simp only [List.forall_mem_cons] at unfinished
      rcases (running encoder).call_cases call with ⟨error, refused⟩ |
        ⟨_, _, _, isIdle, _⟩ | ⟨_, bytes, stride, isRunning, rfl, positive⟩ |
        ⟨_, packet, isRunning, rfl, ignored⟩ | ⟨_, isRunning, rfl⟩
      · rw [refused.perform_eq] at unfinished ⊢
        rw [feed_of_refused refused]
        exact ih unfinished.2
      · simp [running, idle] at isIdle
      · rw [perform_receive_logic positive] at unfinished ⊢
        rcases ih unfinished.2 with ⟨texts, final⟩
        have fed := encoder.feed_cons_of_pos (rest.filterMap SessionCall.frame?)
          (show 0 < (⟨bytes, stride⟩ : Frame).stride from positive)
        rw [List.filterMap_cons_some (show SessionResult.text?
          (.ok (.received (some (encoder.frameText bytes stride)))) = some _ from rfl),
          List.filterMap_cons_some (show SessionCall.frame? (.receive (.logic bytes stride)) =
            some { bytes, stride } from rfl), fed, texts]
        exact ⟨rfl, final⟩
      · rw [perform_receive_other ignored] at unfinished ⊢
        rw [List.filterMap_cons_none (frame?_of_not_logic ignored)]
        exact ih unfinished.2
      · simp [perform_finish, SessionResult.activity?] at unfinished

end Session

/-- Over any history of calls a session is a sequence of encoders that know nothing of each other.
It is active exactly if the last start or finish that succeeded was a start. From a start to the
next finish the texts are those of a fresh encoder that is fed the frames of the logic packets, and
the finish returns its statistics. Other packets change nothing, and neither does a call that
fails, which happens for the reasons of refusal only. -/
theorem Session.spans_are_encoders (before : List SessionCall) :
    let session := (({} : Session).converse before).2
    session.isActive = ((({} : Session).converse before).1.filterMap
      SessionResult.activity?).getLast?.getD false ∧
    (∀ capture options during,
      (session.perform (.start capture options)).1 = .ok .started →
      let opened := (session.perform (.start capture options)).2
      (∀ result ∈ (opened.converse during).1, SessionResult.activity? result ≠ some false) →
      ∃ encoder, (Encoder.create capture options).1 = .ok encoder ∧
        let fed := encoder.feed (during.filterMap SessionCall.frame?)
        (opened.converse during).1.filterMap SessionResult.text? = fed.2 ∧
        (opened.converse during).2.encoder = some fed.1 ∧
        (opened.converse during).2.perform .finish = (.ok (.finished fed.1.statistics), {})) ∧
    (∀ packet, ¬packet.isLogic → session.isActive →
      session.perform (.receive packet) = (.ok (.received none), session)) ∧
    ∀ call error, (session.perform call).1 = .error error ↔
      session.Refuses call error ∧ (session.perform call).2 = session := by
  intro session
  refine ⟨isActive_converse {} before, ?_, ?_, ?_⟩
  · intro capture options during started opened unfinished
    rcases session.call_cases (.start capture options) with ⟨error, refused⟩ |
      ⟨_, _, encoder, isIdle, isStart, accepted⟩ | ⟨_, _, _, _, isStart, _⟩ |
      ⟨_, _, _, isStart, _⟩ | ⟨_, _, isStart⟩
    · simp [refused.perform_eq] at started
    · obtain ⟨rfl, rfl⟩ := SessionCall.start.inj isStart
      have isRunning : opened = running encoder := by
        simp only [opened, isIdle, perform_start_of_ok accepted]
      rw [isRunning] at unfinished ⊢
      rcases converse_running unfinished with ⟨texts, final⟩
      refine ⟨encoder, accepted, texts, ?_, ?_⟩
      · rw [final]
        rfl
      · rw [final]
        rfl
    all_goals simp at isStart
  · intro packet ignored active
    rcases eq_running active with ⟨encoder, isRunning⟩
    rw [isRunning, perform_receive_other ignored]
  · intro call error
    rw [perform_error_iff]
    exact ⟨fun refused => ⟨refused, by rw [refused.perform_eq]⟩, And.left⟩

/-- A span, a capture that cannot be registered, and calls that come at the wrong time. -/
def troubledCalls : List SessionCall :=
  [.finish, .start clockAndBus clockAndBusOptions, .receive (.logic [1, 6] 2), .finish,
    .start { channels := [{ name := "data<65536>" }] } clockAndBusOptions, .receive .trigger]

/-- A span with a second start, another packet and samples of no bytes between its frames. -/
def troubledSpan : List SessionCall :=
  [.receive (.logic [3, 0] 2), .start { channels := [] } clockAndBusOptions, .receive .analog,
    .receive (.logic [1] 0), .receive (.logic [6, 0, 9] 2)]

theorem spans_are_encoders_troubledCalls :
    let session := (({} : Session).converse troubledCalls).2
    let opened := (session.perform (.start clockAndBus clockAndBusOptions)).2
    let fed := clockAndBusEncoder.feed [⟨[3, 0], 2⟩, ⟨[1], 0⟩, ⟨[6, 0, 9], 2⟩]
    session.isActive = false ∧
      (session.perform (.start clockAndBus clockAndBusOptions)).1 = .ok .started ∧
      (opened.converse troubledSpan).1.filterMap SessionResult.text? = fed.2 ∧
      (opened.converse troubledSpan).2.perform .finish =
        (.ok (.finished fed.1.statistics), {}) := by
  have rejected : (Encoder.create { channels := [{ name := "data<65536>" }] }
      clockAndBusOptions).1 = .error (.registry (.bitIndexTooLarge "data" 65536)) := by cbv
  have ended : (({} : Session).converse troubledCalls).2 = .idle := by
    change (Session.idle.converse troubledCalls).2 = .idle
    have finishIdle : Session.idle.perform .finish = (.error .notInitialized, .idle) := rfl
    have receiveIdle : Session.idle.perform (.receive .trigger) =
        (.error .notInitialized, .idle) := rfl
    simp [troubledCalls, Session.converse, finishIdle, receiveIdle, Session.perform_finish,
      Session.perform_start_of_ok clockAndBus_accepted, Session.perform_start_of_error rejected,
      Session.perform_receive_logic]
  intro session opened fed
  have started : session.perform (.start clockAndBus clockAndBusOptions) =
      (.ok .started, Session.running clockAndBusEncoder) := by
    rw [show session = .idle from ended, Session.perform_start_of_ok clockAndBus_accepted]
  have unfinished : ∀ result ∈ (opened.converse troubledSpan).1,
      SessionResult.activity? result ≠ some false := by
    have startRunning : (Session.running (clockAndBusEncoder.afterFrame [3, 0] 2)).perform
        (.start { channels := [] } clockAndBusOptions) =
          (.error .alreadyInitialized, Session.running _) := rfl
    rw [show opened = Session.running clockAndBusEncoder from congrArg Prod.snd started]
    simp [troubledSpan, Session.converse, startRunning, Session.perform_receive_logic,
      Session.perform_receive_zero, Session.perform_receive_other, Packet.isLogic,
      SessionResult.activity?]
  rcases Session.spans_are_encoders troubledCalls with ⟨activity, spans, _, _⟩
  have opens : (session.perform (.start clockAndBus clockAndBusOptions)).1 = .ok .started :=
    congrArg Prod.fst started
  rcases spans clockAndBus clockAndBusOptions troubledSpan opens unfinished with
    ⟨encoder, accepted, texts, _, finished⟩
  obtain rfl := Except.ok.inj (clockAndBus_accepted.symm.trans accepted)
  exact ⟨congrArg Session.isActive ended, opens, texts, finished⟩

end WaveDump
