import RgspCast.Moonshine.ControlMessages
import RgspCast.Moonshine.PacketizerRun

/-!
# The control loop

`run_control_loop` reads one event of the ENet host after the other, acts on the messages of the
client and sends messages of its own, each call of `send_to_peer` with the next sequence number,
whether or not it comes to a datagram. What the loop finds outside (the clock, the keys, the events,
the state of the peer, room in the input queue) is an argument of each turn. The clock counts
without a bound: where `Instant + Duration` would overflow, for a timeout near `i64::MAX` seconds,
the source panics.

`loop_ends` says when the loop goes on, when it stops and when it panics; `client_messages_act` that
it does what the client's messages ask for, in order, up to a message that ends it;
`host_messages_open` that the client can open what is sent; `session_nonces` that the initialisation
vectors are different from each other, from those of the video stream and from those of the client.
-/

namespace RgspCast.ControlStream

open Layout Video

/-! ## The loop -/

/-- What `host.service` returns. -/
inductive Event where
  | nothing
  | connect (peer : ℕ)
  | disconnect (peer : ℕ)
  | receive (packet : Bytes)
  | failure
  deriving DecidableEq, Repr

/-- Where a turn looks at the session keys. -/
inductive KeySite where
  | feedback
  | receive
  | initialHdr
  | hdrUpdate
  deriving DecidableEq, Repr

/-- What `send_to_peer` finds of the peer. -/
inductive PeerAnswer where
  /-- `peer_mut` knows no such peer. -/
  | missing
  | notConnected
  /-- Its `send` returns an error, which is logged. -/
  | failed
  | sent
  deriving DecidableEq, Repr

/-- What a turn of the loop finds. -/
structure Turn where
  /-- `is_shutdown_triggered`. -/
  shutdown : Bool
  now : ℕ
  /-- What `feedback_rx.try_recv` returns. -/
  feedback : Option FeedbackCommand
  event : Event
  /-- The clock where a ping is handled. -/
  pingAt : ℕ
  /-- `remote_input_key`. -/
  keys : KeySite → Bytes
  /-- The peer, where a message is sent under the key of that place. -/
  peer : KeySite → PeerAnswer
  /-- Whether `try_send` finds room in the input queue. -/
  queue : Bool
  /-- The HDR state at the first of the two places that read it. -/
  hdrInitial : HdrModeState
  /-- What `has_changed` returns, an error being `none`. -/
  hdrChanged : Option Bool
  hdrState : HdrModeState

/-- The arguments of `run_control_loop`. -/
structure Context where
  hdr : Bool
  streamTimeout : ℕ
  /-- Whether there is an `InputForwarder`. -/
  input : Bool
  deriving DecidableEq, Repr

/-- What the loop does. -/
inductive Effect where
  /-- A call of `send_to_peer`, with the datagram that the peer takes, if it comes to that. -/
  | send (peer : ℕ) (key : Bytes) (sequenceNumber : UInt32) (payload : Bytes)
      (datagram : Option Bytes)
  | requestIdrFrame
  | invalidateReferenceFrames (first last : UInt32)
  | triggerVideo
  | triggerAudio
  /-- The input queue has taken an event. -/
  | forward (event : Bytes)
  deriving DecidableEq, Repr

/-- The variables of the loop, and what it has done, oldest first. -/
structure Loop where
  stopDeadline : ℕ
  sequenceNumber : UInt32
  sendHdrMode : Bool
  audioTriggered : Bool
  connectedPeer : Option ℕ
  effects : List Effect
  deriving DecidableEq, Repr

/-- How a turn ends. -/
inductive Exit where
  | next
  /-- The loop is left. -/
  | stop
  | panic
  deriving DecidableEq, Repr

def Loop.start (c : Context) (now : ℕ) : Loop where
  stopDeadline := now + c.streamTimeout
  sequenceNumber := 0
  sendHdrMode := false
  audioTriggered := false
  connectedPeer := none
  effects := []

def Loop.emit (s : Loop) (e : Effect) : Loop := { s with effects := s.effects ++ [e] }

section

variable {K : Type} (aead : Aead K)

/-- `send_to_peer`: the datagram, where the encryption and the peer let it get that far. Nothing is
returned, and no failure is seen by the caller. -/
def sendToPeer (key : Bytes) (sequenceNumber : UInt32) (payload : Bytes) :
    PeerAnswer → Option Bytes
  | .sent => encodeControl aead key sequenceNumber payload
  | .missing | .notConnected | .failed => none

/-- `send_to_peer`, and the next sequence number. -/
def Loop.send (s : Loop) (peer : ℕ) (key payload : Bytes) (answer : PeerAnswer) : Loop :=
  { s.emit (.send peer key s.sequenceNumber payload
      (sendToPeer aead key s.sequenceNumber payload answer)) with
    sequenceNumber := s.sequenceNumber + 1 }

/-- A message for the connected peer, if there is one, from a place of the loop. -/
def Loop.sendConnected (s : Loop) (t : Turn) (site : KeySite) (payload : Bytes) : Loop :=
  match s.connectedPeer with
  | some peer => s.send aead peer (t.keys site) payload (t.peer site)
  | none => s

/-- The feedback that is waiting. Without a peer it is taken and dropped. -/
def sendFeedback (t : Turn) (s : Loop) : Loop :=
  match t.feedback with
  | some command => s.sendConnected aead t .feedback command.asPacket
  | none => s

/-- The payload that `send_hdr_state` sends. -/
def hdrPayload (state : HdrModeState) : Bytes :=
  buildHdrModePayload state.enabled
    (if state.enabled then some (state.metadata.getD .fallback) else none)

/-- The first of the two HDR messages. -/
def sendInitialHdr (t : Turn) (s : Loop) : Loop :=
  if s.sendHdrMode then
    { s with sendHdrMode := false }.sendConnected aead t .initialHdr (hdrPayload t.hdrInitial)
  else s

/-- The second. -/
def sendHdrUpdate (c : Context) (t : Turn) (s : Loop) : Loop :=
  if c.hdr ∧ t.hdrChanged.getD false then
    s.sendConnected aead t .hdrUpdate (hdrPayload t.hdrState)
  else s

end

/-- The arm of the message. -/
def handle (c : Context) (t : Turn) (s : Loop) : ControlMessage → Loop
  | .requestIdrFrame => s.emit .requestIdrFrame
  | .invalidateReferenceFrames first last => s.emit (.invalidateReferenceFrames first last)
  | .startB =>
    let s := s.emit .triggerVideo
    let s := if s.audioTriggered then s else { s.emit .triggerAudio with audioTriggered := true }
    { s with sendHdrMode := c.hdr }
  | .ping => { s with stopDeadline := t.pingAt + c.streamTimeout }
  | .inputData event =>
    -- `try_send` drops the event where the queue is full or closed
    if c.input ∧ t.queue then s.emit (.forward event) else s
  | _ => s

section

variable {K : Type} (aead : Aead K) (decrypt : K → Bytes → Bytes → Bytes → Option Bytes)

/-- The message in a packet, decrypted where it is encrypted: what is not well formed ends the loop,
what is encrypted and not well formed is skipped, and a message that is encrypted twice is
`unreachable!`. -/
def openPacket (key packet : Bytes) : Except Exit ControlMessage :=
  match ControlMessage.fromBytes packet with
  | .error .err => .error .stop
  | .error .panic => .error .panic
  | .ok (.encrypted m) =>
    -- the key of another length is no `Key`
    if key.length ≠ 16 then .error .panic
    else
      match decrypt (aead.newKey key) (controlIv m.sequenceNumber clientLetters) m.tag
          m.payload with
      | none => .error .next
      | some plain =>
        match ControlMessage.fromBytes plain with
        | .error .err => .error .next
        | .error .panic => .error .panic
        | .ok (.encrypted _) => .error .panic
        | .ok m => .ok m
  | .ok m => .ok m

/-- The part of a turn behind the `match`. -/
def announce (c : Context) (t : Turn) (s : Loop) : Loop :=
  sendHdrUpdate aead c t (sendInitialHdr aead t s)

/-- A turn of the loop. -/
def turn (c : Context) (t : Turn) (s : Loop) : Exit × Loop :=
  if t.shutdown then (.stop, s)
  else if s.stopDeadline < t.now then (.stop, s)
  else
    let s := sendFeedback aead t s
    match t.event with
    | .nothing => (.next, announce aead c t s)
    | .connect peer => (.next, announce aead c t { s with connectedPeer := some peer })
    | .disconnect peer =>
      (.next, announce aead c t
        (if s.connectedPeer = some peer then { s with connectedPeer := none } else s))
    | .receive packet =>
      match openPacket aead decrypt (t.keys .receive) packet with
      | .ok m => (.next, announce aead c t (handle c t s m))
      -- `continue` goes past the HDR messages
      | .error exit => (exit, s)
    | .failure => (.stop, s)

/-- The loop, as far as it gets with these turns. -/
def controlLoop (c : Context) : List Turn → Loop → Exit × Loop
  | [], s => (.next, s)
  | t :: ts, s =>
    match turn aead decrypt c t s with
    | (.next, s') => controlLoop c ts s'
    | (exit, s') => (exit, s')

/-- What follows the loop: the client is told. -/
def finish (key : Bytes) (answer : PeerAnswer) (s : Loop) : Loop :=
  match s.connectedPeer with
  | some peer =>
    let payload := buildTerminationPayload 0x80030023
    s.emit (.send peer key s.sequenceNumber payload
      (sendToPeer aead key s.sequenceNumber payload answer))
  | none => s

/-- `run_control_loop`: where the loop is left, its end; a panic and a loop that still runs are as
they are. -/
def runControlLoop (c : Context) (now : ℕ) (ts : List Turn) (lastKey : Bytes)
    (lastPeer : PeerAnswer) : Exit × Loop :=
  match controlLoop aead decrypt c ts (.start c now) with
  | (.stop, s) => (.stop, finish aead lastKey lastPeer s)
  | r => r

end

/-! ## Messages of its own -/

/-- What `send_to_peer` is called for. -/
def Effect.IsSend : Effect → Prop
  | .send .. => True
  | _ => False

instance : DecidablePred Effect.IsSend := fun e => by
  cases e <;> unfold Effect.IsSend <;> infer_instance

/-- From one state to the other the loop has sent messages, and that is all that the rest of the
loop can see. -/
structure Said (s s' : Loop) : Prop where
  stopDeadline : s'.stopDeadline = s.stopDeadline
  audioTriggered : s'.audioTriggered = s.audioTriggered
  effects : ∃ sends, s'.effects = s.effects ++ sends ∧ ∀ e ∈ sends, e.IsSend

theorem Said.refl (s : Loop) : Said s s := ⟨rfl, rfl, [], (List.append_nil _).symm, by simp⟩

/-- One message after the other. -/
theorem Said.trans {s s' s'' : Loop} (h : Said s s') (h' : Said s' s'') : Said s s'' := by
  obtain ⟨es, hes, hsend⟩ := h.effects
  obtain ⟨es', hes', hsend'⟩ := h'.effects
  refine ⟨h'.stopDeadline.trans h.stopDeadline, h'.audioTriggered.trans h.audioTriggered,
    es ++ es', ?_, fun e he => ?_⟩
  · rw [hes', hes, List.append_assoc]
  · exact (List.mem_append.mp he).elim (hsend e) (hsend' e)

section

variable {K : Type} (aead : Aead K)

/-- A message to the peer, if there is one. -/
theorem said_sendConnected (s : Loop) (t : Turn) (site : KeySite) (payload : Bytes) :
    Said s (s.sendConnected aead t site payload) := by
  unfold Loop.sendConnected
  cases s.connectedPeer with
  | none => exact .refl s
  | some peer => exact ⟨rfl, rfl, _, rfl, List.forall_mem_singleton.mpr trivial⟩

/-- The feedback is a message at most. -/
theorem said_sendFeedback (t : Turn) (s : Loop) : Said s (sendFeedback aead t s) := by
  unfold sendFeedback
  cases t.feedback with
  | none => exact .refl s
  | some command => exact said_sendConnected aead s _ _ _

/-- The HDR messages are two at most. -/
theorem said_announce (c : Context) (t : Turn) (s : Loop) : Said s (announce aead c t s) := by
  have hinitial : Said s (sendInitialHdr aead t s) := by
    unfold sendInitialHdr
    split_ifs
    · have hreset : Said s { s with sendHdrMode := false } := { Said.refl s with }
      exact hreset.trans (said_sendConnected _ _ _ _ _)
    · exact .refl s
  refine hinitial.trans ?_
  rw [announce, sendHdrUpdate]
  split_ifs
  · exact said_sendConnected _ _ _ _ _
  · exact .refl _

end

/-- What is done that is not a message of its own. -/
def acts (effects : List Effect) : List Effect := effects.filter fun e => ¬ e.IsSend

theorem acts_append (es es' : List Effect) : acts (es ++ es') = acts es ++ acts es' :=
  List.filter_append _ _

/-- Messages of its own are no acts. -/
theorem Said.acts {s s' : Loop} (h : Said s s') : acts s'.effects = acts s.effects := by
  obtain ⟨es, hes, hsend⟩ := h.effects
  have hnil : ControlStream.acts es = [] := List.filter_eq_nil_iff.mpr fun e he => by
    simpa using hsend e he
  rw [hes, acts_append, hnil, List.append_nil]

/-! ## When the loop ends -/

section

variable {K : Type} (aead : Aead K) (decrypt : K → Bytes → Bytes → Bytes → Option Bytes)

/-- The message that a turn handles. -/
def messageOf (t : Turn) : Option ControlMessage :=
  match t.event with
  | .receive packet => (openPacket aead decrypt (t.keys .receive) packet).toOption
  | _ => none

/-- How a turn ends, from the deadline. -/
def verdict (t : Turn) (deadline : ℕ) : Exit :=
  if t.shutdown then .stop
  else if deadline < t.now then .stop
  else
    match t.event with
    | .failure => .stop
    | .receive packet =>
      match openPacket aead decrypt (t.keys .receive) packet with
      | .ok _ => .next
      | .error exit => exit
    | _ => .next

/-- How a turn ends depends on the deadline only. -/
theorem turn_fst (c : Context) (t : Turn) (s : Loop) :
    (turn aead decrypt c t s).1 = verdict aead decrypt t s.stopDeadline := by
  unfold turn verdict
  split_ifs
  · rfl
  · rfl
  · cases t.event with
    | receive packet =>
      simp only
      cases openPacket aead decrypt (t.keys .receive) packet <;> rfl
    | _ => rfl

/-- The deadline behind a turn. -/
def deadlineAfter (c : Context) (t : Turn) (deadline : ℕ) : ℕ :=
  if messageOf aead decrypt t = some .ping then t.pingAt + c.streamTimeout else deadline

/-- What a message asks for, where the input queue has room or not. -/
def requested (c : Context) (audioTriggered queue : Bool) : ControlMessage → List Effect
  | .requestIdrFrame => [.requestIdrFrame]
  | .invalidateReferenceFrames first last => [.invalidateReferenceFrames first last]
  | .startB => .triggerVideo :: if audioTriggered then [] else [.triggerAudio]
  | .inputData event => if c.input ∧ queue then [.forward event] else []
  | _ => []

theorem handle_startB (c : Context) (t : Turn) (s : Loop) :
    handle c t s .startB =
      { (if s.audioTriggered then s.emit .triggerVideo
          else { (s.emit .triggerVideo).emit .triggerAudio with audioTriggered := true }) with
        sendHdrMode := c.hdr } := rfl

theorem handle_inputData (c : Context) (t : Turn) (s : Loop) (event : Bytes) :
    handle c t s (.inputData event) =
      if c.input ∧ t.queue then s.emit (.forward event) else s := rfl

theorem requested_startB (c : Context) (audioTriggered queue : Bool) :
    requested c audioTriggered queue .startB =
      .triggerVideo :: if audioTriggered then [] else [.triggerAudio] := rfl

theorem requested_inputData (c : Context) (audioTriggered queue : Bool) (event : Bytes) :
    requested c audioTriggered queue (.inputData event) =
      if c.input ∧ queue then [.forward event] else [] := rfl

/-- What a message does to the loop, all kinds of messages together. -/
theorem handle_eq (c : Context) (t : Turn) (s : Loop) (m : ControlMessage) :
    (handle c t s m).effects = s.effects ++ requested c s.audioTriggered t.queue m ∧
      (handle c t s m).audioTriggered = (s.audioTriggered || m == .startB) ∧
      (handle c t s m).stopDeadline =
        (if m = .ping then t.pingAt + c.streamTimeout else s.stopDeadline) := by
  cases m with
  | startB =>
    rw [handle_startB, requested_startB]
    cases haudio : s.audioTriggered with
    | true => simp [Loop.emit, haudio]
    | false => simp [Loop.emit]
  | inputData event =>
    rw [handle_inputData, requested_inputData]
    by_cases hqueue : c.input = true ∧ t.queue = true
    · rw [if_pos hqueue, if_pos hqueue]
      simp [Loop.emit]
    · rw [if_neg hqueue, if_neg hqueue]
      simp
  | requestIdrFrame | invalidateReferenceFrames => exact ⟨rfl, (Bool.or_false _).symm, rfl⟩
  | _ => exact ⟨(List.append_nil _).symm, (Bool.or_false _).symm, rfl⟩

/-- What a message asks for is no message of the loop's own. -/
theorem acts_requested (c : Context) (audioTriggered queue : Bool) (m : ControlMessage) :
    acts (requested c audioTriggered queue m) = requested c audioTriggered queue m := by
  apply List.filter_eq_self.mpr
  intro e he
  have hnot : ¬ e.IsSend := by
    cases m with
    | startB =>
      cases audioTriggered with
      | true =>
        obtain rfl := List.mem_singleton.mp he
        exact not_false
      | false =>
        rcases List.mem_pair.mp he with rfl | rfl
        · exact not_false
        · exact not_false
    | inputData event =>
      rw [requested_inputData] at he
      split_ifs at he
      · obtain rfl := List.mem_singleton.mp he
        exact not_false
      · cases he
    | requestIdrFrame | invalidateReferenceFrames =>
      obtain rfl := List.mem_singleton.mp he
      exact not_false
    | _ => cases he
  exact decide_eq_true hnot

/-- What a turn has done by its end. -/
structure Turned (c : Context) (t : Turn) (s s' : Loop) : Prop where
  acts : acts s'.effects =
    acts s.effects ++
      ((messageOf aead decrypt t).map (requested c s.audioTriggered t.queue)).getD []
  audioTriggered : s'.audioTriggered =
    (s.audioTriggered || messageOf aead decrypt t == some .startB)
  stopDeadline : s'.stopDeadline = deadlineAfter aead decrypt c t s.stopDeadline

/-- A turn without a message of the client. -/
theorem Said.turned {c : Context} {t : Turn} {s s' : Loop} (h : Said s s')
    (ht : messageOf aead decrypt t = none) : Turned aead decrypt c t s s' where
  acts := by rw [h.acts, ht, Option.map_none, Option.getD_none, List.append_nil]
  audioTriggered := by
    rw [h.audioTriggered, ht]
    exact (Bool.or_false _).symm
  stopDeadline := by
    rw [h.stopDeadline, deadlineAfter, ht]
    rfl

/-- A turn that ends the loop has sent feedback at most. -/
theorem turn_of_ne_next {c : Context} {t : Turn} {s : Loop}
    (h : (turn aead decrypt c t s).1 ≠ .next) : Said s (turn aead decrypt c t s).2 := by
  unfold turn at h ⊢
  split_ifs at h ⊢
  · exact .refl s
  · exact .refl s
  · cases hevent : t.event with
    | receive packet =>
      rw [hevent] at h
      simp only at h ⊢
      cases hopen : openPacket aead decrypt (t.keys .receive) packet with
      | ok m =>
        rw [hopen] at h
        exact absurd rfl h
      | error exit => exact said_sendFeedback aead t s
    | failure => exact said_sendFeedback aead t s
    | _ =>
      rw [hevent] at h
      exact absurd rfl h

/-- A turn that goes on has done what its message asks for. -/
theorem turn_of_next {c : Context} {t : Turn} {s : Loop}
    (h : (turn aead decrypt c t s).1 = .next) :
    Turned aead decrypt c t s (turn aead decrypt c t s).2 := by
  have hfeedback := said_sendFeedback aead t s
  unfold turn at h ⊢
  split_ifs at h ⊢
  -- feedback is sent before the event is looked at; HDR and termination after it
  cases hevent : t.event with
  | nothing =>
    refine (hfeedback.trans (said_announce aead c t _)).turned aead decrypt ?_
    rw [messageOf, hevent]
  | connect peer =>
    have hconnect : Said s { sendFeedback aead t s with connectedPeer := some peer } :=
      { hfeedback with }
    refine (hconnect.trans (said_announce aead c t _)).turned aead decrypt ?_
    rw [messageOf, hevent]
  | disconnect peer =>
    have hdisconnect : Said s (if (sendFeedback aead t s).connectedPeer = some peer then
        { sendFeedback aead t s with connectedPeer := none } else sendFeedback aead t s) := by
      split_ifs
      · exact { hfeedback with }
      · exact hfeedback
    refine (hdisconnect.trans (said_announce aead c t _)).turned aead decrypt ?_
    rw [messageOf, hevent]
  | receive packet =>
    simp only
    cases hopen : openPacket aead decrypt (t.keys .receive) packet with
    | error exit =>
      -- a datagram that is dropped `continue`s past what the turn would still announce
      refine hfeedback.turned aead decrypt ?_
      rw [messageOf, hevent]
      simp only [hopen]
      rfl
    | ok m =>
      have hmessage : messageOf aead decrypt t = some m := by
        rw [messageOf, hevent]
        simp only [hopen]
        rfl
      have hannounce := said_announce aead c t (handle c t (sendFeedback aead t s) m)
      obtain ⟨heffects, haudio, hdeadline⟩ := handle_eq c t (sendFeedback aead t s) m
      refine ⟨?_, ?_, ?_⟩
      · rw [hannounce.acts, heffects, acts_append, hfeedback.acts, acts_requested,
          hfeedback.audioTriggered, hmessage]
        rfl
      · rw [hannounce.audioTriggered, haudio, hfeedback.audioTriggered, hmessage]
        rfl
      · rw [hannounce.stopDeadline, hdeadline, hfeedback.stopDeadline, deadlineAfter, hmessage]
        simp only [Option.some.injEq]
  | failure =>
    -- a service error ends the loop, so this turn does not go on
    rw [hevent] at h
    cases h

/-- The loop goes on from where a first part of its turns has led. -/
theorem controlLoop_cons_of_next {c : Context} {t : Turn} {s s' : Loop}
    (h : turn aead decrypt c t s = (.next, s')) (ts : List Turn) :
    controlLoop aead decrypt c (t :: ts) s = controlLoop aead decrypt c ts s' := by
  rw [controlLoop, h]

/-- The loop ends with a turn that does not go on. -/
theorem controlLoop_cons_of_ne {c : Context} {t : Turn} {s : Loop}
    (h : (turn aead decrypt c t s).1 ≠ .next) (ts : List Turn) :
    controlLoop aead decrypt c (t :: ts) s = turn aead decrypt c t s := by
  rw [controlLoop]
  rcases hturn : turn aead decrypt c t s with ⟨exit, s'⟩
  rw [hturn] at h
  cases exit with
  | next => exact absurd rfl h
  | stop => rfl
  | panic => rfl

/-- A turn goes on, or it is the last. -/
theorem turn_cases (c : Context) (t : Turn) (s : Loop) :
    (∃ s', turn aead decrypt c t s = (.next, s') ∧ Turned aead decrypt c t s s') ∨
      (turn aead decrypt c t s).1 ≠ .next := by
  by_cases h : (turn aead decrypt c t s).1 = .next
  · exact Or.inl ⟨_, Prod.ext h rfl, turn_of_next aead decrypt h⟩
  · exact Or.inr h

/-- A loop that has ended has done so in a turn that it came to. -/
theorem controlLoop_fst_iff {c : Context} {exit : Exit} (hexit : exit ≠ .next) {ts : List Turn}
    {s : Loop} :
    (controlLoop aead decrypt c ts s).1 = exit ↔
      ∃ before t after s', ts = before ++ t :: after ∧
        controlLoop aead decrypt c before s = (.next, s') ∧
        (turn aead decrypt c t s').1 = exit := by
  induction ts generalizing s with
  | nil =>
    refine iff_of_false hexit.symm ?_
    rintro ⟨before, t, after, s', h, -⟩
    exact List.append_ne_nil_of_right_ne_nil _ (List.cons_ne_nil t after) h.symm
  | cons t ts ih =>
    rcases turn_cases aead decrypt c t s with ⟨s', hnext, -⟩ | hend
    -- the first turn goes on, so the last one is behind it
    · rw [controlLoop_cons_of_next aead decrypt hnext, ih]
      constructor
      · rintro ⟨before, t', after, u, rfl, hbefore, hturn⟩
        exact ⟨t :: before, t', after, u, rfl,
          (controlLoop_cons_of_next aead decrypt hnext before).trans hbefore, hturn⟩
      · rintro ⟨before, t', after, u, heq, hbefore, hturn⟩
        cases before with
        | nil =>
          obtain ⟨rfl, rfl⟩ := List.cons.inj heq
          obtain rfl := (Prod.mk.inj hbefore).2
          rw [hnext] at hturn
          exact absurd hturn.symm hexit
        | cons b before =>
          obtain ⟨rfl, rfl⟩ := List.cons.inj heq
          rw [controlLoop_cons_of_next aead decrypt hnext] at hbefore
          exact ⟨before, t', after, u, rfl, hbefore, hturn⟩
    -- the first turn is the last one
    · rw [controlLoop_cons_of_ne aead decrypt hend]
      constructor
      · exact fun h => ⟨[], t, ts, s, rfl, rfl, h⟩
      · rintro ⟨before, t', after, u, heq, hbefore, hturn⟩
        cases before with
        | nil =>
          obtain ⟨rfl, rfl⟩ := List.cons.inj heq
          obtain rfl := (Prod.mk.inj hbefore).2
          exact hturn
        | cons b before =>
          obtain ⟨rfl, rfl⟩ := List.cons.inj heq
          rw [controlLoop_cons_of_ne aead decrypt hend] at hbefore
          exact absurd (congrArg Prod.fst hbefore) hend

/-- When a turn has handled a ping. -/
def pingOf (t : Turn) : Option ℕ :=
  if messageOf aead decrypt t = some .ping then some t.pingAt else none

/-- The deadline of a loop that was started at `now`: so long after the last ping. -/
def deadline (c : Context) (now : ℕ) (ts : List Turn) : ℕ :=
  ((ts.filterMap (pingOf aead decrypt)).getLast?).getD now + c.streamTimeout

/-- The deadline that a run keeps is that of its pings, by induction over the turns. -/
theorem stopDeadline_of_controlLoop {c : Context} {now : ℕ} {ts : List Turn} {s s' : Loop}
    (hs : s.stopDeadline = now + c.streamTimeout)
    (h : controlLoop aead decrypt c ts s = (.next, s')) :
    s'.stopDeadline = deadline aead decrypt c now ts := by
  induction ts generalizing now s with
  | nil =>
    obtain rfl := (Prod.mk.inj h).2
    exact hs
  | cons t ts ih =>
    rcases turn_cases aead decrypt c t s with ⟨u, hnext, hturned⟩ | hend
    · rw [controlLoop_cons_of_next aead decrypt hnext] at h
      have hdeadline := hturned.stopDeadline
      rw [deadlineAfter] at hdeadline
      rw [deadline, List.filterMap_cons, pingOf]
      split_ifs at hdeadline ⊢ with hping
      · rw [ih hdeadline h, deadline]
        simp only [List.getLast?_cons, Option.getD_some]
      · exact ih (hdeadline.trans hs) h
    · rw [controlLoop_cons_of_ne aead decrypt hend] at h
      exact absurd (congrArg Prod.fst h) hend

/-- A turn that leaves the loop. -/
def Stops (t : Turn) (deadline : ℕ) : Prop :=
  t.shutdown = true ∨ deadline < t.now ∨ t.event = .failure ∨
    ∃ packet, t.event = .receive packet ∧ ControlMessage.fromBytes packet = .error .err

/-- An input message that is too short for its own length. -/
def ShortInput (packet : Bytes) : Prop :=
  ControlMessage.Header .inputData packet ∧ packet.length < 8

/-- A packet that makes the loop panic: an input message that is too short, an encrypted message
where the key is none, or one that holds such an input message or another encrypted message. -/
def Fatal (key packet : Bytes) : Prop :=
  ShortInput packet ∨
    ∃ m, ControlMessage.fromBytes packet = .ok (.encrypted m) ∧
      (key.length ≠ 16 ∨
        ∃ plain, decrypt (aead.newKey key) (controlIv m.sequenceNumber clientLetters) m.tag
            m.payload = some plain ∧
          (ShortInput plain ∨ ∃ m', ControlMessage.fromBytes plain = .ok (.encrypted m')))

/-- Only a packet that is not well formed stops the loop, whatever the key. -/
theorem openPacket_eq_stop_iff (key : Bytes) {packet : Bytes} :
    openPacket aead decrypt key packet = .error .stop ↔
      ControlMessage.fromBytes packet = .error .err := by
  rw [openPacket]
  cases hparse : ControlMessage.fromBytes packet with
  | error fault => cases fault <;> simp
  | ok m =>
    -- once the outer packet parses, every failure inside is a skip or a panic
    refine iff_of_false (fun h => ?_) nofun
    cases m with
    | encrypted m =>
      simp only at h
      split_ifs at h
      · cases h
      · cases hdecrypt : decrypt (aead.newKey key) (controlIv m.sequenceNumber clientLetters) m.tag
            m.payload with
        | none =>
          rw [hdecrypt] at h
          cases h
        | some plain =>
          rw [hdecrypt] at h
          simp only at h
          cases hplain : ControlMessage.fromBytes plain with
          | error fault =>
            rw [hplain] at h
            cases fault <;> cases h
          | ok m' =>
            rw [hplain] at h
            cases m' <;> cases h
    | _ => cases h

/-- Only a fatal packet makes it panic. -/
theorem openPacket_eq_panic_iff (key : Bytes) {packet : Bytes} :
    openPacket aead decrypt key packet = .error .panic ↔ Fatal aead decrypt key packet := by
  rw [Fatal, ShortInput, ← ControlMessage.fromBytes_eq_panic_iff, openPacket]
  cases hparse : ControlMessage.fromBytes packet with
  | error fault => cases fault <;> simp
  | ok m =>
    cases m with
    | encrypted m =>
      simp only [Except.ok.injEq, ControlMessage.encrypted.injEq, reduceCtorEq, false_or,
        exists_eq_left']
      by_cases hkey : key.length ≠ 16
      · exact iff_of_true (if_pos hkey) (Or.inl hkey)
      · rw [if_neg hkey, or_iff_right hkey]
        cases decrypt (aead.newKey key) (controlIv m.sequenceNumber clientLetters) m.tag
            m.payload with
        | none => simp
        | some plain =>
          simp only [Option.some.injEq, exists_eq_left', ShortInput,
            ← ControlMessage.fromBytes_eq_panic_iff]
          cases ControlMessage.fromBytes plain with
          | error fault => cases fault <;> simp
          | ok m' => cases m' <;> simp
    | _ => simp

/-- When a turn leaves the loop. -/
theorem verdict_eq_stop_iff {t : Turn} {deadline : ℕ} :
    verdict aead decrypt t deadline = .stop ↔ Stops t deadline := by
  rw [verdict, Stops]
  by_cases hshutdown : t.shutdown = true
  · simp [hshutdown]
  · by_cases hlate : deadline < t.now
    · simp [hshutdown, hlate]
    · simp only [hshutdown, hlate, if_false, false_or]
      cases t.event with
      | receive packet =>
        simp only [reduceCtorEq, Event.receive.injEq, exists_eq_left', false_or,
          ← openPacket_eq_stop_iff aead decrypt (t.keys .receive)]
        cases openPacket aead decrypt (t.keys .receive) packet <;> simp
      | _ => simp

/-- When it panics. -/
theorem verdict_eq_panic_iff {t : Turn} {deadline : ℕ} :
    verdict aead decrypt t deadline = .panic ↔
      t.shutdown = false ∧ t.now ≤ deadline ∧
        ∃ packet, t.event = .receive packet ∧ Fatal aead decrypt (t.keys .receive) packet := by
  rw [verdict]
  by_cases hshutdown : t.shutdown = true
  · simp [hshutdown]
  · by_cases hlate : deadline < t.now
    · simp [hshutdown, hlate, Nat.not_le.mpr hlate]
    · simp only [hshutdown, hlate, if_false, Nat.not_lt.mp hlate, true_and]
      cases t.event with
      | receive packet =>
        simp only [Event.receive.injEq, exists_eq_left',
          ← openPacket_eq_panic_iff aead decrypt (t.keys .receive)]
        cases openPacket aead decrypt (t.keys .receive) packet <;> simp
      | _ => simp

/-- The loop ends as its last turn does, with the deadline that the pings before it have left. -/
theorem controlLoop_start_iff {c : Context} {now : ℕ} {ts : List Turn} {exit : Exit}
    (hexit : exit ≠ .next) :
    (controlLoop aead decrypt c ts (.start c now)).1 = exit ↔
      ∃ before t after, ts = before ++ t :: after ∧
        (controlLoop aead decrypt c before (.start c now)).1 = .next ∧
        verdict aead decrypt t (deadline aead decrypt c now before) = exit := by
  have hstart : ∀ before : List Turn, ∀ s' : Loop,
      controlLoop aead decrypt c before (.start c now) = (.next, s') →
      s'.stopDeadline = deadline aead decrypt c now before :=
    fun before s' h => stopDeadline_of_controlLoop aead decrypt rfl h
  rw [controlLoop_fst_iff aead decrypt hexit]
  constructor
  · rintro ⟨before, t, after, s', rfl, hbefore, hturn⟩
    rw [turn_fst, hstart before s' hbefore] at hturn
    exact ⟨before, t, after, rfl, by rw [hbefore], hturn⟩
  · rintro ⟨before, t, after, rfl, hbefore, hverdict⟩
    refine ⟨before, t, after, _, rfl, Prod.ext hbefore rfl, ?_⟩
    rw [turn_fst, hstart before _ (Prod.ext hbefore rfl)]
    exact hverdict

/-- **How the loop ends.** It panics in the first turn that comes in time and brings a fatal packet;
it is left in the first turn after the shutdown, after the deadline, with an error of the host or
with a packet that is not well formed. Until then every turn goes on, and the deadline is so long
after the last ping, on a clock that does not overflow. -/
theorem loop_ends (c : Context) (now : ℕ) (ts : List Turn) :
    ((controlLoop aead decrypt c ts (.start c now)).1 = .panic ↔
      ∃ before t after packet, ts = before ++ t :: after ∧
        (controlLoop aead decrypt c before (.start c now)).1 = .next ∧ t.shutdown = false ∧
        t.now ≤ deadline aead decrypt c now before ∧ t.event = .receive packet ∧
        Fatal aead decrypt (t.keys .receive) packet) ∧
    ((controlLoop aead decrypt c ts (.start c now)).1 = .stop ↔
      ∃ before t after, ts = before ++ t :: after ∧
        (controlLoop aead decrypt c before (.start c now)).1 = .next ∧
        Stops t (deadline aead decrypt c now before)) := by
  constructor
  · rw [controlLoop_start_iff aead decrypt (by decide)]
    simp only [verdict_eq_panic_iff, exists_and_left]
  · rw [controlLoop_start_iff aead decrypt (by decide)]
    simp only [verdict_eq_stop_iff]

/-- Four bytes that are not encrypted are fatal. -/
example : ShortInput [0x06, 0x02, 0, 0] := ⟨⟨by decide, by decide, by decide⟩, by decide⟩

/-! ## The messages of the client -/

/-- The turn brings a packet. -/
def Turn.receives (t : Turn) : Bool :=
  match t.event with
  | .receive _ => true
  | _ => false

/-- A message of the client as it arrives: its sequence number, its bytes, and whether there is room
in the input queue. -/
structure Arrival where
  sequenceNumber : UInt32
  plain : Bytes
  queue : Bool

/-- The length of the message fits its datagram. -/
def Arrival.Fits (a : Arrival) : Prop := 4 ≤ a.plain.length ∧ a.plain.length + 20 < 2 ^ 16

instance (a : Arrival) : Decidable a.Fits := inferInstanceAs (Decidable (_ ∧ _))

/-- An input message that is too short, or one that is encrypted once more. -/
def Arrival.Fatal (a : Arrival) : Prop :=
  ShortInput a.plain ∨ ∃ m, ControlMessage.fromBytes a.plain = .ok (.encrypted m)

/-- What the loop makes of the message. -/
def Arrival.opened (a : Arrival) : Except Exit ControlMessage :=
  if a.Fits then
    match ControlMessage.fromBytes a.plain with
    | .error .err => .error .next
    | .error .panic => .error .panic
    | .ok (.encrypted _) => .error .panic
    | .ok m => .ok m
  else .error .stop

/-- The message that is handled, and whether there is room for what it may forward. -/
def Arrival.work (a : Arrival) : Option (ControlMessage × Bool) :=
  a.opened.toOption.map (·, a.queue)

/-- The turn brings the message, which the client has sealed with the session key. -/
def Brings (t : Turn) (a : Arrival) : Prop :=
  ∃ packet, t.event = .receive packet ∧ (t.keys .receive).length = 16 ∧
    Sealed aead clientLetters (t.keys .receive) a.sequenceNumber a.plain packet ∧
    t.queue = a.queue

/-- What messages ask for, one after the other: the audio is triggered by the first `StartB`. -/
def requestedAll (c : Context) : Bool → List (ControlMessage × Bool) → List Effect
  | _, [] => []
  | audioTriggered, (m, queue) :: ms =>
    requested c audioTriggered queue m ++ requestedAll c (audioTriggered || m == .startB) ms

/-- A message that fits its datagram does not stop the loop. -/
theorem Arrival.opened_ne_stop_iff {a : Arrival} : a.opened ≠ .error .stop ↔ a.Fits := by
  unfold opened
  split_ifs with hfits
  · refine iff_of_true ?_ hfits
    split <;> nofun
  · exact iff_of_false (not_not.mpr rfl) hfits

/-- One that fits makes it panic if it is fatal. -/
theorem Arrival.opened_eq_panic_iff {a : Arrival} :
    a.opened = .error .panic ↔ a.Fits ∧ a.Fatal := by
  unfold opened Fatal ShortInput
  rw [← ControlMessage.fromBytes_eq_panic_iff]
  split_ifs with hfits
  · rw [and_iff_right hfits]
    cases ControlMessage.fromBytes a.plain with
    | error fault => cases fault <;> simp
    | ok m => cases m <;> simp
  · exact iff_of_false nofun fun h => hfits h.1

/-- A sealed message is opened to what it says. -/
theorem openPacket_sealed (haead : AeadLaw aead decrypt) {key packet : Bytes}
    (hkey : key.length = 16) {a : Arrival}
    (h : Sealed aead clientLetters key a.sequenceNumber a.plain packet) :
    openPacket aead decrypt key packet = a.opened := by
  obtain ⟨hbad, hgood⟩ := h.fromBytes haead
  unfold Arrival.opened
  split_ifs with hfits
  · obtain ⟨m, hparse, -, hdecrypt⟩ := hgood hfits
    simp only [openPacket, hparse, hkey, ne_eq, not_true_eq_false, if_false, hdecrypt]
  · rw [openPacket, hbad hfits]

/-- A turn that brings a message handles what it says. -/
theorem messageOf_of_brings (haead : AeadLaw aead decrypt) {t : Turn} {a : Arrival}
    (h : Brings aead t a) : messageOf aead decrypt t = a.opened.toOption := by
  obtain ⟨packet, hevent, hkey, hsealed, -⟩ := h
  rw [messageOf, hevent]
  simp only [openPacket_sealed aead decrypt haead hkey hsealed]

/-- It ends as the message does, unless it comes too late. -/
theorem verdict_of_brings (haead : AeadLaw aead decrypt) {t : Turn} {a : Arrival}
    (h : Brings aead t a) (deadline : ℕ) :
    verdict aead decrypt t deadline = .stop ∨
      verdict aead decrypt t deadline =
        match a.opened with
        | .ok _ => .next
        | .error exit => exit := by
  obtain ⟨packet, hevent, hkey, hsealed, -⟩ := h
  rw [verdict, hevent]
  simp only [openPacket_sealed aead decrypt haead hkey hsealed]
  split_ifs
  · exact Or.inl rfl
  · exact Or.inl rfl
  · exact Or.inr rfl

/-- What is asked for by a message, and by those behind it. -/
theorem requestedAll_cons (c : Context) (audioTriggered : Bool) (a : Arrival) (as : List Arrival) :
    requestedAll c audioTriggered ((a :: as).filterMap Arrival.work) =
      ((a.opened.toOption.map (requested c audioTriggered a.queue)).getD []) ++
        requestedAll c (audioTriggered || a.opened.toOption == some .startB)
          (as.filterMap Arrival.work) := by
  rw [List.filterMap_cons, Arrival.work]
  cases a.opened.toOption with
  | none =>
    rw [Option.none_beq_some, Bool.or_false]
    rfl
  | some m => rfl

/-- What a run does, from any state. -/
theorem acts_of_controlLoop (haead : AeadLaw aead decrypt) {c : Context} {ts : List Turn} {s : Loop}
    {as : List Arrival} (has : List.Forall₂ (Brings aead) (ts.filter Turn.receives) as) :
    ∃ k ≤ as.length, (∀ a ∈ as.take k, a.Fits ∧ ¬ a.Fatal) ∧
      acts (controlLoop aead decrypt c ts s).2.effects = acts s.effects ++
        requestedAll c s.audioTriggered ((as.take k).filterMap Arrival.work) ∧
      ((controlLoop aead decrypt c ts s).1 = .next → k = as.length) ∧
      ((controlLoop aead decrypt c ts s).1 = .panic →
        ∃ a, as[k]? = some a ∧ a.Fits ∧ a.Fatal) := by
  induction ts generalizing s as with
  | nil =>
    cases has
    exact ⟨0, Nat.le_refl 0, List.forall_mem_nil _, (List.append_nil _).symm, fun _ => rfl, nofun⟩
  | cons t ts ih =>
    have hverdict := turn_fst aead decrypt c t s
    rcases turn_cases aead decrypt c t s with ⟨u, hnext, hturned⟩ | hend
    · rw [controlLoop_cons_of_next aead decrypt hnext]
      have haudio := hturned.audioTriggered
      have hacts := hturned.acts
      cases hreceives : t.receives with
      | false =>
        -- nothing arrives, and nothing is done
        have hmessage : messageOf aead decrypt t = none := by
          unfold messageOf
          unfold Turn.receives at hreceives
          cases hevent : t.event with
          | receive packet =>
            rw [hevent] at hreceives
            cases hreceives
          | _ => rfl
        rw [List.filter_cons_of_neg (by simp [hreceives])] at has
        rw [hmessage, Option.none_beq_some, Bool.or_false] at haudio
        rw [hmessage, Option.map_none, Option.getD_none, List.append_nil] at hacts
        rw [← hacts, ← haudio]
        exact ih has
      | true =>
        rw [List.filter_cons_of_pos hreceives] at has
        cases has with
        | @cons _ a _ as hbrings has =>
          obtain ⟨k, hk, hpass, hall, hgoesOn, hpanic⟩ := @ih u as has
          have hmessage := messageOf_of_brings aead decrypt haead hbrings
          have hqueue : t.queue = a.queue := by
            obtain ⟨packet, -, -, -, hqueue⟩ := hbrings
            exact hqueue
          have hpassed : a.Fits ∧ ¬ a.Fatal := by
            rw [hnext] at hverdict
            rcases verdict_of_brings aead decrypt haead hbrings s.stopDeadline with hstop | hopened
            · cases hverdict.trans hstop
            · have hexit := hverdict.trans hopened
              have hfits : a.Fits := Arrival.opened_ne_stop_iff.mp fun hstop => by
                rw [hstop] at hexit
                cases hexit
              refine ⟨hfits, fun hfatal => ?_⟩
              rw [Arrival.opened_eq_panic_iff.mpr ⟨hfits, hfatal⟩] at hexit
              cases hexit
          refine ⟨k + 1, Nat.succ_le_succ hk, List.forall_mem_cons.mpr ⟨hpassed, hpass⟩, ?_,
            fun h => congrArg Nat.succ (hgoesOn h), hpanic⟩
          rw [hall, hacts, List.append_assoc, List.take_succ_cons, requestedAll_cons, haudio,
            hmessage, hqueue]
    · rw [controlLoop_cons_of_ne aead decrypt hend]
      refine ⟨0, Nat.zero_le _, List.forall_mem_nil _, ?_, fun h => absurd h hend, fun h => ?_⟩
      · rw [(turn_of_ne_next aead decrypt hend).acts]
        exact (List.append_nil _).symm
      · rw [hverdict, verdict_eq_panic_iff] at h
        obtain ⟨-, -, packet, hevent, hfatal⟩ := h
        have hreceives : t.receives = true := by rw [Turn.receives, hevent]
        rw [List.filter_cons_of_pos hreceives] at has
        cases has with
        | @cons _ a _ as hbrings has =>
          obtain ⟨packet', hevent', hkey, hsealed, -⟩ := hbrings
          obtain rfl := Event.receive.inj (hevent.symm.trans hevent')
          rw [← openPacket_eq_panic_iff,
            openPacket_sealed aead decrypt haead hkey hsealed] at hfatal
          exact ⟨a, rfl, Arrival.opened_eq_panic_iff.mp hfatal⟩

/-- **The messages of the client act.** A client seals its messages with the session key, whatever
they are and whatever sequence numbers it gives them. The loop comes through some first ones of
them, and does what the well-formed ones among these ask for, in order and each once, an input event
only where the queue has room; it comes through all of them if it still runs; and where it panics
the next message is a fatal one. -/
theorem client_messages_act (haead : AeadLaw aead decrypt) (c : Context) (now : ℕ) {ts : List Turn}
    {as : List Arrival} (has : List.Forall₂ (Brings aead) (ts.filter Turn.receives) as) :
    ∃ k ≤ as.length, (∀ a ∈ as.take k, a.Fits ∧ ¬ a.Fatal) ∧
      acts (controlLoop aead decrypt c ts (.start c now)).2.effects =
        requestedAll c false ((as.take k).filterMap Arrival.work) ∧
      ((controlLoop aead decrypt c ts (.start c now)).1 = .next → k = as.length) ∧
      ((controlLoop aead decrypt c ts (.start c now)).1 = .panic →
        ∃ a, as[k]? = some a ∧ a.Fits ∧ a.Fatal) :=
  acts_of_controlLoop aead decrypt haead has

end

/-! ## The messages of the host -/

/-- The number of a call of `send_to_peer`. -/
def Effect.number? : Effect → Option UInt32
  | .send _ _ n _ _ => some n
  | _ => none

/-- The number of a call that has come to a datagram. -/
def Effect.sentNumber? : Effect → Option UInt32
  | .send _ _ n _ (some _) => some n
  | _ => none

/-- The types of the messages that the host sends. -/
def hostTypes : List ControlMessageType :=
  [.rumbleData, .setRgbLed, .setMotionEvent, .setTriggerEffect, .hdrMode, .terminationExtended]

section

variable {K : Type} (aead : Aead K)

/-- The message of a call is well formed, and the datagram, if there is one, holds it. -/
def Effect.Ok : Effect → Prop
  | .send _ key n payload datagram =>
    (∃ t ∈ hostTypes, WellFormed payload t) ∧
      ∀ d, datagram = some d → encodeControl aead key n payload = some d
  | _ => True

/-- What is done includes calls with the numbers below `n`, each of a well-formed message. -/
structure Own (n : ℕ) (effects : List Effect) : Prop where
  numbers : effects.filterMap Effect.number? = (List.range n).map UInt32.ofNat
  ok : ∀ e ∈ effects, e.Ok aead

/-- The peer takes the datagram of the message, or none. -/
theorem encodeControl_of_sendToPeer {key payload d : Bytes} {n : UInt32} {answer : PeerAnswer}
    (h : sendToPeer aead key n payload answer = some d) :
    encodeControl aead key n payload = some d := by
  cases answer with
  | sent => exact h
  | _ => cases h

variable {aead}

/-- One call more, with the next number. -/
theorem Own.send {n : ℕ} {es : List Effect} (h : Own aead n es) (peer : ℕ) (key : Bytes)
    {payload : Bytes} {t : ControlMessageType} (ht : t ∈ hostTypes)
    (hpayload : WellFormed payload t) (answer : PeerAnswer) :
    Own aead (n + 1) (es ++ [.send peer key (UInt32.ofNat n) payload
      (sendToPeer aead key (UInt32.ofNat n) payload answer)]) where
  numbers := by
    rw [List.filterMap_append, h.numbers, List.range_succ, List.map_append]
    rfl
  ok e he := by
    rcases List.mem_append.mp he with he | he
    · exact h.ok e he
    · obtain rfl := List.mem_singleton.mp he
      exact ⟨⟨t, ht, hpayload⟩, fun d hd => encodeControl_of_sendToPeer aead hd⟩

/-- What is no message changes nothing. -/
theorem Own.append {n : ℕ} {es : List Effect} (h : Own aead n es) {new : List Effect}
    (hnew : ∀ e ∈ new, ¬ e.IsSend) : Own aead n (es ++ new) where
  numbers := by
    have hnone : new.filterMap Effect.number? = [] := List.filterMap_eq_nil_iff.mpr fun e he => by
      cases e with
      | send => exact absurd trivial (hnew _ he)
      | _ => rfl
    rw [List.filterMap_append, hnone, List.append_nil, h.numbers]
  ok e he := by
    rcases List.mem_append.mp he with he | he
    · exact h.ok e he
    · cases e with
      | send => exact absurd trivial (hnew _ he)
      | _ => trivial

/-- The numbers that have come to a datagram are some of those of the calls, in their order. -/
theorem sentNumbers_sublist (es : List Effect) :
    (es.filterMap Effect.sentNumber?).Sublist (es.filterMap Effect.number?) := by
  induction es with
  | nil => exact .slnil
  | cons e es ih =>
    cases e with
    | send peer key n payload datagram =>
      cases datagram with
      | none => exact ih.cons n
      | some d => exact ih.cons_cons n
    | _ => exact ih

/-- Below `2 ^ 32` the numbers of the calls go up. -/
theorem pairwise_numbers {n : ℕ} (hn : n ≤ 2 ^ 32) :
    ((List.range n).map UInt32.ofNat).Pairwise (· < ·) := by
  refine List.pairwise_map.mpr (List.pairwise_lt_range.imp_of_mem fun {i j} hi hj hij => ?_)
  have hi := List.mem_range.mp hi
  have hj := List.mem_range.mp hj
  rw [UInt32.lt_iff_toNat_lt, UInt32.toNat_ofNat', UInt32.toNat_ofNat']
  omega

variable (aead)

/-- The next number is that of the next call. -/
def Loop.Own (s : Loop) : Prop :=
  ∃ n, ControlStream.Own aead n s.effects ∧ s.sequenceNumber = UInt32.ofNat n

variable {aead}

/-- A message to the peer, if there is one, takes the next number. -/
theorem Loop.Own.sendConnected {s : Loop} (h : s.Own aead) (turn : Turn) (site : KeySite)
    {payload : Bytes} {t : ControlMessageType} (ht : t ∈ hostTypes)
    (hpayload : WellFormed payload t) : (s.sendConnected aead turn site payload).Own aead := by
  obtain ⟨n, hown, hnumber⟩ := h
  unfold Loop.sendConnected
  cases s.connectedPeer with
  | none => exact ⟨n, hown, hnumber⟩
  | some peer =>
    refine ⟨n + 1, ?_, ?_⟩
    · have hsend := hown.send peer (turn.keys site) ht hpayload (turn.peer site)
      rw [← hnumber] at hsend
      exact hsend
    · change s.sequenceNumber + 1 = _
      rw [hnumber, UInt32.ofNat_add]
      rfl

/-- Every command is one of the types. -/
theorem FeedbackCommand.type_mem (command : FeedbackCommand) : command.type ∈ hostTypes := by
  cases command <;> simp [FeedbackCommand.type, hostTypes]

/-- So does the feedback. -/
theorem Loop.Own.sendFeedback {s : Loop} (h : s.Own aead) (t : Turn) :
    (sendFeedback aead t s).Own aead := by
  unfold ControlStream.sendFeedback
  cases t.feedback with
  | none => exact h
  | some command => exact h.sendConnected t _ command.type_mem (wellFormed_asPacket command)

/-- So do the HDR messages. -/
theorem Loop.Own.announce {s : Loop} (h : s.Own aead) (c : Context) (t : Turn) :
    (announce aead c t s).Own aead := by
  have hhdr : ∀ (s : Loop) (site : KeySite) (state : HdrModeState), s.Own aead →
      (s.sendConnected aead t site (hdrPayload state)).Own aead := fun s site state hs =>
    hs.sendConnected t site (by decide) (wellFormed_hdrMode state.enabled _)
  have hinitial : (sendInitialHdr aead t s).Own aead := by
    unfold sendInitialHdr
    split_ifs
    · exact hhdr _ _ _ h
    · exact h
  rw [ControlStream.announce, sendHdrUpdate]
  split_ifs
  · exact hhdr _ _ _ hinitial
  · exact hinitial

theorem not_isSend_of_requested {c : Context} {audioTriggered queue : Bool} {m : ControlMessage}
    {e : Effect} (h : e ∈ requested c audioTriggered queue m) : ¬ e.IsSend := by
  rw [← acts_requested, acts, List.mem_filter, decide_eq_true_eq] at h
  exact h.2

/-- What a message of the client asks for takes no number. -/
theorem Loop.Own.handle {s : Loop} (h : s.Own aead) (c : Context) (t : Turn) (m : ControlMessage) :
    (handle c t s m).Own aead := by
  obtain ⟨n, hown, hnumber⟩ := h
  refine ⟨n, ?_, ?_⟩
  · rw [(handle_eq c t s m).1]
    exact hown.append fun e he => not_isSend_of_requested he
  · rw [← hnumber]
    cases m with
    | startB =>
      rw [handle_startB]
      split_ifs <;> rfl
    | inputData event =>
      rw [handle_inputData]
      split_ifs <;> rfl
    | _ => rfl

variable (decrypt : K → Bytes → Bytes → Bytes → Option Bytes)

/-- A turn keeps the numbers in order, however it ends. -/
theorem Loop.Own.turn {s : Loop} (h : s.Own aead) (c : Context) (t : Turn) :
    (turn aead decrypt c t s).2.Own aead := by
  have hfeedback := h.sendFeedback t
  unfold ControlStream.turn
  split_ifs
  · exact h
  · exact h
  -- every branch sends through `sendToPeer`, and a numbering stays one under each send
  · cases t.event with
    | nothing => exact hfeedback.announce c t
    | connect peer =>
      have hconnect : Loop.Own aead
          { ControlStream.sendFeedback aead t s with connectedPeer := some peer } := hfeedback
      exact hconnect.announce c t
    | disconnect peer =>
      simp only
      split_ifs
      · have hdisconnect : Loop.Own aead
            { ControlStream.sendFeedback aead t s with connectedPeer := none } := hfeedback
        exact hdisconnect.announce c t
      · exact hfeedback.announce c t
    | receive packet =>
      simp only
      cases openPacket aead decrypt (t.keys .receive) packet with
      | ok m => exact (hfeedback.handle c t m).announce c t
      | error exit => exact hfeedback
    | failure => exact hfeedback

/-- So does a run, by induction over the turns. -/
theorem Loop.Own.controlLoop {s : Loop} (h : s.Own aead) (c : Context) (ts : List Turn) :
    (controlLoop aead decrypt c ts s).2.Own aead := by
  induction ts generalizing s with
  | nil => exact h
  | cons t ts ih =>
    have hturn := h.turn decrypt c t
    rcases turn_cases aead decrypt c t s with ⟨u, hnext, -⟩ | hend
    · rw [controlLoop_cons_of_next aead decrypt hnext]
      rw [hnext] at hturn
      exact ih hturn
    · rw [controlLoop_cons_of_ne aead decrypt hend]
      exact hturn

/-- The calls of a whole run, the last included. -/
theorem own_of_run (c : Context) (now : ℕ) (ts : List Turn) (lastKey : Bytes)
    (lastPeer : PeerAnswer) :
    ∃ n, Own aead n (runControlLoop aead decrypt c now ts lastKey lastPeer).2.effects := by
  have hstart : (Loop.start c now).Own aead := ⟨0, ⟨rfl, List.forall_mem_nil _⟩, rfl⟩
  obtain ⟨n, hown, hnumber⟩ := hstart.controlLoop decrypt c ts
  rw [runControlLoop]
  rcases hrun : controlLoop aead decrypt c ts (.start c now) with ⟨exit, s⟩
  rw [hrun] at hown hnumber
  cases exit with
  | stop =>
    -- only after `stop` does a termination message follow, with the next number
    simp only [finish]
    cases s.connectedPeer with
    | none => exact ⟨n, hown⟩
    | some peer =>
      refine ⟨n + 1, ?_⟩
      have hsend := hown.send peer lastKey (by decide) (wellFormed_termination 0x80030023) lastPeer
      rw [← hnumber] at hsend
      exact hsend
  | _ => exact ⟨n, hown⟩

variable {decrypt}

/-- **The client opens what the host sends.** In any run the calls of `send_to_peer` are numbered
from zero on, and the messages that get to the peer have some of these numbers, in their order, so
that they go up until the number wraps. The datagram of each, the farewell included, is parsed and
decrypted to the message under its number; and the message is one of the types that the host sends,
with the length of its body. -/
theorem host_messages_open (haead : AeadLaw aead decrypt) (c : Context) (now : ℕ) (ts : List Turn)
    (lastKey : Bytes) (lastPeer : PeerAnswer) :
    let effects := (runControlLoop aead decrypt c now ts lastKey lastPeer).2.effects
    (∃ n, effects.filterMap Effect.number? = (List.range n).map UInt32.ofNat ∧
      (effects.filterMap Effect.sentNumber?).Sublist ((List.range n).map UInt32.ofNat) ∧
      (n ≤ 2 ^ 32 → (effects.filterMap Effect.sentNumber?).Pairwise (· < ·))) ∧
    ∀ peer key n payload datagram, .send peer key n payload (some datagram) ∈ effects →
      (∃ m, ControlMessage.fromBytes datagram = .ok (.encrypted m) ∧ m.sequenceNumber = n ∧
        decrypt (aead.newKey key) (controlIv m.sequenceNumber hostLetters) m.tag m.payload =
          some payload) ∧
      ∃ t ∈ hostTypes, ControlMessage.Header t payload := by
  intro effects
  -- all calls are numbered in a row; those that reached a peer are some of them
  obtain ⟨n, hown⟩ := @own_of_run _ aead decrypt c now ts lastKey lastPeer
  have hsub : (effects.filterMap Effect.sentNumber?).Sublist ((List.range n).map UInt32.ofNat) := by
    rw [← hown.numbers]
    exact sentNumbers_sublist effects
  refine ⟨⟨n, hown.numbers, hsub, fun hn => (pairwise_numbers hn).sublist hsub⟩,
    fun peer key n payload datagram hsend => ?_⟩
  obtain ⟨⟨t, ht, hpayload⟩, hencode⟩ := hown.ok _ hsend
  have hsealed := sealed_of_encodeControl haead (hencode datagram rfl)
  exact ⟨(hsealed.fromBytes haead).2 ⟨hpayload.header.length, hpayload.short⟩, t, ht,
    hpayload.header⟩

end

/-! A session of one peer, with AES. -/

/-- A turn in time, with a waiting command. -/
def turnWith (event : Event) (feedback : Option FeedbackCommand) (answer : PeerAnswer)
    (queue : Bool) : Turn where
  shutdown := false
  now := 1
  feedback := feedback
  event := event
  pingAt := 1
  keys _ := List.replicate 16 7
  peer _ := answer
  queue := queue
  hdrInitial := ⟨false, none⟩
  hdrChanged := none
  hdrState := ⟨false, none⟩

/-- `StartB`, an input event for which there is no room, and an input message that is too short. -/
def arrivals : List Arrival :=
  [⟨5, [0x07, 0x03, 0, 0], true⟩, ⟨6, [0x06, 0x02, 5, 0, 0, 0, 0, 1, 0x2a], false⟩,
    ⟨7, [0x06, 0x02, 0, 0], true⟩]

theorem client_messages_act_startB : ∃ ts : List Turn,
    List.Forall₂ (Brings aes128Gcm) (ts.filter Turn.receives) arrivals ∧
    ∃ k ≤ 3, (∀ a ∈ arrivals.take k, a.Fits ∧ ¬ a.Fatal) ∧
      acts (controlLoop aes128Gcm Aes128Gcm.decrypt ⟨false, 10, true⟩ ts
        (.start ⟨false, 10, true⟩ 0)).2.effects =
        requestedAll ⟨false, 10, true⟩ false ((arrivals.take k).filterMap Arrival.work) ∧
      ((controlLoop aes128Gcm Aes128Gcm.decrypt ⟨false, 10, true⟩ ts
        (.start ⟨false, 10, true⟩ 0)).1 = .next → k = 3) ∧
      ((controlLoop aes128Gcm Aes128Gcm.decrypt ⟨false, 10, true⟩ ts
        (.start ⟨false, 10, true⟩ 0)).1 = .panic →
          ∃ a, arrivals[k]? = some a ∧ a.Fits ∧ a.Fatal) := by
  have hsealed : (∃ packet, Sealed aes128Gcm clientLetters (List.replicate 16 7) 5
        [0x07, 0x03, 0, 0] packet) ∧
      (∃ packet, Sealed aes128Gcm clientLetters (List.replicate 16 7) 6
        [0x06, 0x02, 5, 0, 0, 0, 0, 1, 0x2a] packet) ∧
      ∃ packet, Sealed aes128Gcm clientLetters (List.replicate 16 7) 7
        [0x06, 0x02, 0, 0] packet :=
    ⟨⟨_, _, _, rfl, rfl⟩, ⟨_, _, _, rfl, rfl⟩, _, _, _, rfl, rfl⟩
  obtain ⟨⟨first, hfirst⟩, ⟨second, hsecond⟩, third, hthird⟩ := hsealed
  have harrive : List.Forall₂ (Brings aes128Gcm)
      (([turnWith (.connect 3) none .sent true, turnWith (.receive first) none .sent true,
        turnWith (.receive second) none .sent false,
        turnWith (.receive third) none .sent true] : List Turn).filter Turn.receives) arrivals :=
    .cons ⟨first, rfl, rfl, hfirst, rfl⟩ (.cons ⟨second, rfl, rfl, hsecond, rfl⟩
      (.cons ⟨third, rfl, rfl, hthird, rfl⟩ .nil))
  exact ⟨_, harrive, client_messages_act aes128Gcm Aes128Gcm.decrypt aeadLaw_aes128Gcm
    ⟨false, 10, true⟩ 0 harrive⟩

/-- The peer is not connected yet at the first of two commands, so that the second is the first to
get there, under the number 1. -/
theorem host_messages_open_rumble : ∃ datagram,
    encodeControl aes128Gcm (List.replicate 16 7) 1 (FeedbackCommand.rumble 0 1 2).asPacket =
      some datagram ∧
    (∃ m, ControlMessage.fromBytes datagram = .ok (.encrypted m) ∧ m.sequenceNumber = 1 ∧
      Aes128Gcm.decrypt (List.replicate 16 7) (controlIv m.sequenceNumber hostLetters) m.tag
        m.payload = some (FeedbackCommand.rumble 0 1 2).asPacket) ∧
    ∃ t ∈ hostTypes, ControlMessage.Header t (FeedbackCommand.rumble 0 1 2).asPacket := by
  have hencode : ∃ datagram, encodeControl aes128Gcm (List.replicate 16 7) 1
      (FeedbackCommand.rumble 0 1 2).asPacket = some datagram := ⟨_, rfl⟩
  obtain ⟨datagram, hencode⟩ := hencode
  have heffects : (runControlLoop aes128Gcm Aes128Gcm.decrypt ⟨false, 10, true⟩ 0
      [turnWith (.connect 3) none .sent true,
        turnWith .nothing (some (.rumble 0 0 0)) .notConnected true,
        turnWith .nothing (some (.rumble 0 1 2)) .sent true] (List.replicate 16 7)
      .missing).2.effects =
        [.send 3 (List.replicate 16 7) 0 (FeedbackCommand.rumble 0 0 0).asPacket none,
          .send 3 (List.replicate 16 7) 1 (FeedbackCommand.rumble 0 1 2).asPacket
            (encodeControl aes128Gcm (List.replicate 16 7) 1
              (FeedbackCommand.rumble 0 1 2).asPacket)] := rfl
  refine ⟨datagram, hencode, (host_messages_open aeadLaw_aes128Gcm ⟨false, 10, true⟩ 0
    [turnWith (.connect 3) none .sent true,
      turnWith .nothing (some (.rumble 0 0 0)) .notConnected true,
      turnWith .nothing (some (.rumble 0 1 2)) .sent true]
    (List.replicate 16 7) .missing).2 3 (List.replicate 16 7) 1 _ datagram ?_⟩
  rw [heffects, hencode]
  exact List.mem_cons_of_mem _ List.mem_cons_self

end RgspCast.ControlStream
