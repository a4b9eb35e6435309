import RgspCast.Cedar.Session
import RgspCast.Lib.Bracket

/-!
# The lifecycle of the vendor's resources

A process opens captures one after the other: `CAPTURE_OPEN` is claimed before anything else and
released at the end of `Drop`. `disciplined` says what that gives for every answer of every vendor
call, over every run: the trace is bracketed, every retrieved frame is freed at once, a failed
capture makes no further vendor call, and no two captures are alive together. `Tracked` is what one
session keeps of that, step by step.
-/

namespace RgspCast.Lifecycle

open Drain Cedar Transition Bracket

/-! ## The process -/

/-- The slot, the captures that are claimed and not yet released, and everything that happened. -/
structure Process where
  captureOpen : Bool
  captures : List (Phase × Capture)
  trace : List Event

def Process.start : Process := ⟨false, [], []⟩

inductive Action where
  /-- `open_scaled_ex` up to the claim, and whether the vendor libraries load. -/
  | openScaledEx (args : OpenArgs) (load : Bool)
  /-- A call on the `i`-th capture; the first one is the `init` of `open_scaled_ex`. -/
  | call (i : ℕ) (c : Call)
  /-- The end of the `i`-th capture's `Drop`: `CAPTURE_OPEN` is reset. -/
  | release (i : ℕ)

/-- The session of a capture of the process. -/
def Process.session (p : Process) (c : Phase × Capture) : Session := ⟨c.1, c.2, p.trace⟩

def Process.step (libs : VendorLibs) (p : Process) : Action → Option Process
  | .openScaledEx args load =>
    if load = false ∨ p.captureOpen then some p
    else some ⟨true, p.captures ++ [(.opening args, .new args)], p.trace ++ [.claimed]⟩
  | .call i c =>
    match p.captures[i]? with
    | none => none
    | some k =>
      match (p.session k).step libs c with
      | none => none
      | some s => some ⟨p.captureOpen, p.captures.set i (s.phase, s.world.cap), s.world.trace⟩
  | .release i =>
    match p.captures[i]? with
    | none => none
    | some k =>
      if k.1 = .tornDown then some ⟨false, p.captures.eraseIdx i, p.trace ++ [.freed]⟩ else none

/-! ## The discipline -/

/-- The resources, named by the stage that takes them, and the events that take them and give them
back. -/
def token : Event → Option (Token Stage)
  | .claimed => some (.opens .claimed)
  | .vendor (.cdcMemOpen rc) => if rc < 0 then none else some (.opens .memory)
  | .vendor (.videoEncCreate nonNull) => if nonNull then some (.opens .encoder) else none
  | .vendor (.videoEncInit _ rc) => if rc = 0 then some (.opens .inited) else none
  | .vendor (.allocInputBuffer _ _ rc) => if rc = 0 then some (.opens .buffers) else none
  | .vendor .releaseAllocInputBuffer => some (.closes .buffers)
  | .vendor .videoEncUninit => some (.closes .inited)
  | .vendor .videoEncDestroy => some (.closes .encoder)
  | .vendor .cdcMemClose => some (.closes .memory)
  | .freed => some (.closes .claimed)
  | _ => none

/-- A retrieved frame is freed by the next event, and nothing else is freed. -/
structure FramesFreed (t : List Event) : Prop where
  freed : ∀ t₁ o t₂, t = t₁ ++ .vendor (.getOneBitstreamFrame (some o)) :: t₂ →
    ∃ t₃, t₂ = .vendor (.freeOneBitstreamFrame o) :: t₃
  retrieved : ∀ t₁ o t₂, t = t₁ ++ .vendor (.freeOneBitstreamFrame o) :: t₂ →
    ∃ t₀, t₁ = t₀ ++ [.vendor (.getOneBitstreamFrame (some o))]

/-- After a failed `next` nothing happens until `Drop` but the same failure again. -/
def FailStop (t : List Event) : Prop :=
  ∀ t₁ e t₂, t = t₁ ++ .failed e :: t₂ → ∀ x ∈ t₂.takeWhile (· ≠ .dropped), x = .failed e

/-- What holds of a process at any time. -/
structure Disciplined (p : Process) : Prop where
  /-- What is given back was taken last; a capture that is torn down holds its slot only. -/
  bracketed : ∃ st, run (Bracket.step token) [] p.trace = some st ∧
    ∀ c ∈ p.captures, c.1 = .tornDown → st = [.claimed]
  balanced : p.captures = [] → Balanced token p.trace
  framesFreed : FramesFreed p.trace
  failStop : FailStop p.trace
  alive : p.captures.length ≤ 1
  slot : p.captureOpen = true ↔ p.captures ≠ []

/-! ## What one event list contributes -/

/-- The diagnosis after an event, `none` where the event may not follow. -/
def stop : Option String → Event → Option (Option String)
  | none, .failed e => some (some e)
  | none, _ => some none
  | some e, .failed e' => if e = e' then some (some e) else none
  | some _, .dropped => some none
  | some _, _ => none

variable {t t' es : List Event}

/-- Frames that are freed in each part of a trace are freed in the whole. -/
theorem FramesFreed.append (h : FramesFreed t) (h' : FramesFreed t') : FramesFreed (t ++ t') where
  freed t₁ o t₂ heq := by
    -- the event falls in the first trace or in the second
    rcases List.append_eq_append_iff.mp heq with ⟨d, rfl, hd⟩ | ⟨d, rfl, hd⟩
    · exact h'.freed d o t₂ hd
    · cases d with
      | nil => exact h'.freed [] o t₂ hd.symm
      | cons e d =>
        obtain ⟨rfl, rfl⟩ := List.cons.inj hd
        obtain ⟨t₃, rfl⟩ := h.freed t₁ o d rfl
        exact ⟨t₃ ++ t', rfl⟩
  retrieved t₁ o t₂ heq := by
    rcases List.append_eq_append_iff.mp heq with ⟨d, rfl, hd⟩ | ⟨d, rfl, hd⟩
    · obtain ⟨t₀, rfl⟩ := h'.retrieved d o t₂ hd
      exact ⟨t ++ t₀, by rw [List.append_assoc]⟩
    · cases d with
      | nil =>
        obtain ⟨t₀, ht₀⟩ := h'.retrieved [] o t₂ hd.symm
        exact absurd ht₀ (by simp)
      | cons e d =>
        obtain ⟨rfl, rfl⟩ := List.cons.inj hd
        exact h.retrieved t₁ o d rfl

/-- Events that retrieve nothing and free nothing. -/
theorem framesFreed_of_forall
    (h : ∀ e ∈ t, ∀ o, e ≠ .vendor (.getOneBitstreamFrame (some o)) ∧
      e ≠ .vendor (.freeOneBitstreamFrame o)) : FramesFreed t where
  freed t₁ o _ heq := absurd rfl (h _ (heq ▸ List.mem_append_right t₁ List.mem_cons_self) o).1
  retrieved t₁ o _ heq := absurd rfl (h _ (heq ▸ List.mem_append_right t₁ List.mem_cons_self) o).2

/-- A frame that is retrieved and freed at once. -/
theorem framesFreed_unit (o : VencOutputBuffer) :
    FramesFreed
      [.vendor (.getOneBitstreamFrame (some o)), .vendor (.freeOneBitstreamFrame o)] where
  freed t₁ o' t₂ heq := by
    rcases t₁ with _ | ⟨e, _ | ⟨e', t₁⟩⟩
    · obtain ⟨h, rfl⟩ := List.cons.inj heq
      cases h
      exact ⟨[], rfl⟩
    · cases (List.cons.inj (List.cons.inj heq).2).1
    · simp at heq
  retrieved t₁ o' t₂ heq := by
    rcases t₁ with _ | ⟨e, _ | ⟨e', t₁⟩⟩
    · cases (List.cons.inj heq).1
    · obtain ⟨rfl, h⟩ := List.cons.inj heq
      cases (List.cons.inj h).1
      exact ⟨[], rfl⟩
    · simp at heq

/-- While a capture is dead only its diagnosis is repeated. -/
theorem forall_failed_of_run {e : String} {d : Option String} (h : run stop (some e) t = some d) :
    ∀ x ∈ t.takeWhile (· ≠ .dropped), x = .failed e := by
  induction t with
  | nil => simp
  | cons x t ih =>
    obtain ⟨d', hstep, hrest⟩ := run_cons_eq_some.mp h
    cases x with
    | failed e' =>
      simp only [stop] at hstep
      split at hstep
      next he =>
        obtain rfl := Option.some.inj hstep
        rw [List.takeWhile_cons_of_pos (by simp)]
        exact List.forall_mem_cons.mpr ⟨by rw [he], ih hrest⟩
      next => cases hstep
    | dropped => simp
    | _ => cases hstep

/-- A trace the monitor runs through stops at failures. -/
theorem failStop_of_run {d d' : Option String} (h : run stop d t = some d') : FailStop t := by
  rintro t₁ e t₂ rfl
  rw [run_append] at h
  obtain ⟨d₁, -, h⟩ := Option.bind_eq_some_iff.mp h
  obtain ⟨d₂, hstep, h⟩ := run_cons_eq_some.mp h
  have hd₂ : d₂ = some e := by
    cases d₁ with
    | none => exact (Option.some.inj hstep).symm
    | some e' =>
      simp only [stop] at hstep
      split at hstep
      next he => rw [← Option.some.inj hstep, he]
      next => cases hstep
  rw [hd₂] at h
  exact forall_failed_of_run h

/-- An event that takes nothing, gives nothing back, retrieves nothing, frees nothing and reports
no failure. -/
structure Silent (e : Event) : Prop where
  token : token e = none
  stop : stop none e = some none
  frames : ∀ o, e ≠ .vendor (.getOneBitstreamFrame (some o)) ∧
    e ≠ .vendor (.freeOneBitstreamFrame o)

/-- Events that leave the stack and a diagnosis that is not made yet alone. -/
structure Passes (es : List Event) : Prop where
  stack : ∀ st, run (Bracket.step token) st es = some st
  stop : run stop none es = some none
  framesFreed : FramesFreed es

theorem passes_nil : Passes [] := ⟨fun _ => rfl, rfl, framesFreed_of_forall (by simp)⟩

/-- What passes in each part passes in the whole. -/
theorem Passes.append (h : Passes t) (h' : Passes t') : Passes (t ++ t') where
  stack st := (run_append_of_eq_some (h.stack st) t').trans (h'.stack st)
  stop := (run_append_of_eq_some h.stop t').trans h'.stop
  framesFreed := h.framesFreed.append h'.framesFreed

/-- Events that acquire nothing and release nothing pass. -/
theorem passes_of_silent (h : ∀ e ∈ es, Silent e) : Passes es where
  stack _ := run_neutral fun e he => (h e he).token
  stop := run_eq_self fun e he => (h e he).stop
  framesFreed := framesFreed_of_forall fun e he => (h e he).frames

/-- The vendor calls of `next` that acquire nothing are silent. -/
theorem silent_of_inNext {v : VendorCall} (hv : v.InNext) : Silent (.vendor v) := by
  cases v
  case getOneBitstreamFrame got =>
    cases got with
    | none => exact ⟨rfl, rfl, by simp⟩
    | some o => exact hv.elim
  all_goals first
    | exact hv.elim
    | exact ⟨rfl, rfl, by simp⟩

/-- Those of `init` are, as long as they leave nothing to undo. -/
theorem silent_of_inInit {y c : UInt32} {v : VendorCall} (hv : v.InInit y c) :
    Silent (.vendor v) := by
  cases v
  case cdcMemOpen rc => exact ⟨if_pos hv, rfl, by simp⟩
  case videoEncCreate nonNull =>
    obtain rfl : nonNull = false := hv
    exact ⟨rfl, rfl, by simp⟩
  case videoEncInit cfg rc => exact ⟨if_neg hv, rfl, by simp⟩
  case allocInputBuffer nSizeY nSizeC rc => exact ⟨if_neg hv.1, rfl, by simp⟩
  all_goals first
    | exact hv.elim
    | exact ⟨rfl, rfl, by simp⟩

/-- What a call of `next` adds passes: each retrieved frame is freed at once. -/
theorem passes_of_nextTrace {k : Capture} (h : NextTrace k es) : Passes es := by
  induction h with
  | nil => exact passes_nil
  | call h hc ih =>
    exact ih.append (passes_of_silent (List.forall_mem_singleton.mpr (silent_of_inNext hc)))
  | unit h o ih => exact ih.append ⟨fun _ => rfl, rfl, framesFreed_unit o⟩
  | copied h c hc hread ih =>
    refine ih.append (passes_of_silent ?_)
    rw [List.forall_mem_map]
    exact fun wr _ => ⟨rfl, rfl, by simp⟩

/-! ## The resources of a stage -/

/-- What a capture at a stage holds, the last resource first. -/
def heldAt : Stage → List Stage
  | .claimed => [.claimed]
  | .memory => [.memory, .claimed]
  | .encoder => [.encoder, .memory, .claimed]
  | .inited => [.inited, .encoder, .memory, .claimed]
  | .buffers => [.buffers, .inited, .encoder, .memory, .claimed]

/-- `init` takes the resources of the stage it reaches. -/
theorem run_opens {y c : UInt32} {st : Stage} (h : Opens y c st es) :
    run (Bracket.step token) [.claimed] es = some (heldAt st) := by
  induction h with
  | nil => rfl
  | quiet h hcall ih =>
    rw [run_append_of_eq_some ih]
    exact run_neutral (List.forall_mem_singleton.mpr (silent_of_inInit hcall).token)
  | @memory es rc h hrc ih =>
    have htoken : token (.vendor (.cdcMemOpen rc)) = some (.opens .memory) := if_neg hrc
    rw [run_append_of_eq_some ih, run_cons, Bracket.step, htoken]
    rfl
  | encoder h ih => exact (run_append_of_eq_some ih _).trans rfl
  | inited h cfg ih => exact (run_append_of_eq_some ih _).trans rfl
  | buffers h ih => exact (run_append_of_eq_some ih _).trans rfl

/-- `init` reports no failure of `next`, and retrieves no frame. -/
theorem stop_and_framesFreed_of_opens {y c : UInt32} {st : Stage} (h : Opens y c st es) :
    run stop none es = some none ∧ FramesFreed es := by
  constructor
  · apply run_eq_self
    intro e he
    obtain ⟨v, rfl⟩ := vendor_of_opens h e he
    rfl
  · induction h with
    | nil => exact passes_nil.framesFreed
    | quiet h hcall ih =>
      refine ih.append (framesFreed_of_forall (List.forall_mem_singleton.mpr ?_))
      exact (silent_of_inInit hcall).frames
    | memory h hrc ih => exact ih.append (framesFreed_of_forall (by simp))
    | encoder h ih => exact ih.append (framesFreed_of_forall (by simp))
    | inited h cfg ih => exact ih.append (framesFreed_of_forall (by simp))
    | buffers h ih => exact ih.append (framesFreed_of_forall (by simp))

/-- And those that return the input buffer. -/
theorem silent_of_mem_recycleCalls {rc : Int32} {v : VendorCall} (h : v ∈ recycleCalls rc) :
    Silent (.vendor v) := by
  unfold recycleCalls at h
  rcases List.mem_cons.mp h with rfl | h
  · exact ⟨rfl, rfl, by simp⟩
  · split at h
    · obtain rfl := List.mem_singleton.mp h
      exact ⟨rfl, rfl, by simp⟩
    · exact absurd h List.not_mem_nil

/-- The teardown gives back what the stage holds, down to the slot. -/
theorem run_teardownCalls {libs : VendorLibs} {rc : Int32} {c : Capture} {st : Stage}
    (hclose : libs.memOps.close = true) (h : Coherent c st) :
    run (Bracket.step token) (heldAt st) ((teardownCalls libs rc c).map .vendor) =
      some [.claimed] := by
  -- giving back the held buffer opens and closes no bracket
  have hheld : ∀ st', run (Bracket.step token) st'
      ((if c.held then recycleCalls rc else []).map .vendor) = some st' := by
    intro st'
    apply run_neutral
    rw [List.forall_mem_map]
    intro v hv
    split at hv
    · exact (silent_of_mem_recycleCalls hv).token
    · exact absurd hv List.not_mem_nil
  obtain ⟨hmem, henc, hinit, hbuf⟩ : c.memOpen = st.flags.1 ∧ c.enc = st.flags.2.1 ∧
      c.encInited = st.flags.2.2.1 ∧ c.buffersAlloced = st.flags.2.2.2 := by
    rw [← h.flags]
    exact ⟨rfl, rfl, rfl, rfl⟩
  unfold teardownCalls
  rw [hmem, henc, hinit, hbuf, hclose]
  cases st with
  | claimed => rfl
  | memory =>
    rw [h.memops (by decide)]
    rfl
  | encoder | inited | buffers =>
    rw [h.memops (by decide)]
    simp only [Stage.flags, if_true, List.append_assoc, List.map_append]
    exact (run_append_of_eq_some (hheld _) _).trans rfl

/-- The teardown reports no failure of `next`, and retrieves no frame. -/
theorem stop_and_framesFreed_of_teardown (libs : VendorLibs) (rc : Int32) (c : Capture) :
    run stop none ((teardownCalls libs rc c).map .vendor) = some none ∧
      FramesFreed ((teardownCalls libs rc c).map .vendor) := by
  constructor
  · apply run_eq_self
    rw [List.forall_mem_map]
    exact fun v _ => rfl
  · apply framesFreed_of_forall
    rw [List.forall_mem_map]
    intro v hv o
    refine ⟨?_, ?_⟩ <;>
      · rintro ⟨⟩
        simp [teardownCalls, recycleCalls] at hv

/-! ## One session -/

/-- What a session holds in its phase. -/
inductive Holds : Phase → Capture → List Stage → Prop where
  | opening (args : OpenArgs) : Holds (.opening args) (.new args) [.claimed]
  | live {phase : Phase} {c : Capture} {st : Stage} (hphase : phase = .ready ∨ phase = .unwinding)
      (h : Coherent c st) : Holds phase c (heldAt st)
  | tornDown (c : Capture) : Holds .tornDown c [.claimed]

/-- The diagnosis that every further call repeats. -/
def diagnosis (s : Session) : Option String :=
  if s.phase = .ready then s.world.cap.failed else none

/-- What every session keeps: the stack of what it holds, its diagnosis, and freed frames. -/
structure Tracked (s : Session) : Prop where
  stack : ∃ st, run (Bracket.step token) [] s.world.trace = some st ∧
    Holds s.phase s.world.cap st
  diagnosed : run stop none s.world.trace = some (diagnosis s)
  framesFreed : FramesFreed s.world.trace

section Session

variable {libs : VendorLibs} {s s' : Session} {call : Call}

/-- A step that adds events keeps track of what they do. -/
theorem Tracked.extend (hs : Tracked s) (es : List Event)
    (htrace : s'.world.trace = s.world.trace ++ es)
    (hstack : ∀ st, Holds s.phase s.world.cap st → ∃ st',
      run (Bracket.step token) st es = some st' ∧ Holds s'.phase s'.world.cap st')
    (hdiag : run stop (diagnosis s) es = some (diagnosis s')) (hfreed : FramesFreed es) :
    Tracked s' := by
  obtain ⟨st, hrun, hholds⟩ := hs.stack
  obtain ⟨st', hrun', hholds'⟩ := hstack st hholds
  refine ⟨⟨st', ?_, hholds'⟩, ?_, ?_⟩
  · rw [htrace, run_append_of_eq_some hrun]
    exact hrun'
  · rw [htrace, run_append_of_eq_some hs.diagnosed]
    exact hdiag
  · rw [htrace]
    exact hs.framesFreed.append hfreed

/-- A session that is opening has claimed the device and no more. -/
theorem holds_opening {args : OpenArgs} {c : Capture} {st : List Stage}
    (h : Holds (.opening args) c st) : c = .new args ∧ st = [.claimed] := by
  cases h with
  | opening => exact ⟨rfl, rfl⟩
  | live hphase h => rcases hphase with hphase | hphase <;> cases hphase

/-- A session that is open holds what its stage says. -/
theorem holds_live {phase : Phase} {c : Capture} {st : List Stage} (h : Holds phase c st)
    (hphase : phase = .ready ∨ phase = .unwinding) :
    ∃ stage, st = heldAt stage ∧ Coherent c stage := by
  cases h with
  | opening args => rcases hphase with hphase | hphase <;> cases hphase
  | live _ h => exact ⟨_, rfl, h⟩
  | tornDown => rcases hphase with hphase | hphase <;> cases hphase

/-- What `next` leaves alone decides what a capture holds. -/
theorem coherent_of_config {c k : Capture} {st : Stage} (hk : Coherent k st)
    (h : c.config = k.config) : Coherent c st where
  flags := (congrArg Capture.flags h :).trans hk.flags
  memops hst := (congrArg Capture.memops h :).trans (hk.memops hst)

/-- A session on its way holds the same before and after a call that keeps the configuration. -/
theorem holds_of_config {phase phase' : Phase} {c c' : Capture} {st : List Stage}
    (h : Holds phase c st) (hphase : phase = .ready)
    (hphase' : phase' = .ready ∨ phase' = .unwinding) (hconfig : c'.config = c.config) :
    Holds phase' c' st := by
  obtain ⟨stage, rfl, hk⟩ := holds_live h (Or.inl hphase)
  exact .live hphase' (coherent_of_config hk hconfig)

/-- An open session shows the error that its capture remembers. -/
theorem diagnosis_ready (hphase : s.phase = .ready) : diagnosis s = s.world.cap.failed :=
  if_pos hphase

/-- What `init` makes of a session, however it ends. -/
theorem Tracked.init {args : OpenArgs} {y c : UInt32} {stage : Stage} {phase : Phase} {w : World}
    (hs : Tracked s) (hopening : s.phase = .opening args)
    (htraced : Traced y c s.world.trace stage w) (hk : Coherent w.cap stage)
    (hphase : phase = .ready ∨ phase = .unwinding) (hdiag : diagnosis ⟨phase, w⟩ = none) :
    Tracked ⟨phase, w⟩ := by
  obtain ⟨es, hes, htrace⟩ := htraced
  obtain ⟨hstop, hfreed⟩ := stop_and_framesFreed_of_opens hes
  refine hs.extend es htrace (fun st hst => ⟨heldAt stage, ?_, .live hphase hk⟩) ?_ hfreed
  · rw [hopening] at hst
    rw [(holds_opening hst).2]
    exact run_opens hes
  · have hnone : diagnosis s = none := if_neg (by rw [hopening]; nofun)
    rw [hnone, hdiag]
    exact hstop

/-- A session before `init` has a fresh capture. -/
theorem Tracked.world_eq {args : OpenArgs} (hs : Tracked s) (hopening : s.phase = .opening args) :
    s.world = ⟨.new args, s.world.trace⟩ := by
  obtain ⟨st, -, hholds⟩ := hs.stack
  rw [hopening] at hholds
  rw [← (holds_opening hholds).1]

/-- Every step keeps track. -/
theorem tracked_of_steps (hclose : libs.memOps.close = true) (h : Steps libs s call s')
    (hs : Tracked s) : Tracked s' := by
  cases h with
  | @opened args a w hphase hinit =>
    obtain ⟨-, geo, -, -, hmid⟩ := init_spec.of_ok (hs.world_eq hphase) hinit
    refine hs.init hphase hmid.trace ?_ (Or.inl rfl) ?_
    · rw [hmid.cap]
      exact ⟨rfl, fun _ => rfl⟩
    · show w.cap.failed = none
      rw [hmid.cap]
      rfl
  | @gaveUp args a e w hphase hinit =>
    obtain ⟨⟨stage, hreached⟩, -⟩ := init_spec.of_error (hs.world_eq hphase) hinit
    obtain ⟨y, c, htraced⟩ := hreached.trace
    exact hs.init hphase htraced ⟨hreached.flags, hreached.memops⟩ (Or.inr rfl) rfl
  -- the recorded failure is returned once more, and stays recorded
  | @refused a e hphase hfailed =>
    refine hs.extend [.failed e] rfl (fun st h => ⟨st, rfl, ?_⟩) ?_ ?_
    · exact holds_of_config h hphase (Or.inl rfl) rfl
    · rw [diagnosis_ready hphase, hfailed]
      show run stop (some e) [.failed e] = some s.world.cap.failed
      rw [hfailed, run_cons]
      simp [stop]
    · exact framesFreed_of_forall (by simp)
  | @returned a w hphase hlive h =>
    obtain ⟨es, hes, htrace⟩ := h.trace
    have hframe : Passes [.frame (nextFrame libs s.world.cap a)] :=
      passes_of_silent (List.forall_mem_singleton.mpr ⟨rfl, rfl, by simp⟩)
    have hpass := (passes_of_nextTrace hes).append hframe
    have hconfig : w.cap.config = (afterFrame libs s.world.cap a).config :=
      config_eq_of_core_eq h.core
    have hfailed : w.cap.failed = none := (congrArg Capture.failed h.core :).trans hlive
    refine hs.extend _ ?_ (fun st hst => ⟨st, hpass.stack st, ?_⟩) ?_ hpass.framesFreed
    · show w.trace ++ _ = _
      rw [htrace, List.append_assoc]
    · exact holds_of_config hst hphase (Or.inl rfl) hconfig
    · rw [diagnosis_ready hphase, hlive, hpass.stop]
      exact congrArg some hfailed.symm
  | @failed a e w hphase hlive h =>
    obtain ⟨es, hes, htrace⟩ := h.trace
    have hpass := passes_of_nextTrace hes
    refine hs.extend (es ++ [.failed e]) ?_ (fun st hst => ⟨st, ?_, ?_⟩) ?_ ?_
    · show w.trace ++ _ = _
      rw [htrace, List.append_assoc]
    · rw [run_append_of_eq_some (hpass.stack st)]
      rfl
    · exact holds_of_config hst hphase (Or.inl rfl) h.config
    · rw [diagnosis_ready hphase, hlive, run_append_of_eq_some hpass.stop]
      exact congrArg some (h.failed e rfl).symm
    · exact hpass.framesFreed.append (framesFreed_of_forall (by simp))
  -- a panic records nothing: the capture unwinds, and with it ends the session's diagnosis
  | @panicked a w hphase hlive h =>
    obtain ⟨es, hes, htrace⟩ := h.trace
    have hpass := passes_of_nextTrace hes
    refine hs.extend es htrace (fun st hst => ⟨st, hpass.stack st, ?_⟩) ?_ hpass.framesFreed
    · exact holds_of_config hst hphase (Or.inr rfl) h.config
    · rw [diagnosis_ready hphase, hlive, hpass.stop]
      rfl
  | requested hphase =>
    refine hs.extend [] (List.append_nil _).symm (fun st hst => ⟨st, rfl, ?_⟩) ?_
      passes_nil.framesFreed
    · exact holds_of_config hst hphase (Or.inl rfl) rfl
    · rw [diagnosis_ready hphase]
      rfl
  | @dropped rc hphase =>
    obtain ⟨hstop, hfreed⟩ := stop_and_framesFreed_of_teardown libs rc s.world.cap
    refine hs.extend _ (List.append_assoc _ _ _) (fun st hst => ⟨[.claimed], ?_, .tornDown _⟩) ?_ ?_
    · obtain ⟨stage, rfl, hk⟩ := holds_live hst hphase
      exact run_teardownCalls hclose hk
    · -- the start of `Drop` ends the failure
      have hdropped : run stop (diagnosis s) [.dropped] = some none := by
        cases diagnosis s <;> rfl
      exact (run_append_of_eq_some hdropped _).trans hstop
    · exact (framesFreed_of_forall (t := [.dropped]) (by simp)).append hfreed

end Session

/-! ## Every run -/

/-- Nothing is held, no failure is pending and every frame is freed. -/
structure Idle (t : List Event) : Prop where
  stack : run (Bracket.step token) [] t = some []
  diagnosed : run stop none t = some none
  framesFreed : FramesFreed t

/-- The invariant of the process: it is idle, or it has one capture, which holds the slot. -/
inductive Tame : Process → Prop where
  | idle {t : List Event} (h : Idle t) : Tame ⟨false, [], t⟩
  | alive {phase : Phase} {c : Capture} {t : List Event} (h : Tracked ⟨phase, c, t⟩) :
      Tame ⟨true, [(phase, c)], t⟩

section Run

variable {libs : VendorLibs} {p p' : Process}

/-- The claim of the slot starts a session. -/
theorem Idle.claim (h : Idle t) (args : OpenArgs) :
    Tracked ⟨.opening args, .new args, t ++ [.claimed]⟩ where
  stack := ⟨[.claimed], (run_append_of_eq_some h.stack _).trans rfl, .opening args⟩
  diagnosed := (run_append_of_eq_some h.diagnosed _).trans rfl
  framesFreed := h.framesFreed.append (framesFreed_of_forall (by simp))

/-- The release of the slot ends one. -/
theorem Tracked.release {c : Capture} (h : Tracked ⟨.tornDown, c, t⟩) : Idle (t ++ [.freed]) where
  stack := by
    obtain ⟨st, hrun, hholds⟩ := h.stack
    have hst : st = [.claimed] := by
      cases hholds with
      | live hphase _ => rcases hphase with hphase | hphase <;> cases hphase
      | tornDown => rfl
    rw [run_append_of_eq_some hrun, hst]
    rfl
  diagnosed := (run_append_of_eq_some h.diagnosed _).trans rfl
  framesFreed := h.framesFreed.append (framesFreed_of_forall (by simp))

/-- Every step of the process keeps the invariant. -/
theorem tame_of_step (hclose : libs.memOps.close = true) {a : Action}
    (hstep : p.step libs a = some p') (hp : Tame p) : Tame p' := by
  cases a with
  | openScaledEx args load =>
    simp only [Process.step] at hstep
    split at hstep
    next => exact Option.some.inj hstep ▸ hp
    next hfree =>
      obtain rfl := Option.some.inj hstep
      cases hp with
      | idle h => exact .alive (h.claim args)
      -- `CAPTURE_OPEN` is taken as long as there is a capture
      | alive h => exact absurd (Or.inr rfl) hfree
  | call i c =>
    cases hp with
    | idle h => cases hstep
    | @alive phase k t h =>
      cases i with
      | succ i => cases hstep
      | zero =>
        simp only [Process.step, List.getElem?_cons_zero] at hstep
        split at hstep
        next => cases hstep
        next s hs =>
          obtain rfl := Option.some.inj hstep
          exact .alive (tracked_of_steps hclose (steps_of_step hs) h)
  | release i =>
    cases hp with
    | idle h => cases hstep
    | @alive phase k t h =>
      cases i with
      | succ i => cases hstep
      | zero =>
        simp only [Process.step, List.getElem?_cons_zero] at hstep
        split at hstep
        next hdown =>
          obtain rfl : phase = .tornDown := hdown
          obtain rfl := Option.some.inj hstep
          exact .idle h.release
        next => cases hstep

/-- A process whose sessions are tame acquires and releases in brackets. -/
theorem disciplined_of_tame (h : Tame p) : Disciplined p := by
  cases h with
  | @idle t h =>
    exact ⟨⟨[], h.stack, by simp⟩, fun _ => balanced_of_run h.stack, h.framesFreed,
      failStop_of_run h.diagnosed, Nat.zero_le 1, by simp⟩
  | @alive phase c t h =>
    obtain ⟨st, hrun, hholds⟩ := h.stack
    refine ⟨⟨st, hrun, ?_⟩, nofun, h.framesFreed, failStop_of_run h.diagnosed, Nat.le_refl 1,
      by simp⟩
    rw [List.forall_mem_singleton]
    rintro rfl
    cases hholds with
    | live hphase _ => rcases hphase with hphase | hphase <;> cases hphase
    | tornDown => rfl

/-- **The lifecycle discipline holds at any time**, for every answer of every vendor call. -/
theorem disciplined (hclose : libs.memOps.close = true) {actions : List Action}
    (hrun : run (Process.step libs) .start actions = some p) : Disciplined p := by
  have hstart : Tame .start := .idle ⟨rfl, rfl, passes_nil.framesFreed⟩
  exact disciplined_of_tame
    (run_invariant (fun _ _ _ hstep hp => tame_of_step hclose hstep hp) hrun hstart)

end Run

/-- A capture that fails to get its input buffer, and a second one that delivers nothing. -/
def twoCaptures : List Action :=
  let args : OpenArgs := ⟨2, 2, 0, 0, 60, 0, .argb, false⟩
  let panel : FbGeometry := ⟨2, 2, 32, 8⟩
  let a : NextAnswers :=
    ⟨0, 0, 0, 0, .ok [0], 0, 0, -1, ⟨0, none, 0, none⟩, [], 0, 0⟩
  [.openScaledEx args true, .call 0 (.init { goodInit panel with getInputRc := -1 }),
    .openScaledEx args true, .call 0 (.drop 0), .release 0,
    .openScaledEx args true, .call 0 (.init (goodInit panel)), .call 0 (.next a),
    .call 0 (.next a), .call 0 (.drop 0), .release 0]

/-- The process of the two captures. -/
theorem disciplined_twoCaptures :
    ∃ p, run (Process.step fullLibs) .start twoCaptures = some p ∧ Disciplined p :=
  ⟨_, rfl, @disciplined fullLibs _ rfl twoCaptures rfl⟩

end RgspCast.Lifecycle
