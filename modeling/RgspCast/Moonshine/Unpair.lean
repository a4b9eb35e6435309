import Mathlib.Data.Finset.Basic
import RgspCast.Lib.Registry

/-!
# Unpairing

`ControlHandle::unpair` takes a fingerprint out of the paired set in memory, then has `save` rewrite
the state file, then calls `notify_waiters` for the control socket to republish the list. A failure
of `save` ends the call with the set already changed and before the notification: the error stands
for an unpair that has happened, the file keeps the old set or is cut short, and the list shown is
the old one (`not_unpairLaw`). A second attempt finds nothing to remove and does not save
(`unpair_again`).

`unpairLaw_iff` says that this is the only way in which it goes wrong.
-/

namespace RgspCast.Unpair

abbrev Bytes := List UInt8

/-! ## The persistent state -/

structure PairedLabel where
  name : Option String
  address : Option String
  deriving DecidableEq, Repr

structure StateData where
  uniqueId : String
  clients : Finset String
  pairedCerts : Finset String
  pairedLabels : Registry (Prod.fst : String × PairedLabel → String)

/-- `PersistentState` with its file, and the signals given by `pending_changed`. -/
structure Store where
  data : StateData
  /-- The contents of `state.toml`, where there is one. -/
  file : Option Bytes
  notified : ℕ

/-- Where a call of `save` can fail. -/
inductive SaveFault where
  /-- The lock is poisoned. -/
  | poisoned
  /-- The path has no parent directory. -/
  | parent
  | createDirAll
  /-- `to_string_pretty`. -/
  | serialize
  /-- `fs::write` cannot open the file. -/
  | open
  /-- `fs::write` has truncated the file and written this many bytes, with more to come. -/
  | write (n : ℕ)
  deriving DecidableEq, Repr

/-- What one call meets with. -/
structure Env where
  /-- The client manager has been set. -/
  clientManager : Bool
  /-- The lock of the state is not poisoned. -/
  lock : Bool
  fault : Option SaveFault
  deriving DecidableEq, Repr

/-- The save of these bytes fails. -/
def SaveFault.fails (bytes : Bytes) : Option SaveFault → Bool
  | none => false
  | some (.write n) => n < bytes.length
  | some _ => true

/-- The file after a save of these bytes. -/
def SaveFault.file (bytes : Bytes) (before : Option Bytes) : Option SaveFault → Option Bytes
  | none => some bytes
  | some (.write n) => some (bytes.take n)
  | some _ => before

variable (toStringPretty : StateData → Bytes)

/-- `save`: whether it succeeds. -/
def Store.save (s : Store) (fault : Option SaveFault) : Bool × Store :=
  let bytes := toStringPretty s.data
  (!SaveFault.fails bytes fault, { s with file := SaveFault.file bytes s.file fault })

/-- `StateData::new`, with the id that is drawn. -/
def StateData.new (uuid : String) : StateData where
  uniqueId := uuid
  clients := ∅
  pairedCerts := ∅
  pairedLabels := Registry.empty _

/-- What `PersistentState::new` starts from: the state in the file, or a fresh one where there is
none. `fromStr` is `read_to_string` with `toml::from_str`. -/
def StateData.load (fromStr : Bytes → Option StateData) (uuid : String) :
    Option Bytes → Option StateData
  | some bytes => fromStr bytes
  | none => some (StateData.new uuid)

/-- `PersistentState::new`: what has been loaded is saved again at once. -/
def Store.new (fromStr : Bytes → Option StateData) (file : Option Bytes) (uuid : String)
    (fault : Option SaveFault) : Option Store :=
  match StateData.load fromStr uuid file with
  | none => none
  | some data =>
    match Store.save toStringPretty ⟨data, file, 0⟩ fault with
    | (true, s) => some s
    | (false, _) => none

/-- The part of `remove_paired_cert` under the lock: whether the fingerprint was paired. -/
def StateData.removePairedCert (d : StateData) (fingerprint : String) : Bool × StateData :=
  let removed := decide (fingerprint ∈ d.pairedCerts)
  let pairedCerts := d.pairedCerts.erase fingerprint
  let pairedLabels := d.pairedLabels.remove fingerprint
  let clients := if removed ∧ pairedCerts = ∅ then ∅ else d.clients
  (removed, { d with clients, pairedCerts, pairedLabels })

/-- `remove_paired_cert`. -/
def Store.removePairedCert (env : Env) (s : Store) (fingerprint : String) : Option Bool × Store :=
  if env.lock then
    let (removed, data) := s.data.removePairedCert fingerprint
    let s := { s with data }
    if removed then
      let (saved, s) := s.save toStringPretty env.fault
      if saved then (some removed, s) else (none, s)
    else (some removed, s)
  else (none, s)

/-- `ClientManager::unpair`. -/
def clientManagerUnpair (env : Env) (s : Store) (fingerprint : String) : Option Bool × Store :=
  match s.removePairedCert toStringPretty env fingerprint with
  | (none, s) => (none, s)
  | (some removed, s) =>
    (some removed, if removed then { s with notified := s.notified + 1 } else s)

/-- `UnpairResult`. -/
structure UnpairResult where
  removed : Bool
  deriving DecidableEq, Repr

/-- `ErrorObjectOwned`. -/
structure ErrorObject where
  code : ℤ
  message : String
  deriving DecidableEq, Repr

/-- `ControlHandle::unpair`. -/
def unpair (env : Env) (s : Store) (fingerprint : String) :
    Except ErrorObject UnpairResult × Store :=
  if env.clientManager then
    match clientManagerUnpair toStringPretty env s fingerprint with
    | (some removed, s) => (.ok ⟨removed⟩, s)
    | (none, s) => (.error ⟨-32002, "failed to persist unpair"⟩, s)
  else (.error ⟨-32000, "pairing not available"⟩, s)

/-! ## What an unpair should do -/

/-- A call that answers with an error has changed nothing, in memory or in the file; and where the
paired set has changed, that was signalled. -/
structure UnpairLaw (s : Store) (r : Except ErrorObject UnpairResult × Store) : Prop where
  clean : ∀ e, r.1 = .error e →
    r.2.data.pairedCerts = s.data.pairedCerts ∧ r.2.data.pairedLabels = s.data.pairedLabels ∧
    r.2.data.clients = s.data.clients ∧ r.2.file = s.file
  announced : r.2.data.pairedCerts ≠ s.data.pairedCerts → s.notified < r.2.notified

/-- Where the call gets as far as taking a fingerprint out of the set, the save goes through. -/
def Saves (env : Env) (s : Store) (fingerprint : String) : Prop :=
  env.clientManager = true → env.lock = true → fingerprint ∈ s.data.pairedCerts →
    SaveFault.fails (toStringPretty (s.data.removePairedCert fingerprint).2) env.fault = false

variable {toStringPretty} {env : Env} {s : Store} {fingerprint : String}

/-- A save that succeeds leaves the state in the file. -/
theorem file_of_save {s' : Store} {fault : Option SaveFault}
    (h : s.save toStringPretty fault = (true, s')) :
    s'.data = s.data ∧ s'.file = some (toStringPretty s.data) := by
  obtain ⟨hok, rfl⟩ := Prod.mk.inj h
  refine ⟨rfl, ?_⟩
  show SaveFault.file (toStringPretty s.data) s.file fault = _
  rcases fault with _ | _ | _ | _ | _ | _ | n
  case none => rfl
  case some.write =>
    -- a write that stops behind the last byte
    have hn : (toStringPretty s.data).length ≤ n := by simpa [SaveFault.fails] using hok
    exact congrArg some (List.take_of_length_le hn)
  all_goals cases hok

/-- What a host starts with is in its file. -/
theorem file_of_new {fromStr : Bytes → Option StateData} {file : Option Bytes} {uuid : String}
    {fault : Option SaveFault} (h : Store.new toStringPretty fromStr file uuid fault = some s) :
    s.file = some (toStringPretty s.data) := by
  unfold Store.new at h
  split at h
  next => cases h
  next data hload =>
    split at h
    next s' hsave =>
      obtain rfl := Option.some.inj h
      obtain ⟨hdata, hfile⟩ := file_of_save hsave
      rw [hfile, hdata]
    next => cases h

/-- A fingerprint that is not paired: only a label that was left behind can go. -/
theorem unpair_of_notMem (hmanager : env.clientManager = true) (hlock : env.lock = true)
    (h : fingerprint ∉ s.data.pairedCerts) :
    unpair toStringPretty env s fingerprint =
      (.ok ⟨false⟩, { s with data := (s.data.removePairedCert fingerprint).2 }) := by
  simp [unpair, clientManagerUnpair, Store.removePairedCert, StateData.removePairedCert, hmanager,
    hlock, h]

/-- A paired fingerprint is out of the set in memory, whatever becomes of the save. -/
theorem unpair_of_mem (hmanager : env.clientManager = true) (hlock : env.lock = true)
    (h : fingerprint ∈ s.data.pairedCerts) {data : StateData}
    (hdata : (s.data.removePairedCert fingerprint).2 = data) :
    unpair toStringPretty env s fingerprint =
      if SaveFault.fails (toStringPretty data) env.fault then
        (.error ⟨-32002, "failed to persist unpair"⟩,
          ⟨data, SaveFault.file (toStringPretty data) s.file env.fault, s.notified⟩)
      else (.ok ⟨true⟩,
        ⟨data, SaveFault.file (toStringPretty data) s.file env.fault, s.notified + 1⟩) := by
  subst hdata
  have hremoved : (s.data.removePairedCert fingerprint).1 = true := decide_eq_true h
  simp only [unpair, clientManagerUnpair, Store.removePairedCert, Store.save, hmanager, hlock,
    hremoved, if_true]
  cases SaveFault.fails (toStringPretty (s.data.removePairedCert fingerprint).2) env.fault <;> rfl

/-- A call that does not get to the set leaves everything as it was. -/
theorem unpair_of_refused (h : ¬ (env.clientManager = true ∧ env.lock = true)) :
    ∃ e, unpair toStringPretty env s fingerprint = (.error e, s) := by
  cases hmanager : env.clientManager with
  | false =>
    refine ⟨⟨-32000, "pairing not available"⟩, ?_⟩
    simp [unpair, hmanager]
  | true =>
    have hlock : env.lock = false := by simpa [hmanager] using h
    refine ⟨⟨-32002, "failed to persist unpair"⟩, ?_⟩
    simp [unpair, clientManagerUnpair, Store.removePairedCert, hmanager, hlock]

/-- Trying again after a failed save answers that nothing was paired, and leaves the file as the
failure left it. -/
theorem unpair_again {env' : Env} (hmanager : env'.clientManager = true)
    (hlock : env'.lock = true) {e : ErrorObject} {s' : Store}
    (hmem : fingerprint ∈ s.data.pairedCerts) (hcalled : env.clientManager = true)
    (hlocked : env.lock = true)
    (h : unpair toStringPretty env s fingerprint = (.error e, s')) :
    ∃ s'', unpair toStringPretty env' s' fingerprint = (.ok ⟨false⟩, s'') ∧
      s''.file = s'.file ∧ s''.notified = s.notified := by
  rw [unpair_of_mem hcalled hlocked hmem rfl] at h
  split at h
  next =>
    obtain ⟨-, rfl⟩ := Prod.mk.inj h
    exact ⟨_, unpair_of_notMem hmanager hlock (Finset.notMem_erase _ _), rfl, rfl⟩
  next => cases (Prod.mk.inj h).1

/-- The state file cannot be opened. -/
def readOnly : Env := ⟨true, true, some .open⟩

/-- One paired device. -/
def onePaired : Store where
  data := ⟨"11111111-1111-1111-1111-111111111111", {"0123456789ABCDEF"}, {"aabbcc"},
    Registry.empty Prod.fst⟩
  file := some []
  notified := 0

/-- The error is answered, the device is no longer paired, and nothing was signalled. -/
theorem not_unpairLaw :
    ¬ ∀ (toStringPretty : StateData → Bytes) (env : Env) (s : Store) (fingerprint : String),
      UnpairLaw s (unpair toStringPretty env s fingerprint) := by
  intro hall
  have hlaw := hall (fun _ => []) readOnly onePaired "aabbcc"
  exact absurd (hlaw.clean _ rfl).1 (by decide)

/-- **An unpair does what it should exactly where the save goes through** once a fingerprint is out
of the set. -/
theorem unpairLaw_iff (toStringPretty : StateData → Bytes) (env : Env) (s : Store)
    (fingerprint : String) :
    UnpairLaw s (unpair toStringPretty env s fingerprint) ↔
      Saves toStringPretty env s fingerprint := by
  by_cases hcalled : env.clientManager = true ∧ env.lock = true
  · obtain ⟨hmanager, hlock⟩ := hcalled
    by_cases hmem : fingerprint ∈ s.data.pairedCerts
    · have hne : s.data.pairedCerts.erase fingerprint ≠ s.data.pairedCerts := by
        intro heq
        have hnot := Finset.notMem_erase fingerprint s.data.pairedCerts
        rw [heq] at hnot
        exact hnot hmem
      have hsaves : Saves toStringPretty env s fingerprint ↔
          SaveFault.fails (toStringPretty (s.data.removePairedCert fingerprint).2) env.fault =
            false :=
        ⟨fun h => h hmanager hlock hmem, fun h _ _ _ => h⟩
      rw [hsaves, unpair_of_mem hmanager hlock hmem rfl]
      cases SaveFault.fails (toStringPretty (s.data.removePairedCert fingerprint).2) env.fault with
      | true =>
        refine iff_of_false (fun hlaw => hne (hlaw.clean _ rfl).1) ?_
        exact Bool.false_ne_true.symm
      | false =>
        refine iff_of_true ⟨fun e herr => ?_, fun _ => Nat.lt_succ_self s.notified⟩ rfl
        cases herr
    · have hsame := Finset.erase_eq_of_notMem hmem
      rw [unpair_of_notMem hmanager hlock hmem]
      refine iff_of_true ⟨fun e herr => ?_, fun hne => absurd hsame hne⟩ ?_
      · cases herr
      · exact fun _ _ h => absurd h hmem
  · obtain ⟨e, heq⟩ := @unpair_of_refused toStringPretty env s fingerprint hcalled
    rw [heq]
    refine iff_of_true ⟨fun _ _ => ⟨rfl, rfl, rfl, rfl⟩, fun hne => absurd rfl hne⟩ ?_
    exact fun hmanager hlock => absurd ⟨hmanager, hlock⟩ hcalled

end RgspCast.Unpair
