import RgspCast.Lib.Aes128Ecb
import RgspCast.Moonshine.Clients
import RgspCast.Moonshine.Unpair

/-!
# Pairing

The five requests by which a client becomes a paired one, with what `ClientManager` computes for
them. The hash, the block cipher, the certificates and the signatures are parameters (`Crypto`).

A call is one that holds the lock of the pending map throughout, so a list of calls is an order in
which any number of clients get that lock. The state has a lock of its own: an unpairing can come
between the two changes that a pairing makes to it.

`paired_by_pin` says that a certificate is paired only after a PIN was entered for the request that
brought it, and after a proof that its client has that PIN.
-/

namespace RgspCast.Pairing

open Layout Transition
open Aes128Ecb (ecb ecb_ecb)
open Clients (PendingClient Pending)
open Unpair (StateData Store SaveFault PairedLabel)

/-! ## The cryptography -/

/-- What the crates compute. -/
structure Crypto where
  sha256 : Bytes → Bytes
  /-- `Aes128::encrypt_block`, from the key. -/
  encryptBlock : Bytes → Bytes → Bytes
  decryptBlock : Bytes → Bytes → Bytes
  /-- The contents that `parse_x509_pem` finds. -/
  pemContents : String → Option Bytes
  /-- `signature_value` of the certificate that `parse_x509` finds. -/
  signatureValue : Bytes → Option Bytes
  /-- The public key of such a certificate verifies a signature. -/
  verify : Bytes → Bytes → Bytes → Bool
  /-- `sign`, with the private key of a PEM. -/
  sign : String → Bytes → Option Bytes

/-- What the crates do: a hash has 32 bytes, and a block that is encrypted is decrypted. -/
structure CryptoLaw (C : Crypto) : Prop where
  length_sha256 : ∀ data, (C.sha256 data).length = 32
  length_encryptBlock : ∀ key block, key.length = 16 → block.length = 16 →
    (C.encryptBlock key block).length = 16
  decryptBlock : ∀ key block, key.length = 16 → block.length = 16 →
    C.decryptBlock key (C.encryptBlock key block) = block

variable (C : Crypto)

/-- `create_key`. -/
def createKey (salt : Bytes) (pin : String) : Bytes :=
  (C.sha256 (salt ++ pin.toUTF8.toList)).take 16

/-- `aes_encrypt_ecb`. -/
def aesEncryptEcb (data key : Bytes) : Option Bytes := ecb (C.encryptBlock key) data

/-- `aes_decrypt_ecb`. -/
def aesDecryptEcb (data key : Bytes) : Option Bytes := ecb (C.decryptBlock key) data

/-- `extract_certificate_signature`. -/
def extractCertificateSignature (pem : String) : Option Bytes :=
  (C.pemContents pem).bind C.signatureValue

/-- `verify_client_signature`. -/
def verifyClientSignature (pem : String) (secret signature : Bytes) : Bool :=
  match C.pemContents pem with
  | some contents => C.verify contents secret signature
  | none => false

/-- `hex::encode`. -/
def hexEncode (data : Bytes) : String :=
  String.ofList (data.flatMap fun b =>
    [Nat.digitChar (b.toNat / 16), Nat.digitChar (b.toNat % 16)])

/-- `cert_pem_fingerprint`. -/
def certPemFingerprint (pem : String) : Option String :=
  (C.pemContents pem).map fun contents => hexEncode (C.sha256 contents)

/-! ## The manager -/

/-- `ClientManager`. -/
structure ClientManager where
  pending : Pending
  store : Store
  serverCertPem : String
  serverPrivateKeyPem : String

/-- `ClientManager::new`, with the state that was loaded. -/
def ClientManager.new (store : Store) (serverCertPem serverPrivateKeyPem : String) :
    ClientManager where
  pending := Registry.empty _
  store := store
  serverCertPem := serverCertPem
  serverPrivateKeyPem := serverPrivateKeyPem

/-- `register_pin`: whether there is such a client. -/
def registerPin (m : Pending) (id pin : String) : Bool × Pending :=
  match m.get? id with
  | none => (false, m)
  | some c =>
    (true, m.modify id (fun c' => { c' with key := some (createKey C c.salt pin) }) fun _ => rfl)

/-- `client_challenge`: the response. `serverSecret` and `serverChallenge` are what the random
source gives. -/
def clientChallenge (serverCertPem : String) (m : Pending) (id : String) (challenge : Bytes)
    (serverSecret serverChallenge : Option Bytes) : Option Bytes × Pending :=
  match (m.get? id).bind (·.key), serverSecret with
  | some key, some secret =>
    let m := m.modify id (fun c => { c with serverSecret := some secret }) fun _ => rfl
    match aesDecryptEcb C challenge key, extractCertificateSignature C serverCertPem,
      serverChallenge with
    | some decrypted, some signature, some serverChallenge =>
      (aesEncryptEcb C (C.sha256 (decrypted ++ signature ++ secret) ++ serverChallenge) key,
        m.modify id (fun c => { c with serverChallenge := some serverChallenge }) fun _ => rfl)
    | _, _, _ => (none, m)
  | _, _ => (none, m)

/-- `server_challenge_response`: the pairing secret. -/
def serverChallengeResponse (serverPrivateKeyPem : String) (m : Pending) (id : String)
    (challengeResponse : Bytes) : Option Bytes × Pending :=
  match m.get? id with
  | none => (none, m)
  | some c =>
    match c.key.bind (aesDecryptEcb C challengeResponse) with
    | none => (none, m)
    | some decrypted =>
      (c.serverSecret.bind fun secret => (C.sign serverPrivateKeyPem secret).map (secret ++ ·),
        m.modify id (fun c => { c with clientHash := some decrypted }) fun _ => rfl)

/-- `verify_pairing_secret`: whether it returns `Ok`. -/
def verifyPairingSecret (c : PendingClient) (clientSecret : Bytes) : Bool :=
  match c.clientHash, c.serverChallenge with
  | some clientHash, some serverChallenge =>
    if clientSecret.length < 16 then false
    else
      match extractCertificateSignature C c.pem with
      | none => false
      | some signature =>
        C.sha256 (serverChallenge ++ signature ++ clientSecret.take 16) = clientHash &&
          verifyClientSignature C c.pem (clientSecret.take 16) (clientSecret.drop 16)
  | _, _ => false

variable (toStringPretty : StateData → Bytes)

/-- `add_paired_cert`: whether it returns `Ok`. -/
def addPairedCert (s : Store) (fingerprint : String) (name address : Option String)
    (fault : Option SaveFault) : Bool × Store :=
  Store.save toStringPretty
    { s with
      data := { s.data with
        pairedCerts := insert fingerprint s.data.pairedCerts
        pairedLabels := s.data.pairedLabels.insert (fingerprint, ⟨name, address⟩) } } fault

/-- `has_client`, and `add_client` where it says no: whether both return `Ok`. -/
def addClient (s : Store) (client : String) (fault : Option SaveFault) : Bool × Store :=
  if client ∈ s.data.clients then (true, s)
  else
    Store.save toStringPretty
      { s with data := { s.data with clients := insert client s.data.clients } } fault

/-- The unpairings of other threads, one after the other. -/
def unpairs (s : Store) (others : List (Unpair.Env × String)) : Store :=
  others.foldl (fun s other => (Unpair.clientManagerUnpair toStringPretty other.1 s other.2).2) s

/-- The certificate of a client is paired, if it has a fingerprint. -/
def pairCert (s : Store) (c : PendingClient) (fault : Option SaveFault) : Bool × Store :=
  match certPemFingerprint C c.pem with
  | some fingerprint => addPairedCert toStringPretty s fingerprint c.name c.address fault
  | none => (true, s)

/-- `check_client_pairing_secret`: whether it returns `Ok`. The faults are those of the two saves;
`others` are the unpairings between them, which wait for the lock of the state only. -/
def checkClientPairingSecret (m : ClientManager) (id : String) (clientSecret : Bytes)
    (certFault : Option SaveFault) (others : List (Unpair.Env × String))
    (clientFault : Option SaveFault) : Bool × ClientManager :=
  match m.pending.get? id with
  | none => (false, m)
  | some c =>
    if verifyPairingSecret C c clientSecret then
      match pairCert C toStringPretty m.store c certFault with
      | (false, store) => (false, { m with store := store })
      | (true, store) =>
        match addClient toStringPretty (unpairs toStringPretty store others) id clientFault with
        | (false, store) => (false, { m with store := store })
        | (true, store) => (true, { m with store := store, pending := m.pending.remove id })
    else (false, m)

/-- `pending_changed.notify_waiters()`, after a call that has changed something. -/
def ClientManager.notify (m : ClientManager) (changed : Bool) : ClientManager :=
  if changed then { m with store := { m.store with notified := m.store.notified + 1 } } else m

/-- The calls of the manager. -/
inductive Call where
  | addPending (id pem : String) (salt : Bytes) (name address : Option String) (handler now : ℕ)
  | registerPin (id pin : String)
  | clientChallenge (id : String) (challenge : Bytes) (serverSecret serverChallenge : Option Bytes)
  | serverChallengeResponse (id : String) (challengeResponse : Bytes)
  | checkClientPairingSecret (id : String) (clientSecret : Bytes) (certFault : Option SaveFault)
      (others : List (Unpair.Env × String)) (clientFault : Option SaveFault)
  /-- `pending_clients`. -/
  | pendingClients (now : ℕ)
  /-- The drop of an armed `PendingClientGuard`. -/
  | dropGuard (id : String)
  | unpair (env : Unpair.Env) (fingerprint : String)

/-- A call: what it returns, `none` being `Err(())`, and the manager after it. -/
def ClientManager.call (m : ClientManager) : Call → Option Bytes × ClientManager
  | .addPending id pem salt name address handler now =>
    let pending := Clients.addPending m.pending id pem salt name address handler now
    (some [], { m with pending := pending }.notify true)
  | .registerPin id pin =>
    let (ok, pending) := registerPin C m.pending id pin
    (if ok then some [] else none, { m with pending := pending }.notify ok)
  | .clientChallenge id challenge serverSecret serverChallenge =>
    let (response, pending) :=
      clientChallenge C m.serverCertPem m.pending id challenge serverSecret serverChallenge
    (response, { m with pending := pending }.notify response.isSome)
  | .serverChallengeResponse id challengeResponse =>
    let (secret, pending) :=
      serverChallengeResponse C m.serverPrivateKeyPem m.pending id challengeResponse
    (secret, { m with pending := pending }.notify secret.isSome)
  | .checkClientPairingSecret id clientSecret certFault others clientFault =>
    let (ok, m) :=
      checkClientPairingSecret C toStringPretty m id clientSecret certFault others clientFault
    (if ok then some [] else none, m.notify ok)
  | .pendingClients now =>
    let (removed, pending) := Clients.expireStalePending m.pending now
    (some [], { m with pending := pending }.notify removed)
  | .dropGuard id =>
    let (removed, pending) := Clients.removePending m.pending id
    (some [], { m with pending := pending }.notify removed)
  | .unpair env fingerprint =>
    let (removed, store) := Unpair.clientManagerUnpair toStringPretty env m.store fingerprint
    (removed.map fun _ => [], { m with store := store })

/-- A call as a step. -/
def step (m : ClientManager) (call : Call) : Option ClientManager :=
  some (m.call C toStringPretty call).2

/-- The manager after the calls. -/
def ClientManager.after (m : ClientManager) (calls : List Call) : ClientManager :=
  calls.foldl (fun m call => (m.call C toStringPretty call).2) m

/-- A run of calls never gets stuck. -/
theorem run_step (m : ClientManager) (calls : List Call) :
    run (step C toStringPretty) m calls = some (m.after C toStringPretty calls) := by
  induction calls generalizing m with
  | nil => rfl
  | cons call calls ih => exact ih _

/-- The calls before one call, the call, and those behind it. -/
theorem after_append_cons (m : ClientManager) (as : List Call) (call : Call) (bs : List Call) :
    m.after C toStringPretty (as ++ call :: bs) =
      ((m.after C toStringPretty as).call C toStringPretty call).2.after C toStringPretty bs :=
  List.foldl_append

@[simp] theorem notify_pending (m : ClientManager) (changed : Bool) :
    (m.notify changed).pending = m.pending := by
  cases changed <;> rfl

@[simp] theorem notify_data (m : ClientManager) (changed : Bool) :
    (m.notify changed).store.data = m.store.data := by
  cases changed <;> rfl

/-! ## Where a pending client comes from -/

/-- The call files a new client under the id. -/
def Call.Registers (id : String) : Call → Prop
  | .addPending id' .. => id' = id
  | _ => False

variable {toStringPretty}

/-- What the fields of a client come from, in the calls after the one that filed it. -/
structure Stems (after : List Call) (c : PendingClient) : Prop where
  single : ∀ call ∈ after, ¬ call.Registers c.id
  key : ∀ k, c.key = some k →
    ∃ pin, .registerPin c.id pin ∈ after ∧ k = createKey C c.salt pin
  clientHash : ∀ h, c.clientHash = some h →
    ∃ pin response,
      [.registerPin c.id pin, .serverChallengeResponse c.id response].Sublist after ∧
      aesDecryptEcb C response (createKey C c.salt pin) = some h
  serverChallenge : ∀ ch, c.serverChallenge = some ch →
    ∃ pin challenge secret,
      [.registerPin c.id pin, .clientChallenge c.id challenge secret (some ch)].Sublist after

/-- A pending client was filed by one of the calls, and the rest of it comes from later ones. -/
def Registered (calls : List Call) (c : PendingClient) : Prop :=
  ∃ before after handler now,
    calls = before ++ .addPending c.id c.pem c.salt c.name c.address handler now :: after ∧
    Stems C after c

variable {C}

/-- A call that files no other client under the id leaves everything where it came from. -/
theorem Stems.append {after : List Call} {c : PendingClient} (h : Stems C after c) {call : Call}
    (hcall : ¬ call.Registers c.id) : Stems C (after ++ [call]) c where
  single := by
    intro call' hmem
    rcases List.mem_append.mp hmem with hmem | hmem
    · exact h.single call' hmem
    · rwa [List.mem_singleton.mp hmem]
  key k hk := by
    obtain ⟨pin, hmem, heq⟩ := h.key k hk
    exact ⟨pin, List.mem_append_left _ hmem, heq⟩
  clientHash hash hhash := by
    obtain ⟨pin, response, hsub, hdecrypt⟩ := h.clientHash hash hhash
    exact ⟨pin, response, hsub.trans (List.sublist_append_left _ _), hdecrypt⟩
  serverChallenge ch hch := by
    obtain ⟨pin, challenge, secret, hsub⟩ := h.serverChallenge ch hch
    exact ⟨pin, challenge, secret, hsub.trans (List.sublist_append_left _ _)⟩

/-- A call that does not register the client again. -/
theorem Registered.append {calls : List Call} {c : PendingClient} (h : Registered C calls c)
    {call : Call} (hcall : ¬ call.Registers c.id) : Registered C (calls ++ [call]) c := by
  obtain ⟨before, after, handler, now, rfl, hstems⟩ := h
  exact ⟨before, after ++ [call], handler, now, by simp, hstems.append hcall⟩

/-- A client that is changed by the last call. -/
theorem Registered.change {calls : List Call} {c c' : PendingClient} (h : Registered C calls c)
    {call : Call} (hsame : c'.id = c.id ∧ c'.pem = c.pem ∧ c'.salt = c.salt ∧ c'.name = c.name ∧
      c'.address = c.address)
    (hstems : ∀ after, Stems C after c → Stems C (after ++ [call]) c') :
    Registered C (calls ++ [call]) c' := by
  obtain ⟨before, after, handler, now, rfl, hc⟩ := h
  obtain ⟨hid, hpem, hsalt, hname, haddress⟩ := hsame
  refine ⟨before, after ++ [call], handler, now, ?_, hstems after hc⟩
  rw [hid, hpem, hsalt, hname, haddress]
  simp

/-- One call behind another. -/
theorem sublist_pair {after : List Call} {a b : Call} (h : a ∈ after) :
    [a, b].Sublist (after ++ [b]) :=
  (List.singleton_sublist.mpr h).append (List.Sublist.refl [b])

/-! ## What the calls do to a client -/

/-- The client of one id is another one, and the rest are the same. -/
structure Replaced (m m' : Pending) (id : String) (c c' : PendingClient) : Prop where
  before : m.get? id = some c
  after : ∀ j, m'.get? j = if id = j then some c' else m.get? j

/-- A change of one entry. -/
theorem replaced_modify {m : Pending} {id : String} {c : PendingClient} (h : m.get? id = some c)
    (f : PendingClient → PendingClient) (hf : ∀ c, (f c).id = c.id) :
    Replaced m (m.modify id f hf) id c (f c) where
  before := h
  after j := by
    rw [Registry.get?_modify]
    split_ifs with hid
    · rw [← hid, h]
      rfl
    · rfl

/-- One change after the other. -/
theorem Replaced.trans {m m' m'' : Pending} {id : String} {c c' c'' : PendingClient}
    (h : Replaced m m' id c c') (h' : Replaced m' m'' id c' c'') : Replaced m m'' id c c'' where
  before := h.before
  after j := by
    rw [h'.after, h.after]
    split_ifs <;> rfl

/-- The entry is the new one. -/
theorem Replaced.get? {m m' : Pending} {id : String} {c c' : PendingClient}
    (h : Replaced m m' id c c') : m'.get? id = some c' :=
  (h.after id).trans (if_pos rfl)

/-- `register_pin` gives the client its key. -/
theorem registerPin_cases (C : Crypto) (m : Pending) (id pin : String) :
    m.get? id = none ∧ registerPin C m id pin = (false, m) ∨
      ∃ c, (registerPin C m id pin).1 = true ∧
        Replaced m (registerPin C m id pin).2 id c
          { c with key := some (createKey C c.salt pin) } := by
  unfold registerPin
  cases hget : m.get? id with
  | none => exact Or.inl ⟨rfl, rfl⟩
  | some c => exact Or.inr ⟨c, rfl, replaced_modify hget
    (fun c' => { c' with key := some (createKey C c.salt pin) }) fun _ => rfl⟩

/-- `client_challenge` gives a client that has a key a secret, and a challenge where it got as far
as that. -/
theorem clientChallenge_cases (C : Crypto) (pem : String) (m : Pending) (id : String)
    (challenge : Bytes) (serverSecret serverChallenge : Option Bytes) :
    clientChallenge C pem m id challenge serverSecret serverChallenge = (none, m) ∨
      ∃ c c', c.key.isSome ∧
        (c' = { c with serverSecret := serverSecret } ∨
          ∃ ch, serverChallenge = some ch ∧
            c' = { c with serverSecret := serverSecret, serverChallenge := some ch }) ∧
        Replaced m (clientChallenge C pem m id challenge serverSecret serverChallenge).2 id c
          c' := by
  unfold clientChallenge
  cases hkey : (m.get? id).bind (·.key) with
  | none => exact Or.inl rfl
  | some key =>
    obtain ⟨c, hc, hckey⟩ := Option.bind_eq_some_iff.mp hkey
    cases serverSecret with
    | none => exact Or.inl rfl
    | some secret =>
      -- the server's secret is stored before the challenge is decrypted
      have hfirst := replaced_modify hc (fun c => { c with serverSecret := some secret })
        fun _ => rfl
      right
      simp only
      split
      next decrypted signature ch _ _ =>
        refine ⟨c, _, hckey ▸ rfl, Or.inr ⟨ch, rfl, rfl⟩, ?_⟩
        exact hfirst.trans (replaced_modify hfirst.get?
          (fun c => { c with serverChallenge := some ch }) fun _ => rfl)
      next => exact ⟨c, _, hckey ▸ rfl, Or.inl rfl, hfirst⟩

/-- `server_challenge_response` gives a client that has a key the hash that the response holds. -/
theorem serverChallengeResponse_cases (C : Crypto) (pem : String) (m : Pending) (id : String)
    (response : Bytes) :
    serverChallengeResponse C pem m id response = (none, m) ∨
      ∃ c key hash, c.key = some key ∧ aesDecryptEcb C response key = some hash ∧
        Replaced m (serverChallengeResponse C pem m id response).2 id c
          { c with clientHash := some hash } := by
  unfold serverChallengeResponse
  cases hget : m.get? id with
  | none => exact Or.inl rfl
  | some c =>
    simp only
    cases hhash : c.key.bind (aesDecryptEcb C response) with
    | none => exact Or.inl rfl
    | some hash =>
      obtain ⟨key, hkey, hdecrypt⟩ := Option.bind_eq_some_iff.mp hhash
      exact Or.inr ⟨c, key, hash, hkey, hdecrypt, replaced_modify hget
        (fun c => { c with clientHash := some hash }) fun _ => rfl⟩

/-- `check_client_pairing_secret` accepts the secret of a client that it then takes away, if both
saves go through, or it leaves everything. -/
theorem checkClientPairingSecret_cases (C : Crypto) (toStringPretty : StateData → Bytes)
    (m : ClientManager) (id : String) (clientSecret : Bytes) (certFault : Option SaveFault)
    (others : List (Unpair.Env × String)) (clientFault : Option SaveFault) :
    checkClientPairingSecret C toStringPretty m id clientSecret certFault others clientFault =
        (false, m) ∨
      ∃ c ok store, m.pending.get? id = some c ∧ verifyPairingSecret C c clientSecret = true ∧
        checkClientPairingSecret C toStringPretty m id clientSecret certFault others clientFault =
          (ok, { m with
            store := store, pending := if ok then m.pending.remove id else m.pending }) ∧
        (store = (pairCert C toStringPretty m.store c certFault).2 ∨
          store = (addClient toStringPretty (unpairs toStringPretty
            (pairCert C toStringPretty m.store c certFault).2 others) id clientFault).2) := by
  unfold checkClientPairingSecret
  cases hget : m.pending.get? id with
  | none => exact Or.inl rfl
  | some c =>
    simp only
    by_cases hverify : verifyPairingSecret C c clientSecret = true
    · rw [if_pos hverify]
      right
      rcases hpair : pairCert C toStringPretty m.store c certFault with ⟨_ | _, store⟩
      · exact ⟨c, false, store, rfl, hverify, rfl, Or.inl (hpair ▸ rfl)⟩
      · simp only
        rcases hadd : addClient toStringPretty (unpairs toStringPretty store others) id
          clientFault with ⟨ok, store'⟩
        refine ⟨c, ok, store', rfl, hverify, ?_, Or.inr (hpair ▸ hadd ▸ rfl)⟩
        cases ok <;> rfl
    · rw [if_neg hverify]
      exact Or.inl rfl

/-! ## The calls with their outcomes as arguments -/

/-- The call is that of the model of the entries, with the key of the PIN. -/
theorem registerPin_eq (C : Crypto) (m : Pending) (id pin : String) :
    registerPin C m id pin =
      match Clients.registerPin m id ((m.get? id).map fun c => createKey C c.salt pin) with
      | some (_, m') => (true, m')
      | none => (false, m) := by
  unfold registerPin Clients.registerPin
  cases m.get? id <;> rfl

/-- So is the challenge, with what the cipher and the draws came to. -/
theorem clientChallenge_eq (C : Crypto) (pem : String) (m : Pending) (id : String)
    (challenge : Bytes) (serverSecret serverChallenge : Option Bytes) :
    ∃ reached encrypted,
      ((clientChallenge C pem m id challenge serverSecret serverChallenge).1.isSome,
        (clientChallenge C pem m id challenge serverSecret serverChallenge).2) =
        Clients.clientChallenge m id serverSecret (serverChallenge.filter fun _ => reached)
          encrypted := by
  unfold clientChallenge Clients.clientChallenge
  cases (m.get? id).bind (·.key) with
  | none => exact ⟨true, true, rfl⟩
  | some key =>
    cases serverSecret with
    | none => exact ⟨true, true, rfl⟩
    | some secret =>
      simp only
      split
      next decrypted signature ch _ _ =>
        exact ⟨true, (aesEncryptEcb C (C.sha256 (decrypted ++ signature ++ secret) ++ ch)
          key).isSome, rfl⟩
      next =>
        have hnone : ∀ o : Option Bytes, (o.filter fun _ => false) = none := by
          rintro (_ | _) <;> rfl
        refine ⟨false, true, ?_⟩
        rw [hnone]
        rfl

/-- So is the response. -/
theorem serverChallengeResponse_eq (C : Crypto) (pem : String) (m : Pending) (id : String)
    (response : Bytes) :
    ∃ decrypted signed,
      ((serverChallengeResponse C pem m id response).1.isSome,
        (serverChallengeResponse C pem m id response).2) =
        Clients.serverChallengeResponse m id decrypted signed := by
  unfold serverChallengeResponse Clients.serverChallengeResponse
  cases m.get? id with
  | none => exact ⟨none, true, rfl⟩
  | some c =>
    simp only
    cases hhash : c.key.bind (aesDecryptEcb C response) with
    | none => exact ⟨none, true, rfl⟩
    | some hash =>
      obtain ⟨key, hkey, -⟩ := Option.bind_eq_some_iff.mp hhash
      refine ⟨some hash, (c.serverSecret.bind (C.sign pem)).isSome, ?_⟩
      have hsigned :
          (c.serverSecret.bind fun secret => (C.sign pem secret).map (secret ++ ·)).isSome =
            (c.serverSecret.isSome && (c.serverSecret.bind (C.sign pem)).isSome) := by
        cases c.serverSecret with
        | none => rfl
        | some secret => exact Option.isSome_map
      simp only [hsigned, hkey, Option.isSome_some, if_true]

/-- A secret that is accepted here is accepted there. -/
theorem clients_verifyPairingSecret {c : PendingClient} {clientSecret : Bytes}
    (h : verifyPairingSecret C c clientSecret = true) :
    Clients.verifyPairingSecret c clientSecret true = true := by
  unfold verifyPairingSecret at h
  split at h
  next hash ch hhash hch =>
    split_ifs at h with hlen
    simp [Clients.verifyPairingSecret, hhash, hch, Nat.not_lt.mp hlen]
  next => cases h

/-- So is the last call, with what the signature and the saves came to. -/
theorem checkClientPairingSecret_eq (C : Crypto) (toStringPretty : StateData → Bytes)
    (m : ClientManager) (id : String) (clientSecret : Bytes) (certFault : Option SaveFault)
    (others : List (Unpair.Env × String)) (clientFault : Option SaveFault) :
    ∃ accepted saved,
      ((checkClientPairingSecret C toStringPretty m id clientSecret certFault others
        clientFault).1, (checkClientPairingSecret C toStringPretty m id clientSecret certFault
          others clientFault).2.pending) =
        Clients.checkClientPairingSecret m.pending id clientSecret accepted saved := by
  rcases checkClientPairingSecret_cases C toStringPretty m id clientSecret certFault others
    clientFault with hsame | ⟨c, ok, store, hget, hverify, hsame, -⟩
  · refine ⟨true, false, ?_⟩
    rw [hsame, Clients.checkClientPairingSecret]
    cases m.pending.get? id <;> simp
  · have haccepted := clients_verifyPairingSecret hverify
    refine ⟨true, ok, ?_⟩
    rw [hsame, Clients.checkClientPairingSecret, hget]
    cases ok <;> simp [haccepted]

/-! ## Every pending client was registered -/

/-- Every pending client was filed by one of the calls. -/
def AllRegistered (C : Crypto) (calls : List Call) (m : Pending) : Prop :=
  ∀ id c, m.get? id = some c → Registered C calls c

/-- An entry is filed under its own id. -/
theorem id_of_get? {m : Pending} {id : String} {c : PendingClient} (h : m.get? id = some c) :
    c.id = id := (Registry.get?_eq_some_iff.mp h).2

/-- A call that files nobody and changes no entry. -/
theorem AllRegistered.append {calls : List Call} {m m' : Pending} (h : AllRegistered C calls m)
    {call : Call} (hcall : ∀ id, ¬ call.Registers id)
    (hsub : ∀ id c, m'.get? id = some c → m.get? id = some c) :
    AllRegistered C (calls ++ [call]) m' :=
  fun id c hget => (h id c (hsub id c hget)).append (hcall c.id)

/-- A call that changes one entry, of which there is a history to tell. -/
theorem AllRegistered.replace {calls : List Call} {m m' : Pending} (h : AllRegistered C calls m)
    {call : Call} (hcall : ∀ id, ¬ call.Registers id) {id : String} {c c' : PendingClient}
    (hreplaced : Replaced m m' id c c')
    (hsame : c'.id = c.id ∧ c'.pem = c.pem ∧ c'.salt = c.salt ∧ c'.name = c.name ∧
      c'.address = c.address)
    (hstems : ∀ after, Stems C after c → Stems C (after ++ [call]) c') :
    AllRegistered C (calls ++ [call]) m' := by
  intro j d hget
  rw [hreplaced.after] at hget
  split_ifs at hget with hid
  · obtain rfl := Option.some.inj hget
    exact (h id c hreplaced.before).change hsame hstems
  · exact (h j d hget).append (hcall d.id)

/-- A client with a key had its PIN entered. -/
theorem Stems.pin {after : List Call} {c : PendingClient} (h : Stems C after c)
    (hkey : c.key.isSome) :
    ∃ pin, .registerPin c.id pin ∈ after ∧ c.key = some (createKey C c.salt pin) := by
  obtain ⟨key, hkey⟩ := Option.isSome_iff_exists.mp hkey
  obtain ⟨pin, hmem, rfl⟩ := h.key key hkey
  exact ⟨pin, hmem, hkey⟩

/-- The key stems from the PIN. -/
theorem Stems.registerPin {after : List Call} {c : PendingClient} (h : Stems C after c)
    (pin : String) :
    Stems C (after ++ [.registerPin c.id pin]) { c with key := some (createKey C c.salt pin) } :=
  have happend := @Stems.append C after c h (.registerPin c.id pin) not_false
  { single := happend.single
    key := fun k hk => by
      obtain rfl := Option.some.inj hk
      exact ⟨pin, List.mem_append_right _ List.mem_cons_self, rfl⟩
    clientHash := happend.clientHash
    serverChallenge := happend.serverChallenge }

/-- What the server drew stems from the challenge. -/
theorem Stems.clientChallenge {after : List Call} {c c' : PendingClient} (h : Stems C after c)
    (hkey : c.key.isSome) (challenge : Bytes) {serverSecret serverChallenge : Option Bytes}
    (hc' : c' = { c with serverSecret := serverSecret } ∨ ∃ ch, serverChallenge = some ch ∧
      c' = { c with serverSecret := serverSecret, serverChallenge := some ch }) :
    Stems C (after ++ [.clientChallenge c.id challenge serverSecret serverChallenge]) c' := by
  have happend := @Stems.append C after c h
    (.clientChallenge c.id challenge serverSecret serverChallenge) not_false
  rcases hc' with rfl | ⟨ch, rfl, rfl⟩
  · exact { happend with }
  · obtain ⟨pin, hpin, -⟩ := h.pin hkey
    exact { happend with
      serverChallenge := fun ch' hch' => by
        obtain rfl := Option.some.inj hch'
        exact ⟨pin, challenge, serverSecret, sublist_pair hpin⟩ }

/-- The hash stems from the response, under the key of the PIN. -/
theorem Stems.serverChallengeResponse {after : List Call} {c : PendingClient} (h : Stems C after c)
    {key hash response : Bytes} (hkey : c.key = some key)
    (hdecrypt : aesDecryptEcb C response key = some hash) :
    Stems C (after ++ [.serverChallengeResponse c.id response])
      { c with clientHash := some hash } :=
  have happend := @Stems.append C after c h (.serverChallengeResponse c.id response) not_false
  { happend with
    clientHash := fun hash' hhash' => by
      obtain rfl := Option.some.inj hhash'
      obtain ⟨pin, hpin, rfl⟩ := h.key key hkey
      exact ⟨pin, response, sublist_pair hpin, hdecrypt⟩ }

/-- Every call keeps the history of the entries, case by case. -/
theorem allRegistered_step {calls : List Call} {m : ClientManager}
    (h : AllRegistered C calls m.pending) (call : Call) :
    AllRegistered C (calls ++ [call]) (m.call C toStringPretty call).2.pending := by
  have hremove : ∀ (id : String) {j : String} {c : PendingClient},
      (m.pending.remove id).get? j = some c → m.pending.get? j = some c := by
    intro id j c hget
    rw [Registry.get?_remove] at hget
    split_ifs at hget
    exact hget
  cases call with
  -- a client that is filed anew has no history, and the others keep theirs
  | addPending id pem salt name address handler now =>
    intro j c hget
    simp only [ClientManager.call, notify_pending, Clients.addPending, Registry.get?_insert]
      at hget
    split_ifs at hget with hid
    · obtain rfl := Option.some.inj hget
      refine ⟨calls, [], handler, now, rfl, List.forall_mem_nil _, ?_, ?_, ?_⟩ <;>
      · intro _ hsome
        cases hsome
    · refine (h j c hget).append fun hregisters => hid ?_
      exact hregisters.trans (id_of_get? hget)
  | registerPin id pin =>
    simp only [ClientManager.call, notify_pending]
    rcases registerPin_cases C m.pending id pin with ⟨-, hsame⟩ | ⟨c, -, hreplaced⟩
    · rw [hsame]
      exact h.append (fun _ => not_false) fun _ _ hget => hget
    · obtain rfl := id_of_get? hreplaced.before
      exact h.replace (fun _ => not_false) hreplaced ⟨rfl, rfl, rfl, rfl, rfl⟩
        fun after hc => hc.registerPin pin
  | clientChallenge id challenge serverSecret serverChallenge =>
    simp only [ClientManager.call, notify_pending]
    rcases clientChallenge_cases C m.serverCertPem m.pending id challenge serverSecret
      serverChallenge with hsame | ⟨c, c', hkey, hc', hreplaced⟩
    · rw [hsame]
      exact h.append (fun _ => not_false) fun _ _ hget => hget
    · obtain rfl := id_of_get? hreplaced.before
      refine h.replace (fun _ => not_false) hreplaced ?_
        fun after hc => hc.clientChallenge hkey challenge hc'
      rcases hc' with rfl | ⟨ch, -, rfl⟩
      · exact ⟨rfl, rfl, rfl, rfl, rfl⟩
      · exact ⟨rfl, rfl, rfl, rfl, rfl⟩
  | serverChallengeResponse id response =>
    simp only [ClientManager.call, notify_pending]
    rcases serverChallengeResponse_cases C m.serverPrivateKeyPem m.pending id response with
      hsame | ⟨c, key, hash, hkey, hdecrypt, hreplaced⟩
    · rw [hsame]
      exact h.append (fun _ => not_false) fun _ _ hget => hget
    · obtain rfl := id_of_get? hreplaced.before
      exact h.replace (fun _ => not_false) hreplaced ⟨rfl, rfl, rfl, rfl, rfl⟩
        fun after hc => hc.serverChallengeResponse hkey hdecrypt
  | checkClientPairingSecret id clientSecret certFault others clientFault =>
    refine h.append (fun _ => not_false) fun j c hget => ?_
    simp only [ClientManager.call, notify_pending] at hget
    rcases checkClientPairingSecret_cases C toStringPretty m id clientSecret certFault others
      clientFault with hsame | ⟨_, ok, _, _, _, hsame, _⟩
    · rwa [hsame] at hget
    · rw [hsame] at hget
      cases ok with
      | false => exact hget
      | true => exact hremove id hget
  -- sweeps and guards only take entries away
  | pendingClients now =>
    refine h.append (fun _ => not_false) fun j c hget => ?_
    simp only [ClientManager.call, notify_pending, Clients.expireStalePending,
      Registry.get?_retain] at hget
    exact (Option.filter_eq_some_iff.mp hget).1
  | dropGuard id =>
    refine h.append (fun _ => not_false) fun j c hget => ?_
    simp only [ClientManager.call, notify_pending] at hget
    exact hremove id hget
  | unpair env fingerprint => exact h.append (fun _ => not_false) fun j c hget => hget

/-! ## Every pairing had its PIN -/

/-- An unpairing, whatever becomes of its save. -/
theorem data_unpair (toStringPretty : StateData → Bytes) (env : Unpair.Env) (s : Store)
    (fingerprint : String) :
    (Unpair.clientManagerUnpair toStringPretty env s fingerprint).2.data =
      if env.lock then (s.data.removePairedCert fingerprint).2 else s.data := by
  unfold Unpair.clientManagerUnpair Store.removePairedCert
  cases env.lock with
  | false => rfl
  | true =>
    simp only [if_true]
    rcases s.data.removePairedCert fingerprint with ⟨_ | _, data⟩
    · rfl
    · have hsave : (Store.save toStringPretty { s with data := data } env.fault).2.data = data :=
        rfl
      rcases hsaved : Store.save toStringPretty { s with data := data } env.fault with
        ⟨_ | _, s'⟩ <;>
      · rw [hsaved] at hsave
        simpa [hsaved] using hsave

/-- Unpairing adds no certificate. -/
theorem pairedCerts_unpair (toStringPretty : StateData → Bytes) (env : Unpair.Env) (s : Store)
    (fingerprint : String) :
    (Unpair.clientManagerUnpair toStringPretty env s fingerprint).2.data.pairedCerts ⊆
      s.data.pairedCerts := by
  rw [data_unpair]
  split_ifs
  · exact Finset.erase_subset fingerprint s.data.pairedCerts
  · exact Finset.Subset.refl _

/-- Nor do any number of unpairings. -/
theorem pairedCerts_unpairs (toStringPretty : StateData → Bytes)
    (others : List (Unpair.Env × String)) (s : Store) :
    (unpairs toStringPretty s others).data.pairedCerts ⊆ s.data.pairedCerts := by
  induction others generalizing s with
  | nil => exact Finset.Subset.refl _
  | cons other others ih =>
    exact (ih _).trans (pairedCerts_unpair toStringPretty other.1 s other.2)

/-- Nor does adding an id. -/
theorem pairedCerts_addClient (toStringPretty : StateData → Bytes) (s : Store) (client : String)
    (fault : Option SaveFault) :
    (addClient toStringPretty s client fault).2.data.pairedCerts = s.data.pairedCerts := by
  unfold addClient
  split_ifs <;> rfl

/-- Only the certificate of the client is paired. -/
theorem mem_pairCert {C : Crypto} {toStringPretty : StateData → Bytes} {s : Store}
    {c : PendingClient} {fault : Option SaveFault} {fingerprint : String}
    (h : fingerprint ∈ (pairCert C toStringPretty s c fault).2.data.pairedCerts) :
    fingerprint ∈ s.data.pairedCerts ∨ certPemFingerprint C c.pem = some fingerprint := by
  unfold pairCert at h
  cases hfinger : certPemFingerprint C c.pem with
  | none =>
    rw [hfinger] at h
    exact Or.inl h
  | some own =>
    rw [hfinger] at h
    rcases Finset.mem_insert.mp h with rfl | h
    · exact Or.inr rfl
    · exact Or.inl h

/-- In these calls a PIN was entered for the id, and then the client of the certificate has proved
that it has that PIN, and the private key. -/
def ProvedPin (C : Crypto) (after : List Call) (id pem : String) (salt clientSecret : Bytes) :
    Prop :=
  ∃ pin response pin' challenge serverSecret serverChallenge signature,
    [.registerPin id pin, .serverChallengeResponse id response].Sublist after ∧
    [.registerPin id pin', .clientChallenge id challenge serverSecret
      (some serverChallenge)].Sublist after ∧
    extractCertificateSignature C pem = some signature ∧
    aesDecryptEcb C response (createKey C salt pin) =
      some (C.sha256 (serverChallenge ++ signature ++ clientSecret.take 16)) ∧
    verifyClientSignature C pem (clientSecret.take 16) (clientSecret.drop 16) = true

/-- A secret that is accepted, together with the history, is the proof of the PIN. -/
theorem Stems.provedPin {after : List Call} {c : PendingClient} (h : Stems C after c)
    {clientSecret : Bytes} (hverify : verifyPairingSecret C c clientSecret = true) :
    ProvedPin C after c.id c.pem c.salt clientSecret := by
  unfold verifyPairingSecret at hverify
  split at hverify
  next hash ch hhash hch =>
    split_ifs at hverify
    split at hverify
    next => cases hverify
    next signature hsignature =>
      obtain ⟨heq, hverified⟩ := (Bool.and_eq_true _ _).mp hverify
      obtain ⟨pin, response, hsub, hdecrypt⟩ := h.clientHash hash hhash
      obtain ⟨pin', challenge, serverSecret, hsub'⟩ := h.serverChallenge ch hch
      refine ⟨pin, response, pin', challenge, serverSecret, ch, signature, hsub, hsub', hsignature,
        ?_, hverified⟩
      rw [of_decide_eq_true heq, hdecrypt]
  next => cases hverify

/-- A call that pairs a certificate: its client was filed before, and has proved that it has the
PIN. -/
def PairedByPin (C : Crypto) (calls : List Call) (fingerprint : String) : Prop :=
  ∃ before id pem salt name address handler now after clientSecret certFault others clientFault
      rest,
    calls = before ++ .addPending id pem salt name address handler now :: after ++
      .checkClientPairingSecret id clientSecret certFault others clientFault :: rest ∧
    (∀ call ∈ after, ¬ call.Registers id) ∧ certPemFingerprint C pem = some fingerprint ∧
    ProvedPin C after id pem salt clientSecret

/-- The proof stays in the history. -/
theorem PairedByPin.append {calls : List Call} {fingerprint : String}
    (h : PairedByPin C calls fingerprint) (call : Call) :
    PairedByPin C (calls ++ [call]) fingerprint := by
  obtain ⟨before, id, pem, salt, name, address, handler, now, after, clientSecret, certFault,
    others, clientFault, rest, rfl, h⟩ := h
  exact ⟨before, id, pem, salt, name, address, handler, now, after, clientSecret, certFault, others,
    clientFault, rest ++ [call], by simp, h⟩

/-- What one call adds to the paired certificates has had its PIN. -/
theorem pairedByPin_step {calls : List Call} {m : ClientManager}
    (h : AllRegistered C calls m.pending) {call : Call} {fingerprint : String}
    (hmem : fingerprint ∈ (m.call C toStringPretty call).2.store.data.pairedCerts) :
    fingerprint ∈ m.store.data.pairedCerts ∨ PairedByPin C (calls ++ [call]) fingerprint := by
  cases call with
  | checkClientPairingSecret id clientSecret certFault others clientFault =>
    simp only [ClientManager.call, notify_data] at hmem
    rcases checkClientPairingSecret_cases C toStringPretty m id clientSecret certFault others
      clientFault with hsame | ⟨c, ok, store, hget, hverify, hsame, hstore⟩
    · rw [hsame] at hmem
      exact Or.inl hmem
    · rw [hsame] at hmem
      -- what `add_client` and the unpairings do next adds no fingerprint
      have hpair : fingerprint ∈
          (pairCert C toStringPretty m.store c certFault).2.data.pairedCerts := by
        rcases hstore with rfl | rfl
        · exact hmem
        · rw [pairedCerts_addClient] at hmem
          exact pairedCerts_unpairs toStringPretty others _ hmem
      refine (mem_pairCert hpair).imp_right fun hfinger => ?_
      obtain rfl := id_of_get? hget
      -- the entry that verified stems from one registration and the calls since
      obtain ⟨before, after, handler, now, rfl, hstems⟩ := h c.id c hget
      exact ⟨before, c.id, c.pem, c.salt, c.name, c.address, handler, now, after, clientSecret,
        certFault, others, clientFault, [], rfl, hstems.single, hfinger, hstems.provedPin hverify⟩
  | unpair env other => exact Or.inl (pairedCerts_unpair toStringPretty env m.store other hmem)
  | _ => exact Or.inl (by simpa only [ClientManager.call, notify_data] using hmem)

/-- **Nothing is paired without its PIN.** Whatever calls are made, in whatever order and by however
many clients, each certificate that they leave paired was so before, or its client filed it, had its
PIN entered after that, and only then answered the challenge it was given with that PIN, and signed
its secret. -/
theorem paired_by_pin (C : Crypto) (toStringPretty : StateData → Bytes) (store : Store)
    (serverCertPem serverPrivateKeyPem : String) (calls : List Call) :
    (((ClientManager.new store serverCertPem serverPrivateKeyPem).after C toStringPretty
      calls).store.data.pairedCerts : Set String) ⊆
      (store.data.pairedCerts : Set String) ∪ {fingerprint | PairedByPin C calls fingerprint} := by
  let inv (calls : List Call) (m : ClientManager) : Prop := AllRegistered C calls m.pending ∧
    ∀ f ∈ m.store.data.pairedCerts, f ∈ store.data.pairedCerts ∨ PairedByPin C calls f
  have hstep : ∀ calls m call m', step C toStringPretty m call = some m' → inv calls m →
      inv (calls ++ [call]) m' := by
    rintro calls m call m' ⟨⟩ ⟨hregistered, hpaired⟩
    refine ⟨allRegistered_step hregistered call, fun f hf => ?_⟩
    rcases pairedByPin_step hregistered hf with hold | hnew
    · exact (hpaired f hold).imp_right fun h => h.append call
    · exact Or.inr hnew
  have hinit : inv [] (ClientManager.new store serverCertPem serverPrivateKeyPem) :=
    ⟨nofun, fun f hf => Or.inl hf⟩
  exact (run_history hstep (run_step C toStringPretty _ calls) hinit).2

end RgspCast.Pairing
