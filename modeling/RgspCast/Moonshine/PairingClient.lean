import Mathlib.Data.Finset.Sort
import Mathlib.Data.String.Basic
import RgspCast.Lib.Sha256
import RgspCast.Moonshine.Pairing

/-!
# A client that pairs

The other end of the handshake, as its test plays it, and what the server does for it while it
answers others: a client that has the PIN is paired (`honest_client_pairs`).
-/

namespace RgspCast.Pairing

open Layout Transition
open Aes128Ecb (ecb_ecb)
open Clients (PendingClient Pending)
open Unpair (StateData Store PairedLabel)

variable {C : Crypto} {toStringPretty : StateData → Bytes}

/-! ## Calls for others -/

/-- The call is not for the client of an id that was filed then, and does not expire it. -/
def Call.Spares (id : String) (since : ℕ) : Call → Prop
  | .addPending id' .. | .registerPin id' _ | .clientChallenge id' .. |
    .serverChallengeResponse id' _ | .checkClientPairingSecret id' .. | .dropGuard id' => id' ≠ id
  | .pendingClients now => now - since < Clients.pendingClientTtl
  | .unpair .. => True

/-- The entry of another id stays. -/
theorem Replaced.get?_of_ne {m m' : Pending} {id id' : String} {c c' : PendingClient}
    (h : Replaced m m' id c c') (hne : id ≠ id') : m'.get? id' = m.get? id' :=
  (h.after id').trans (if_neg hne)

/-- A call that spares a client leaves it as it is. -/
theorem get?_call {m : ClientManager} {id : String} {c : PendingClient}
    (hget : m.pending.get? id = some c) {call : Call} (h : call.Spares id c.createdAt) :
    (m.call C toStringPretty call).2.pending.get? id = some c := by
  -- each handler replaces at most the entry under its own id, and only its fields
  cases call with
  | addPending id' pem salt name address handler now =>
    simp only [ClientManager.call, notify_pending, Clients.addPending, Registry.get?_insert]
    exact (if_neg h).trans hget
  | registerPin id' pin =>
    simp only [ClientManager.call, notify_pending]
    rcases registerPin_cases C m.pending id' pin with ⟨-, hsame⟩ | ⟨c, -, hreplaced⟩
    · rw [hsame, hget]
    · rw [hreplaced.get?_of_ne h, hget]
  | clientChallenge id' challenge serverSecret serverChallenge =>
    simp only [ClientManager.call, notify_pending]
    rcases clientChallenge_cases C m.serverCertPem m.pending id' challenge serverSecret
      serverChallenge with hsame | ⟨c, c', -, -, hreplaced⟩
    · rw [hsame, hget]
    · rw [hreplaced.get?_of_ne h, hget]
  | serverChallengeResponse id' response =>
    simp only [ClientManager.call, notify_pending]
    rcases serverChallengeResponse_cases C m.serverPrivateKeyPem m.pending id' response with
      hsame | ⟨c, key, hash, -, -, hreplaced⟩
    · rw [hsame, hget]
    · rw [hreplaced.get?_of_ne h, hget]
  | checkClientPairingSecret id' clientSecret certFault others clientFault =>
    simp only [ClientManager.call, notify_pending]
    rcases checkClientPairingSecret_cases C toStringPretty m id' clientSecret certFault others
      clientFault with hsame | ⟨_, ok, _, _, _, hsame, _⟩
    · rw [hsame, hget]
    · rw [hsame]
      -- only a proof that verifies takes its entry out
      cases ok with
      | false => exact hget
      | true => exact (Registry.get?_remove _ _ _).trans ((if_neg h).trans hget)
  | pendingClients now =>
    simp only [ClientManager.call, notify_pending, Clients.expireStalePending,
      Registry.get?_retain, hget]
    exact Option.filter_eq_some_iff.mpr ⟨rfl, decide_eq_true h⟩
  | dropGuard id' =>
    simp only [ClientManager.call, notify_pending]
    exact (Registry.get?_remove _ _ _).trans ((if_neg h).trans hget)
  | unpair env fingerprint => exact hget

/-- So it does over any number of calls. -/
theorem get?_after {m : ClientManager} {id : String} {c : PendingClient}
    (hget : m.pending.get? id = some c) {calls : List Call}
    (h : ∀ call ∈ calls, call.Spares id c.createdAt) :
    (m.after C toStringPretty calls).pending.get? id = some c := by
  induction calls generalizing m with
  | nil => exact hget
  | cons call calls ih =>
    obtain ⟨hcall, hcalls⟩ := List.forall_mem_cons.mp h
    exact ih (get?_call hget hcall) hcalls

/-- A call and calls for others behind it. -/
theorem get?_after_cons {m : ClientManager} {as : List Call} {call : Call} {id : String}
    {c : PendingClient}
    (hget : ((m.after C toStringPretty as).call C toStringPretty call).2.pending.get? id = some c)
    {bs : List Call} (h : ∀ call ∈ bs, call.Spares id c.createdAt) :
    (m.after C toStringPretty (as ++ call :: bs)).pending.get? id = some c := by
  rw [after_append_cons]
  exact get?_after hget h

/-- What the server is does not change. -/
theorem server_call (m : ClientManager) (call : Call) :
    (m.call C toStringPretty call).2.serverCertPem = m.serverCertPem ∧
      (m.call C toStringPretty call).2.serverPrivateKeyPem = m.serverPrivateKeyPem := by
  have hnotify : ∀ (m : ClientManager) (changed : Bool),
      (m.notify changed).serverCertPem = m.serverCertPem ∧
        (m.notify changed).serverPrivateKeyPem = m.serverPrivateKeyPem := by
    intro m changed
    cases changed <;> exact ⟨rfl, rfl⟩
  cases call with
  | checkClientPairingSecret id clientSecret certFault others clientFault =>
    simp only [ClientManager.call, hnotify]
    rcases checkClientPairingSecret_cases C toStringPretty m id clientSecret certFault others
      clientFault with hsame | ⟨_, ok, _, _, _, hsame, _⟩ <;>
    · rw [hsame]
      exact ⟨rfl, rfl⟩
  | _ => simp [ClientManager.call, hnotify]

/-- No call changes the server's own certificate and key. -/
theorem server_after (m : ClientManager) (calls : List Call) :
    (m.after C toStringPretty calls).serverCertPem = m.serverCertPem ∧
      (m.after C toStringPretty calls).serverPrivateKeyPem = m.serverPrivateKeyPem := by
  induction calls generalizing m with
  | nil => exact ⟨rfl, rfl⟩
  | cons call calls ih =>
    obtain ⟨hcert, hkey⟩ := @server_call C toStringPretty m call
    exact ⟨(ih _).1.trans hcert, (ih _).2.trans hkey⟩

/-! ## A client with the PIN -/

/-- A client, as the handshake test plays it. -/
structure Client where
  id : String
  pem : String
  salt : Bytes
  pin : String
  /-- `raw_challenge`. -/
  rawChallenge : Bytes
  /-- `client_secret_payload`. -/
  secretPayload : Bytes
  /-- `client_signature`. -/
  signature : Bytes

def Client.key (C : Crypto) (c : Client) : Bytes := createKey C c.salt c.pin

/-- `encrypted_challenge`. -/
def Client.encryptedChallenge (C : Crypto) (c : Client) : Option Bytes :=
  aesEncryptEcb C c.rawChallenge (c.key C)

/-- `encrypted_client_hash`, for what `client_challenge` has returned. -/
def Client.encryptedClientHash (C : Crypto) (c : Client) (challengeResponse : Bytes) :
    Option Bytes := do
  let decrypted ← aesDecryptEcb C challengeResponse (c.key C)
  let clientCertSignature ← extractCertificateSignature C c.pem
  aesEncryptEcb C
    (C.sha256 (slice 32 16 decrypted ++ clientCertSignature ++ c.secretPayload)) (c.key C)

/-- The key has the length that the cipher wants. -/
theorem length_createKey (law : CryptoLaw C) (salt : Bytes) (pin : String) :
    (createKey C salt pin).length = 16 := by
  rw [createKey, List.length_take, law.length_sha256]
  rfl

/-- What is encrypted with the key of a client is decrypted with it. -/
theorem aesDecryptEcb_aesEncryptEcb (law : CryptoLaw C) {key : Bytes} (hkey : key.length = 16)
    {data : Bytes} (h : data.length % 16 = 0) :
    ∃ encrypted, aesEncryptEcb C data key = some encrypted ∧
      aesDecryptEcb C encrypted key = some data :=
  ecb_ecb (fun b hb => law.length_encryptBlock key b hkey hb)
    (fun b hb => law.decryptBlock key b hkey hb) h

/-- The calls of a client, one by one. -/
theorem registerPin_get? {m : ClientManager} {id : String} {p : PendingClient}
    (hget : m.pending.get? id = some p) (pin : String) :
    (m.call C toStringPretty (.registerPin id pin)).2.pending.get? id =
      some { p with key := some (createKey C p.salt pin) } := by
  simp only [ClientManager.call, notify_pending]
  rcases registerPin_cases C m.pending id pin with ⟨hnone, -⟩ | ⟨c, -, hreplaced⟩
  · rw [hget] at hnone
    cases hnone
  · obtain rfl := Option.some.inj (hget.symm.trans hreplaced.before)
    exact hreplaced.get?

/-- What the challenge gives, and the entry behind it. -/
theorem clientChallenge_get? {m : ClientManager} {id : String} {p : PendingClient}
    (hget : m.pending.get? id = some p) {key challenge decrypted signature : Bytes}
    (hkey : p.key = some key) (hdecrypted : aesDecryptEcb C challenge key = some decrypted)
    (hsignature : extractCertificateSignature C m.serverCertPem = some signature)
    (serverSecret serverChallenge : Bytes) :
    let r := m.call C toStringPretty
      (.clientChallenge id challenge (some serverSecret) (some serverChallenge))
    r.1 = aesEncryptEcb C (C.sha256 (decrypted ++ signature ++ serverSecret) ++ serverChallenge)
        key ∧
      r.2.pending.get? id = some { p with
        serverSecret := some serverSecret, serverChallenge := some serverChallenge } := by
  simp only [ClientManager.call, notify_pending, clientChallenge, hget, Option.bind_some, hkey,
    hdecrypted, hsignature, Registry.get?_modify, if_true, Option.map_some, true_and]

/-- What the response gives, and the entry behind it. -/
theorem serverChallengeResponse_get? {m : ClientManager} {id : String} {p : PendingClient}
    (hget : m.pending.get? id = some p) {key response hash serverSecret : Bytes}
    (hkey : p.key = some key) (hdecrypted : aesDecryptEcb C response key = some hash)
    (hsecret : p.serverSecret = some serverSecret) :
    let r := m.call C toStringPretty (.serverChallengeResponse id response)
    r.1 = (C.sign m.serverPrivateKeyPem serverSecret).map (serverSecret ++ ·) ∧
      r.2.pending.get? id = some { p with clientHash := some hash } := by
  simp only [ClientManager.call, notify_pending, serverChallengeResponse, hget, Option.bind_some,
    hkey, hdecrypted, hsecret, Registry.get?_modify, if_true, Option.map_some, true_and]

/-- The certificate is paired, with a label. -/
def Labelled (d : StateData) (fingerprint : String) (label : PairedLabel) : Prop :=
  fingerprint ∈ d.pairedCerts ∧ d.pairedLabels.get? fingerprint = some (fingerprint, label)

/-- Unpairing other certificates leaves it so. -/
theorem labelled_unpairs {others : List (Unpair.Env × String)} {s : Store} {fingerprint : String}
    {label : PairedLabel} (h : Labelled s.data fingerprint label)
    (hothers : ∀ other ∈ others, other.2 ≠ fingerprint) :
    Labelled (unpairs toStringPretty s others).data fingerprint label := by
  induction others generalizing s with
  | nil => exact h
  | cons other others ih =>
    obtain ⟨hother, hothers⟩ := List.forall_mem_cons.mp hothers
    refine ih ?_ hothers
    rw [data_unpair]
    split_ifs
    · refine ⟨Finset.mem_erase_of_ne_of_mem hother.symm h.1, ?_⟩
      exact (Registry.get?_remove _ _ _).trans ((if_neg hother).trans h.2)
    · exact h

/-- A client is paired, and no longer pending. -/
structure Paired (m : ClientManager) (id fingerprint : String) (label : PairedLabel) : Prop where
  labelled : Labelled m.store.data fingerprint label
  client : id ∈ m.store.data.clients
  gone : m.pending.get? id = none

/-- A secret that verifies pairs the client, where both saves succeed. -/
theorem checkClientPairingSecret_paired {m : ClientManager} {id : String} {p : PendingClient}
    (hget : m.pending.get? id = some p) {clientSecret : Bytes}
    (hverify : verifyPairingSecret C p clientSecret = true) {fingerprint : String}
    (hfinger : certPemFingerprint C p.pem = some fingerprint)
    {others : List (Unpair.Env × String)} (hothers : ∀ other ∈ others, other.2 ≠ fingerprint) :
    let r := m.call C toStringPretty (.checkClientPairingSecret id clientSecret none others none)
    r.1 = some [] ∧ Paired r.2 id fingerprint ⟨p.name, p.address⟩ := by
  have hpair : pairCert C toStringPretty m.store p none =
      addPairedCert toStringPretty m.store fingerprint p.name p.address none := by
    rw [pairCert, hfinger]
  obtain ⟨store, hadded, hlabelled⟩ : ∃ store,
      pairCert C toStringPretty m.store p none = (true, store) ∧
        Labelled store.data fingerprint ⟨p.name, p.address⟩ := by
    refine ⟨_, hpair, Finset.mem_insert_self _ _, ?_⟩
    exact (Registry.get?_insert _ _ _).trans (if_pos rfl)
  -- the unpairings between the two saves are of other certificates
  have hkept := @labelled_unpairs toStringPretty others store fingerprint _ hlabelled hothers
  obtain ⟨store', hsaved, hlabelled', hclient⟩ : ∃ store',
      addClient toStringPretty (unpairs toStringPretty store others) id none = (true, store') ∧
        Labelled store'.data fingerprint ⟨p.name, p.address⟩ ∧ id ∈ store'.data.clients := by
    unfold addClient
    split_ifs with hmem
    · exact ⟨_, rfl, hkept, hmem⟩
    · exact ⟨_, rfl, hkept, Finset.mem_insert_self _ _⟩
  simp only [ClientManager.call, checkClientPairingSecret, hget, hverify, if_true, hadded, hsaved]
  refine ⟨trivial, ⟨?_, ?_, ?_⟩⟩
  · rw [notify_data]
    exact hlabelled'
  · rw [notify_data]
    exact hclient
  · rw [notify_pending]
    exact (Registry.get?_remove _ _ _).trans (if_pos rfl)

/-- The secret of a client that has answered the challenge is accepted. -/
theorem verifyPairingSecret_of_hash {p : PendingClient} {c : Client}
    {serverChallenge clientSignature : Bytes} (hpem : p.pem = c.pem)
    (hchallenge : p.serverChallenge = some serverChallenge)
    (hhash : p.clientHash =
      some (C.sha256 (serverChallenge ++ clientSignature ++ c.secretPayload)))
    (hpayload : c.secretPayload.length = 16)
    (hclient : extractCertificateSignature C c.pem = some clientSignature)
    (hverify : verifyClientSignature C c.pem c.secretPayload c.signature = true) :
    verifyPairingSecret C p (c.secretPayload ++ c.signature) = true := by
  have hlen : ¬ (c.secretPayload ++ c.signature).length < 16 := by
    rw [List.length_append, hpayload]
    omega
  simp only [verifyPairingSecret, hpem, hchallenge, hhash, if_neg hlen, hclient,
    List.take_left' hpayload, List.drop_left' hpayload, hverify, decide_true, Bool.and_self]

/-- **A client with the PIN is paired**, whatever calls for others come in between: it gets the
proof that the server has the PIN too, and its secret is accepted. The server draws its random
values and saves its state, both times, and nobody unpairs the same certificate between the two
saves; the client's side is in order, its signature included. -/
theorem honest_client_pairs (law : CryptoLaw C) (m : ClientManager) (c : Client)
    {name address : Option String} {handler now : ℕ} {o₁ o₂ o₃ o₄ : List Call}
    (hspares : ∀ call ∈ o₁ ++ o₂ ++ o₃ ++ o₄, call.Spares c.id now)
    {others : List (Unpair.Env × String)} {fingerprint : String}
    (hfinger : certPemFingerprint C c.pem = some fingerprint)
    (hothers : ∀ other ∈ others, other.2 ≠ fingerprint)
    (hraw : c.rawChallenge.length = 16) (hpayload : c.secretPayload.length = 16)
    {clientSignature serverSignature serverSecret serverChallenge : Bytes}
    (hserverChallenge : serverChallenge.length = 16)
    (hclient : extractCertificateSignature C c.pem = some clientSignature)
    (hserver : extractCertificateSignature C m.serverCertPem = some serverSignature)
    (hverify : verifyClientSignature C c.pem c.secretPayload c.signature = true) :
    ∃ challenge response clientHash,
      let calls₂ := .addPending c.id c.pem c.salt name address handler now :: o₁ ++
        .registerPin c.id c.pin :: o₂
      let calls₃ := calls₂ ++
        .clientChallenge c.id challenge (some serverSecret) (some serverChallenge) :: o₃
      let calls₄ := calls₃ ++ .serverChallengeResponse c.id clientHash :: o₄
      let m₂ := m.after C toStringPretty calls₂
      let m₃ := m.after C toStringPretty calls₃
      let m₄ := m.after C toStringPretty calls₄
      let r := m₄.call C toStringPretty
        (.checkClientPairingSecret c.id (c.secretPayload ++ c.signature) none others none)
      c.encryptedChallenge C = some challenge ∧
      (m₂.call C toStringPretty
        (.clientChallenge c.id challenge (some serverSecret) (some serverChallenge))).1 =
          some response ∧
      aesDecryptEcb C response (c.key C) = some
        (C.sha256 (c.rawChallenge ++ serverSignature ++ serverSecret) ++ serverChallenge) ∧
      c.encryptedClientHash C response = some clientHash ∧
      (m₃.call C toStringPretty (.serverChallengeResponse c.id clientHash)).1 =
        (C.sign m.serverPrivateKeyPem serverSecret).map (serverSecret ++ ·) ∧
      r.1 = some [] ∧ Paired r.2 c.id fingerprint ⟨name, address⟩ := by
  simp only [List.forall_mem_append] at hspares
  obtain ⟨⟨⟨hspares₁, hspares₂⟩, hspares₃⟩, hspares₄⟩ := hspares
  have hkey : (c.key C).length = 16 := length_createKey law c.salt c.pin
  -- what the client sends, and what it gets
  obtain ⟨challenge, hchallenge, hrawdecrypted⟩ := @aesDecryptEcb_aesEncryptEcb C law _ hkey
    c.rawChallenge (by rw [hraw])
  obtain ⟨response, hresponse, hdecrypted⟩ := @aesDecryptEcb_aesEncryptEcb C law _ hkey
    (C.sha256 (c.rawChallenge ++ serverSignature ++ serverSecret) ++ serverChallenge)
    (by rw [List.length_append, law.length_sha256, hserverChallenge])
  obtain ⟨clientHash, hclientHash, hhash⟩ := @aesDecryptEcb_aesEncryptEcb C law _ hkey
    (C.sha256 (serverChallenge ++ clientSignature ++ c.secretPayload))
    (by rw [law.length_sha256])
  have hslice : slice 32 16 (C.sha256 (c.rawChallenge ++ serverSignature ++ serverSecret) ++
      serverChallenge) = serverChallenge := by
    rw [slice, List.drop_left' (law.length_sha256 _), ← hserverChallenge, List.take_length]
  have hreply : c.encryptedClientHash C response = some clientHash := by
    simp only [Client.encryptedClientHash, hdecrypted, hclient, Option.bind_eq_bind,
      Option.bind_some, hslice, hclientHash]
  refine ⟨challenge, response, clientHash, ?_⟩
  intro calls₂ calls₃ calls₄ m₂ m₃ m₄ r
  -- the entry of the client, call by call
  have hadded : ((m.after C toStringPretty []).call C toStringPretty
      (.addPending c.id c.pem c.salt name address handler now)).2.pending.get? c.id =
        some ⟨c.id, name, address, c.pem, c.salt, handler, none, none, none, none, now⟩ := by
    simp only [ClientManager.call, notify_pending, Clients.addPending]
    exact (Registry.get?_insert _ _ _).trans (if_pos rfl)
  have hm₁ := get?_after_cons hadded hspares₁
  have hm₂ := get?_after_cons (registerPin_get? hm₁ c.pin) hspares₂
  have hserver₂ : extractCertificateSignature C m₂.serverCertPem = some serverSignature := by
    rw [(server_after m calls₂).1, hserver]
  obtain ⟨hresponse₂, hchallenged⟩ := clientChallenge_get? hm₂ rfl hrawdecrypted hserver₂
    serverSecret serverChallenge
  have hm₃ := get?_after_cons hchallenged hspares₃
  obtain ⟨hsecret, hanswered⟩ := serverChallengeResponse_get? hm₃ rfl hhash rfl
  have hserverKey := congrArg (fun pem => (C.sign pem serverSecret).map (serverSecret ++ ·))
    (@server_after C toStringPretty m calls₃).2
  have hm₄ := get?_after_cons hanswered hspares₄
  obtain ⟨hok, hpaired⟩ := checkClientPairingSecret_paired hm₄
    (verifyPairingSecret_of_hash rfl rfl rfl hpayload hclient hverify) hfinger hothers
  exact ⟨hchallenge, hresponse₂.trans hresponse, hdecrypted, hreply, hsecret.trans hserverKey, hok,
    hpaired⟩

/-! ## One pairing -/

/-- `value ^ (2 ^ n)`. -/
def squareMod (modulus value : ℕ) : ℕ → ℕ
  | 0 => value
  | n + 1 => squareMod modulus (value * value % modulus) n

/-- The certificate of both ends, of version 1 and with a key of 2048 bits. -/
@[irreducible] def certificatePem : String :=
  String.join (List.map (· ++ "\n")
    ["-----BEGIN CERTIFICATE-----",
     "MIICnDCCAYQCAQEwDQYJKoZIhvcNAQELBQAwFDESMBAGA1UEAwwJTW9vbnNoaW5l",
     "MB4XDTI2MTEyMDA4NDQzOVoXDTQ2MTExNTA4NDQzOVowFDESMBAGA1UEAwwJTW9v",
     "bnNoaW5lMIIBIjANBgkqhkiG9w0BAQEFAAOCAQ8AMIIBCgKCAQEAq9+97qpOmrD0",
     "FEqgHEuR50LrnVlCojsiZpajITHadgx6xSH8L7ze430z67Up1oPPrye0OqBypoRI",
     "NNs2Lu6EvlA94JaeFlqMSWfoph16oqx93L3wa69R1R6zmy9XyP6BXPpQWY+medvV",
     "VBn7+zwwYVScB3uRXtfp4R33vmS7tfOnqRwt5wrvZ4u+3xGtOSSueLNNTM7uCBe1",
     "MWOhnpxAWYBsdmgJ9oYOuR1P2/fn/EwERPblfqtsEDcCSyS6UwgQk+1YmmoOsHMd",
     "g0VriFeSNfIxJJgvlmGNyD8R1RUgycXl9+FVHYTMaUdTT+8KrTx9Dtff2UlU+dj4",
     "7GH+MUJ3SwIDAQABMA0GCSqGSIb3DQEBCwUAA4IBAQAg+azS0fO7T3Aqg1t1RClH",
     "xtCcej+cIBFDdfJSWhOeO/kmeY6c/HrGsxsto8/TWRQfkoavy0uKR/W4sBMo+B8W",
     "RhF5eU54wtV1axna0WZC96NQwicTf1DC9s3hPd/lyfl6CZFAGYTuU7uHqV7pDuNZ",
     "R8d6Vw6jF7qLONTjIAffi6hy1tYfEB7emQg3ltjmEaLWmSDBGIQR2U77sXMONmGA",
     "gDLmXQh35k2ytVN+IMgHaSAkBFzr2NESL1wF0KKfmVsR0/qh8Bz2DGk/XK2lHhsk",
     "ExKri6lP/YAIAJbvO9gsNR4EOLnPFfQBBQr3HmKtcHKeyrXZmjD/jPGyuAs/nMPm",
     "-----END CERTIFICATE-----"])

@[irreducible] def certificateDer : Bytes :=
  be 40 0x3082029c30820184020101300d06092a864886f70d01010b050030143112301006035504030c094d ++
  be 40 0x6f6f6e7368696e65301e170d3236313132303038343433395a170d3436313131353038343433395a ++
  be 40 0x30143112301006035504030c094d6f6f6e7368696e6530820122300d06092a864886f70d01010105 ++
  be 40 0x000382010f003082010a0282010100abdfbdeeaa4e9ab0f4144aa01c4b91e742eb9d5942a23b2266 ++
  be 40 0x96a32131da760c7ac521fc2fbcdee37d33ebb529d683cfaf27b43aa072a6844834db362eee84be50 ++
  be 40 0x3de0969e165a8c4967e8a61d7aa2ac7ddcbdf06baf51d51eb39b2f57c8fe815cfa50598fa679dbd5 ++
  be 40 0x5419fbfb3c3061549c077b915ed7e9e11df7be64bbb5f3a7a91c2de70aef678bbedf11ad3924ae78 ++
  be 40 0xb34d4cceee0817b53163a19e9c4059806c766809f6860eb91d4fdbf7e7fc4c0444f6e57eab6c1037 ++
  be 40 0x024b24ba53081093ed589a6a0eb0731d83456b88579235f23124982f96618dc83f11d51520c9c5e5 ++
  be 40 0xf7e1551d84cc6947534fef0aad3c7d0ed7dfd94954f9d8f8ec61fe3142774b0203010001300d0609 ++
  be 40 0x2a864886f70d01010b0500038201010020f9acd2d1f3bb4f702a835b75442947c6d09c7a3f9c2011 ++
  be 40 0x4375f2525a139e3bf926798e9cfc7ac6b31b2da3cfd359141f9286afcb4b8a47f5b8b01328f81f16 ++
  be 40 0x461179794e78c2d5756b19dad16642f7a350c227137f50c2f6cde13ddfe5c9f97a0991401984ee53 ++
  be 40 0xbb87a95ee90ee35947c77a570ea317ba8b38d4e32007df8ba872d6d61f101ede99083796d8e611a2 ++
  be 40 0xd69920c1188411d94efbb1730e3661808032e65d0877e64db2b5537e20c807692024045cebd8d112 ++
  be 40 0x2f5c05d0a29f995b11d3faa1f01cf60c693f5cada51e1b241312ab8ba94ffd80080096ef3bd82c35 ++
  be 32 0x1e0438b9cf15f401050af71e62ad70729ecab5d99a30ff8cf1b2b80b3f9cc3e6

/-- Its public key; the exponent is 65537. -/
def modulus : ℕ := ofBe (slice 135 256 certificateDer)

/-- `RSA_PKCS1_2048_8192_SHA256`, for that key. -/
def verifyPkcs1 (data signature : Bytes) : Bool :=
  let digestInfo := be 19 0x3031300d060960864801650304020105000420 ++ Sha256.hash data
  squareMod modulus (ofBe signature) 16 * ofBe signature % modulus =
    ofBe (0x00 :: 0x01 :: List.replicate 202 0xff ++ 0x00 :: digestInfo)

/-- The crates, where that is the one certificate there is, and no private key. -/
def oneCertificate : Crypto where
  sha256 := Sha256.hash
  encryptBlock := Aes128Gcm.encryptBlock
  decryptBlock := Aes128Ecb.decryptBlock
  pemContents pem := if pem = certificatePem then some certificateDer else none
  signatureValue contents :=
    if contents = certificateDer then some (certificateDer.drop 416) else none
  verify contents data signature :=
    contents = certificateDer && signature.length = 256 && verifyPkcs1 data signature
  sign _ _ := none

theorem cryptoLaw_oneCertificate : CryptoLaw oneCertificate := by
  refine ⟨Sha256.length_hash, fun key block hkey hblock => ?_, fun key block hkey hblock => ?_⟩
  · simp only [oneCertificate, Aes128Ecb.length_encryptBlock hkey hblock]
  · simp only [oneCertificate, Aes128Ecb.decryptBlock_encryptBlock hkey hblock]

def testClient : Client where
  id := "0011223344556677"
  pem := certificatePem
  salt := List.replicate 16 0
  pin := "1234"
  rawChallenge := List.replicate 16 7
  secretPayload := List.replicate 16 9
  signature :=
    be 40 0x0f5e041102f8e63d00bccf7987ebf210501cdba442e3e013c69954271fb5a651c144c381e0119746 ++
    be 40 0x5cd7ea1b426c0b4823267ecbf606d8a65adb0b2eb14a01c0bfcab2fa3b427a7cabb2215d6a86bdc8 ++
    be 40 0xcf18dfee5c22ce8fbac7c1b7983c69dd5f5ad2b974ffe44ec760817da4bb22d533db3ca3d022c2b3 ++
    be 40 0xc33962e46d83867703c930f29a1ab110ba5f4b88f92950e7ea3fde398d1349407b30689ff20b4df4 ++
    be 40 0x2287bed81ea6701d646e7cad5ce68690598b621317fd96b8e792f6a6fbb412be015a80c52e9e0f15 ++
    be 40 0x28d3603a6a40ee3942e89bf12f3c43dfa0f7143057f0aa4e19419d745fb8b486b1046f7cfc856cbc ++
    be 16 0xfcda15697389fe30709a44276b541947

/-- A set of strings, as TOML has it. -/
def tomlArray (values : Finset String) : String :=
  match values.sort (· ≤ ·) with
  | [] => "[]"
  | [value] => "[\"" ++ value ++ "\"]"
  | values => "[\n" ++ String.join (values.map fun value => "    \"" ++ value ++ "\",\n") ++ "]"

def tomlField (key : String) : Option String → String
  | some value => key ++ " = \"" ++ value ++ "\"\n"
  | none => ""

/-- `toml::to_string_pretty`, for strings that need no escapes, and labels for some certificate. -/
def tomlState (d : StateData) : Bytes :=
  ("unique_id = \"" ++ d.uniqueId ++ "\"\nclients = " ++ tomlArray d.clients ++
    "\npaired_certs = " ++ tomlArray d.pairedCerts ++ "\n" ++
    String.join (d.pairedLabels.entries.map fun entry =>
      "\n[paired_labels." ++ entry.1 ++ "]\n" ++ tomlField "name" entry.2.name ++
        tomlField "address" entry.2.address)).toUTF8.toList

/-- The server of the test, with a state that has been saved. -/
def testServer (data : StateData) : ClientManager :=
  .new ⟨data, some (tomlState data), 0⟩ certificatePem ""

def testState : StateData :=
  ⟨"11111111-1111-1111-1111-111111111111", ∅, ∅, Registry.empty _⟩

/-- The client of the test pairs, while another one is filed and dropped again, the list is looked
at, and a device that is not there is unpaired. -/
def testCalls (challenge clientHash : Bytes) : List Call :=
  [.addPending "0011223344556677" certificatePem (List.replicate 16 0) none none 0 0,
   .addPending "EEFF" certificatePem (List.replicate 16 0) none none 1 3,
   .registerPin "0011223344556677" "1234", .pendingClients 5,
   .clientChallenge "0011223344556677" challenge (some (List.replicate 16 2))
     (some (List.replicate 16 1)),
   .unpair ⟨true, true, none⟩ "aabbcc", .serverChallengeResponse "0011223344556677" clientHash,
   .dropGuard "EEFF"]

theorem honest_client_pairs_test :
    ∃ challenge clientHash,
      let m :=
        (testServer testState).after oneCertificate tomlState (testCalls challenge clientHash)
      let r := m.call oneCertificate tomlState (.checkClientPairingSecret "0011223344556677"
        (testClient.secretPayload ++ testClient.signature) none [] none)
      testClient.encryptedChallenge oneCertificate = some challenge ∧ r.1 = some [] ∧
        Paired r.2 "0011223344556677" (hexEncode (Sha256.hash certificateDer)) ⟨none, none⟩ := by
  have hcontents : oneCertificate.pemContents certificatePem = some certificateDer := by
    simp [oneCertificate]
  have hsignature : extractCertificateSignature oneCertificate certificatePem =
      some (certificateDer.drop 416) := by
    rw [extractCertificateSignature, hcontents]
    simp [oneCertificate]
  have hverify : verifyClientSignature oneCertificate certificatePem testClient.secretPayload
      testClient.signature = true := by
    rw [verifyClientSignature, hcontents]
    decide +kernel
  have hfinger : certPemFingerprint oneCertificate certificatePem =
      some (hexEncode (Sha256.hash certificateDer)) := by
    rw [certPemFingerprint, hcontents]
    rfl
  obtain ⟨challenge, response, clientHash, hchallenge, -, -, -, -, hpaired⟩ :=
    @honest_client_pairs oneCertificate tomlState cryptoLaw_oneCertificate (testServer testState)
      testClient none none 0 0
      [.addPending "EEFF" certificatePem (List.replicate 16 0) none none 1 3]
      [.pendingClients 5] [.unpair ⟨true, true, none⟩ "aabbcc"] [.dropGuard "EEFF"]
      (by simp [Call.Spares, testClient, Clients.pendingClientTtl])
      [] _ hfinger (List.forall_mem_nil _) rfl rfl
      _ _ (List.replicate 16 2) (List.replicate 16 1) rfl hsignature hsignature hverify
  exact ⟨challenge, clientHash, hchallenge, hpaired⟩

end RgspCast.Pairing
