import RgspCast.Moonshine.PairingClient

/-!
# The state that pairing leaves

What `PersistentState` holds after any run of pairings and unpairings, from whatever it has loaded.
As long as no save fails the file has what is in memory (`file_current`), but for the label of a
certificate that is not paired, which an unpairing drops without a save. An id counts as paired only
while some certificate is (`certs_of_clients`), unless an unpairing comes between the two changes
that a pairing makes, or the file had such an id and nothing has been paired since.
-/

namespace RgspCast.Pairing

open Layout Transition
open Clients (PendingClient Pending)
open Unpair (StateData Store SaveFault PairedLabel)

variable {C : Crypto} {toStringPretty : StateData → Bytes}

@[simp] theorem notify_file (m : ClientManager) (changed : Bool) :
    (m.notify changed).store.file = m.store.file := by
  cases changed <;> rfl

/-- An invariant of the state holds after any run, if the three changes keep it. -/
theorem data_after {inv : Store → Prop} {ok : Call → Prop}
    (hcert : ∀ s c id clientSecret certFault others clientFault,
      ok (.checkClientPairingSecret id clientSecret certFault others clientFault) →
        verifyPairingSecret C c clientSecret = true → inv s →
          inv (pairCert C toStringPretty s c certFault).2 ∧
          inv (addClient toStringPretty (unpairs toStringPretty
            (pairCert C toStringPretty s c certFault).2 others) id clientFault).2)
    (hunpair : ∀ s env fingerprint, ok (.unpair env fingerprint) → inv s →
      inv (Unpair.clientManagerUnpair toStringPretty env s fingerprint).2)
    (hsame : ∀ s s' : Store, s'.data = s.data → s'.file = s.file → inv s → inv s')
    {m : ClientManager} {calls : List Call} (hcalls : ∀ call ∈ calls, ok call)
    (h : inv m.store) : inv (m.after C toStringPretty calls).store := by
  induction calls generalizing m with
  | nil => exact h
  | cons call calls ih =>
    obtain ⟨hcall, hcalls⟩ := List.forall_mem_cons.mp hcalls
    refine ih hcalls ?_
    -- two calls write the state; the others only touch the pending map
    cases call with
    | checkClientPairingSecret id clientSecret certFault others clientFault =>
      rcases checkClientPairingSecret_cases C toStringPretty m id clientSecret certFault others
        clientFault with heq | ⟨c, paired, store, -, hverify, heq, hstore⟩
      · refine hsame m.store _ ?_ ?_ h <;> simp [ClientManager.call, heq]
      · have hinv : inv store := by
          have hboth := hcert m.store c id clientSecret certFault others clientFault hcall hverify h
          rcases hstore with rfl | rfl
          · exact hboth.1
          · exact hboth.2
        refine hsame store _ ?_ ?_ hinv <;> simp [ClientManager.call, heq]
    | unpair env fingerprint => exact hunpair m.store env fingerprint hcall h
    | _ => exact hsame m.store _ (notify_data _ _) (notify_file _ _) h

/-! ## The file -/

/-- No save of the call fails. -/
def Call.Saves : Call → Prop
  | .checkClientPairingSecret _ _ certFault others clientFault =>
    certFault = none ∧ (∀ other ∈ others, other.1.fault = none) ∧ clientFault = none
  | .unpair env _ => env.fault = none
  | _ => True

/-- Only paired certificates have labels. -/
def Tidy (d : StateData) : Prop := ∀ entry ∈ d.pairedLabels.entries, entry.1 ∈ d.pairedCerts

/-- What is saved is what is in memory, but for labels of certificates that are not paired, which
memory may have lost. -/
structure SavedAs (d saved : StateData) : Prop where
  uniqueId : saved.uniqueId = d.uniqueId
  clients : saved.clients = d.clients
  pairedCerts : saved.pairedCerts = d.pairedCerts
  pairedLabels : ∀ fingerprint,
    saved.pairedLabels.get? fingerprint = d.pairedLabels.get? fingerprint ∨
      fingerprint ∉ d.pairedCerts ∧ d.pairedLabels.get? fingerprint = none

/-- The file has what is in memory, up to such labels; and exactly that, where the state was tidy
when it was loaded. -/
structure Current (toStringPretty : StateData → Bytes) (tidy : Prop) (s : Store) : Prop where
  file : ∃ saved, s.file = some (toStringPretty saved) ∧ SavedAs s.data saved
  same : tidy → Tidy s.data ∧ s.file = some (toStringPretty s.data)

variable {tidy : Prop} {s : Store}

/-- The state has just been saved. -/
theorem Current.of_saved (hfile : s.file = some (toStringPretty s.data))
    (htidy : tidy → Tidy s.data) : Current toStringPretty tidy s :=
  ⟨⟨s.data, hfile, rfl, rfl, rfl, fun _ => Or.inl rfl⟩, fun ht => ⟨htidy ht, hfile⟩⟩

theorem Current.pairCert (h : Current toStringPretty tidy s) (c : PendingClient) :
    Current toStringPretty tidy (pairCert C toStringPretty s c none).2 := by
  unfold Pairing.pairCert
  cases certPemFingerprint C c.pem with
  | none => exact h
  | some fingerprint =>
    refine .of_saved rfl fun ht entry hentry => ?_
    rcases List.mem_cons.mp hentry with rfl | hentry
    · exact Finset.mem_insert_self _ _
    · exact Finset.mem_insert_of_mem ((h.same ht).1 entry (List.mem_filter.mp hentry).1)

theorem Current.addClient (h : Current toStringPretty tidy s) (client : String) :
    Current toStringPretty tidy (addClient toStringPretty s client none).2 := by
  unfold Pairing.addClient
  split_ifs
  · exact h
  · exact .of_saved rfl fun ht => (h.same ht).1

/-- Without an entry there is nothing to remove. -/
theorem remove_eq_self {labels : Registry (Prod.fst : String × PairedLabel → String)}
    {fingerprint : String} (h : ∀ entry ∈ labels.entries, entry.1 ≠ fingerprint) :
    labels.remove fingerprint = labels := by
  have hentries : (labels.remove fingerprint).entries = labels.entries :=
    List.filter_eq_self.mpr fun entry hentry => decide_eq_true (h entry hentry)
  rcases labels with ⟨entries, hnodup⟩
  simp only [Registry.remove, Registry.retain] at hentries ⊢
  simp only [hentries]

/-- A label of a certificate that is not paired goes without a save. -/
theorem Current.removeLabel (h : Current toStringPretty tidy s) {fingerprint : String}
    (hmem : fingerprint ∉ s.data.pairedCerts) :
    Current toStringPretty tidy { s with
      data := { s.data with pairedLabels := s.data.pairedLabels.remove fingerprint } } where
  file := by
    obtain ⟨saved, hfile, hsaved⟩ := h.file
    refine ⟨saved, hfile, hsaved.uniqueId, hsaved.clients, hsaved.pairedCerts, fun other => ?_⟩
    show _ = (s.data.pairedLabels.remove fingerprint).get? other ∨
      other ∉ s.data.pairedCerts ∧ (s.data.pairedLabels.remove fingerprint).get? other = none
    rw [Registry.get?_remove]
    split_ifs with heq
    · exact Or.inr ⟨heq ▸ hmem, rfl⟩
    · exact hsaved.pairedLabels other
  same ht := by
    -- a tidy state has no such label
    obtain ⟨htidy, hfile⟩ := h.same ht
    have hlabels : s.data.pairedLabels.remove fingerprint = s.data.pairedLabels := by
      refine remove_eq_self fun entry hentry heq => hmem ?_
      rw [← heq]
      exact htidy entry hentry
    rw [hlabels]
    exact ⟨htidy, hfile⟩

theorem Current.unpair (h : Current toStringPretty tidy s) {env : Unpair.Env}
    (hfault : env.fault = none) (fingerprint : String) :
    Current toStringPretty tidy
      (Unpair.clientManagerUnpair toStringPretty env s fingerprint).2 := by
  unfold Unpair.clientManagerUnpair Store.removePairedCert
  cases env.lock with
  | false => exact h
  | true =>
    simp only [if_true, StateData.removePairedCert, hfault]
    by_cases hmem : fingerprint ∈ s.data.pairedCerts
    · simp only [hmem, decide_true, if_true]
      refine .of_saved rfl fun ht entry hentry => ?_
      obtain ⟨hentry, hne⟩ := List.mem_filter.mp hentry
      exact Finset.mem_erase_of_ne_of_mem (of_decide_eq_true hne) ((h.same ht).1 entry hentry)
    · simp only [hmem, decide_false, Finset.erase_eq_of_notMem hmem]
      exact h.removeLabel hmem

theorem Current.unpairs {others : List (Unpair.Env × String)}
    (h : Current toStringPretty tidy s) (hfault : ∀ other ∈ others, other.1.fault = none) :
    Current toStringPretty tidy (unpairs toStringPretty s others) := by
  induction others generalizing s with
  | nil => exact h
  | cons other others ih =>
    obtain ⟨hother, hothers⟩ := List.forall_mem_cons.mp hfault
    exact ih (h.unpair hother other.2) hothers

/-- **As long as no save fails, a restart loses nothing.** From whatever state a host has loaded,
the file has after every run of calls what is in memory, but for labels of certificates that are not
paired; and it has exactly that, if there were no such labels when the host started. -/
theorem file_current {fromStr : Bytes → Option StateData} {file : Option Bytes} {uuid : String}
    {fault : Option SaveFault} {store : Store}
    (hnew : Store.new toStringPretty fromStr file uuid fault = some store)
    (serverCertPem serverPrivateKeyPem : String) {calls : List Call}
    (hcalls : ∀ call ∈ calls, call.Saves) :
    let s := ((ClientManager.new store serverCertPem serverPrivateKeyPem).after C toStringPretty
      calls).store
    (∃ saved, s.file = some (toStringPretty saved) ∧ SavedAs s.data saved) ∧
      (Tidy store.data → s.file = some (toStringPretty s.data)) := by
  have hstart : Current toStringPretty (Tidy store.data) store :=
    .of_saved (Unpair.file_of_new hnew) id
  have hcurrent : Current toStringPretty (Tidy store.data)
      ((ClientManager.new store serverCertPem serverPrivateKeyPem).after C toStringPretty
        calls).store := by
    refine @data_after C toStringPretty (Current toStringPretty (Tidy store.data)) Call.Saves
      ?_ ?_ ?_ _ calls hcalls hstart
    -- one pairing writes the file up to two times, with unpairings in between
    · rintro s c id clientSecret _ others _ ⟨rfl, hothers, rfl⟩ - hs
      exact ⟨hs.pairCert c, ((hs.pairCert c).unpairs hothers).addClient id⟩
    · exact fun s env fingerprint hfault hs => hs.unpair hfault fingerprint
    · intro s s' hdata hfile hs
      refine ⟨?_, fun htidy => ?_⟩
      · rw [hfile, hdata]
        exact hs.file
      · rw [hfile, hdata]
        exact hs.same htidy
  exact ⟨hcurrent.file, fun htidy => (hcurrent.same htidy).2⟩

/-- A host that has no file starts without a label. -/
theorem tidy_new (uuid : String) : Tidy (StateData.new uuid) := List.forall_mem_nil _

/-- One paired device, and the label of another that is not paired. -/
def pairedState : StateData where
  uniqueId := "11111111-1111-1111-1111-111111111111"
  clients := {"0123456789ABCDEF"}
  pairedCerts := {"aabbcc"}
  pairedLabels := ((Registry.empty _).insert ("aabbcc", ⟨none, some "192.168.180.44"⟩)).insert
    ("ddeeff", ⟨none, some "192.168.180.45"⟩)

/-- The one that is not paired is unpaired, and its label is still in the file. -/
theorem file_current_unpair : ∃ store,
    Store.new tomlState (fun bytes => if bytes = tomlState pairedState then some pairedState
      else none) (some (tomlState pairedState)) "" none = some store ∧
    let s := ((ClientManager.new store certificatePem "").after oneCertificate tomlState
      [.unpair ⟨true, true, none⟩ "ddeeff", .pendingClients 7]).store
    ∃ saved, s.file = some (tomlState saved) ∧ SavedAs s.data saved := by
  have hnew : Store.new tomlState (fun bytes => if bytes = tomlState pairedState then
      some pairedState else none) (some (tomlState pairedState)) "" none =
      some ⟨pairedState, some (tomlState pairedState), 0⟩ := by
    simp [Store.new, StateData.load, Store.save, SaveFault.fails, SaveFault.file]
  exact ⟨_, hnew, (@file_current oneCertificate tomlState _ _ _ _ _ hnew certificatePem ""
    [.unpair ⟨true, true, none⟩ "ddeeff", .pendingClients 7] (by simp [Call.Saves])).1⟩

/-! ## The ids -/

/-- No unpairing comes in the middle of the call. -/
def Call.Undisturbed : Call → Prop
  | .checkClientPairingSecret _ _ _ others _ => others = []
  | _ => True

/-- No id counts as paired without a certificate that is. -/
def Backed (s : Store) : Prop := s.data.clients.Nonempty → s.data.pairedCerts.Nonempty

theorem Backed.unpair {s : Store} (h : Backed s) (env : Unpair.Env) (fingerprint : String) :
    Backed (Unpair.clientManagerUnpair toStringPretty env s fingerprint).2 := by
  unfold Backed
  rw [data_unpair]
  split_ifs
  · intro hclients
    rw [Finset.nonempty_iff_ne_empty]
    intro hempty
    by_cases hmem : fingerprint ∈ s.data.pairedCerts
    · -- the last certificate: the ids go with it
      have hnone : (s.data.removePairedCert fingerprint).2.clients = ∅ :=
        if_pos ⟨decide_eq_true hmem, hempty⟩
      exact hclients.ne_empty hnone
    · have hsame : (s.data.removePairedCert fingerprint).2.clients = s.data.clients :=
        if_neg fun hremoved => hmem (of_decide_eq_true hremoved.1)
      have hcerts := h (hsame ▸ hclients)
      rw [← Finset.erase_eq_of_notMem hmem] at hcerts
      exact hcerts.ne_empty hempty
  · exact h

/-- A secret is accepted only for a certificate that has a fingerprint. -/
theorem certPemFingerprint_of_verify {c : PendingClient} {clientSecret : Bytes}
    (h : verifyPairingSecret C c clientSecret = true) :
    ∃ fingerprint, certPemFingerprint C c.pem = some fingerprint := by
  unfold verifyPairingSecret at h
  split at h
  next =>
    split_ifs at h
    split at h
    next => cases h
    next signature hsignature =>
      obtain ⟨contents, hcontents, -⟩ := Option.bind_eq_some_iff.mp hsignature
      exact ⟨_, congrArg (Option.map _) hcontents⟩
  next => cases h

theorem nonempty_pairCert {s : Store} {c : PendingClient} {clientSecret : Bytes}
    {fault : Option SaveFault} (h : verifyPairingSecret C c clientSecret = true) :
    (pairCert C toStringPretty s c fault).2.data.pairedCerts.Nonempty := by
  obtain ⟨fingerprint, hfinger⟩ := certPemFingerprint_of_verify h
  rw [pairCert, hfinger]
  exact Finset.insert_nonempty _ _

/-- No certificate is paired, and the ids are those of some state before. -/
def Unbacked (before : Finset String) (s : Store) : Prop :=
  s.data.pairedCerts = ∅ ∧ s.data.clients = before

/-- Without a paired certificate nothing is unpaired. -/
theorem Unbacked.unpair {before : Finset String} (h : Unbacked before s) (env : Unpair.Env)
    (fingerprint : String) :
    Unbacked before (Unpair.clientManagerUnpair toStringPretty env s fingerprint).2 := by
  obtain ⟨hcerts, hclients⟩ := h
  unfold Unbacked
  rw [data_unpair]
  split_ifs
  · simp [StateData.removePairedCert, hcerts, hclients]
  · exact ⟨hcerts, hclients⟩

/-- **An id counts as paired only while some certificate is**, whatever saves fail, unless an
unpairing comes in the middle of a pairing. Where a state was loaded that had ids and no
certificates, it stays so until one is paired. -/
theorem certs_of_clients (m : ClientManager) {calls : List Call}
    (hcalls : ∀ call ∈ calls, call.Undisturbed) :
    Backed (m.after C toStringPretty calls).store ∨
      ¬ Backed m.store ∧ Unbacked m.store.data.clients (m.after C toStringPretty calls).store := by
  -- an orphaned client list, as serde's default can load it, stays as it was at worst
  have hstart : Backed m.store ∨ ¬ Backed m.store ∧ Unbacked m.store.data.clients m.store := by
    refine or_iff_not_imp_left.mpr fun hno => ⟨hno, ?_, rfl⟩
    exact Finset.not_nonempty_iff_eq_empty.mp fun hcerts => hno fun _ => hcerts
  refine @data_after C toStringPretty
    (fun s => Backed s ∨ ¬ Backed m.store ∧ Unbacked m.store.data.clients s) Call.Undisturbed
    ?_ ?_ ?_ m calls hcalls hstart
  · rintro s c id clientSecret certFault _ clientFault rfl hverify -
    have hcerts := @nonempty_pairCert C toStringPretty s c clientSecret certFault hverify
    refine ⟨Or.inl fun _ => hcerts, Or.inl fun _ => ?_⟩
    -- the certificate is there before the label is
    rw [pairedCerts_addClient]
    exact hcerts
  · intro s env fingerprint _ hs
    exact hs.imp (fun hs => hs.unpair env fingerprint)
      (And.imp_right fun hs => hs.unpair env fingerprint)
  · intro s s' hdata _ hs
    unfold Backed Unbacked at hs ⊢
    rwa [hdata]

/-- The save of an unpairing fails. -/
theorem certs_of_clients_unpair :
    let s := ((testServer pairedState).after oneCertificate tomlState
      [.unpair ⟨true, true, some .open⟩ "aabbcc", .pendingClients 7]).store
    Backed s ∨ ¬ Backed (testServer pairedState).store ∧
      Unbacked pairedState.clients s :=
  certs_of_clients (testServer pairedState) (by simp [Call.Undisturbed])

end RgspCast.Pairing
