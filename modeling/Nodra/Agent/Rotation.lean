import Nodra.Lib.Program
import Nodra.Lib.JsonStruct

/-! The rotation of the agent's certificate.  `rotateCertificate` replaces `identity.key`
and then `identity.crt`, and writes the old key back where the second write fails.  The
process may stop after any access, and every write may fail. -/
namespace Nodra.Agent.Rotation
open Lines JsonStruct Interleave Program Option

section

/-- How a call of `AtomicWrite` ends.  An error comes before the rename, with the old
contents in place, or after it, when the parent directory cannot be synced. -/
inductive Write where
  | written
  | refused (err : Bytes)
  | unsynced (err : Bytes)

def Write.err : Write → Option Bytes
  | .written => none
  | .refused err => some err
  | .unsynced err => some err

def Write.replaces : Write → Bool
  | .refused _ => false
  | _ => true

theorem replaces_of_err_none {write : Write} (h : write.err = none) : write.replaces = true := by
  cases write <;> first | rfl | cases h

structure Response where
  statusCode : Nat
  status : Bytes
  body : Bytes

structure Identity where
  key : Option Bytes
  crt : Option Bytes
  revoked : Bool := false

inductive Label where
  | post
  | revoke
  | readKey
  | writeKey
  | writeCrt
  | restoreKey
  | configureClient
deriving DecidableEq

/-- What decides one access: the answer to a request with a given CSR, an error of
`ReadFile`, the end of a write, and an error of `configureClient`. -/
structure Choice where
  reply : Bytes → Except Bytes Response
  readErr : Option Bytes
  write : Write
  configured : Except Bytes Unit

abbrev Rotate := Program Label Identity Choice

def ClientCertificate.setField (old : Bytes) (field : Bytes × Bytes) : Option Bytes :=
  if fieldName field.1 = ascii "client_certificate" then readString old field.2 else some old

def clientCertificate (b : Bytes) : Option Bytes :=
  JsonStruct.unmarshal ClientCertificate.setField [] b

def readFile (file : Option Bytes) (readErr : Option Bytes) : Except Bytes Bytes :=
  match readErr, file with
  | some err, _ => .error err
  | none, none => .error (ascii "open identity.key: no such file or directory")
  | none, some data => .ok data

def atomicWrite (write : Write) (data : Bytes) (file : Option Bytes) : Option Bytes :=
  if write.replaces then some data else file

def writeKey (label : Label) (data : Bytes) : Rotate (Option Bytes) :=
  .access label fun choice s =>
    ({ s with key := atomicWrite choice.write data s.key }, choice.write.err)

def writeCrt (data : Bytes) : Rotate (Option Bytes) :=
  .access .writeCrt fun choice s =>
    ({ s with crt := atomicWrite choice.write data s.crt }, choice.write.err)

variable (trimSpace : Bytes → Bytes) (syntaxErr : Bytes → Bytes)

def restoreKey (oldKey : Except Bytes Bytes) (err : Bytes) : Rotate (Except Bytes Unit) :=
  match oldKey with
  | .error _ => pure (.error err)
  | .ok oldKey => do
    match ← writeKey .restoreKey oldKey with
    | some rbErr =>
      pure (.error (err ++ ascii " (restoring previous key also failed: " ++ rbErr ++ ascii ")"))
    | none => pure (.error err)

def replacePair (keyPEM certificate : Bytes) : Rotate (Except Bytes Unit) := do
  let oldKey ← .access .readKey fun choice s => (s, readFile s.key choice.readErr)
  match ← writeKey .writeKey keyPEM with
  | some err => pure (.error err)
  | none =>
    match ← writeCrt certificate with
    | some err => restoreKey oldKey err
    | none => .access .configureClient fun choice s => (s, choice.configured)

/-- `csr` is what `NewClientCSR` returned: the new key and the request for it. -/
def rotateCertificate (csr : Except Bytes (Bytes × Bytes)) : Rotate (Except Bytes Unit) :=
  match csr with
  | .error err => pure (.error err)
  | .ok (keyPEM, csrPEM) => do
    match ← (.access .post fun choice s => (s, choice.reply csrPEM) : Rotate _) with
    | .error err => pure (.error err)
    | .ok resp =>
      let b := resp.body.take (64 * 1024)
      if resp.statusCode = 403 ∧ ascii "site_revoked" <:+: b then
        .access .revoke fun _ s => ({ s with revoked := true },
          .error (ascii "site revoked, will not attempt further rotations"))
      else if resp.statusCode ≠ 200 then
        pure (.error (ascii "server returned " ++ resp.status ++ ascii ": " ++ trimSpace b))
      else
        match clientCertificate b with
        | none => pure (.error (syntaxErr b))
        | some certificate => replacePair keyPEM certificate

end

variable {trimSpace syntaxErr : Bytes → Bytes} {csr : Except Bytes (Bytes × Bytes)}
  {oracle : Label → Choice} {s : Identity} {key certificate : Bytes}

def answer (csr : Except Bytes (Bytes × Bytes)) (reply : Bytes → Except Bytes Response) :
    Option (Bytes × Bytes) :=
  match csr with
  | .error _ => none
  | .ok (keyPEM, csrPEM) =>
    match reply csrPEM with
    | .error _ => none
    | .ok resp =>
      if resp.statusCode = 200 then
        (clientCertificate (resp.body.take (64 * 1024))).map (keyPEM, ·)
      else none

theorem reached_of_answer_none (h : answer csr (oracle .post).reply = none) (n : Nat) :
    ((rotateCertificate trimSpace syntaxErr csr).reached oracle n s).key = s.key ∧
      ((rotateCertificate trimSpace syntaxErr csr).reached oracle n s).crt = s.crt := by
  cases n with
  | zero => exact ⟨rfl, rfl⟩
  | succ n =>
    rcases csr with err | ⟨keyPEM, csrPEM⟩
    · simp [rotateCertificate]
    · simp only [rotateCertificate, reached_access_bind]
      cases hreply : (oracle .post).reply csrPEM with
      | error err => simp
      | ok resp =>
        simp only [answer, hreply] at h
        dsimp only
        split
        · cases n <;> simp
        · split
          · simp
          · rename_i hstatus
            rw [if_pos (not_not.mp hstatus), map_eq_none_iff] at h
            simp [h]

theorem reached_of_answer_some (h : answer csr (oracle .post).reply = some (key, certificate))
    (n : Nat) :
    (rotateCertificate trimSpace syntaxErr csr).reached oracle (n + 1) s =
      (replacePair key certificate).reached oracle n s := by
  rcases csr with err | ⟨keyPEM, csrPEM⟩
  · cases h
  · simp only [rotateCertificate, reached_access_bind]
    cases hreply : (oracle .post).reply csrPEM with
    | error err => simp [answer, hreply] at h
    | ok resp =>
      simp only [answer, hreply] at h
      split at h
      · rename_i hstatus
        obtain ⟨cert, hcert, heq⟩ := map_eq_some_iff.mp h
        cases heq
        simp [hstatus, hcert]
      · cases h

theorem eq_some_of_readFile {file readErr : Option Bytes} {data : Bytes}
    (h : readFile file readErr = .ok data) : file = some data := by
  cases readErr <;> cases file <;> cases h
  rfl

def Restores (oracle : Label → Choice) (s : Identity) : Prop :=
  (oracle .writeCrt).write.err ≠ none ∧
    (readFile s.key (oracle .readKey).readErr).toOption ≠ none ∧
      (oracle .restoreKey).write.replaces

instance : Decidable (Restores oracle s) := inferInstanceAs (Decidable (_ ∧ _ ∧ _))

theorem restoreKey_key {s' : Identity} (n : Nat) {err : Bytes}
    (herr : (oracle .writeCrt).write.err = some err) :
    ((restoreKey (readFile s.key (oracle .readKey).readErr) err).reached oracle n s').key =
      if 1 ≤ n ∧ Restores oracle s then s.key else s'.key := by
  cases hread : readFile s.key (oracle .readKey).readErr with
  | error readErr => simp [restoreKey, Restores, hread, Except.toOption]
  | ok oldKey =>
    have hrestores : Restores oracle s ↔ (oracle .restoreKey).write.replaces := by
      simp [Restores, herr, hread, Except.toOption]
    cases n with
    | zero => simp
    | succ n =>
      simp only [restoreKey, writeKey, reached_access_bind]
      cases (oracle .restoreKey).write.err <;>
        simp [hrestores, eq_some_of_readFile hread, atomicWrite]

theorem restoreKey_crt {oldKey : Except Bytes Bytes} {err : Bytes} (n : Nat) :
    ((restoreKey oldKey err).reached oracle n s).crt = s.crt := by
  cases oldKey with
  | error _ => simp [restoreKey]
  | ok oldKey =>
    cases n with
    | zero => rfl
    | succ n =>
      simp only [restoreKey, writeKey, reached_access_bind]
      cases (oracle .restoreKey).write.err <;> simp

theorem replacePair_key (n : Nat) :
    ((replacePair key certificate).reached oracle n s).key =
      if (oracle .writeKey).write.err = none ∧ 4 ≤ n ∧ Restores oracle s then s.key
      else if 2 ≤ n ∧ (oracle .writeKey).write.replaces then some key else s.key := by
  match n with
  | 0 => simp
  | 1 => simp [replacePair]
  | n + 2 =>
    simp only [replacePair, writeKey, reached_access_bind]
    cases hkey : (oracle .writeKey).write.err with
    | some err => simp [atomicWrite]
    | none =>
      have hreplaces := replaces_of_err_none hkey
      cases n with
      | zero => simp [atomicWrite]
      | succ n =>
        simp only [writeCrt, reached_access_bind]
        cases hcrt : (oracle .writeCrt).write.err with
        | none => cases n <;> simp [atomicWrite, Restores, hcrt]
        | some err => simp [restoreKey_key n hcrt, atomicWrite, hreplaces]

theorem replacePair_crt (n : Nat) :
    ((replacePair key certificate).reached oracle n s).crt =
      if (oracle .writeKey).write.err = none ∧ 3 ≤ n ∧ (oracle .writeCrt).write.replaces then
        some certificate
      else s.crt := by
  match n with
  | 0 => simp
  | 1 => simp [replacePair]
  | n + 2 =>
    simp only [replacePair, writeKey, reached_access_bind]
    cases hkey : (oracle .writeKey).write.err with
    | some err => simp
    | none =>
      cases n with
      | zero => simp
      | succ n =>
        simp only [writeCrt, reached_access_bind]
        cases hcrt : (oracle .writeCrt).write.err with
        | none => cases n <;> simp [atomicWrite]
        | some err => simp [restoreKey_crt, atomicWrite]

section

-- `Pair key crt` says that the certificate is for the key.
variable (Pair : Bytes → Bytes → Prop)

def Matching (s : Identity) : Prop := ∃ key ∈ s.key, ∃ crt ∈ s.crt, Pair key crt

def Makes (cut : Option Nat) (k : Nat) : Prop := ∀ n ∈ cut, k ≤ n

/-- Where the new key comes on disk, no error is reported for it, the certificate is
tried too, and the old key comes back exactly where the old certificate stays. -/
def Whole (csr : Except Bytes (Bytes × Bytes)) (oracle : Label → Choice) (cut : Option Nat)
    (s : Identity) : Prop :=
  answer csr (oracle .post).reply ≠ none → Makes cut 3 → (oracle .writeKey).write.replaces →
    (oracle .writeKey).write.err = none ∧ Makes cut 4 ∧
      ((oracle .writeCrt).write.replaces ↔ ¬ (Makes cut 5 ∧ Restores oracle s))

variable {Pair}

theorem replacePair_matching_iff (n : Nat) (hold : Matching Pair s) (hsigned : Pair key certificate)
    (hfresh : ∀ old ∈ s.key, ∀ crt, Pair old crt → ¬ Pair key crt) :
    Matching Pair ((replacePair key certificate).reached oracle n s) ↔
      (some (key, certificate) ≠ none → 2 ≤ n → (oracle .writeKey).write.replaces →
        (oracle .writeKey).write.err = none ∧ 3 ≤ n ∧
          ((oracle .writeCrt).write.replaces ↔ ¬ (4 ≤ n ∧ Restores oracle s))) := by
  obtain ⟨old, hkey, crt, hcrt, hpair⟩ := hold
  have hmixed : ¬ Pair key crt := hfresh old hkey crt hpair
  have hmixed' : ¬ Pair old certificate := fun h => hfresh old hkey certificate h hsigned
  rw [mem_def] at hkey hcrt
  simp only [Matching, replacePair_key, replacePair_crt, hkey, hcrt]
  by_cases h2 : 2 ≤ n
  · cases hwrite : (oracle .writeKey).write.err with
    | some err =>
      -- the new key is there or not, and the old certificate stays
      by_cases hreplaces : (oracle .writeKey).write.replaces <;> simp [h2, hreplaces, hpair, hmixed]
    | none =>
      have hreplaces := replaces_of_err_none hwrite
      by_cases h3 : 3 ≤ n
      · by_cases hrestores : 4 ≤ n ∧ Restores oracle s <;>
          by_cases hcrt : (oracle .writeCrt).write.replaces <;>
          simp [h2, h3, hreplaces, hrestores, hcrt, hpair, hsigned, hmixed, hmixed']
      · have h4 : ¬ 4 ≤ n := by omega
        simp [h2, h3, h4, hreplaces, hmixed]
  · have h3 : ¬ 3 ≤ n := by omega
    have h4 : ¬ 4 ≤ n := by omega
    simp [h2, h3, h4, hpair]

/-- What is on disk afterwards is a pair exactly where the rotation is `Whole`.  The
server signs the key it was asked for, and no certificate is for both the old key and
the new one. -/
theorem rotateCertificate_matching_iff {cut : Option Nat} (hold : Matching Pair s)
    (hsigned : ∀ pair ∈ answer csr (oracle .post).reply, Pair pair.1 pair.2)
    (hfresh : ∀ pair ∈ answer csr (oracle .post).reply, ∀ old ∈ s.key, ∀ crt,
      Pair old crt → ¬ Pair pair.1 crt) :
    Matching Pair ((rotateCertificate trimSpace syntaxErr csr).left oracle cut s) ↔
      Whole csr oracle cut s := by
  obtain ⟨n, hleft, hmakes⟩ := exists_left_eq_reached oracle cut
    (rotateCertificate trimSpace syntaxErr csr) s 5
  rw [hleft]
  cases hanswer : answer csr (oracle .post).reply with
  | none =>
    obtain ⟨hkey, hcrt⟩ := @reached_of_answer_none trimSpace syntaxErr csr oracle s hanswer n
    simp only [Matching, hkey, hcrt]
    exact ⟨fun _ h => (h hanswer).elim, fun _ => hold⟩
  | some pair =>
    obtain ⟨key, certificate⟩ := pair
    cases n with
    | zero =>
      have hmakes : ¬ Makes cut 3 := fun h => absurd ((hmakes 3 (by omega)).mpr h) (by omega)
      exact ⟨fun _ _ h => (hmakes h).elim, fun _ => hold⟩
    | succ n =>
      rw [reached_of_answer_some hanswer n, Whole, hanswer]
      rw [show Makes cut 3 ↔ 2 ≤ n from (hmakes 3 (by omega)).symm.trans (by omega),
        show Makes cut 4 ↔ 3 ≤ n from (hmakes 4 (by omega)).symm.trans (by omega),
        show Makes cut 5 ↔ 4 ≤ n from (hmakes 5 (by omega)).symm.trans (by omega)]
      exact replacePair_matching_iff n hold (hsigned _ hanswer) (hfresh _ hanswer)

def Numbered (key crt : Bytes) : Prop := key.drop 1 = crt.drop 1

instance (key crt : Bytes) : Decidable (Numbered key crt) :=
  inferInstanceAs (Decidable (key.drop 1 = crt.drop 1))

def numberedIdentity : Identity where
  key := some (ascii "k1")
  crt := some (ascii "c1")

def numberedCSR : Except Bytes (Bytes × Bytes) := .ok (ascii "k2", ascii "r2")

def signedResponse : Response where
  statusCode := 200
  status := ascii "200 OK"
  body := JsonText.renderObject [(ascii "client_certificate", JsonString.quote (ascii "c2"))]

def smooth : Label → Choice := fun _ =>
  { reply := fun _ => .ok signedResponse
    readErr := none
    write := .written
    configured := .ok () }

theorem answer_smooth : answer numberedCSR (smooth .post).reply = some (ascii "k2", ascii "c2") := by
  have hwhole : signedResponse.body.take (64 * 1024) = signedResponse.body :=
    List.take_of_length_le (by decide +kernel)
  have hcertificate : clientCertificate signedResponse.body = some (ascii "c2") := by decide +kernel
  simp only [answer, numberedCSR, smooth]
  rw [if_pos (show signedResponse.statusCode = 200 from rfl), hwhole, hcertificate]
  rfl

theorem numbered_signed :
    ∀ pair ∈ answer numberedCSR (smooth .post).reply, Numbered pair.1 pair.2 := by
  rw [answer_smooth]
  rintro _ ⟨⟩
  decide

theorem numbered_fresh : ∀ pair ∈ answer numberedCSR (smooth .post).reply,
    ∀ old ∈ numberedIdentity.key, ∀ crt, Numbered old crt → ¬ Numbered pair.1 crt := by
  rw [answer_smooth]
  rintro _ ⟨⟩ _ ⟨⟩ crt holds hnew
  exact absurd (hnew.trans holds.symm) (by decide)

theorem numberedIdentity_matching : Matching Numbered numberedIdentity :=
  ⟨ascii "k1", rfl, ascii "c1", rfl, by decide⟩

theorem smooth_rotation_matching :
    Whole numberedCSR smooth none numberedIdentity ∧
      Matching Numbered ((rotateCertificate id id numberedCSR).left smooth none numberedIdentity) := by
  have hwhole : Whole numberedCSR smooth none numberedIdentity := by
    intro _ _ _
    refine ⟨rfl, nofun, ?_⟩
    simp [Restores, smooth, Write.err, Write.replaces]
  exact ⟨hwhole, (rotateCertificate_matching_iff numberedIdentity_matching numbered_signed
    numbered_fresh).mpr hwhole⟩

/-- The process stops between the two writes: the new key stands next to the old certificate. -/
theorem stopped_rotation_mismatched :
    Matching Numbered numberedIdentity ∧
      (∀ pair ∈ answer numberedCSR (smooth .post).reply, Numbered pair.1 pair.2) ∧
      (∀ pair ∈ answer numberedCSR (smooth .post).reply,
        ∀ old ∈ numberedIdentity.key, ∀ crt, Numbered old crt → ¬ Numbered pair.1 crt) ∧
      ¬ Matching Numbered
        ((rotateCertificate id id numberedCSR).left smooth (some 3) numberedIdentity) := by
  refine ⟨numberedIdentity_matching, numbered_signed, numbered_fresh, ?_⟩
  have hleft : (rotateCertificate id id numberedCSR).left smooth (some 3) numberedIdentity =
      { numberedIdentity with key := some (ascii "k2") } := by
    change (rotateCertificate id id numberedCSR).reached smooth (2 + 1) numberedIdentity = _
    rw [reached_of_answer_some answer_smooth 2]
    rfl
  rw [hleft]
  rintro ⟨_, ⟨⟩, _, ⟨⟩, hpair⟩
  exact absurd hpair (by decide)

end

end Nodra.Agent.Rotation
