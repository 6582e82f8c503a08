import Ravn.Agent.PinnedKeyring
import Ravn.Server.CommandSigner
import Ravn.Server.Registry
import Ravn.Theory.Base64
import Ravn.Theory.Except
import Ravn.Theory.Transition

/-! Enrollment. An agent without credentials asks the control plane for a certificate and writes what it
is given, file after file; it may stop at any point and start again. Credentials that are complete belong
together and are the ones that the registry knows of (`credentials_registered`). They are final: a start
that stopped between the CA certificate and the command key leaves the agent without one for good
(`command_key_final`). -/

namespace Ravn

open Theory

/-! ## The control plane -/

structure EnrollRequest where
  bootstrapToken : String
  agentId : Uuid
  host : String
  csrPem : String

structure EnrollResponse where
  agentId : Uuid
  certificatePem : String
  caCertificatePem : String
  commandSigningPubkey : String
  commandKeyring : String
  notAfter : DateTime

/-- Reply of the handler; a panic closes the connection. -/
inductive EnrollReply where
  | json (resp : EnrollResponse)
  | error (status : Nat) (text : String)
  | panic

inductive KeyUsagePurpose where
  | digitalSignature
deriving DecidableEq

inductive ExtendedKeyUsagePurpose where
  | clientAuth
deriving DecidableEq

/-- What `Ca::sign` sets in the parameters of a request. -/
structure CertificateParams where
  commonName : String
  subjectAltNames : List String
  isCa : Bool
  keyUsages : List KeyUsagePurpose
  extendedKeyUsages : List ExtendedKeyUsagePurpose
  notBefore : DateTime
  notAfter : DateTime

/-- The certificate authority. Reading a request and signing it with other parameters is left to the
certificate library. -/
structure Ca where
  Csr : Type
  fromPem : String → Option Csr
  signedBy : Csr → CertificateParams → Option String
  certPem : String
  ttlDays : Int

/-- A `time::OffsetDateTime` plus a `time::Duration`; `none` where it panics, outside the years -9999 to
9999. -/
def offsetAdd (t : DateTime) (secs : Int) : Option DateTime :=
  let nanos := t.nanos + secs * 1000000000
  if -377705116800 * 1000000000 ≤ nanos ∧ nanos < 253402300800 * 1000000000 then some ⟨nanos⟩ else none

/-- The parameters that a certificate of an agent is signed with. -/
def Ca.params (agentId : Uuid) (notBefore notAfter : DateTime) : CertificateParams where
  commonName := agentId.toString
  subjectAltNames := [agentId.toString ++ ".agents.ravn"]
  isCa := false
  keyUsages := [.digitalSignature]
  extendedKeyUsages := [.clientAuth]
  notBefore := notBefore
  notAfter := notAfter

/-- `Ca::sign`: `none` where it panics, and an inner `none` where it fails. -/
def Ca.sign (ca : Ca) (csrPem : String) (agentId : Uuid) (now : DateTime) :
    Option (Option (String × DateTime)) :=
  match ca.fromPem csrPem with
  | none => some none
  | some csr =>
    match offsetAdd now (ca.ttlDays * 86400), offsetAdd now (-300) with
    | some notAfter, some notBefore =>
      some ((ca.signedBy csr (Ca.params agentId notBefore notAfter)).map fun pem => (pem, notAfter))
    | _, _ => none

def constantTimeEq (a b : List UInt8) : Bool :=
  if a.length ≠ b.length then false
  else (a.zip b).foldl (fun acc p => acc ||| (p.1 ^^^ p.2)) 0 == 0

/-- What the handler of `/enroll` is given. -/
structure EnrollServer (P : Platform) where
  ca : Option Ca
  enrollToken : Option String
  signer : CommandSigner P
  loaded : ∃ key dir, CommandSigner.loadOrGenerateWithPrevious P key dir = .ok signer

section

variable {P : Platform}

/-- A signer that was loaded publishes its own key. -/
theorem EnrollServer.published (srv : EnrollServer P) :
    srv.signer.pubkeyB64 = verifyingKeyToB64 P (P.verifyingKey srv.signer.key) := by
  obtain ⟨key, dir, hload⟩ := srv.loaded
  obtain ⟨ring, -, hsigner⟩ := bind_eq_ok hload
  rw [← Except.ok.inj hsigner]

/-- `enroll`; the flag is the outcome of `record_enrollment`. -/
def enroll (srv : EnrollServer P) (db : RegistryDb) (req : EnrollRequest) (now : DateTime)
    (ok : Bool) : RegistryDb × EnrollReply :=
  match srv.ca, srv.enrollToken with
  | some ca, some expected =>
    if constantTimeEq req.bootstrapToken.toUTF8.toList expected.toUTF8.toList then
      match ca.sign req.csrPem req.agentId now with
      | none => (db, .panic)
      | some none => (db, .error 400 "could not sign CSR")
      | some (some (pem, notAfter)) =>
        let notAfter : DateTime := ⟨notAfter.nanos / 1000000000 * 1000000000⟩
        if ok then
          (db.recordEnrollment req.agentId req.host notAfter now,
            .json ⟨req.agentId, pem, ca.certPem, srv.signer.pubkeyB64,
              String.ofList srv.signer.keyringJson, notAfter⟩)
        else (db, .error 500 "could not record enrollment")
    else (db, .error 401 "invalid bootstrap token")
  | _, _ => (db, .error 404 "enrollment is not enabled")

end

/-! ## The credential directory -/

inductive CredFile where
  | key | cert | ca | pubkey | keyring
deriving DecidableEq

/-- The contents of the files that are there. -/
abbrev CredFiles := CredFile → Option String

namespace CredFiles

def complete (files : CredFiles) : Bool :=
  (files .key).isSome && (files .cert).isSome && (files .ca).isSome

def write (files : CredFiles) (file : CredFile) (text : String) : CredFiles :=
  Function.update files file (some text)

/-- What `load_pinned_keyring` reads. -/
def pins (files : CredFiles) : CredDir := ⟨(files .keyring).map String.toList, files .pubkey⟩

end CredFiles

/-- Where a sequence of writes comes to an end: after so many, and this far into the next one, if its file
has been opened. The texts are ASCII. -/
structure WriteStop where
  after : Nat
  part : Option Nat

/-- A file is truncated when it is opened, and filled then. -/
def CredFiles.writeAll (files : CredFiles) : List (CredFile × String) → Option WriteStop → CredFiles
  | [], _ => files
  | w :: ws, none => (files.write w.1 w.2).writeAll ws none
  | _ :: _, some ⟨0, none⟩ => files
  | w :: _, some ⟨0, some n⟩ => files.write w.1 (String.ofList (w.2.toList.take n))
  | w :: ws, some ⟨n + 1, part⟩ => (files.write w.1 w.2).writeAll ws (some ⟨n, part⟩)

/-! ## The agent -/

/-- What of the configuration is used here. Without `RAVN_AGENT_ID` the identifier is a new one at each
start. -/
structure EnrollConfig where
  agentId : Uuid
  host : String
  enrollEndpoint : Option String
  bootstrapToken : Option String
  remediationEnable : Bool

/-- A key pair that `generate_csr` made. -/
structure GeneratedCsr where
  csrPem : String
  keyPem : String

/-- What becomes of the request: it does not arrive, or its reply does not, or neither is lost. -/
inductive Exchanged where
  | unsent | unanswered | answered
deriving DecidableEq

/-- The writes of an enrollment, in order. -/
def enrollWrites (csr : GeneratedCsr) (resp : EnrollResponse) : List (CredFile × String) :=
  [(.key, csr.keyPem), (.cert, resp.certificatePem), (.ca, resp.caCertificatePem),
    (.pubkey, resp.commandSigningPubkey)] ++
  if resp.commandKeyring = "" then [] else [(.keyring, resp.commandKeyring)]

/-- A start of the agent. -/
structure AgentStart (P : Platform) where
  config : EnrollConfig
  /-- The control plane as it is by then. -/
  server : EnrollServer P
  csr : GeneratedCsr
  exchanged : Exchanged
  now : DateTime
  recorded : Bool
  stop : Option WriteStop

section

variable {P : Platform}

def AgentStart.request (start : AgentStart P) (token : String) : EnrollRequest :=
  ⟨token, start.config.agentId, start.config.host, start.csr.csrPem⟩

/-- `ensure_enrolled`, with what it does to the registry. -/
def ensureEnrolled (files : CredFiles) (db : RegistryDb) (start : AgentStart P) :
    CredFiles × RegistryDb :=
  if files.complete then (files, db)
  else
    match start.config.enrollEndpoint, start.config.bootstrapToken with
    | some _, some token =>
      match start.exchanged with
      | .unsent => (files, db)
      | .unanswered => (files, (enroll start.server db (start.request token) start.now start.recorded).1)
      | .answered =>
        match enroll start.server db (start.request token) start.now start.recorded with
        | (db, .json resp) => (files.writeAll (enrollWrites start.csr resp) start.stop, db)
        | (db, _) => (files, db)
    | _, _ => (files, db)

end

/-! ## The system -/

/-- The agent's directory, the ring that its pull loop verifies with if that runs, and the registry. -/
structure Enrollment (P : Platform) where
  files : CredFiles
  pulling : Option (Keyring P)
  db : RegistryDb

inductive EnrollmentLabel (P : Platform) where
  /-- The agent starts, whatever state it was stopped in. -/
  | start (start : AgentStart P)
  | refresh (call : Refresh)
  /-- Anyone else's write to the registry. -/
  | write (w : RegistryWrite)

namespace Enrollment

section

variable {P : Platform}

/-- `spawn_remediation`, as far as the ring goes. -/
def spawnRemediation (cfg : EnrollConfig) (files : CredFiles) : Option (Keyring P) :=
  if cfg.remediationEnable then
    match loadPinnedKeyring P files.pins, cfg.enrollEndpoint with
    | some ring, some _ => some ring
    | _, _ => none
  else none

def step (s : Enrollment P) : EnrollmentLabel P → Option (Enrollment P)
  | .start start =>
    let (files, db) := ensureEnrolled s.files s.db start
    some ⟨files, spawnRemediation start.config files, db⟩
  | .refresh call =>
    s.pulling.map fun ring =>
      let a := refreshKeyring P ⟨ring, s.files.pins⟩ call
      { s with
        files := Function.update s.files .keyring (a.dir.keyring.map String.ofList)
        pulling := some a.ring }
  | .write w => some { s with db := s.db.write w }

/-- No credentials and no agents yet. -/
def initial : Enrollment P := ⟨fun _ => none, none, ⟨[], []⟩⟩

end

end Enrollment

/-! ## Where a start can end -/

/-- A start that wrote the command key to its end went beyond this: 44 is the length of its text. -/
def AgentStart.Interrupted {P : Platform} (start : AgentStart P) : Prop :=
  ∃ stop, start.stop = some stop ∧
    (stop.after < 3 ∨ stop.after = 3 ∧ ∀ n, stop.part = some n → n < 44)

namespace CredFiles

theorem writeAll_of_not_mem {ws : List (CredFile × String)} {file : CredFile}
    (h : file ∉ ws.map Prod.fst) (files : CredFiles) (stop : Option WriteStop) :
    files.writeAll ws stop file = files file := by
  induction ws generalizing files stop with
  | nil => rfl
  | cons w ws ih =>
    obtain ⟨hw, hws⟩ := not_or.mp fun hmem => h (List.mem_cons.mpr hmem)
    have hwrite : ∀ text, files.write w.1 text file = files file := fun text =>
      Function.update_of_ne hw _ _
    match stop with
    | none => exact (ih hws _ none).trans (hwrite _)
    | some ⟨0, none⟩ => rfl
    | some ⟨0, some n⟩ => exact hwrite _
    | some ⟨n + 1, part⟩ => exact (ih hws _ _).trans (hwrite _)

/-- What the writes of an enrollment leave. If they got as far as the CA certificate, then the key and the
certificate are those of this enrollment, and the command key is there as far as they got. -/
theorem writeAll_enrollWrites (files : CredFiles) (csr : GeneratedCsr) (resp : EnrollResponse)
    (stop : Option WriteStop) {files' : CredFiles}
    (h : files.writeAll (enrollWrites csr resp) stop = files') :
    (files' .ca = files .ca ∧ files' .pubkey = files .pubkey ∧ files' .keyring = files .keyring) ∨
      files' .key = some csr.keyPem ∧ files' .cert = some resp.certificatePem ∧
        (∃ n, files' .ca = some (String.ofList (resp.caCertificatePem.toList.take n))) ∧
        ((∃ st, stop = some st ∧ (st.after < 3 ∨ st.after = 3 ∧ st.part = none) ∧
            files' .pubkey = files .pubkey ∧ files' .keyring = files .keyring) ∨
          (∃ n, stop = some ⟨3, some n⟩ ∧ files' .keyring = files .keyring ∧ files' .pubkey =
            some (String.ofList (resp.commandSigningPubkey.toList.take n))) ∨
          (∀ st, stop = some st → 3 < st.after) ∧ files' .pubkey = some resp.commandSigningPubkey) := by
  have hwhole : ∀ s : String, s = String.ofList (s.toList.take s.toList.length) := fun s => by
    rw [List.take_length, String.ofList_toList]
  have htail : ∀ file, file ≠ .keyring → file ∉ (if resp.commandKeyring = "" then []
      else [(CredFile.keyring, resp.commandKeyring)]).map Prod.fst := by
    intro file hfile
    split
    · exact List.not_mem_nil
    · simpa using hfile
  unfold enrollWrites at h
  generalize (if resp.commandKeyring = "" then [] else [(CredFile.keyring, resp.commandKeyring)]) =
    tail at h htail
  have hlast : ∀ stop' : Option WriteStop,
      files' = ((((files.write .key csr.keyPem).write .cert resp.certificatePem).write .ca
        resp.caCertificatePem).write .pubkey resp.commandSigningPubkey).writeAll tail stop' →
      files' .key = some csr.keyPem ∧ files' .cert = some resp.certificatePem ∧
        files' .ca = some resp.caCertificatePem ∧ files' .pubkey = some resp.commandSigningPubkey := by
    intro stop' heq
    rw [heq, writeAll_of_not_mem (htail .key nofun), writeAll_of_not_mem (htail .cert nofun),
      writeAll_of_not_mem (htail .ca nofun), writeAll_of_not_mem (htail .pubkey nofun)]
    exact ⟨rfl, rfl, rfl, rfl⟩
  match stop with
  | none =>
    obtain ⟨hkey, hcert, hca, hpubkey⟩ := hlast none h.symm
    exact .inr ⟨hkey, hcert, ⟨_, hca.trans (congrArg some (hwhole _))⟩, .inr (.inr ⟨nofun, hpubkey⟩)⟩
  | some ⟨0, none⟩ | some ⟨1, none⟩ | some ⟨2, none⟩ | some ⟨0, some n⟩ | some ⟨1, some n⟩ =>
    subst h
    exact .inl ⟨rfl, rfl, rfl⟩
  | some ⟨2, some n⟩ =>
    subst h
    exact .inr ⟨rfl, rfl, ⟨n, rfl⟩, .inl ⟨_, rfl, .inl (Nat.lt_succ_self 2), rfl, rfl⟩⟩
  | some ⟨3, none⟩ =>
    subst h
    exact .inr ⟨rfl, rfl, ⟨_, congrArg some (hwhole _)⟩, .inl ⟨_, rfl, .inr ⟨rfl, rfl⟩, rfl, rfl⟩⟩
  | some ⟨3, some n⟩ =>
    subst h
    exact .inr ⟨rfl, rfl, ⟨_, congrArg some (hwhole _)⟩, .inr (.inl ⟨n, rfl, rfl, rfl⟩)⟩
  | some ⟨n + 4, part⟩ =>
    have hafter : ∀ st, some (WriteStop.mk (n + 4) part) = some st → 3 < st.after := by
      rintro st ⟨⟩
      exact Nat.lt_of_lt_of_le (by decide) (Nat.le_add_left 4 n)
    obtain ⟨hkey, hcert, hca, hpubkey⟩ := hlast (some ⟨n, part⟩) h.symm
    exact .inr ⟨hkey, hcert, ⟨_, hca.trans (congrArg some (hwhole _))⟩, .inr (.inr ⟨hafter, hpubkey⟩)⟩

end CredFiles

/-! ## The text of a key -/

section

variable {P : Platform}

/-- A text that is cut off is not read as a key. -/
theorem verifyingKeyFromB64_take (hbytes : KeyBytes P) (key : P.VerifyingKey) (hn : n < 44) :
    (verifyingKeyFromB64 P (String.ofList ((verifyingKeyToB64 P key).toList.take n))).toOption =
      none := by
  have htrim : trim ((Base64.encode (P.toBytes key)).take n) = (Base64.encode (P.toBytes key)).take n := by
    have hdigit : ∀ n ≤ 64, isWhitespace (Base64.digit n) = false := by decide +kernel
    refine trim_eq_self fun c hc => ?_
    obtain ⟨n, hn, rfl⟩ := Base64.mem_encode (List.mem_of_mem_take hc)
    exact hdigit n hn
  rw [verifyingKeyFromB64, verifyingKeyToB64, String.toList_ofList, String.toList_ofList, htrim]
  cases hdecode : Base64.decode ((Base64.encode (P.toBytes key)).take n) with
  | none => rfl
  | some bytes =>
    have hlen := Base64.length_of_decode hdecode
    rw [List.length_take, Base64.length_encode, hbytes.length_toBytes] at hlen
    have hne : bytes.length ≠ 32 := by omega
    simp only [if_pos hne]
    rfl

theorem length_verifyingKeyToB64 (hbytes : KeyBytes P) (key : P.VerifyingKey) :
    (verifyingKeyToB64 P key).toList.length = 44 := by
  rw [verifyingKeyToB64, String.toList_ofList, Base64.length_encode, hbytes.length_toBytes]

end

/-! ## What an enrollment leaves -/

namespace Enrollment

section

variable {P : Platform}

/-- The credentials are those of a start at which the control plane signed its request, in the name that the
agent had then. -/
structure Issued (start : AgentStart P) (files : CredFiles) (notAfter : DateTime) : Prop where
  key : files .key = some start.csr.keyPem
  signed : ∃ ca csr notBefore expiry pem, start.server.ca = some ca ∧
    ca.fromPem start.csr.csrPem = some csr ∧
    ca.signedBy csr (Ca.params start.config.agentId notBefore expiry) = some pem ∧
    notAfter.nanos = expiry.nanos / 1000000000 * 1000000000 ∧
    files .cert = some pem ∧ ∃ n, files .ca = some (String.ofList (ca.certPem.toList.take n))

theorem Issued.of_same {start : AgentStart P} {files files' : CredFiles}
    (h : Issued start files notAfter)
    (hsame : ∀ file, file ≠ .keyring → files' file = files file) :
    Issued start files' notAfter := by
  obtain ⟨hkey, ca, csr, notBefore, expiry, pem, hca, hcsr, hsigned, hnotAfter, hcert, n, hcapem⟩ := h
  exact ⟨(hsame .key nofun).trans hkey, ca, csr, notBefore, expiry, pem, hca, hcsr, hsigned, hnotAfter,
    (hsame .cert nofun).trans hcert, n, (hsame .ca nofun).trans hcapem⟩

/-- The command key is there in full if the start got that far; else there is none that can be read. -/
def Trust (start : AgentStart P) (files : CredFiles) : Prop :=
  (start.Interrupted ∧ files .keyring = none ∧ (files .pubkey = none ∨
      ∃ key, ∃ n < 44, files .pubkey = some (String.ofList ((verifyingKeyToB64 P key).toList.take n)))) ∨
    ¬start.Interrupted ∧ ∃ key, files .pubkey = some (verifyingKeyToB64 P key)

/-- What `enroll` replied with. -/
theorem enroll_json {srv : EnrollServer P} {db db' : RegistryDb} {req : EnrollRequest} {now : DateTime}
    {ok : Bool} {resp : EnrollResponse} (h : enroll srv db req now ok = (db', .json resp)) :
    db' = db.recordEnrollment req.agentId req.host resp.notAfter now ∧
      resp.commandSigningPubkey = verifyingKeyToB64 P (P.verifyingKey srv.signer.key) ∧
      ∃ ca csr notBefore expiry, srv.ca = some ca ∧ ca.fromPem req.csrPem = some csr ∧
        ca.signedBy csr (Ca.params req.agentId notBefore expiry) = some resp.certificatePem ∧
        resp.notAfter.nanos = expiry.nanos / 1000000000 * 1000000000 ∧
        resp.caCertificatePem = ca.certPem := by
  unfold enroll at h
  split at h
  · rename_i ca expected hca htoken
    split at h
    · split at h
      · cases h
      · cases h
      · rename_i pem notAfter hsign
        split at h
        · cases h
          refine ⟨rfl, srv.published, ca, ?_⟩
          unfold Ca.sign at hsign
          split at hsign
          · cases hsign
          · rename_i csr hcsr
            split at hsign
            · obtain ⟨pem', hpem, heq⟩ := Option.map_eq_some_iff.mp (Option.some.inj hsign)
              cases heq
              exact ⟨csr, _, _, hca, hcsr, hpem, rfl, rfl⟩
            · cases hsign
        · cases h
    · cases h
  · cases h

/-- The registry after a request, whatever became of it. -/
theorem enroll_db (srv : EnrollServer P) (db : RegistryDb) (req : EnrollRequest) (now : DateTime)
    (ok : Bool) : (enroll srv db req now ok).1 = db ∨
      ∃ notAfter, (enroll srv db req now ok).1 = db.write (.enrollment req.agentId req.host notAfter now) := by
  generalize h : enroll srv db req now ok = r
  unfold enroll at h
  split at h
  · split at h
    · split at h
      · exact .inl (congrArg Prod.fst h).symm
      · exact .inl (congrArg Prod.fst h).symm
      · split at h
        · exact .inr ⟨_, (congrArg Prod.fst h).symm⟩
        · exact .inl (congrArg Prod.fst h).symm
    · exact .inl (congrArg Prod.fst h).symm
  · exact .inl (congrArg Prod.fst h).symm

/-- What a start does: nothing at all if the credentials are complete, else a request whose reply is lost
or refused, or one whose reply is written out. -/
theorem ensureEnrolled_cases (files : CredFiles) (db : RegistryDb) (start : AgentStart P) :
    ensureEnrolled files db start = (files, db) ∨
      files.complete = false ∧
        ((∃ notAfter, ensureEnrolled files db start =
            (files, db.write (.enrollment start.config.agentId start.config.host notAfter start.now))) ∨
          ∃ token resp, enroll start.server db (start.request token) start.now start.recorded =
              (db.write (.enrollment start.config.agentId start.config.host resp.notAfter start.now), .json resp) ∧
            ensureEnrolled files db start =
              (files.writeAll (enrollWrites start.csr resp) start.stop,
                db.write (.enrollment start.config.agentId start.config.host resp.notAfter start.now))) := by
  unfold ensureEnrolled
  split
  · exact .inl rfl
  · rename_i hcomplete
    have hcomplete : files.complete = false := by simpa using hcomplete
    split
    · rename_i token _ _
      have hdb := enroll_db start.server db (start.request token) start.now start.recorded
      split
      · exact .inl rfl
      · rcases hdb with hdb | ⟨notAfter, hdb⟩
        · exact .inl (by rw [hdb])
        · exact .inr ⟨hcomplete, .inl ⟨notAfter, by rw [hdb]; rfl⟩⟩
      · split
        · rename_i db' resp henroll
          have hdb' := (enroll_json henroll).1
          subst hdb'
          exact .inr ⟨hcomplete, .inr ⟨token, resp, henroll, rfl⟩⟩
        · rename_i db' reply _ henroll
          rw [henroll] at hdb
          rcases hdb with rfl | ⟨notAfter, rfl⟩
          · exact .inl rfl
          · exact .inr ⟨hcomplete, .inl ⟨notAfter, rfl⟩⟩
    · exact .inl rfl

/-- Whether there is a ring to verify with is decided by where the writes of the enrollment ended. -/
theorem Trust.pinned_iff (hbytes : KeyBytes P) {start : AgentStart P} {files : CredFiles}
    (h : Trust start files) : (loadPinnedKeyring P files.pins).isSome ↔ ¬start.Interrupted := by
  rcases h with ⟨hstop, hkeyring, hpubkey⟩ | ⟨hstop, key, hpubkey⟩
  · have hnone : loadPinnedKeyring P files.pins = none := by
      rw [loadPinnedKeyring, CredFiles.pins, hkeyring]
      rcases hpubkey with hpubkey | ⟨key, n, hn, hpubkey⟩
      · rw [hpubkey]
        rfl
      · rw [hpubkey]
        show (verifyingKeyFromB64 P _).toOption.map _ = none
        rw [verifyingKeyFromB64_take hbytes key hn]
        rfl
    rw [hnone]
    exact ⟨fun h => absurd h Bool.false_ne_true, fun h => absurd hstop h⟩
  · refine ⟨fun _ => hstop, fun _ => ?_⟩
    rw [loadPinnedKeyring]
    split
    · rfl
    · rw [CredFiles.pins, hpubkey]
      show ((verifyingKeyFromB64 P _).toOption.map _).isSome = true
      rw [verifyingKeyFromB64_toB64 hbytes]
      rfl

/-- The writes of an enrollment, made where there were no complete credentials before. -/
theorem issued_writeAll (hbytes : KeyBytes P) {start : AgentStart P} {files files' : CredFiles}
    {db db' : RegistryDb} {token : String} {resp : EnrollResponse}
    (hempty : files .ca = none ∧ files .pubkey = none ∧ files .keyring = none)
    (henroll : enroll start.server db (start.request token) start.now start.recorded =
      (db', .json resp))
    (h : files.writeAll (enrollWrites start.csr resp) start.stop = files') :
    (files' .ca = none ∧ files' .pubkey = none ∧ files' .keyring = none) ∨
      files'.complete = true ∧ Issued start files' resp.notAfter ∧ Trust start files' := by
  obtain ⟨hca₀, hpubkey₀, hkeyring₀⟩ := hempty
  obtain ⟨-, hpublished, ca, csr, notBefore, expiry, hca, hcsr, hsigned, hnotAfter, hcapem⟩ :=
    enroll_json henroll
  rcases files.writeAll_enrollWrites start.csr resp start.stop h with
    ⟨hca', hpubkey, hkeyring⟩ | ⟨hkey, hcert, ⟨n, hca'⟩, hend⟩
  · exact .inl ⟨hca'.trans hca₀, hpubkey.trans hpubkey₀, hkeyring.trans hkeyring₀⟩
  have hcomplete : files'.complete = true := by
    rw [CredFiles.complete, hkey, hcert, hca']
    rfl
  refine .inr ⟨hcomplete, ⟨hkey, ca, csr, notBefore, expiry, _, hca, hcsr, hsigned, hnotAfter, hcert,
    n, hcapem ▸ hca'⟩, ?_⟩
  rw [hpublished] at hend
  rcases hend with ⟨st, hst, hafter, hpubkey, hkeyring⟩ | ⟨n, hst, hkeyring, hpubkey⟩ | ⟨hafter, hpubkey⟩
  · refine .inl ⟨⟨st, hst, hafter.imp_right fun h => ⟨h.1, fun n hn => ?_⟩⟩,
      hkeyring.trans hkeyring₀, .inl (hpubkey.trans hpubkey₀)⟩
    rw [h.2] at hn
    cases hn
  · by_cases hn : n < 44
    · refine .inl ⟨⟨_, hst, .inr ⟨rfl, fun n' hn' => ?_⟩⟩, hkeyring.trans hkeyring₀,
        .inr ⟨_, n, hn, hpubkey⟩⟩
      cases hn'
      exact hn
    · refine .inr ⟨?_, P.verifyingKey start.server.signer.key, ?_⟩
      · rintro ⟨st, hst', hlt | ⟨-, hpart⟩⟩
        · cases hst.symm.trans hst'
          exact Nat.lt_irrefl 3 hlt
        · cases hst.symm.trans hst'
          exact hn (hpart n rfl)
      · have hlen := length_verifyingKeyToB64 hbytes (P.verifyingKey start.server.signer.key)
        rw [hpubkey, List.take_of_length_le (hlen ▸ Nat.le_of_not_lt hn), String.ofList_toList]
  · refine .inr ⟨?_, _, hpubkey⟩
    rintro ⟨st, hst, hlt | ⟨heq, -⟩⟩
    · exact Nat.lt_asymm hlt (hafter st hst)
    · exact Nat.lt_irrefl 3 (heq ▸ hafter st hst)

end

end Enrollment

/-! ## The registry -/

/-- A write that neither enrolls the agent nor deletes it. -/
def RegistryWrite.Foreign (id : Uuid) : RegistryWrite → Prop
  | .enrollment id' _ _ _ => id' ≠ id
  | .delete id' => id' ≠ id
  | _ => True

instance (id : Uuid) : ∀ w, Decidable (RegistryWrite.Foreign id w)
  | .enrollment .. | .delete _ => inferInstanceAs (Decidable (_ ≠ _))
  | .touch .. | .heartbeat .. | .labels .. => .isTrue trivial

/-- An agent is known, with a certificate that is valid until then. -/
def Known.Expiry (m : Known) (id : Uuid) (notAfter : DateTime) : Prop :=
  ∃ info, m id = some info ∧ info.row.certNotAfter = some notAfter

theorem Known.Expiry.upsert {m : Known} {id : Uuid} (h : m.Expiry id t) {new : AgentRow}
    {update : AgentRow → AgentRow} (hupdate : ∀ r, (update r).certNotAfter = r.certNotAfter) :
    (m.upsert new update).Expiry id t := by
  obtain ⟨info, hinfo, ht⟩ := h
  by_cases hid : id = new.agentId
  · subst hid
    refine ⟨_, Function.update_self _ _ _, ?_⟩
    simp only [hinfo]
    exact (hupdate _).trans ht
  · exact ⟨info, (Function.update_of_ne hid _ _).trans hinfo, ht⟩

/-- The writes of others leave the expiry as it is. -/
theorem Known.Expiry.write {m : Known} {id : Uuid} (h : m.Expiry id t) {w : RegistryWrite}
    (hw : w.Foreign id) : (m.write w).Expiry id t := by
  cases w with
  | touch id' host now =>
    show (m.upsert _ fun r => { r with host := host, lastSeen := now }).Expiry id t
    exact h.upsert fun r => rfl
  | heartbeat hb now =>
    show (m.upsert _ fun r => { r with host := hb.host, lastSeen := now }.withHealth hb now).Expiry id t
    exact h.upsert fun r => rfl
  | enrollment id' host notAfter now =>
    obtain ⟨info, hinfo, ht⟩ := h
    exact ⟨info, (Function.update_of_ne (Ne.symm hw) _ _).trans hinfo, ht⟩
  | labels id' labels ok =>
    obtain ⟨info, hinfo, ht⟩ := h
    cases ok with
    | false => exact ⟨info, hinfo, ht⟩
    | true =>
      by_cases hid : id = id'
      · subst hid
        refine ⟨_, (Function.update_self _ _ _).trans (congrArg _ hinfo), ht⟩
      · exact ⟨info, (Function.update_of_ne hid _ _).trans hinfo, ht⟩
  | delete id' =>
    obtain ⟨info, hinfo, ht⟩ := h
    exact ⟨info, (Function.update_of_ne (Ne.symm hw) _ _).trans hinfo, ht⟩

theorem Known.expiry_enrollment (m : Known) (id : Uuid) (host : String) (notAfter now : DateTime) :
    (m.write (.enrollment id host notAfter now)).Expiry id notAfter := by
  refine ⟨_, Function.update_self _ _ _, ?_⟩
  split <;> rfl

/-! ## Runs -/

namespace Enrollment

section

variable {P : Platform}

/-- What a run keeps. -/
structure Kept (ls : List (EnrollmentLabel P)) (s : Enrollment P) : Prop where
  valid : s.db.Valid
  empty : s.files.complete = false →
    s.files .ca = none ∧ s.files .pubkey = none ∧ s.files .keyring = none
  issued : s.files.complete = true → ∃ start notAfter, .start start ∈ ls ∧
    Issued start s.files notAfter ∧ Trust start s.files ∧
    ((∀ w, .write w ∈ ls → w.Foreign start.config.agentId) → s.db.known.Expiry start.config.agentId notAfter)
  pulling : s.pulling.isSome = true → (loadPinnedKeyring P s.files.pins).isSome = true

theorem spawnRemediation_isSome {cfg : EnrollConfig} {files : CredFiles}
    (h : (spawnRemediation (P := P) cfg files).isSome = true) :
    (loadPinnedKeyring P files.pins).isSome = true := by
  unfold spawnRemediation at h
  split at h
  · split at h
    · rename_i hring _
      rw [hring]
      rfl
    · cases h
  · cases h

/-- A ring that is in memory stays one that can be loaded. -/
theorem isSome_refresh {s : AgentKeyring P} (h : (loadPinnedKeyring P s.dir).isSome = true)
    (call : Refresh) : (loadPinnedKeyring P (refreshKeyring P s call).dir).isSome = true := by
  rcases AgentKeyring.refreshKeyring_cases s call with ⟨-, heq⟩ | ⟨-, json, fetched, hread, heq⟩
  · rwa [heq]
  · rw [heq, persistKeyring]
    split
    · rw [loadPinnedKeyring]
      simp only [Option.bind_some, hread, Option.isSome_some]
    · exact h

theorem ensureEnrolled_complete {files : CredFiles} (hcomplete : files.complete = true)
    (db : RegistryDb) (start : AgentStart P) : ensureEnrolled files db start = (files, db) := by
  rw [ensureEnrolled, if_pos hcomplete]

theorem kept_initial : Kept [] (initial (P := P)) :=
  ⟨RegistryDb.valid_empty, fun _ => ⟨rfl, rfl, rfl⟩, nofun, nofun⟩

theorem step_start (s : Enrollment P) (start : AgentStart P) : s.step (.start start) =
    some ⟨(ensureEnrolled s.files s.db start).1,
      spawnRemediation start.config (ensureEnrolled s.files s.db start).1,
      (ensureEnrolled s.files s.db start).2⟩ := rfl

/-- A start keeps what is there, or leaves what a new enrollment got to write. -/
theorem kept_start (hbytes : KeyBytes P) {ls : List (EnrollmentLabel P)} {s : Enrollment P}
    (hs : Kept ls s) (start : AgentStart P) (hstep : s.step (.start start) = some s') :
    Kept (ls ++ [.start start]) s' := by
  have hmem : ∀ {l}, l ∈ ls → l ∈ ls ++ [EnrollmentLabel.start start] := List.mem_append_left _
  have hkeep : ∀ {files : CredFiles} {db : RegistryDb}, files = s.files → db.Valid →
      (s.files.complete = true → db = s.db) →
      Kept (ls ++ [.start start]) ⟨files, spawnRemediation start.config files, db⟩ := by
    rintro files db rfl hdb hsame
    refine ⟨hdb, hs.empty, fun hcomplete => ?_, spawnRemediation_isSome⟩
    obtain ⟨start', notAfter, hstart', hissued, htrust, hexpiry⟩ := hs.issued hcomplete
    refine ⟨start', notAfter, hmem hstart', hissued, htrust, fun hothers => ?_⟩
    rw [hsame hcomplete]
    exact hexpiry fun w hw => hothers w (hmem hw)
  rw [step_start, Option.some.injEq] at hstep
  subst hstep
  rcases ensureEnrolled_cases s.files s.db start with
    heq | ⟨hincomplete, ⟨notAfter, heq⟩ | ⟨token, resp, henroll, heq⟩⟩
  · rw [heq]
    exact hkeep rfl hs.valid fun _ => rfl
  · rw [heq]
    exact hkeep rfl (RegistryDb.valid_write hs.valid (.enrollment start.config.agentId start.config.host notAfter start.now))
      fun h => absurd (hincomplete.symm.trans h) (by decide)
  · rw [heq]
    generalize hwrites : s.files.writeAll (enrollWrites start.csr resp) start.stop = files'
    have hvalid := RegistryDb.valid_write hs.valid (.enrollment start.config.agentId start.config.host resp.notAfter start.now)
    rcases issued_writeAll hbytes (hs.empty hincomplete) henroll hwrites with
      hempty | ⟨hcomplete, hissued, htrust⟩
    · refine ⟨hvalid, fun _ => hempty, fun hcomplete => ?_, spawnRemediation_isSome⟩
      simp [CredFiles.complete, hempty.1] at hcomplete
    · refine ⟨hvalid, fun h => ?_, fun _ => ?_, spawnRemediation_isSome⟩
      · exact absurd (hcomplete.symm.trans h) (by decide)
      · refine ⟨start, resp.notAfter, List.mem_append_right _ List.mem_cons_self, hissued, htrust,
          fun _ => ?_⟩
        show (s.db.write _).known.Expiry start.config.agentId resp.notAfter
        rw [RegistryDb.known_write hs.valid]
        exact Known.expiry_enrollment _ _ _ _ _

/-- A refresh does not touch the older key. -/
theorem pubkey_refreshKeyring (s : AgentKeyring P) (call : Refresh) :
    (refreshKeyring P s call).dir.pubkey = s.dir.pubkey := by
  rcases AgentKeyring.refreshKeyring_cases s call with ⟨-, heq⟩ | ⟨-, json, fetched, -, heq⟩
  · rw [heq]
  · rw [heq, persistKeyring]
    split <;> rfl

theorem pins_update (files : CredFiles) (dir : CredDir) (hpubkey : dir.pubkey = files .pubkey) :
    CredFiles.pins (Function.update files .keyring (dir.keyring.map String.ofList)) = dir := by
  obtain ⟨keyring, pubkey⟩ := dir
  cases hpubkey
  have hkeyring : (keyring.map String.ofList).map String.toList = keyring := by
    cases keyring with
    | none => rfl
    | some json => exact congrArg some String.toList_ofList
  have hne : CredFile.pubkey ≠ .keyring := nofun
  show CredDir.mk ((Function.update files .keyring _ .keyring).map String.toList)
    (Function.update files .keyring _ .pubkey) = _
  rw [Function.update_self, Function.update_of_ne hne, hkeyring]

/-- Where there is a ring, the command key is there in full, and a refresh leaves it. -/
theorem Trust.of_same (hbytes : KeyBytes P) {start : AgentStart P} {files files' : CredFiles}
    (h : Trust start files) (hpinned : (loadPinnedKeyring P files.pins).isSome = true)
    (hsame : ∀ file, file ≠ .keyring → files' file = files file) : Trust start files' := by
  have hstop := (h.pinned_iff hbytes).mp hpinned
  rcases h with ⟨hstop', -⟩ | ⟨-, key, hpubkey⟩
  · exact absurd hstop' hstop
  · exact .inr ⟨hstop, key, (hsame .pubkey nofun).trans hpubkey⟩

/-- A refresh writes the keyring, and is made only where a ring could be loaded. -/
theorem kept_refresh (hbytes : KeyBytes P) {ls : List (EnrollmentLabel P)} {s : Enrollment P}
    (hs : Kept ls s) (call : Refresh) (hstep : s.step (.refresh call) = some s') :
    Kept (ls ++ [.refresh call]) s' ∧ ∀ file, file ≠ .keyring → s'.files file = s.files file := by
  obtain ⟨ring, hring, rfl⟩ := Option.map_eq_some_iff.mp hstep
  have hpinned := hs.pulling (by rw [hring]; rfl)
  have hother : ∀ text file, file ≠ CredFile.keyring →
      Function.update s.files .keyring text file = s.files file := fun text file hne =>
    Function.update_of_ne hne _ _
  have hcomplete : ∀ text, CredFiles.complete (Function.update s.files .keyring text) =
      s.files.complete := fun text => by
    rw [CredFiles.complete, hother _ .key nofun, hother _ .cert nofun, hother _ .ca nofun]
    rfl
  have hpins := pins_update s.files _ (pubkey_refreshKeyring ⟨ring, s.files.pins⟩ call)
  refine ⟨⟨hs.valid, fun h => ?_, fun h => ?_, fun _ => ?_⟩, hother _⟩
  · -- without complete credentials there is no ring, and so no refresh
    obtain ⟨-, hpubkey, hkeyring⟩ := hs.empty ((hcomplete _).symm.trans h)
    rw [CredFiles.pins, hpubkey, hkeyring] at hpinned
    cases hpinned
  · obtain ⟨start, notAfter, hstart, hissued, htrust, hexpiry⟩ := hs.issued ((hcomplete _).symm.trans h)
    refine ⟨start, notAfter, List.mem_append_left _ hstart, ?_, ?_, fun hothers => ?_⟩
    · exact hissued.of_same (hother _)
    · exact htrust.of_same hbytes hpinned (hother _)
    · exact hexpiry fun w hw => hothers w (List.mem_append_left _ hw)
  · rw [hpins]
    exact isSome_refresh hpinned call

theorem kept_write {ls : List (EnrollmentLabel P)} {s : Enrollment P} (hs : Kept ls s)
    (w : RegistryWrite) : Kept (ls ++ [.write w]) { s with db := s.db.write w } := by
  refine ⟨RegistryDb.valid_write hs.valid w, hs.empty, fun hcomplete => ?_, hs.pulling⟩
  obtain ⟨start, notAfter, hstart, hissued, htrust, hexpiry⟩ := hs.issued hcomplete
  refine ⟨start, notAfter, List.mem_append_left _ hstart, hissued, htrust, fun hothers => ?_⟩
  show (s.db.write w).known.Expiry start.config.agentId notAfter
  rw [RegistryDb.known_write hs.valid]
  exact (hexpiry fun w' hw' => hothers w' (List.mem_append_left _ hw')).write
    (hothers w (List.mem_append_right _ List.mem_cons_self))

theorem kept_run (hbytes : KeyBytes P) {ls : List (EnrollmentLabel P)} {s : Enrollment P}
    (hrun : run step initial ls = some s) : Kept ls s := by
  refine run_history (I := Kept) (fun {ls s l s'} _ hs hstep => ?_) hrun kept_initial
  cases l with
  | start start => exact kept_start hbytes hs start hstep
  | refresh call => exact (kept_refresh hbytes hs call hstep).1
  | write w =>
    cases hstep
    exact kept_write hs w

/-- Complete credentials are not touched again, but for the keyring. -/
theorem same_of_complete (hbytes : KeyBytes P) {ls ls' : List (EnrollmentLabel P)}
    {s s' : Enrollment P} {start : AgentStart P} (hs : Kept ls s)
    (hcomplete : s.files.complete = true) (htrust : Trust start s.files)
    (hrun : run step s ls' = some s') :
    (∀ file, file ≠ .keyring → s'.files file = s.files file) ∧ Trust start s'.files := by
  induction ls' generalizing ls s with
  | nil =>
    cases hrun
    exact ⟨fun _ _ => rfl, htrust⟩
  | cons l ls' ih =>
    obtain ⟨m, hstep, hrest⟩ := run_cons_eq_some.mp hrun
    have hone : Kept (ls ++ [l]) m ∧ (∀ file, file ≠ .keyring → m.files file = s.files file) ∧
        Trust start m.files := by
      cases l with
      | start st =>
        have hkept := kept_start hbytes hs st hstep
        rw [step_start, ensureEnrolled_complete hcomplete, Option.some.injEq] at hstep
        subst hstep
        exact ⟨hkept, fun _ _ => rfl, htrust⟩
      | refresh call =>
        obtain ⟨hkept, hsame⟩ := kept_refresh hbytes hs call hstep
        obtain ⟨ring, hring, -⟩ := Option.map_eq_some_iff.mp hstep
        exact ⟨hkept, hsame, htrust.of_same hbytes (hs.pulling (by rw [hring]; rfl)) hsame⟩
      | write w =>
        cases hstep
        exact ⟨kept_write hs w, fun _ _ => rfl, htrust⟩
    obtain ⟨hkept, hsame, htrust'⟩ := hone
    have hcomplete' : m.files.complete = true := by
      rw [CredFiles.complete, hsame .key nofun, hsame .cert nofun, hsame .ca nofun]
      exact hcomplete
    obtain ⟨hlater, htrust''⟩ := ih hkept hcomplete' htrust' hrest
    exact ⟨fun file hfile => (hlater file hfile).trans (hsame file hfile), htrust''⟩

end

/-- Over every run of starts, each with its own configuration and wherever it ends, and whatever else is
written to the registry: complete credentials are the key of one start and the certificate that the control
plane signed for its request, in the name that the agent had then; and if nobody else enrolled or deleted
that name, the registry has it with the expiry of that certificate. -/
theorem credentials_registered (P : Platform) (hbytes : KeyBytes P)
    (ls : List (EnrollmentLabel P)) (s : Enrollment P) (hrun : run step initial ls = some s)
    (hcomplete : s.files.complete = true) :
    ∃ start notAfter, .start start ∈ ls ∧ Issued start s.files notAfter ∧
      ((∀ w, .write w ∈ ls → w.Foreign start.config.agentId) →
        ∃ info, s.db.known start.config.agentId = some info ∧
          info.row.certNotAfter = some notAfter) := by
  obtain ⟨start, notAfter, hstart, hissued, -, hexpiry⟩ := (kept_run hbytes hrun).issued hcomplete
  exact ⟨start, notAfter, hstart, hissued, hexpiry⟩

/-! ### A start that is stopped in the middle of the command key -/

def sampleConfig (agentId : Uuid) : EnrollConfig where
  agentId := agentId
  host := "web-01"
  enrollEndpoint := some "http://127.0.0.1:8080"
  bootstrapToken := some "token"
  remediationEnable := true

def sampleCa : Ca where
  Csr := Unit
  fromPem _ := some ()
  signedBy _ params := some params.commonName
  certPem := "CA"
  ttlDays := 90

/-- The signer of one key, without previous ones. -/
def sampleSigner : CommandSigner Platform.sample :=
  let ring : Keyring Platform.sample := Keyring.single (7 : UInt8)
  ⟨(7 : UInt8), verifyingKeyToB64 Platform.sample (7 : UInt8),
    Keyring.toJson Platform.sample (ring.setDefault (keyId Platform.sample (7 : UInt8))).2⟩

def sampleServer : EnrollServer Platform.sample where
  ca := some sampleCa
  enrollToken := some "token"
  signer := sampleSigner
  loaded := by
    refine ⟨(7 : UInt8), [], ?_⟩
    unfold CommandSigner.loadOrGenerateWithPrevious sampleSigner
    simp only [List.foldlM_nil]
    rfl

def sampleStart : AgentStart Platform.sample where
  config := sampleConfig ⟨2⟩
  server := sampleServer
  csr := ⟨"CSR", "KEY"⟩
  exchanged := .answered
  now := Platform.noon
  recorded := true
  stop := some ⟨3, some 10⟩

/-- The next start draws another identifier. -/
def sampleAgain : AgentStart Platform.sample :=
  { sampleStart with config := sampleConfig ⟨6⟩, csr := ⟨"CSR 2", "KEY 2"⟩, stop := none }

/-- What the start leaves. -/
def sampleStopped : Enrollment Platform.sample :=
  let r := ensureEnrolled (fun _ => none) ⟨[], []⟩ sampleStart
  ⟨r.1, spawnRemediation sampleStart.config r.1, r.2⟩

theorem run_sampleStart : run step initial [.start sampleStart] = some sampleStopped := rfl

theorem complete_sampleStopped : sampleStopped.files.complete = true := by
  decide +kernel

/-- The agent after the next start, which finds the credentials complete. -/
def sampleRestarted : Enrollment Platform.sample :=
  { sampleStopped with pulling := spawnRemediation sampleAgain.config sampleStopped.files }

theorem run_sampleAgain : run step sampleStopped [.start sampleAgain] = some sampleRestarted := by
  refine run_cons_eq_some.mpr ⟨sampleRestarted, ?_, rfl⟩
  rw [step_start, ensureEnrolled_complete complete_sampleStopped]
  rfl

/-- Under its new identifier, which the registry does not know, the agent has the certificate of the old
one. -/
theorem credentials_registered_sample :
    (sampleRestarted.db.known sampleAgain.config.agentId).isSome = false ∧
      ∃ notAfter info, Issued sampleStart sampleRestarted.files notAfter ∧
        sampleRestarted.db.known ⟨2⟩ = some info ∧ info.row.certNotAfter = some notAfter := by
  have hrun : run step initial ([.start sampleStart] ++ [.start sampleAgain]) = some sampleRestarted :=
    run_append_eq_some.mpr ⟨_, run_sampleStart, run_sampleAgain⟩
  have hkey : sampleRestarted.files .key ≠ some sampleAgain.csr.keyPem := by decide +kernel
  obtain ⟨start, notAfter, hstart, hissued, hexpiry⟩ := credentials_registered Platform.sample
    Platform.sample_ed25519.toKeyBytes _ _ hrun complete_sampleStopped
  refine ⟨by decide +kernel, ?_⟩
  rcases List.mem_cons.mp hstart with h | h
  · cases h
    obtain ⟨info, hinfo, ht⟩ := hexpiry fun w hw => by simp at hw
    exact ⟨notAfter, info, hissued, hinfo, ht⟩
  · cases List.mem_singleton.mp h
    exact absurd hissued.key hkey

/-- Complete credentials are final, and with them whether the agent can verify a command: it can, after any
further steps, exactly if the start that enrolled was not interrupted before the command key was written.
Otherwise it pulls no commands, and no later start gets it a key. -/
theorem command_key_final (P : Platform) (hbytes : KeyBytes P)
    (ls : List (EnrollmentLabel P)) (s : Enrollment P) (hrun : run step initial ls = some s)
    (hcomplete : s.files.complete = true) :
    ∃ start, .start start ∈ ls ∧ s.files .key = some start.csr.keyPem ∧
      ∀ ls' s', run step s ls' = some s' →
        (∀ file, file ≠ .keyring → s'.files file = s.files file) ∧
        ((loadPinnedKeyring P s'.files.pins).isSome ↔ ¬start.Interrupted) ∧
        (start.Interrupted → s'.pulling = none) := by
  have hs := kept_run hbytes hrun
  obtain ⟨start, notAfter, hstart, hissued, htrust, -⟩ := hs.issued hcomplete
  refine ⟨start, hstart, hissued.key, fun ls' s' hrun' => ?_⟩
  obtain ⟨hsame, htrust'⟩ := same_of_complete hbytes hs hcomplete htrust hrun'
  have hs' : Kept (ls ++ ls') s' := kept_run hbytes (run_append_eq_some.mpr ⟨s, hrun, hrun'⟩)
  refine ⟨hsame, htrust'.pinned_iff hbytes, fun hstop => ?_⟩
  cases hpulling : s'.pulling with
  | none => rfl
  | some ring =>
    have hpinned := hs'.pulling (by rw [hpulling]; rfl)
    exact absurd hstop ((htrust'.pinned_iff hbytes).mp hpinned)

/-- The next start finds the credentials complete and does not enroll again. -/
theorem command_key_final_sample :
    loadPinnedKeyring Platform.sample sampleRestarted.files.pins = none ∧
      sampleRestarted.pulling = none := by
  obtain ⟨start, hstart, -, hfinal⟩ := command_key_final Platform.sample
    Platform.sample_ed25519.toKeyBytes [.start sampleStart] sampleStopped run_sampleStart
    complete_sampleStopped
  cases List.mem_singleton.mp hstart
  have hstop : sampleStart.Interrupted := ⟨_, rfl, .inr ⟨rfl, fun n hn => by cases hn; decide⟩⟩
  obtain ⟨-, hpinned, hpulling⟩ := hfinal [.start sampleAgain] _ run_sampleAgain
  refine ⟨?_, hpulling hstop⟩
  exact Option.not_isSome_iff_eq_none.mp fun hring => hpinned.mp hring hstop

end Enrollment

end Ravn
