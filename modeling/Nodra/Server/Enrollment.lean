import Nodra.Server.Console
import Nodra.Lib.Program

/-! The requests that need no bearer token: `login`, `enroll` and `ztpBootstrap`, with the
limit on their failures, and the life of the certificates that the last two and
`siteRotate` sign.  A step makes one access to what the requests share. -/
namespace Nodra.Server
open Model Std Interleave Program

structure PortalConfig where
  adminUser : String := ""
  adminPassword : String := ""
  viewerUser : String := ""
  viewerPassword : String := ""
  publicBaseURL : String := ""
  pki : Bool := true

structure RevokedCert where
  serial : Nat
  revokedAt : Time
deriving DecidableEq

inductive PortalObservation where
  | failed (key : String) (time : Time)
  | cleared (key : String) (time : Time)
  | signed (siteID : String) (serial : Nat)
deriving DecidableEq

structure Portal where
  console : Console
  cfg : PortalConfig := {}
  loginFails : ExtTreeMap String (List Time) := ∅
  crl : Option (List RevokedCert) := none
  crlNextUpdate : Time := 0
  clock : Time := 0
  history : List PortalObservation := []

structure PortalEnv extends ConsoleEnv where
  splitHostPort : String → Option String

/-- What decides one access: its error, the clock, fresh tokens and ids, and the serial
that `SignCSR` draws. -/
structure PortalChoice where
  error : Option String := none
  now : Time := 0
  id : String := ""
  token : String := ""
  localToken : String := ""
  sign : Except String Nat := .error ""
deriving Inhabited

inductive PortalPoint where
  | attemptLimited (key : String)
  | check (key : String)
  | recordAttempt (key : String)
  | clearAttempts (key : String)
  | issueSession
  | newToken
  | signCSR
  | addSite
  | arrive
  | updateSite
  | alerts
  | resolveAlert (left : Nat)
  | refreshCRL
deriving DecidableEq

abbrev PortalProc := Program PortalPoint Portal PortalChoice

structure Signed where
  serial : Nat
  expiresAt : Time
deriving DecidableEq

structure AgentConfig where
  serverURL : String
  siteName : String
  siteID : String
  agentToken : String
  dataDir : String := "./nodra-agent-data"
  listen : String
  mqttListen : String
  localToken : String
  heartbeat : String := "30s"
  flushInterval : String := "5s"
  runner : String := "none"
  maxSpoolBytes : Nat := 2 ^ 31
  maxSpoolEvents : Nat := 1000000
  spoolPolicy : String := "reject"
  requestCertificate : Option Bool := none
deriving DecidableEq

structure PortalReply where
  code : Nat
  error : String := ""
  token : String := ""
  expiresAt : Time := 0
  username : String := ""
  role : String := ""
  site : Option Site := none
  agentConfig : Option AgentConfig := none
  certificate : Option Signed := none
  revoked : Bool := false
deriving DecidableEq

def fiveMinutes : Time := 300000000000

def attemptKey (env : PortalEnv) (bucket remoteAddr : String) : String :=
  let host :=
    match env.splitHostPort remoteAddr with
    | some host => if host = "" then remoteAddr else host
    | none => remoteAddr
  bucket ++ "\x00" ++ host

def Portal.kept (s : Portal) (now : Time) (key : String) : List Time :=
  (s.loginFails.getD key []).filter (now - fiveMinutes < ·)

def Portal.pruned (s : Portal) (now : Time) (key : String) : Portal :=
  { s with loginFails := s.loginFails.insert key (s.kept now key), clock := now }

def Portal.recorded (s : Portal) (now : Time) (key : String) : Portal :=
  { s with
    loginFails := s.loginFails.insert key (s.loginFails.getD key [] ++ [now])
    clock := now
    history := s.history ++ [.failed key now] }

def Portal.cleared (s : Portal) (now : Time) (key : String) : Portal :=
  { s with
    loginFails := s.loginFails.erase key
    clock := now
    history := s.history ++ [.cleared key now] }

def attemptLimited (key : String) : PortalProc Bool :=
  .access (.attemptLimited key) fun choice s =>
    (s.pruned choice.now key, decide (5 ≤ (s.kept choice.now key).length))

def recordAttempt (key : String) : PortalProc Unit :=
  .access (.recordAttempt key) fun choice s => (s.recorded choice.now key, ())

def clearAttempts (key : String) : PortalProc Unit :=
  .access (.clearAttempts key) fun choice s => (s.cleared choice.now key, ())

structure LoginBody where
  username : String := ""
  password : String := ""

inductive LoginCheck where
  | right (role actor : String)
  | unconfigured
  | wrong

def Portal.checkLogin (env : PortalEnv) (s : Portal) (user password : String) : LoginCheck :=
  if s.console.cfg.adminToken ≠ "" ∧ s.cfg.adminPassword ≠ "" ∧
      env.equalToken user s.cfg.adminUser ∧ env.equalToken password s.cfg.adminPassword then
    .right "admin" s.cfg.adminUser
  else if s.console.cfg.viewerToken ≠ "" ∧ s.cfg.viewerPassword ≠ "" ∧
      env.equalToken user s.cfg.viewerUser ∧ env.equalToken password s.cfg.viewerPassword then
    .right "viewer" s.cfg.viewerUser
  else if s.console.cfg.adminToken = "" ∧ s.console.cfg.viewerToken = "" then .unconfigured
  else .wrong

def issueSession (role actor orgID : String) : PortalProc PortalReply :=
  .access .issueSession fun choice s =>
    match choice.error with
    | some _ => (s, { code := 500, error := "session mint failed" })
    | none =>
      let sess : ConsoleSession :=
        { token := choice.token, role, actor, orgID, expiresAt := choice.now + sessionTTL s.console }
      let sessions := (pruneLocked choice.now s.console.sessions).insert choice.token sess
      ({ s with console := { s.console with sessions } },
        { code := 200, token := sess.token, expiresAt := sess.expiresAt, username := actor, role })

def login (env : PortalEnv) (remoteAddr : String) (body : Except String LoginBody) :
    PortalProc PortalReply :=
  match body with
  | .error err => pure { code := 400, error := "invalid JSON: " ++ err }
  | .ok body => do
    let key := attemptKey env "login" remoteAddr
    if ← attemptLimited key then return { code := 429, error := "too many login attempts" }
    let user := env.trimSpace body.username
    match ← .read (.check key) (·.checkLogin env user body.password) with
    | .right role actor =>
      clearAttempts key
      issueSession role actor ""
    | .unconfigured => pure { code := 503, error := "login is not configured" }
    | .wrong =>
      recordAttempt key
      pure { code := 401, error := "invalid username or password" }

def hexText (serial : Nat) : String :=
  if serial = 0 then "0" else String.ofList ((Nat.digits 16 serial).reverse.map Nat.digitChar)

def hexDigit (c : Char) : Option Nat :=
  if '0' ≤ c ∧ c ≤ '9' then some (c.toNat - '0'.toNat)
  else if 'a' ≤ c ∧ c ≤ 'f' then some (c.toNat - 'a'.toNat + 10)
  else if 'A' ≤ c ∧ c ≤ 'F' then some (c.toNat - 'A'.toNat + 10)
  else none

/-- `SetString` in base 16.  A serial never has a sign, so a text with one is not read here. -/
def parseHex (text : String) : Option Nat :=
  if text = "" then none
  else text.toList.foldlM (fun value c => (hexDigit c).map (16 * value + ·)) 0

def ninetyDays : Time := 90 * 24 * 3600 * 1000000000

def fifteenMinutes : Time := 15 * 60 * 1000000000

def signCSR (siteID : String) : PortalProc (Except String Signed) :=
  .access .signCSR fun choice s =>
    match choice.sign with
    | .error err => (s, .error err)
    | .ok serial =>
      ({ s with history := s.history ++ [.signed siteID serial] },
        .ok { serial, expiresAt := choice.now + ninetyDays })

def signOptional (pki : Bool) (csrPem siteID : String) : PortalProc (Except String (Option Signed)) :=
  if pki ∧ csrPem ≠ "" then do
    match ← signCSR siteID with
    | .error err => pure (.error err)
    | .ok signed => pure (.ok (some signed))
  else pure (.ok none)

def revokedCerts (sites : List Site) (now : Time) : List RevokedCert :=
  sites.filterMap fun site =>
    if site.revoked ∧ site.certificateSerial ≠ "" then
      (parseHex site.certificateSerial).map fun serial =>
        ({ serial, revokedAt := if site.revokedAt = (0 : Time) then now else site.revokedAt } : RevokedCert)
    else none

def refreshCRL : PortalProc Unit :=
  .access .refreshCRL fun choice s =>
    match choice.error with
    | some _ => (s, ())
    | none =>
      if s.cfg.pki then
        ({ s with
            crl := some (revokedCerts s.console.store.state.sites choice.now)
            crlNextUpdate := choice.now + fifteenMinutes }, ())
      else (s, ())

def Portal.setStore (s : Portal) (store : Nodra.Store) : Portal :=
  { s with console := { s.console with store } }

def addSite (env : PortalEnv) (site : Site) : PortalProc (Option String) :=
  .access .addSite fun choice s =>
    match choice.error with
    | some err => (s, some err)
    | none => (s.setStore ((s.console.store.addSite env.codecs site).toOption.getD s.console.store), none)

def updateSite (env : PortalEnv) (id : String) (fn : Time → Site → Site) : PortalProc (Option String) :=
  .access .updateSite fun choice s =>
    match choice.error, s.console.store.updateSite env.codecs id (fn choice.now) with
    | some err, _ => (s, some err)
    | none, .ok store => (s.setStore store, none)
    | none, .error _ => (s, some "file does not exist")

structure EnrollBody where
  name : String := ""
  enrollmentToken : String := ""
  metadata : ExtTreeMap String String := ∅
  csrPem : String := ""

structure ZtpBody extends EnrollBody where
  listen : String := ""
  mqttListen : String := ""

def Portal.checkToken (env : PortalEnv) (now : Time) (s : Portal) (tok : String) : Except String String :=
  match enrollOrg env.toConsoleEnv now s.console tok with
  | some orgID => .ok orgID
  | none =>
    if s.console.cfg.enrollmentToken ≠ "" ∧ env.equalToken tok s.console.cfg.enrollmentToken then
      .error "enrollment token expired"
    else .error "invalid enrollment token"

def checkToken (env : PortalEnv) (key tok : String) : PortalProc (Except String String) :=
  .access (.check key) fun choice s => (s, s.checkToken env choice.now tok)

def newSite (env : PortalEnv) (body : EnrollBody) (orgID : String) :
    PortalProc (Option (PortalChoice × Site)) :=
  .access .newToken fun choice s =>
    match choice.error with
    | some _ => (s, none)
    | none =>
      (s, some (choice,
        { id := choice.id
          name := body.name
          tokenHash := env.hash choice.token
          status := "online"
          createdAt := choice.now
          lastSeen := choice.now
          metadata := body.metadata
          orgID }))

def enroll (env : PortalEnv) (remoteAddr : String) (body : Except String EnrollBody) :
    PortalProc PortalReply :=
  match body with
  | .error err => pure { code := 400, error := "invalid JSON: " ++ err }
  | .ok body => do
    let key := attemptKey env "enroll" remoteAddr
    if ← attemptLimited key then return { code := 429, error := "too many enrollment attempts" }
    match ← checkToken env key body.enrollmentToken with
    | .error err =>
      recordAttempt key
      pure { code := 401, error := err }
    | .ok orgID =>
    if env.trimSpace body.name = "" then pure { code := 400, error := "site name is required" }
    else
    match ← newSite env body orgID with
    | none => pure { code := 500, error := "token generation failed" }
    | some (drawn, site) =>
    match ← signOptional (← .read .arrive (·.cfg.pki)) body.csrPem site.id with
    | .error err => pure { code := 400, error := "invalid certificate request: " ++ err }
    | .ok certificate =>
    let site := match certificate with
      | none => site
      | some signed =>
        { site with certificateSerial := hexText signed.serial, certificateExpiresAt := signed.expiresAt }
    match ← addSite env site with
    | some err => pure { code := 507, error := "site persistence failed: " ++ err }
    | none =>
      clearAttempts key
      pure { code := 201, token := drawn.token, site := some { site with tokenHash := "" }, certificate }

def trimRightSlash (text : String) : String :=
  String.ofList (text.toList.reverse.dropWhile (· = '/')).reverse

def AgentConfig.ofSite (s : Portal) (host : String) (body : ZtpBody) (drawn : PortalChoice) (site : Site)
    (certificate : Option Signed) : AgentConfig where
  serverURL := trimRightSlash (if s.cfg.publicBaseURL = "" then "http://" ++ host else s.cfg.publicBaseURL)
  siteName := site.name
  siteID := site.id
  agentToken := drawn.token
  listen := if body.listen = "" then "127.0.0.1:9091" else body.listen
  mqttListen := if body.mqttListen = "" then "127.0.0.1:1883" else body.mqttListen
  localToken := drawn.localToken
  requestCertificate := certificate.map fun _ => false

/-- Unlike `enroll`, it looks at the name first and stores nothing of the certificate. -/
def ztpBootstrap (env : PortalEnv) (remoteAddr host : String) (body : Except String ZtpBody) :
    PortalProc PortalReply :=
  match body with
  | .error err => pure { code := 400, error := "invalid JSON: " ++ err }
  | .ok body => do
    let key := attemptKey env "enroll" remoteAddr
    if ← attemptLimited key then return { code := 429, error := "too many enrollment attempts" }
    if env.trimSpace body.name = "" then pure { code := 400, error := "site name is required" }
    else
    match ← checkToken env key body.enrollmentToken with
    | .error err =>
      recordAttempt key
      pure { code := 401, error := err }
    | .ok orgID =>
    match ← newSite env body.toEnrollBody orgID with
    | none => pure { code := 500, error := "token generation failed" }
    | some (drawn, site) =>
    let s ← .read .arrive id
    match ← signOptional s.cfg.pki body.csrPem site.id with
    | .error err => pure { code := 400, error := "csr sign failed: " ++ err }
    | .ok certificate =>
    match ← addSite env site with
    | some err => pure { code := 507, error := err }
    | none =>
      clearAttempts key
      pure
        { code := 201
          token := drawn.token
          site := some { site with tokenHash := "" }
          agentConfig := some (.ofSite s host body drawn site certificate)
          certificate }

structure RotateBody where
  csrPem : String := ""

def resolveAlerts (env : PortalEnv) : List Alert → PortalProc Unit
  | [] => pure ()
  | alert :: rest => do
    .access (.resolveAlert rest.length) fun choice s =>
      match choice.error with
      | some _ => (s, ())
      | none =>
        (s.setStore ((s.console.store.resolveAlert env.codecs alert.id).toOption.getD s.console.store), ())
    resolveAlerts env rest

def rotateRefusal (env : PortalEnv) (s : Portal) (r : Credentials) (id : String) : Except PortalReply Site :=
  if s.cfg.pki = false then .error { code := 503, error := "PKI is not enabled on this control plane" }
  else
    match agentSite env.toEnv { store := s.console.store } r id with
    | some site => .ok site
    | none =>
      if (s.console.store.site id).any Site.revoked then .error { code := 403, error := "site_revoked" }
      else .error { code := 401, error := "unauthorized agent" }

def siteRotate (env : PortalEnv) (r : Credentials) (id : String) (body : Except String RotateBody) :
    PortalProc PortalReply := do
  match ← .read .arrive (rotateRefusal env · r id) with
  | .error reply => pure reply
  | .ok site =>
  match body with
  | .error err => pure { code := 400, error := "invalid JSON: " ++ err }
  | .ok body =>
  if env.trimSpace body.csrPem = "" then pure { code := 400, error := "csr_pem is required" }
  else
  match ← signCSR site.id with
  | .error err => pure { code := 400, error := "invalid certificate request: " ++ err }
  | .ok signed =>
  match ← updateSite env id fun _ v =>
      { v with certificateSerial := hexText signed.serial, certificateExpiresAt := signed.expiresAt } with
  | some err => pure { code := 507, error := "site persistence failed: " ++ err }
  | none => do
    let alerts ← .read .alerts fun s => s.console.store.state.alerts.filter fun al =>
      al.siteID = id ∧ al.type = "certificate_expiring" ∧ al.resolved = false
    resolveAlerts env alerts
    pure { code := 200, certificate := some signed }

/-- How the middleware `admin` and then `siteRevoke` refuse; an org's token has only its own sites. -/
def revokeRefusal (env : PortalEnv) (now : Time) (s : Portal) (tok id : String) : Option PortalReply :=
  match adminRefusal env.toConsoleEnv { now } s.console tok .write with
  | some reply => some { code := reply.code, error := reply.error }
  | none =>
    match orgForBearer env.toConsoleEnv now s.console tok with
    | none => none
    | some orgID =>
      if (s.console.store.site id).any fun site => site.orgID = orgID then none
      else some { code := 404, error := "site not found" }

def siteRevoke (env : PortalEnv) (tok id : String) : PortalProc PortalReply := do
  match ← (.access .arrive fun choice s =>
      ({ s with console := s.console.looked choice.now tok }, revokeRefusal env choice.now s tok id)
      : PortalProc (Option PortalReply)) with
  | some reply => pure reply
  | none =>
  match ← updateSite env id fun now v =>
      { v with revoked := true, status := "revoked", revokedAt := now } with
  | some _ => pure { code := 404, error := "site not found" }
  | none => do
    refreshCRL
    pure { code := 200, revoked := true }

end Nodra.Server
