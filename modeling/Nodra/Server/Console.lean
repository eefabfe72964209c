import Nodra.Server.Model

/-! The bearer tokens of the console, with their roles and orgs, and the requests that hand out
credentials or take them back. -/
namespace Nodra.Server
open Model Std

structure ConsoleConfig where
  adminToken : String := ""
  viewerToken : String := ""
  enrollmentToken : String := ""
  publicRead : Bool := false
  sessionTTL : Int := 0
  enrollmentTokenTTL : Int := 0

structure ConsoleSession where
  token : String
  role : String := ""
  actor : String := ""
  orgID : String := ""
  expiresAt : Time := 0

structure StoredRole where
  name : String
  tokenHash : String
  write : Bool := false
  createdAt : Time := 0

structure Console where
  store : Nodra.Store
  cfg : ConsoleConfig := {}
  sessions : ExtTreeMap String ConsoleSession := ∅
  customRoles : List StoredRole := []
  enrollExpires : Time := 0

structure ConsoleEnv extends Env where
  hash : String → String
  equalToken : String → String → Bool
  trimSpace : String → String
  equalFold : String → String → Bool

/-- What a request draws from elsewhere: the clock, the errors, and new tokens. -/
structure Draw where
  now : Time := 0
  decode : Option String := none
  newToken : Option String := none
  save : Option String := none
  id : String := ""
  token : String := ""
  adminToken : String := ""
  viewerToken : String := ""

section

variable (env : ConsoleEnv) (now : Time) (s : Console)

def ConsoleSession.expired (sess : ConsoleSession) : Bool := sess.expiresAt < now

def pruneLocked (sessions : ExtTreeMap String ConsoleSession) : ExtTreeMap String ConsoleSession :=
  sessions.filter fun _ sess => !sess.expired now

def Console.looked (tok : String) : Console :=
  if tok = "" then s else { s with sessions := pruneLocked now s.sessions }

def Console.session (tok : String) : Option ConsoleSession := (pruneLocked now s.sessions)[tok]?

def roleForToken (tok : String) : Option String :=
  (s.customRoles.find? fun role => env.equalHash role.tokenHash tok).map fun role =>
    if role.write then "admin" else "viewer"

def isAdminToken (tok : String) : Bool := s.cfg.adminToken ≠ "" && env.equalToken tok s.cfg.adminToken

def isViewerToken (tok : String) : Bool := s.cfg.viewerToken ≠ "" && env.equalToken tok s.cfg.viewerToken

def orgMatch (tok : String) (org : Org) : Option (String × String) :=
  if org.adminTokenHash ≠ "" ∧ env.equalHash org.adminTokenHash tok then some ("admin", org.id)
  else if org.viewerTokenHash ≠ "" ∧ env.equalHash org.viewerTokenHash tok then some ("viewer", org.id)
  else none

def orgRoleForBearer (tok : String) : String × String :=
  if tok = "" then ("", "") else (s.store.state.orgs.findSome? (orgMatch env tok)).getD ("", "")

def staticRole (tok : String) : String :=
  match roleForToken env s tok with
  | some role => role
  | none =>
    if isAdminToken env s tok then "admin"
    else if isViewerToken env s tok then "viewer"
    else (orgRoleForBearer env s tok).1

def roleForBearer (tok : String) : String :=
  if tok = "" then ""
  else
    match s.session now tok with
    | some sess => sess.role
    | none => staticRole env s tok

def staticOrg (tok : String) : Option String :=
  if isAdminToken env s tok ∨ isViewerToken env s tok ∨ (orgRoleForBearer env s tok).2 = "" then none
  else some (orgRoleForBearer env s tok).2

def orgForBearer (tok : String) : Option String :=
  if tok = "" then none
  else
    match s.session now tok with
    | some sess => if sess.orgID ≠ "" then some sess.orgID else none
    | none => staticOrg env s tok

/-- The org whose sites a token enrolls, `""` for the fleet; `none` refuses. -/
def enrollOrg (tok : String) : Option String :=
  if s.cfg.enrollmentToken ≠ "" ∧ env.equalToken tok s.cfg.enrollmentToken then
    if s.enrollExpires ≠ 0 ∧ s.enrollExpires < now then none else some ""
  else
    (s.store.state.orgs.find? fun org =>
      org.enrollmentTokenHash ≠ "" ∧ env.equalHash org.enrollmentTokenHash tok).map Org.id

end

section

inductive Credential where
  | bearer (tok : String)
  | enrollment (tok : String)
deriving DecidableEq

structure ConsoleReply where
  code : Nat
  error : String := ""
  credentials : List Credential := []
deriving DecidableEq

inductive Method where
  | get
  | head
  | write
deriving DecidableEq

/-- The requests of the console with a bearer token.  The handlers that `fleet` stands for look
at the tokens, but write neither them nor the orgs, and their replies have none. -/
inductive ConsoleRequest where
  | authRefresh
  | authLogout
  | orgCreate (name : String)
  | orgDelete (id : String)
  | roleCreate (name : String) (write : Bool)
  | roleDelete (name : String)
  | enrollRotate
  | fleet (method : Method) (calls : List { call : Store.Call // call.writesOrg = false })

variable (env : ConsoleEnv) (draw : Draw) (s : Console) (tok : String)

def adminRefusal (method : Method) : Option ConsoleReply :=
  let role := roleForBearer env draw.now s tok
  if role = "" then
    if s.cfg.adminToken = "" ∧ s.cfg.viewerToken = "" then
      some { code := 503, error := "admin authentication is not configured" }
    else some { code := 401, error := "unauthorized" }
  else if method = .write ∧ role ≠ "admin" then some { code := 403, error := "admin role required" }
  else none

def requireGlobalAdmin : Option ConsoleReply :=
  if (orgForBearer env draw.now s tok).isSome ∨ roleForBearer env draw.now s tok ≠ "admin" then
    some { code := 403, error := "global admin role required" }
  else none

def sessionTTL : Int := if s.cfg.sessionTTL > 0 then s.cfg.sessionTTL else 3600000000000

def authRefresh : Console × ConsoleReply :=
  if tok = "" then (s, { code := 401, error := "unauthorized" })
  else
    match s.session draw.now tok with
    | none =>
      ({ s with sessions := (pruneLocked draw.now s.sessions).erase tok },
        { code := 401, error := "session expired or unknown; static tokens cannot be refreshed" })
    | some old =>
      let sessions := (pruneLocked draw.now s.sessions).erase tok
      match draw.newToken with
      | some _ => ({ s with sessions }, { code := 500, error := "session rotate failed" })
      | none =>
        let sess := { old with token := draw.token, expiresAt := draw.now + sessionTTL s }
        ({ s with sessions := sessions.insert draw.token sess },
          { code := 200, credentials := [.bearer sess.token] })

def authLogout : Console × ConsoleReply :=
  if tok = "" then (s, { code := 401, error := "unauthorized" })
  else ({ s with sessions := (pruneLocked draw.now s.sessions).erase tok }, { code := 204 })

def newOrg (name : String) : Org where
  id := draw.id
  name
  createdAt := draw.now
  enrollmentTokenHash := env.hash draw.token
  adminTokenHash := env.hash draw.adminToken
  viewerTokenHash := env.hash draw.viewerToken

def orgCreate (name : String) : Console × ConsoleReply :=
  match requireGlobalAdmin env draw s tok with
  | some reply => (s, reply)
  | none =>
  match draw.decode with
  | some err => (s, { code := 400, error := "invalid JSON: " ++ err })
  | none =>
  if env.trimSpace name = "" then (s, { code := 400, error := "name is required" })
  else
  match draw.newToken with
  | some _ => (s, { code := 500, error := "token generation failed" })
  | none =>
  match draw.save with
  | some err => (s, { code := 507, error := err })
  | none =>
    ({ s with store := (s.store.addOrg env.codecs (newOrg env draw name)).toOption.getD s.store },
      { code := 201
        credentials := [.enrollment draw.token, .bearer draw.adminToken, .bearer draw.viewerToken] })

def orgDelete (id : String) : Console × ConsoleReply :=
  match requireGlobalAdmin env draw s tok with
  | some reply => (s, reply)
  | none =>
    match draw.save, s.store.deleteOrg env.codecs id with
    | none, .ok store => ({ s with store }, { code := 204 })
    | _, _ => (s, { code := 404, error := "org not found" })

def roleCreate (name : String) (write : Bool) : Console × ConsoleReply :=
  match draw.decode with
  | some err => (s, { code := 400, error := "invalid JSON: " ++ err })
  | none =>
    let name := env.trimSpace name
    if name = "" then (s, { code := 400, error := "role name is required" })
    else
    match draw.newToken with
    | some err => (s, { code := 400, error := err })
    | none =>
    if s.customRoles.any fun role => env.equalFold role.name name then
      (s, { code := 400, error := "role already exists" })
    else
    match draw.save with
    | some err => (s, { code := 400, error := err })
    | none =>
      let role := { name, tokenHash := env.hash draw.token, write, createdAt := draw.now }
      ({ s with customRoles := s.customRoles ++ [role] },
        { code := 201, credentials := [.bearer draw.token] })

def roleDelete (name : String) : Console × ConsoleReply :=
  if s.customRoles.any fun role => role.name = name then
    ({ s with customRoles := s.customRoles.eraseP fun role => role.name = name }, { code := 204 })
  else (s, { code := 404, error := "role not found" })

def enrollRotate : Console × ConsoleReply :=
  match draw.newToken with
  | some _ => (s, { code := 500, error := "token generation failed" })
  | none =>
    ({ s with
        cfg := { s.cfg with enrollmentToken := draw.token }
        enrollExpires := if s.cfg.enrollmentTokenTTL > 0 then draw.now + s.cfg.enrollmentTokenTTL else 0 },
      { code := 200, credentials := [.enrollment draw.token] })

def fleetCalls (calls : List { call : Store.Call // call.writesOrg = false }) : Console :=
  { s with
    store := calls.foldl (fun store call => (store.call env.codecs call.1).toOption.getD store) s.store }

def admin (method : Method) (next : Console → Console × ConsoleReply) : Console × ConsoleReply :=
  if s.cfg.publicRead ∧ method = .get then next s
  else
    match adminRefusal env draw s tok method with
    | some reply => (s.looked draw.now tok, reply)
    | none => next (s.looked draw.now tok)

def serve : ConsoleRequest → Console × ConsoleReply
  | .authRefresh => authRefresh draw s tok
  | .authLogout => authLogout draw s tok
  | .orgCreate name => admin env draw s tok .write fun s => orgCreate env draw s tok name
  | .orgDelete id => admin env draw s tok .write fun s => orgDelete env draw s tok id
  | .roleCreate name write => admin env draw s tok .write fun s => roleCreate env draw s name write
  | .roleDelete name => admin env draw s tok .write fun s => roleDelete s name
  | .enrollRotate => admin env draw s tok .write fun s => enrollRotate draw s
  | .fleet method calls => admin env draw s tok method fun s => (fleetCalls env s calls, { code := 200 })

end

end Nodra.Server
