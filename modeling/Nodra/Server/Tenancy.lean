import Nodra.Server.Console
import Nodra.Server.Deliveries

/-! What the callers of one org can make of their tokens: in every sequence of requests without a
new custom role and a new enrollment token, all they are handed is scoped to their org. -/
namespace Nodra.Server
open Model Std Relation List Option

variable {env : ConsoleEnv} {org tok : String} {known : Set String} {s : Console} {draw : Draw}

section

def Credential.token : Credential → String
  | .bearer tok => tok
  | .enrollment tok => tok

def ScopedTo (env : ConsoleEnv) (now : Time) (s : Console) (org : String) : Credential → Prop
  | .bearer tok => orgForBearer env now s tok = some org
  | .enrollment tok => ∀ id, enrollOrg env now s tok = some id → id = org

/-- The tokens of sessions are random, so none of them is a token of another kind. -/
def SessionsApart (env : ConsoleEnv) (s : Console) : Prop :=
  ∀ (tok : String) (sess : ConsoleSession), s.sessions[tok]? = some sess → staticRole env s tok = ""

/-- Whatever a token gives access to, now or once its session is over, is within one org. -/
structure Within (env : ConsoleEnv) (org : String) (s : Console) (tok : String) : Prop where
  session : ∀ sess, s.sessions[tok]? = some sess → sess.orgID = org
  static : staticRole env s tok = "" ∨ staticOrg env s tok = some org

structure Contained (env : ConsoleEnv) (org : String) (known : Set String) (s : Console) : Prop where
  apart : SessionsApart env s
  named : known.Nonempty → org ≠ ""
  within : ∀ tok ∈ known, Within env org s tok

structure Narrows (env : ConsoleEnv) (s s' : Console) : Prop where
  sessions : ∀ (tok : String) (sess : ConsoleSession), s'.sessions[tok]? = some sess →
    s.sessions[tok]? = some sess
  roles : ∀ tok, staticRole env s tok = "" → staticRole env s' tok = ""
  orgs : staticOrg env s' = staticOrg env s

variable {s' s'' : Console} {now : Time}

theorem Narrows.refl (env : ConsoleEnv) (s : Console) : Narrows env s s :=
  ⟨fun _ _ h => h, fun _ h => h, rfl⟩

theorem Narrows.trans (h : Narrows env s s') (h' : Narrows env s' s'') : Narrows env s s'' :=
  ⟨fun tok sess hsess => h.sessions tok sess (h'.sessions tok sess hsess),
    fun tok hrole => h'.roles tok (h.roles tok hrole), h'.orgs.trans h.orgs⟩

theorem Within.narrows (h : Within env org s tok) (hnarrows : Narrows env s s') : Within env org s' tok where
  session := fun sess hsess => h.session sess (hnarrows.sessions tok sess hsess)
  static := by
    rw [hnarrows.orgs]
    exact h.static.imp_left (hnarrows.roles tok)

theorem Contained.narrows (h : Contained env org known s) (hnarrows : Narrows env s s') :
    Contained env org known s' where
  apart := fun tok sess hsess => hnarrows.roles tok (h.apart tok sess (hnarrows.sessions tok sess hsess))
  named := h.named
  within := fun tok htok => (h.within tok htok).narrows hnarrows

theorem getElem?_of_session {sess : ConsoleSession} (h : s.session now tok = some sess) :
    s.sessions[tok]? = some sess := by
  unfold Console.session pruneLocked at h
  rw [ExtTreeMap.getElem?_filter'] at h
  exact (filter_eq_some_iff.mp h).1

theorem narrows_prune : Narrows env s { s with sessions := pruneLocked now s.sessions } :=
  ⟨fun _ _ h => getElem?_of_session h, fun _ h => h, rfl⟩

theorem narrows_looked : Narrows env s (s.looked now tok) := by
  unfold Console.looked
  split
  · exact .refl env s
  · exact narrows_prune

theorem session_looked (other : String) : (s.looked now other).session now tok = s.session now tok := by
  unfold Console.looked
  split
  · rfl
  · simp only [Console.session, pruneLocked, ExtTreeMap.getElem?_filter', Option.filter_filter, Bool.and_self]

theorem narrows_erase :
    Narrows env s { s with sessions := (pruneLocked now s.sessions).erase tok } := by
  refine ⟨fun other sess h => ?_, fun _ h => h, rfl⟩
  simp only [ExtTreeMap.getElem?_erase] at h
  split at h
  · cases h
  · exact getElem?_of_session h

theorem Within.of_orgForBearer (hapart : SessionsApart env s) (h : orgForBearer env now s tok = some org) :
    org ≠ "" ∧ Within env org s tok := by
  have hstatic_ne (h : staticOrg env s tok = some org) : org ≠ "" ∧ staticRole env s tok ≠ "" := by
    unfold staticOrg at h
    split at h
    · cases h
    · next hscoped =>
      simp only [not_or, Bool.not_eq_true] at hscoped
      obtain ⟨hadmin, hviewer, horg⟩ := hscoped
      cases h
      refine ⟨horg, ?_⟩
      unfold staticRole
      cases hrole : roleForToken env s tok with
      | some role =>
        obtain ⟨stored, -, rfl⟩ := map_eq_some_iff.mp hrole
        dsimp only
        split <;> decide
      | none =>
        simp only [hadmin, hviewer, Bool.false_eq_true, if_false]
        unfold orgRoleForBearer at horg ⊢
        split
        · next hempty => simp [hempty] at horg
        · next hempty =>
          cases hfound : s.store.state.orgs.findSome? (orgMatch env tok) with
          | none => simp [hempty, hfound] at horg
          | some pair =>
            obtain ⟨v, -, hv⟩ := exists_of_findSome?_eq_some hfound
            unfold orgMatch at hv
            split at hv
            · cases hv
              simp
            · split at hv
              · cases hv
                simp
              · cases hv
  unfold orgForBearer at h
  split at h
  · cases h
  · split at h
    · next sess hsess =>
      have hstored := getElem?_of_session hsess
      split at h
      · next hne =>
        cases h
        refine ⟨hne, fun sess' hsess' => ?_, .inl (hapart tok sess hstored)⟩
        rw [Option.some.inj (hsess'.symm.trans hstored)]
      · cases h
    · obtain ⟨hne, hrole⟩ := hstatic_ne h
      refine ⟨hne, fun sess hsess => ?_, .inr h⟩
      exact absurd (hapart tok sess hsess) hrole

theorem Within.requireGlobalAdmin (h : Within env org s tok) (hne : org ≠ "") :
    (requireGlobalAdmin env draw s tok).isSome := by
  have hnot : (orgForBearer env draw.now s tok).isSome ∨ roleForBearer env draw.now s tok ≠ "admin" := by
    unfold orgForBearer roleForBearer
    by_cases hempty : tok = ""
    · exact .inr (by simp [hempty])
    · rw [if_neg hempty, if_neg hempty]
      cases hsess : s.session draw.now tok with
      | some sess =>
        refine .inl ?_
        have horg := h.session sess (getElem?_of_session hsess)
        simp [horg, hne]
      | none =>
        rcases h.static with hrole | horg
        · exact .inr (by simp [hrole])
        · exact .inl (by simp [horg])
  simp [Nodra.Server.requireGlobalAdmin, hnot]

end

/-- Custom roles and the enrollment token of the fleet are not scoped: an admin must not ask for
them. -/
def ConsoleRequest.Modest (env : ConsoleEnv) (draw : Draw) (s : Console) (tok : String) :
    ConsoleRequest → Prop
  | .roleCreate name _ => env.trimSpace name = "" ∨ roleForBearer env draw.now s tok ≠ "admin"
  | .enrollRotate => roleForBearer env draw.now s tok ≠ "admin"
  | _ => True

def Draw.Unguessed (env : ConsoleEnv) (s : Console) (draw : Draw) : Prop :=
  draw.token ≠ "" ∧ staticRole env s draw.token = ""

def Harmless (env : ConsoleEnv) (s : Console) (after : Console × ConsoleReply) : Prop :=
  Narrows env s after.1 ∧ after.2.credentials = []

theorem credentials_adminRefusal {method : Method} {reply : ConsoleReply}
    (h : adminRefusal env draw s tok method = some reply) : reply.credentials = [] := by
  simp only [adminRefusal] at h
  split at h
  · split at h <;> cases h <;> rfl
  · split at h <;> cases h
    rfl

theorem harmless_admin {method : Method} {next : Console → Console × ConsoleReply}
    (h : ∀ s', Narrows env s s' → Harmless env s' (next s')) :
    Harmless env s (admin env draw s tok method next) := by
  unfold admin
  split
  · exact h s (.refl env s)
  · cases hrefusal : adminRefusal env draw s tok method with
    | some reply => exact ⟨narrows_looked, credentials_adminRefusal hrefusal⟩
    | none =>
      obtain ⟨hnarrows, hnone⟩ := h _ narrows_looked
      exact ⟨narrows_looked.trans hnarrows, hnone⟩

theorem harmless_of_role {next : Console → Console × ConsoleReply}
    (h : roleForBearer env draw.now s tok ≠ "admin") :
    Harmless env s (admin env draw s tok .write next) := by
  have hrefusal : (adminRefusal env draw s tok .write).isSome := by
    simp only [adminRefusal]
    split
    · split <;> rfl
    · simp [h]
  obtain ⟨reply, hreply⟩ := isSome_iff_exists.mp hrefusal
  unfold admin
  rw [if_neg (by simp), hreply]
  exact ⟨narrows_looked, credentials_adminRefusal hreply⟩

theorem harmless_authLogout : Harmless env s (authLogout draw s tok) := by
  unfold authLogout
  split
  · exact ⟨.refl env s, rfl⟩
  · exact ⟨narrows_erase, rfl⟩

theorem credentials_requireGlobalAdmin {reply : ConsoleReply}
    (h : requireGlobalAdmin env draw s tok = some reply) : reply.credentials = [] := by
  unfold requireGlobalAdmin at h
  split at h <;> cases h
  rfl

theorem harmless_orgCreate (hwithin : Within env org s tok) (hne : org ≠ "") (name : String) :
    Harmless env s (orgCreate env draw s tok name) := by
  have hrefused : (requireGlobalAdmin env draw s tok).isSome := hwithin.requireGlobalAdmin hne
  obtain ⟨reply, hreply⟩ := isSome_iff_exists.mp hrefused
  simp only [orgCreate, hreply]
  exact ⟨.refl env s, credentials_requireGlobalAdmin hreply⟩

theorem harmless_orgDelete (hwithin : Within env org s tok) (hne : org ≠ "") (id : String) :
    Harmless env s (orgDelete env draw s tok id) := by
  have hrefused : (requireGlobalAdmin env draw s tok).isSome := hwithin.requireGlobalAdmin hne
  obtain ⟨reply, hreply⟩ := isSome_iff_exists.mp hrefused
  simp only [orgDelete, hreply]
  exact ⟨.refl env s, credentials_requireGlobalAdmin hreply⟩

theorem harmless_roleCreate {name : String} (hname : env.trimSpace name = "") (write : Bool) :
    Harmless env s (roleCreate env draw s name write) := by
  unfold roleCreate
  cases draw.decode with
  | some err => exact ⟨.refl env s, rfl⟩
  | none =>
    simp only [hname, if_true]
    exact ⟨.refl env s, rfl⟩

theorem staticRole_eraseP (p : StoredRole → Bool) (h : staticRole env s tok = "") :
    staticRole env { s with customRoles := s.customRoles.eraseP p } tok = "" := by
  unfold staticRole at h ⊢
  cases hrole : roleForToken env s tok with
  | some role =>
    obtain ⟨stored, -, rfl⟩ := map_eq_some_iff.mp hrole
    simp only [hrole] at h
    split at h <;> exact absurd h (by decide)
  | none =>
    have hnone : roleForToken env { s with customRoles := s.customRoles.eraseP p } tok = none := by
      unfold roleForToken at hrole ⊢
      rw [map_eq_none_iff, find?_eq_none] at hrole ⊢
      exact fun role hmem => hrole role (mem_of_mem_eraseP hmem)
    rw [hnone]
    rw [hrole] at h
    exact h

theorem harmless_roleDelete (name : String) : Harmless env s (roleDelete s name) := by
  unfold roleDelete
  split
  · exact ⟨⟨fun _ _ h => h, fun _ h => staticRole_eraseP _ h, rfl⟩, rfl⟩
  · exact ⟨.refl env s, rfl⟩

theorem orgs_fleetCalls (calls : List { call : Store.Call // call.writesOrg = false }) :
    (fleetCalls env s calls).store.state.orgs = s.store.state.orgs := by
  unfold fleetCalls
  simp only
  generalize s.store = store
  induction calls generalizing store with
  | nil => rfl
  | cons call rest ih => exact (ih _).trans (Store.orgs_call call.2)

theorem harmless_fleetCalls (calls : List { call : Store.Call // call.writesOrg = false }) :
    Harmless env s (fleetCalls env s calls, { code := 200 }) := by
  have horgs := @orgs_fleetCalls env s calls
  have horgRole : orgRoleForBearer env (fleetCalls env s calls) = orgRoleForBearer env s := by
    funext tok
    unfold orgRoleForBearer
    rw [horgs]
  refine ⟨⟨fun _ _ h => h, fun tok h => ?_, ?_⟩, rfl⟩
  · unfold staticRole at h ⊢
    rw [horgRole]
    exact h
  · funext tok
    unfold staticOrg
    rw [horgRole]
    rfl

def ConsoleReply.handed (reply : ConsoleReply) : Set String :=
  {tok | ∃ cred ∈ reply.credentials, cred.token = tok}

structure Confined (env : ConsoleEnv) (now : Time) (org : String) (known : Set String)
    (after : Console × ConsoleReply) : Prop where
  contained : Contained env org (known ∪ after.2.handed) after.1
  handed : ∀ cred ∈ after.2.credentials, ScopedTo env now after.1 org cred

theorem Contained.confined {now : Time} {after : Console × ConsoleReply} (h : Contained env org known s)
    (hafter : Harmless env s after) : Confined env now org known after := by
  obtain ⟨hnarrows, hnone⟩ := hafter
  have hhanded : after.2.handed = ∅ := by simp [ConsoleReply.handed, hnone]
  refine ⟨?_, by simp [hnone]⟩
  rw [hhanded, Set.union_empty]
  exact h.narrows hnarrows

theorem sessionTTL_pos (s : Console) : 0 < sessionTTL s := by
  unfold sessionTTL
  split
  · assumption
  · decide

theorem Contained.confined_insert {sess : ConsoleSession} (h : Contained env org known s)
    (hnamed : org ≠ "") (horg : sess.orgID = org) (hexpires : draw.now < sess.expiresAt)
    (hdraw : draw.Unguessed env s) :
    Confined env draw.now org known
      ({ s with sessions := s.sessions.insert draw.token sess },
        { code := 200, credentials := [.bearer draw.token] }) := by
  obtain ⟨hne, hrole⟩ := hdraw
  have hlookup (tok : String) (found : ConsoleSession)
      (hfound : (s.sessions.insert draw.token sess)[tok]? = some found) :
      (tok = draw.token ∧ found = sess) ∨ s.sessions[tok]? = some found := by
    rw [ExtTreeMap.getElem?_insert] at hfound
    split at hfound
    · next heq => exact .inl ⟨(LawfulEqCmp.compare_eq_iff_eq.mp heq).symm, (Option.some.inj hfound).symm⟩
    · exact .inr hfound
  refine ⟨⟨fun tok found hfound => ?_, fun _ => hnamed, fun tok htok => ?_⟩, ?_⟩
  · rcases hlookup tok found hfound with ⟨rfl, -⟩ | hold
    · exact hrole
    · exact h.apart tok found hold
  · rcases htok with hknown | ⟨cred, hcred, rfl⟩
    · have hwithin := h.within tok hknown
      refine ⟨fun found hfound => ?_, hwithin.static⟩
      rcases hlookup tok found hfound with ⟨-, rfl⟩ | hold
      · exact horg
      · exact hwithin.session found hold
    · obtain rfl := mem_singleton.mp hcred
      refine ⟨fun found hfound => ?_, .inl hrole⟩
      obtain rfl : sess = found := by simpa [Credential.token] using hfound
      exact horg
  · intro cred hcred
    obtain rfl := mem_singleton.mp hcred
    have hsession : Console.session draw.now { s with sessions := s.sessions.insert draw.token sess }
        draw.token = some sess := by
      simp only [Console.session, pruneLocked, ExtTreeMap.getElem?_filter', ExtTreeMap.getElem?_insert_self]
      exact filter_some_pos (by simp [ConsoleSession.expired, hexpires.le])
    unfold ScopedTo orgForBearer
    simp only [if_neg hne, hsession]
    rw [if_pos (horg ▸ hnamed), horg]

theorem Contained.confined_authRefresh (h : Contained env org known s) (htok : tok ∈ known)
    (hdraw : draw.Unguessed env s) : Confined env draw.now org known (authRefresh draw s tok) := by
  unfold authRefresh
  split
  · exact h.confined ⟨.refl env s, rfl⟩
  · cases hsession : s.session draw.now tok with
    | none => exact h.confined ⟨narrows_erase, rfl⟩
    | some old =>
      cases draw.newToken with
      | some err => exact h.confined ⟨narrows_erase, rfl⟩
      | none =>
        have horg := (h.within tok htok).session old (getElem?_of_session hsession)
        refine (h.narrows narrows_erase).confined_insert (h.named ⟨tok, htok⟩) horg ?_ hdraw
        exact Int.lt_add_of_pos_right draw.now (sessionTTL_pos s)

theorem Contained.confined_serve {request : ConsoleRequest} (h : Contained env org known s)
    (htok : tok ∈ known) (hdraw : draw.Unguessed env s) (hmodest : request.Modest env draw s tok) :
    Confined env draw.now org known (serve env draw s tok request) := by
  have hne := h.named ⟨tok, htok⟩
  have hwithin := h.within tok htok
  cases request with
  | authRefresh => exact h.confined_authRefresh htok hdraw
  | authLogout => exact h.confined harmless_authLogout
  | orgCreate name =>
    exact h.confined (harmless_admin fun s' hs' => harmless_orgCreate (hwithin.narrows hs') hne name)
  | orgDelete id =>
    exact h.confined (harmless_admin fun s' hs' => harmless_orgDelete (hwithin.narrows hs') hne id)
  | roleCreate name write =>
    rcases hmodest with hname | hrole
    · exact h.confined (harmless_admin fun _ _ => harmless_roleCreate hname write)
    · exact h.confined (harmless_of_role hrole)
  | roleDelete name => exact h.confined (harmless_admin fun _ _ => harmless_roleDelete name)
  | enrollRotate => exact h.confined (harmless_of_role hmodest)
  | fleet method calls => exact h.confined (harmless_admin fun _ _ => harmless_fleetCalls calls)

/-- A request with a token that the caller has, who then also has those handed out. -/
inductive TenantStep (env : ConsoleEnv) : Console × Set String → Console × Set String → Prop
  | serve {s : Console} {known : Set String} (draw : Draw) (tok : String) (request : ConsoleRequest)
      (htok : tok ∈ known) (hdraw : draw.Unguessed env s) (hmodest : request.Modest env draw s tok) :
      TenantStep env (s, known)
        ((serve env draw s tok request).1, known ∪ (serve env draw s tok request).2.handed)

theorem contained_of_run {s₀ : Console} {known₀ : Set String} {c : Console × Set String}
    (h : Contained env org known₀ s₀) (hrun : ReflTransGen (TenantStep env) (s₀, known₀) c) :
    Contained env org c.2 c.1 := by
  induction hrun with
  | refl => exact h
  | tail _ hstep ih =>
    cases hstep with
    | serve draw tok request htok hdraw hmodest => exact (ih.confined_serve htok hdraw hmodest).contained

/-- The callers of one org get nothing that is not scoped to it: they start with tokens of the
org, and go on with these and with all they are handed, but no admin among them asks for a
custom role or for the enrollment token of the fleet. -/
theorem tenant_credentials_confined_of_run (env : ConsoleEnv) (org : String) (s₀ s : Console)
    (known₀ known : Set String) (hapart : SessionsApart env s₀)
    (hknown : ∀ tok ∈ known₀, ∃ now, orgForBearer env now s₀ tok = some org)
    (hrun : ReflTransGen (TenantStep env) (s₀, known₀) (s, known))
    (draw : Draw) (tok : String) (request : ConsoleRequest) (htok : tok ∈ known)
    (hdraw : draw.Unguessed env s) (hmodest : request.Modest env draw s tok) :
    ∀ cred ∈ (serve env draw s tok request).2.credentials,
      ScopedTo env draw.now (serve env draw s tok request).1 org cred := by
  have hinit : Contained env org known₀ s₀ := by
    refine ⟨hapart, fun ⟨tok, hmem⟩ => ?_, fun tok hmem => ?_⟩
    · obtain ⟨now, horg⟩ := hknown tok hmem
      exact (Within.of_orgForBearer hapart horg).1
    · obtain ⟨now, horg⟩ := hknown tok hmem
      exact (Within.of_orgForBearer hapart horg).2
  exact ((contained_of_run hinit hrun).confined_serve htok hdraw hmodest).handed

noncomputable def consoleEnv : ConsoleEnv where
  toEnv := plainEnv
  hash := id
  equalToken := (· = ·)
  trimSpace := id
  equalFold := (· = ·)

def tenantSession : ConsoleSession :=
  { token := "session", role := "admin", orgID := "acme", expiresAt := 100 }

/-- A console with the global admin and an org, whose admin is also logged in. -/
def tenantConsole : Console where
  store := { someStore with
    state := { someStore.state with orgs := [{ id := "acme", adminTokenHash := "acme-admin" }] } }
  cfg := { adminToken := "root" }
  sessions := (∅ : ExtTreeMap String ConsoleSession).insert "session" tenantSession

def tenantDraw : Draw := { now := 1, token := "new" }

theorem session_tenantConsole (tok : String) :
    tenantConsole.session 1 tok = if tok = "session" then some tenantSession else none := by
  simp only [Console.session, pruneLocked, tenantConsole, ExtTreeMap.getElem?_filter',
    ExtTreeMap.getElem?_insert, Std.compare_eq_iff_eq, ExtTreeMap.getElem?_empty,
    @eq_comm _ "session"]
  split <;> rfl

theorem sessionsApart_tenantConsole : SessionsApart consoleEnv tenantConsole := by
  intro tok sess hsess
  have htok : tok = "session" := by
    simp only [tenantConsole, ExtTreeMap.getElem?_insert, Std.compare_eq_iff_eq] at hsess
    split at hsess
    · next heq => exact heq.symm
    · simp at hsess
  subst htok
  decide

/-- The org's admin asks for a custom role, and gets a token of a global admin. -/
theorem custom_role_unscoped :
    orgForBearer consoleEnv 1 tenantConsole "acme-admin" = some "acme" ∧
      let after := serve consoleEnv tenantDraw tenantConsole "acme-admin" (.roleCreate "ops" true)
      after.2.credentials = [.bearer "new"] ∧ ¬ ScopedTo consoleEnv 1 after.1 "acme" (.bearer "new") ∧
        requireGlobalAdmin consoleEnv tenantDraw after.1 "new" = none := by
  have hsession := session_tenantConsole
  have horg : orgForBearer consoleEnv 1 tenantConsole "acme-admin" = some "acme" := by
    simp only [orgForBearer, hsession]
    decide
  have hrole : roleForBearer consoleEnv 1 tenantConsole "acme-admin" = "admin" := by
    simp only [roleForBearer, hsession]
    decide
  have hserve : serve consoleEnv tenantDraw tenantConsole "acme-admin" (.roleCreate "ops" true) =
      roleCreate consoleEnv tenantDraw (tenantConsole.looked 1 "acme-admin") "ops" true := by
    simp only [serve, admin, adminRefusal, tenantDraw, hrole]
    rfl
  have hnew : (roleCreate consoleEnv tenantDraw (tenantConsole.looked 1 "acme-admin") "ops" true).1.session
      1 "new" = none := by
    refine (session_looked "acme-admin").trans ?_
    rw [hsession]
    rfl
  rw [hserve]
  refine ⟨horg, rfl, ?_, ?_⟩
  · simp only [ScopedTo, orgForBearer, hnew]
    decide
  · simp only [requireGlobalAdmin, orgForBearer, roleForBearer, tenantDraw] at hnew ⊢
    simp only [hnew]
    decide

/-- The session is refreshed, and the new one is one of the same org. -/
theorem tenant_credentials_confined_refreshed :
    ScopedTo consoleEnv 1 (serve consoleEnv tenantDraw tenantConsole "session" .authRefresh).1 "acme"
      (.bearer "new") := by
  have hsession := session_tenantConsole "session"
  refine tenant_credentials_confined_of_run consoleEnv "acme" tenantConsole tenantConsole {"session"}
    {"session"} sessionsApart_tenantConsole ?_ .refl tenantDraw "session" .authRefresh rfl ?_ trivial _ ?_
  · rintro tok rfl
    refine ⟨1, ?_⟩
    simp only [orgForBearer, hsession]
    decide
  · exact ⟨by decide, by decide⟩
  · simp only [serve, authRefresh, tenantDraw, hsession]
    decide

end Nodra.Server
