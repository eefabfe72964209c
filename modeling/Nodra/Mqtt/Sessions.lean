import Nodra.Mqtt.Steps

/-! Persistent sessions and users: if a client id belongs to one user, then no connection gets a
filter or a queued message that its user may not have. -/
namespace Nodra.Mqtt
open Lines Router Std Interleave Program List Option OrderedMap

variable {b b' b'' : Broker} {conn i : Nat} {α : Type}

section

variable (cfg : Config) (userOf : String → String)

def Faithful (packet : Packet) : Prop :=
  packet.typ = 1 → ∀ info ∈ parseConnect packet.payload, cfg.admits info = true →
    cfg.sessionDir = true → info.cleanSession = false → info.username = userOf info.clientID

instance (packet : Packet) : Decidable (Faithful cfg userOf packet) := by
  unfold Faithful
  infer_instance

def FaithfulStep (label : Label) : Prop :=
  match label.point with
  | .read packet => Faithful cfg userOf packet
  | _ => True

instance (label : Label) : Decidable (FaithfulStep cfg userOf label) := by
  unfold FaithfulStep
  exact match label.point with
    | .accept | .read _ | .write .. | .handle _ | .resume _ | .publish _ | .put _ | .delete _ | .leave | .client _
    | .step => inferInstance

def Client.MayRead (cl : Client) (filter : String) : Prop :=
  ∃ username, cl.username = some username ∧ permit cfg username filter false = true

def Observation.Justified (b : Broker) : Observation → Prop
  | .sent _ conn _ filter _ => (b.client conn).MayRead cfg filter
  | .replayed conn _ _ entry => (b.client conn).MayRead cfg entry.filter
  | _ => True

def OwnerMayRead (clientID filter : String) : Prop := permit cfg (userOf clientID) filter false = true

structure Separate (b : Broker) : Prop where
  known : ∀ conn, (b.client conn).username ≠ none → conn ∈ b.known
  subs : ∀ conn, ∀ sub ∈ (b.client conn).subs, (b.client conn).MayRead cfg sub.filter
  owner : ∀ conn i, (b.client conn).session = some i →
    i < b.nextSession ∧ (b.client conn).username = some (userOf (b.session i).clientID)
  sessions : ∀ clientID i, b.sessions.get? clientID = some i →
    i < b.nextSession ∧ (b.session i).clientID = clientID
  sessionSubs : ∀ i, ∀ sub ∈ (b.session i).subs, OwnerMayRead cfg userOf (b.session i).clientID sub.filter
  items : ∀ i, ∀ entry ∈ (b.session i).items.values,
    OwnerMayRead cfg userOf (b.session i).clientID entry.filter
  dirs : ∀ clientID dir, b.dirs clientID = some dir → ∀ entry ∈ dir.items.values,
    OwnerMayRead cfg userOf clientID entry.filter
  history : ∀ o ∈ b.history, o.Justified cfg b

structure Stable (b b' : Broker) : Prop where
  known : ∀ conn ∈ b.known, conn ∈ b'.known
  username : ∀ conn username, (b.client conn).username = some username →
    (b'.client conn).username = some username
  clientID : ∀ i < b.nextSession, (b'.session i).clientID = (b.session i).clientID
  nextSession : b.nextSession ≤ b'.nextSession

structure Untouched (conn : Nat) (b b' : Broker) : Prop where
  username : (b'.client conn).username = (b.client conn).username
  session : (b'.client conn).session = (b.client conn).session

def contract : Contract Label Broker Choice where
  inv := Separate cfg userOf
  rely := fun label b b' => Stable b b' ∧ Untouched label.conn b b'
  guar := fun label _ b b' => Stable b b' ∧ ∀ conn ≠ label.conn, Untouched conn b b'
  enabled := fun label _ _ => FaithfulStep cfg userOf label

variable {cfg userOf}

theorem Stable.refl (b : Broker) : Stable b b := ⟨fun _ h => h, fun _ _ h => h, fun _ _ => rfl, le_rfl⟩

theorem Stable.trans (h : Stable b b') (h' : Stable b' b'') : Stable b b'' :=
  ⟨fun conn hconn => h'.known conn (h.known conn hconn),
    fun conn username hu => h'.username conn username (h.username conn username hu),
    fun i hi => (h'.clientID i (hi.trans_le h.nextSession)).trans (h.clientID i hi),
    h.nextSession.trans h'.nextSession⟩

theorem Untouched.refl (conn : Nat) (b : Broker) : Untouched conn b b := ⟨rfl, rfl⟩

theorem Untouched.trans (h : Untouched conn b b') (h' : Untouched conn b' b'') : Untouched conn b b'' :=
  ⟨h'.username.trans h.username, h'.session.trans h.session⟩

theorem Client.MayRead.stable {filter : String} (h : (b.client conn).MayRead cfg filter)
    (hstable : Stable b b') : (b'.client conn).MayRead cfg filter := by
  obtain ⟨username, heq, hpermit⟩ := h
  exact ⟨username, hstable.username conn username heq, hpermit⟩

variable {o : Observation} {f : Client → Client} {os : List Observation}

theorem Observation.Justified.stable (h : o.Justified cfg b) (hstable : Stable b b') :
    o.Justified cfg b' := by
  cases o with
  | sent call conn pid filter msg => exact Client.MayRead.stable h hstable
  | replayed conn i pid entry => exact Client.MayRead.stable h hstable
  | _ => trivial

theorem Observation.Justified.of_client (h : o.Justified cfg b)
    (hclient : b'.client = b.client) : o.Justified cfg b' := by
  cases o with
  | sent call conn pid filter msg => rwa [Observation.Justified, hclient]
  | replayed conn i pid entry => rwa [Observation.Justified, hclient]
  | _ => trivial

structure Beside (b b' : Broker) : Prop where
  stable : Stable b b'
  untouched : ∀ conn, Untouched conn b b'

theorem beside_of_eq (hknown : b'.known = b.known) (hclient : b'.client = b.client)
    (hid : ∀ i, (b'.session i).clientID = (b.session i).clientID) (hnext : b'.nextSession = b.nextSession) :
    Beside b b' := by
  refine ⟨⟨fun _ h => hknown ▸ h, fun conn username h => ?_, fun i _ => hid i, hnext.ge⟩, fun conn => ⟨?_, ?_⟩⟩
  · rw [hclient, h]
  · rw [hclient]
  · rw [hclient]

structure Quiet (cfg : Config) (b b' : Broker) : Prop where
  known : b'.known = b.known
  username : ∀ conn, (b'.client conn).username = (b.client conn).username
  subs : ∀ conn, (b'.client conn).subs = (b.client conn).subs
  session : ∀ conn, (b'.client conn).session = (b.client conn).session
  sessions : b'.sessions = b.sessions
  clientID : ∀ i, (b'.session i).clientID = (b.session i).clientID
  sessionSubs : ∀ i, (b'.session i).subs = (b.session i).subs
  items : ∀ i, (b'.session i).items = (b.session i).items
  nextSession : b'.nextSession = b.nextSession
  dirs : b'.dirs = b.dirs
  history : ∀ o ∈ b'.history, o ∈ b.history ∨ o.Justified cfg b

theorem Quiet.beside (h : Quiet cfg b b') : Beside b b' where
  stable := ⟨fun _ hconn => h.known ▸ hconn, fun conn _ hu => (h.username conn).trans hu, fun i _ => h.clientID i,
    h.nextSession.ge⟩
  untouched := fun conn => ⟨h.username conn, h.session conn⟩

theorem Quiet.separate (h : Quiet cfg b b') (hb : Separate cfg userOf b) : Separate cfg userOf b' where
  known := by
    intro conn
    rw [h.username, h.known]
    exact hb.known conn
  subs := by
    intro conn sub hsub
    rw [h.subs] at hsub
    exact (hb.subs conn sub hsub).stable h.beside.stable
  owner := by
    intro conn i hi
    rw [h.session] at hi
    rw [h.nextSession, h.username, h.clientID]
    exact hb.owner conn i hi
  sessions := by
    intro clientID i hi
    rw [h.sessions] at hi
    rw [h.nextSession, h.clientID]
    exact hb.sessions clientID i hi
  sessionSubs := by
    intro i
    rw [h.sessionSubs, h.clientID]
    exact hb.sessionSubs i
  items := by
    intro i
    rw [h.items, h.clientID]
    exact hb.items i
  dirs := by
    rw [h.dirs]
    exact hb.dirs
  history := by
    intro o ho
    rcases h.history o ho with hold | hjustified
    · exact (hb.history o hold).stable h.beside.stable
    · exact hjustified.stable h.beside.stable

theorem Quiet.refl (cfg : Config) (b : Broker) : Quiet cfg b b :=
  ⟨rfl, fun _ => rfl, fun _ => rfl, fun _ => rfl, rfl, fun _ => rfl, fun _ => rfl, fun _ => rfl, rfl, rfl,
    fun _ => .inl⟩

theorem quiet_setClient {target : Nat}
    (h : ∀ cl, (f cl).username = cl.username ∧ (f cl).subs = cl.subs ∧ (f cl).session = cl.session) :
    Quiet cfg b (b.setClient target f) := by
  have hclient {α : Type} (g : Client → α) (hg : ∀ cl, g (f cl) = g cl) (conn : Nat) :
      g ((b.setClient target f).client conn) = g (b.client conn) := by
    simp only [Broker.setClient, Function.update_apply]
    split
    · next heq => rw [hg, heq]
    · rfl
  exact ⟨rfl, hclient Client.username fun cl => (h cl).1, hclient Client.subs fun cl => (h cl).2.1,
    hclient Client.session fun cl => (h cl).2.2, rfl, fun _ => rfl, fun _ => rfl, fun _ => rfl, rfl, rfl,
    fun _ => .inl⟩

theorem quiet_setSession {f : PersistentSession → PersistentSession}
    (h : ∀ s, (f s).clientID = s.clientID ∧ (f s).subs = s.subs ∧ (f s).items = s.items) :
    Quiet cfg b (b.setSession i f) := by
  have hsession {α : Type} (g : PersistentSession → α) (hg : ∀ s, g (f s) = g s) (j : Nat) :
      g ((b.setSession i f).session j) = g (b.session j) := by
    simp only [Broker.setSession, Function.update_apply]
    split
    · next heq => rw [hg, heq]
    · rfl
  exact ⟨rfl, fun _ => rfl, fun _ => rfl, fun _ => rfl, rfl,
    hsession PersistentSession.clientID fun s => (h s).1,
    hsession PersistentSession.subs fun s => (h s).2.1,
    hsession PersistentSession.items fun s => (h s).2.2, rfl, rfl, fun _ => .inl⟩

theorem Quiet.observe (hquiet : Quiet cfg b b') (h : ∀ o ∈ os, o.Justified cfg b) :
    Quiet cfg b (b'.observe os) :=
  { hquiet with
    history := fun o ho => (mem_append.mp ho).elim (hquiet.history o) fun ho => .inr (h o ho) }

theorem quiet_observe (h : ∀ o ∈ os, o.Justified cfg b) : Quiet cfg b (b.observe os) :=
  (Quiet.refl cfg b).observe h

theorem separate_observe (hb : Separate cfg userOf b)
    (h : ∀ o ∈ os, o.Justified cfg b) : Separate cfg userOf (b.observe os) := (quiet_observe h).separate hb

theorem Stable.observe (h : Stable b b') (os : List Observation) : Stable b (b'.observe os) := ⟨h.1, h.2, h.3, h.4⟩

theorem Untouched.observe (h : Untouched conn b b') (os : List Observation) :
    Untouched conn b (b'.observe os) := ⟨h.1, h.2⟩

theorem Beside.observe (h : Beside b b') (os : List Observation) : Beside b (b'.observe os) :=
  ⟨h.stable.observe os, fun conn => (h.untouched conn).observe os⟩

theorem stable_setClient (h : ∀ username, (b.client conn).username = some username →
      (f (b.client conn)).username = some username) : Stable b (b.setClient conn f) := by
  refine ⟨fun _ h => h, fun other username heq => ?_, fun _ _ => rfl, le_rfl⟩
  rw [client_setClient]
  split
  · next hother => exact h username (hother ▸ heq)
  · exact heq

theorem untouched_setClient {other : Nat} (h : other ≠ conn) :
    Untouched other b (b.setClient conn f) := by
  constructor <;> rw [client_setClient, if_neg h]

theorem separate_setClient (hb : Separate cfg userOf b) (hknown : conn ∈ b.known)
    (husername : ∀ username, (b.client conn).username = some username →
      (f (b.client conn)).username = some username)
    (hsubs : ∀ sub ∈ (f (b.client conn)).subs, (f (b.client conn)).MayRead cfg sub.filter)
    (howner : ∀ i, (f (b.client conn)).session = some i →
      i < b.nextSession ∧ (f (b.client conn)).username = some (userOf (b.session i).clientID)) :
    Separate cfg userOf (b.setClient conn f) where
  known := by
    intro other hother
    rw [client_setClient] at hother
    split at hother
    · next heq => exact heq ▸ hknown
    · exact hb.known other hother
  subs := by
    intro other
    rw [client_setClient]
    split
    · exact hsubs
    · exact hb.subs other
  owner := by
    intro other
    rw [client_setClient]
    split
    · exact howner
    · exact hb.owner other
  sessions := hb.sessions
  sessionSubs := hb.sessionSubs
  items := hb.items
  dirs := hb.dirs
  history := fun o ho => (hb.history o ho).stable (stable_setClient husername)

theorem clientID_setSession {f : PersistentSession → PersistentSession}
    (h : (f (b.session i)).clientID = (b.session i).clientID) (j : Nat) :
    ((b.setSession i f).session j).clientID = (b.session j).clientID := by
  rw [session_setSession]
  split
  · next heq => rw [h, heq]
  · rfl

theorem separate_setSession {f : PersistentSession → PersistentSession}
    (hb : Separate cfg userOf b) (hid : (f (b.session i)).clientID = (b.session i).clientID)
    (hsubs : ∀ sub ∈ (f (b.session i)).subs, OwnerMayRead cfg userOf (b.session i).clientID sub.filter)
    (hitems : ∀ entry ∈ (f (b.session i)).items.values,
      OwnerMayRead cfg userOf (b.session i).clientID entry.filter) :
    Separate cfg userOf (b.setSession i f) where
  known := hb.known
  subs := hb.subs
  owner := by
    intro conn j hj
    rw [clientID_setSession hid]
    exact hb.owner conn j hj
  sessions := by
    intro clientID j hj
    rw [clientID_setSession hid]
    exact hb.sessions clientID j hj
  sessionSubs := by
    intro j
    rw [clientID_setSession hid, session_setSession]
    split
    · next heq => exact heq ▸ hsubs
    · exact hb.sessionSubs j
  items := by
    intro j
    rw [clientID_setSession hid, session_setSession]
    split
    · next heq => exact heq ▸ hitems
    · exact hb.items j
  dirs := hb.dirs
  history := fun o ho => (hb.history o ho).of_client rfl

theorem separate_setDirs {dirs : String → Option Dir} (hb : Separate cfg userOf b)
    (h : ∀ clientID dir, dirs clientID = some dir → ∀ entry ∈ dir.items.values,
      OwnerMayRead cfg userOf clientID entry.filter) :
    Separate cfg userOf { b with dirs } where
  __ := hb
  dirs := h
  history := fun o ho => (hb.history o ho).of_client rfl

theorem separate_setSessions {sessions : OrderedMap String Nat} (hb : Separate cfg userOf b)
    (h : ∀ clientID i, sessions.get? clientID = some i → b.sessions.get? clientID = some i) :
    Separate cfg userOf { b with sessions } where
  __ := hb
  sessions := fun clientID i hi => hb.sessions clientID i (h clientID i hi)
  history := fun o ho => (hb.history o ho).of_client rfl

theorem beside_changeQueue (b : Broker) (i : Nat) (f : OrderedMap String Queued → OrderedMap String Queued) :
    Beside b (b.changeQueue i f) :=
  beside_of_eq rfl rfl (clientID_setSession (f := fun s => { s with items := f s.items }) rfl) rfl

theorem separate_changeQueue {f : OrderedMap String Queued → OrderedMap String Queued}
    (hb : Separate cfg userOf b)
    (hf : ∀ items, ∀ entry ∈ (f items).values, entry ∈ items.values ∨
      OwnerMayRead cfg userOf (b.session i).clientID entry.filter) :
    Separate cfg userOf (b.changeQueue i f) := by
  refine separate_setDirs (separate_setSession hb rfl (hb.sessionSubs i) fun entry hentry => ?_) ?_
  · exact (hf _ entry hentry).elim (hb.items i entry) id
  · intro clientID dir hdir entry hentry
    rw [Function.update_apply] at hdir
    split at hdir
    · next hid =>
      obtain ⟨old, hold, rfl⟩ := map_eq_some_iff.mp hdir
      subst hid
      split at hentry
      · exact (hf _ entry hentry).elim (hb.dirs _ old hold entry) id
      · exact hb.dirs _ old hold entry hentry
    · exact hb.dirs clientID dir hdir entry hentry

end

section

variable {cfg : Config} {userOf : String → String}

structure Mine (conn : Nat) (b b' : Broker) : Prop where
  stable : Stable b b'
  untouched : Untouched conn b b'

theorem Mine.refl (conn : Nat) (b : Broker) : Mine conn b b := ⟨.refl b, .refl conn b⟩

theorem Mine.trans (h : Mine conn b b') (h' : Mine conn b' b'') : Mine conn b b'' :=
  ⟨h.stable.trans h'.stable, h.untouched.trans h'.untouched⟩

abbrev KeepsApart (cfg : Config) (userOf : String → String) (post : α → Broker → Prop) (p : Act α)
    (b : Broker) : Prop :=
  KeepsOk (contract cfg userOf) post p b

abbrev KeepsMine (cfg : Config) (userOf : String → String) (conn : Nat) (p : Act α) (b : Broker) : Prop :=
  KeepsApart cfg userOf (fun _ b' => Mine conn b b') p b

variable {f : Choice → Broker → Broker × Except Exit α} {point : Point} {meaning : List Observation}

theorem keeps_act {post : α → Broker → Prop} (h : ∀ b', Separate cfg userOf b' → Mine conn b b' → ∀ choice,
      Separate cfg userOf (f choice b').1 ∧ Stable b' (f choice b').1 ∧
        (∀ other ≠ conn, Untouched other b' (f choice b').1) ∧
        ∀ value, (f choice b').2 = .ok value → post value (f choice b').1) :
    KeepsApart cfg userOf post (act conn f point) b := by
  refine KeepsOk.access fun b' hrely hinv choice _ => ?_
  obtain ⟨hseparate, hstable, huntouched, hpost⟩ := h b' hinv ⟨hrely.1, hrely.2⟩ choice
  exact ⟨hseparate, ⟨hstable, huntouched⟩, hpost⟩

theorem keeps_besideAct {post : α → Broker → Prop}
    (h : ∀ b', Separate cfg userOf b' → Mine conn b b' → ∀ choice,
      Separate cfg userOf (f choice b').1 ∧ Beside b' (f choice b').1 ∧
        ∀ value, (f choice b').2 = .ok value → Mine conn b (f choice b').1 → post value (f choice b').1) :
    KeepsApart cfg userOf post (act conn f point) b := by
  refine keeps_act fun b' hinv hmine choice => ?_
  obtain ⟨hinv', hbeside, hpost⟩ := h b' hinv hmine choice
  refine ⟨hinv', hbeside.stable, fun other _ => hbeside.untouched other, fun value hvalue => ?_⟩
  exact hpost value hvalue (hmine.trans ⟨hbeside.stable, hbeside.untouched conn⟩)

theorem keeps_beside (h : ∀ b', Separate cfg userOf b' → Mine conn b b' → ∀ choice,
      Separate cfg userOf (f choice b').1 ∧ Beside b' (f choice b').1) :
    KeepsMine cfg userOf conn (act conn f point) b :=
  keeps_besideAct fun b' hinv hmine choice =>
    ⟨(h b' hinv hmine choice).1, (h b' hinv hmine choice).2, fun _ _ hmine' => hmine'⟩

theorem keeps_quiet (h : ∀ b', Mine conn b b' → ∀ choice, Quiet cfg b' (f choice b').1) :
    KeepsMine cfg userOf conn (act conn f point) b :=
  keeps_beside fun b' hinv hmine choice =>
    ⟨(h b' hmine choice).separate hinv, (h b' hmine choice).beside⟩

theorem keeps_look {f : Broker → α} :
    KeepsApart cfg userOf (fun value b' => Mine conn b b' ∧ Separate cfg userOf b' ∧ value = f b')
      (look conn f) b :=
  keeps_act fun b' hinv hmine _ =>
    ⟨hinv, .refl b', fun other _ => .refl other b', fun _ heq => ⟨hmine, hinv, (Except.ok.inj heq).symm⟩⟩

theorem keeps_update {f : Broker → Broker} {post : Unit → Broker → Prop}
    (h : ∀ b', Separate cfg userOf b' → Mine conn b b' →
      Separate cfg userOf (f b') ∧ Stable b' (f b') ∧ (∀ other ≠ conn, Untouched other b' (f b')) ∧
        post () (f b')) :
    KeepsApart cfg userOf post (update conn f point) b :=
  keeps_act fun b' hinv hmine _ => have ⟨hinv', hstable, huntouched, hpost⟩ := h b' hinv hmine
    ⟨hinv', hstable, huntouched, fun _ _ => hpost⟩

theorem keeps_setClient {target : Nat} {f : Client → Client}
    (h : ∀ cl, (f cl).username = cl.username ∧ (f cl).subs = cl.subs ∧ (f cl).session = cl.session) :
    KeepsMine cfg userOf conn (update conn fun b => b.setClient target f) b :=
  keeps_quiet fun _ _ _ => quiet_setClient h

theorem keeps_setSession {f : PersistentSession → PersistentSession}
    (h : ∀ s, (f s).clientID = s.clientID ∧ (f s).subs = s.subs ∧ (f s).items = s.items) :
    KeepsMine cfg userOf conn (update conn fun b => b.setSession i f) b :=
  keeps_quiet fun _ _ _ => quiet_setSession h

theorem keeps_write {target : Nat} {reply : Reply} (h : ∀ o ∈ meaning, o.Justified cfg b) :
    KeepsMine cfg userOf conn (write conn target reply meaning) b := by
  refine keeps_quiet fun b' hmine choice => ?_
  split
  · exact .refl cfg b'
  · refine quiet_observe fun o ho => ?_
    rcases mem_cons.mp ho with rfl | ho
    · trivial
    · exact (h o ho).stable hmine.stable

theorem keeps_answer {reply : Reply} (h : ∀ o ∈ meaning, o.Justified cfg b) :
    KeepsMine cfg userOf conn (answer conn reply meaning) b := by
  refine (keeps_write h).bind fun ok b' hmine => ?_
  cases ok with
  | true => exact .pure hmine
  | false => exact .throw

theorem keeps_reply {reply : Reply} :
    KeepsMine cfg userOf conn (answer conn reply []) b := keeps_answer nofun

theorem keeps_note {f : Broker → α} {g : Broker → List Observation}
    (hg : ∀ b', ∀ o ∈ g b', o.Justified cfg b') :
    KeepsApart cfg userOf
      (fun value b' => Mine conn b b' ∧ ∃ b₀, Separate cfg userOf b₀ ∧ b' = b₀.observe (g b₀) ∧ value = f b₀)
      (act conn fun _ b => (b.observe (g b), .ok (f b))) b := by
  refine keeps_besideAct fun b' hinv _ _ => ?_
  have hquiet : Quiet cfg b' (b'.observe (g b')) := quiet_observe (hg b')
  refine ⟨hquiet.separate hinv, hquiet.beside, ?_⟩
  rintro _ ⟨⟩ hmine
  exact ⟨hmine, b', hinv, rfl, rfl⟩

theorem keeps_walk {f : Broker → List Nat} (h : ∀ o ∈ meaning, ∀ b', o.Justified cfg b') :
    KeepsApart cfg userOf
      (fun value b' => Mine conn b b' ∧ ∃ b₀, Separate cfg userOf b₀ ∧ Stable b₀ b' ∧ value.Perm (f b₀))
      (walk conn f point meaning) b := by
  refine keeps_besideAct fun b' hinv _ choice => ?_
  have hquiet : Quiet cfg b' (b'.observe meaning) := quiet_observe fun o ho => h o ho b'
  refine ⟨hquiet.separate hinv, hquiet.beside, ?_⟩
  rintro _ ⟨⟩ hmine
  exact ⟨hmine, b', hinv, hquiet.beside.stable, (choice.shuffle (f b')).2⟩

theorem keeps_forM {f : α → Act Unit} {xs : List α}
    (h : ∀ x ∈ xs, ∀ b', Mine conn b b' → KeepsMine cfg userOf conn (f x) b') :
    KeepsMine cfg userOf conn (xs.forM f) b :=
  .forM (fun x hx b' hmine => (h x hx b' hmine).mono fun _ _ hmine' => hmine.trans hmine') (.refl conn b)

end

section

variable {cfg : Config} {userOf : String → String}

theorem keeps_nextOutPacketID {target : Nat} :
    KeepsMine cfg userOf conn (nextOutPacketID conn target) b := by
  refine keeps_quiet fun b' _ _ => ?_
  dsimp only
  split
  · exact .refl cfg b'
  · exact quiet_setClient (f := fun cl => { cl with nextOutID := _ }) fun _ => ⟨rfl, rfl, rfl⟩

variable {topic : String} {payload : Bytes} {qos : Nat}

theorem keeps_sendPublish {target : Nat} {dup : Bool}
    {meaning : Nat → List Observation} (h : ∀ pid, ∀ o ∈ meaning pid, o.Justified cfg b) :
    KeepsMine cfg userOf conn
      (sendPublish conn target topic payload qos dup meaning) b := by
  refine .bind (.ite (fun _ => keeps_nextOutPacketID) fun _ => .pure (.refl conn b)) fun pid b₁ h₁ => ?_
  refine .bind (.ite (fun _ => keeps_setClient fun _ => ⟨rfl, rfl, rfl⟩) fun _ => .pure (.refl conn b₁)) fun _ b₂ h₂ => ?_
  refine .bind (keeps_write fun o ho => (h pid o ho).stable (h₁.trans h₂).stable) fun ok b₃ h₃ => ?_
  refine .bind (.ite (fun _ => keeps_setClient fun _ => ⟨rfl, rfl, rfl⟩) fun _ => .pure (.refl conn b₃)) fun _ b₄ h₄ => ?_
  exact .pure (((h₁.trans h₂).trans h₃).trans h₄)

theorem keeps_changeQueue {f : OrderedMap String Queued → OrderedMap String Queued}
    {point : Point} {meaning : Bool → List Observation} (hi : i < b.nextSession)
    (hf : ∀ items, ∀ entry ∈ (f items).values, entry ∈ items.values ∨
      OwnerMayRead cfg userOf (b.session i).clientID entry.filter)
    (hmeaning : ∀ ok, ∀ o ∈ meaning ok, ∀ b', o.Justified cfg b') :
    KeepsMine cfg userOf conn (changeQueue conn i f point meaning) b := by
  refine keeps_beside fun b' hinv hmine choice => ?_
  dsimp only
  split
  · have hquiet : Quiet cfg b' (b'.observe (meaning false)) := quiet_observe fun o ho => hmeaning false o ho b'
    exact ⟨hquiet.separate hinv, hquiet.beside⟩
  · refine ⟨separate_observe (separate_changeQueue hinv ?_) fun o ho => hmeaning true o ho _,
      (beside_changeQueue b' i f).observe (meaning true)⟩
    rw [hmine.stable.clientID i hi]
    exact hf

theorem keeps_enqueue {call : Call} {filter : String}
    (hi : i < b.nextSession) (h : OwnerMayRead cfg userOf (b.session i).clientID filter) :
    KeepsMine cfg userOf call.conn (enqueue call i topic payload qos filter) b := by
  refine .bind (keeps_quiet fun b' _ _ =>
    (quiet_setSession (f := fun s => { s with seq := s.seq + 1 }) fun _ => ⟨rfl, rfl, rfl⟩).observe
      fun o ho => mem_singleton.mp ho ▸ trivial) fun id b₁ h₁ => ?_
  refine KeepsOk.mono (keeps_changeQueue (hi.trans_le h₁.stable.nextSession) ?_ ?_) fun _ _ h₂ => h₁.trans h₂
  · intro items entry hentry
    rw [values_put, mem_append, mem_singleton] at hentry
    rcases hentry with hold | rfl
    · exact .inl ((values_remove_sublist items id).subset hold)
    · refine .inr ?_
      rw [h₁.stable.clientID i hi]
      exact h
  · intro ok o ho b'
    cases ok with
    | false => cases ho
    | true => exact mem_singleton.mp ho ▸ trivial

theorem keeps_publishLive {call : Call} {msg : Message} {target : Nat} :
    KeepsMine cfg userOf call.conn (publishLive call msg target) b := by
  refine .bind (keeps_note fun b' o ho => ?_) fun found b₁ ⟨h₁, b₀, hinv, hb₁, hfound⟩ => ?_
  · obtain ⟨sub, _, rfl⟩ := List.mem_map.mp ho
    trivial
  cases found with
  | none => exact .pure h₁
  | some sub =>
    have hread : (b₁.client target).MayRead cfg sub.filter := by
      rw [hb₁]
      exact hinv.subs target sub (mem_of_find?_eq_some hfound.symm)
    refine KeepsOk.mono (KeepsOk.discard (keeps_sendPublish fun pid o ho => ?_)) fun _ _ h₂ => h₁.trans h₂
    exact mem_singleton.mp ho ▸ hread

theorem keeps_publishQueued {call : Call} {msg : Message} (hi : i < b.nextSession) :
    KeepsMine cfg userOf call.conn (publishQueued call msg i) b := by
  refine .bind keeps_look fun live b₁ ⟨h₁, _, _⟩ => .ite (fun _ => .pure h₁) fun _ => ?_
  refine .bind (keeps_note fun b' o ho => ?_) fun found b₂ ⟨h₂, b₀, hinv, hb₂, hfound⟩ => ?_
  · obtain ⟨sub, _, rfl⟩ := List.mem_map.mp ho
    trivial
  have h := h₁.trans h₂
  cases found with
  | none => exact .pure h
  | some sub =>
    have hread : OwnerMayRead cfg userOf (b₂.session i).clientID sub.filter := by
      rw [hb₂]
      exact hinv.sessionSubs i sub (mem_of_find?_eq_some hfound.symm)
    exact (keeps_enqueue (hi.trans_le h.stable.nextSession) hread).mono fun _ _ h₃ => h.trans h₃

theorem keeps_publish {call : Call} {msg : Message} :
    KeepsMine cfg userOf call.conn (publish cfg call msg) b := by
  refine .bind (keeps_walk fun o ho _ => mem_singleton.mp ho ▸ trivial) fun conns b₁ ⟨h₁, _⟩ => ?_
  refine .bind (keeps_forM fun target _ b' _ => keeps_publishLive) fun _ b₂ h₂ => ?_
  have hqueued : KeepsMine cfg userOf call.conn
      (if cfg.sessionDir then do
        (← walk call.conn fun b => b.sessions.values).forM (publishQueued call msg)
      else pure ()) b₂ := by
    refine .ite (fun _ => ?_) fun _ => .pure (.refl call.conn b₂)
    refine .bind (keeps_walk nofun) fun is b₃ ⟨h₃, b₀, hinv, hstable, hperm⟩ => ?_
    refine (keeps_forM fun i hi b' h => ?_).mono fun _ _ h₄ => h₃.trans h₄
    obtain ⟨clientID, hget⟩ := exists_get?_of_mem_values (hperm.mem_iff.mp hi)
    exact keeps_publishQueued
      ((hinv.sessions clientID i hget).1.trans_le (hstable.trans h.stable).nextSession)
  refine .bind hqueued fun _ b₅ h₅ => ?_
  refine KeepsOk.mono (keeps_quiet fun b' _ _ => quiet_observe fun o ho => ?_)
    fun _ _ h₆ => ((h₁.trans h₂).trans h₅).trans h₆
  exact mem_singleton.mp ho ▸ trivial

theorem keeps_replay (hi : (b.client conn).session = some i) :
    KeepsMine cfg userOf conn (replay conn i) b := by
  refine .bind (keeps_note fun b' o ho => mem_singleton.mp ho ▸ trivial)
    fun entries b₁ ⟨h₁, b₀, hinv₀, hb₁, hfound⟩ => ?_
  have hinv : Separate cfg userOf b₁ := hb₁ ▸ separate_observe hinv₀ fun o ho => mem_singleton.mp ho ▸ trivial
  have hentries : entries = (b₁.session i).items.values := hfound.trans (hb₁ ▸ rfl)
  obtain ⟨hlt, husername⟩ := hinv.owner conn i (h₁.untouched.session.trans hi)
  refine (keeps_forM fun entry hentry b' h => ?_).mono fun _ _ h₂ => h₁.trans h₂
  have hread : (b'.client conn).MayRead cfg entry.filter :=
    ⟨_, h.stable.username conn _ husername, hinv.items i entry (hentries ▸ hentry)⟩
  refine .bind (keeps_sendPublish fun pid o ho => mem_singleton.mp ho ▸ hread) fun ok b₂ h₂ => ?_
  refine .ite (fun _ => ?_) fun _ => .throw
  have hlt' := hlt.trans_le (h.trans h₂).stable.nextSession
  refine KeepsOk.mono (keeps_changeQueue hlt' (fun items entry hentry => ?_)
    fun _ o ho _ => mem_singleton.mp ho ▸ trivial) fun _ _ h₃ => h₂.trans h₃
  exact .inl ((values_remove_sublist items _).subset hentry)

end

section

variable {cfg : Config} {userOf : String → String} {clientID : String}

theorem register_apart (hb : Separate cfg userOf b) (hknown : conn ∉ b.known) :
    Separate cfg userOf (b.register conn) ∧ Stable b (b.register conn) ∧
      ∀ other ≠ conn, Untouched other b (b.register conn) := by
  have husername : ∀ username, (b.client conn).username = some username → none = some username := by
    intro username h
    refine absurd (hb.known conn ?_) hknown
    rw [h]
    exact some_ne_none username
  have hb' : Separate cfg userOf { b with known := conn :: b.known } :=
    { hb with
      known := fun other h => mem_cons_of_mem conn (hb.known other h)
      history := fun o ho => (hb.history o ho).of_client rfl }
  have hstable : Stable b { b with known := conn :: b.known } :=
    ⟨fun _ => mem_cons_of_mem conn, fun _ _ h => h, fun _ _ => rfl, le_rfl⟩
  refine ⟨separate_setClient hb' mem_cons_self husername nofun nofun,
    hstable.trans (stable_setClient husername), fun other h => ?_⟩
  have huntouched : Untouched other b { b with known := conn :: b.known } := ⟨rfl, rfl⟩
  exact huntouched.trans (untouched_setClient h)

theorem keeps_accept :
    KeepsApart cfg userOf (fun _ b' => conn ∈ b'.known ∧ (b'.client conn).username = none)
      (accept conn cfg) b := by
  refine keeps_act fun b' hinv _ _ => ?_
  dsimp only
  by_cases hknown : conn ∈ b'.known
  · rw [if_pos hknown]
    exact ⟨hinv, .refl b', fun other _ => .refl other b', nofun⟩
  rw [if_neg hknown]
  obtain ⟨hinv', hstable, huntouched⟩ := register_apart hinv hknown
  split
  · exact ⟨hinv', hstable, huntouched, nofun⟩
  · have hquiet : Quiet cfg (b'.register conn) { b'.register conn with clients := conn :: (b'.register conn).clients } :=
      { Quiet.refl cfg (b'.register conn) with }
    refine ⟨hquiet.separate hinv', hstable.trans hquiet.beside.stable,
      fun other h => (huntouched other h).trans (hquiet.beside.untouched other), fun _ _ => ?_⟩
    refine ⟨mem_cons_self, ?_⟩
    rw [hquiet.username, Broker.register, client_setClient, if_pos rfl]

theorem keeps_setUsername {username : String} (hknown : conn ∈ b.known)
    (hnone : (b.client conn).username = none) :
    KeepsApart cfg userOf (fun _ b' => (b'.client conn).username = some username)
      (update conn fun b => b.setClient conn fun cl => { cl with username := some username }) b := by
  refine keeps_update fun b' hinv hmine => ?_
  have hnone' : (b'.client conn).username = none := hmine.untouched.username.trans hnone
  have husername : ∀ name, (b'.client conn).username = some name → some username = some name := by
    intro name hname
    rw [hnone'] at hname
    cases hname
  refine ⟨separate_setClient hinv (hmine.stable.known conn hknown) husername ?_ ?_,
    stable_setClient husername, fun _ => untouched_setClient, ?_⟩
  · intro sub hsub
    obtain ⟨name, hname, _⟩ := hinv.subs conn sub hsub
    cases hnone'.symm.trans hname
  · intro i hi
    cases hnone'.symm.trans (hinv.owner conn i hi).2
  · rw [client_setClient, if_pos rfl]

theorem keeps_discardSession :
    KeepsMine cfg userOf conn (discardSession conn clientID) b := by
  refine .bind (keeps_beside fun b' hinv _ _ => ⟨separate_observe (separate_setSessions hinv ?_) ?_,
    beside_of_eq rfl rfl (fun _ => rfl) rfl⟩) fun found b₁ h₁ => ?_
  · intro other i hi
    rw [get?_remove] at hi
    split at hi
    · cases hi
    · exact hi
  · exact fun o ho => mem_singleton.mp ho ▸ trivial
  refine .bind (.forM_option (fun i _ => keeps_setSession fun _ => ⟨rfl, rfl, rfl⟩) (.refl conn b₁))
    fun _ b₂ h₂ => ?_
  refine KeepsOk.mono (keeps_beside fun b' hinv _ _ => ⟨separate_observe ?_ ?_, ?_⟩)
    fun _ _ h₃ => (h₁.trans h₂).trans h₃
  · split
    · exact hinv
    refine separate_setDirs hinv fun other dir hdir => ?_
    rw [Function.update_apply] at hdir
    split at hdir
    · cases hdir
    · exact hinv.dirs other dir hdir
  · exact fun o ho => mem_singleton.mp ho ▸ trivial
  · refine Beside.observe ?_ _
    split <;> exact beside_of_eq rfl rfl (fun _ => rfl) rfl

theorem beside_newSession (b : Broker) (clientID : String) (dir : Dir) :
    Beside b (b.newSession clientID dir) := by
  refine ⟨⟨fun _ h => h, fun _ _ h => h, fun i hi => ?_, Nat.le_succ _⟩, fun _ => ⟨rfl, rfl⟩⟩
  rw [session_newSession, if_neg hi.ne]

theorem separate_newSession {dir : Dir} (hb : Separate cfg userOf b)
    (hdir : ∀ entry ∈ dir.items.values, OwnerMayRead cfg userOf clientID entry.filter) :
    Separate cfg userOf (b.newSession clientID dir) where
  known := hb.known
  subs := hb.subs
  owner := by
    intro other i hi
    obtain ⟨hlt, husername⟩ := hb.owner other i hi
    rw [session_newSession, if_neg hlt.ne]
    exact ⟨Nat.lt_succ_of_lt hlt, husername⟩
  sessions := by
    intro other i hi
    rw [session_newSession]
    rcases eq_or_ne other clientID with rfl | hne
    · obtain rfl : b.nextSession = i := by simpa [Broker.newSession] using hi
      exact ⟨Nat.lt_succ_self _, by rw [if_pos rfl]⟩
    · have hi' : b.sessions.get? other = some i := by
        simpa [Broker.newSession, get?_put, hne] using hi
      obtain ⟨hlt, hid⟩ := hb.sessions other i hi'
      rw [if_neg hlt.ne]
      exact ⟨Nat.lt_succ_of_lt hlt, hid⟩
  sessionSubs := by
    intro i
    rw [session_newSession]
    split
    · simp
    · exact hb.sessionSubs i
  items := by
    intro i
    rw [session_newSession]
    split
    · exact hdir
    · exact hb.items i
  dirs := by
    intro other dir' hdir'
    change Function.update b.dirs clientID (some dir) other = some dir' at hdir'
    rw [Function.update_apply] at hdir'
    split at hdir'
    · next heq =>
      cases hdir'
      exact heq ▸ hdir
    · exact hb.dirs other dir' hdir'
  history := fun o ho => (hb.history o ho).of_client rfl

theorem keeps_resumeSession :
    KeepsApart cfg userOf
      (fun found b' => Mine conn b b' ∧ found.1 < b'.nextSession ∧ (b'.session found.1).clientID = clientID)
      (resumeSession conn clientID) b := by
  refine keeps_besideAct fun b' hinv _ choice => ?_
  have hnote (i : Nat) : ∀ o ∈ [Observation.joining conn i], ∀ b'', o.Justified cfg b'' :=
    fun o ho _ => mem_singleton.mp ho ▸ trivial
  split
  · next i hi =>
    have hquiet : Quiet cfg b' (b'.observe [.joining conn i]) := quiet_observe fun o ho => hnote i o ho b'
    refine ⟨hquiet.separate hinv, hquiet.beside, ?_⟩
    rintro _ ⟨⟩ hmine
    exact ⟨hmine, hinv.sessions clientID i hi⟩
  split
  · exact ⟨hinv, (Quiet.refl cfg b').beside, nofun⟩
  have hdir : ∀ entry ∈ ((b'.dirs clientID).getD { inode := b'.nextInode }).items.values,
      OwnerMayRead cfg userOf clientID entry.filter := by
    cases hdirs : b'.dirs clientID with
    | none => exact nofun
    | some dir => exact hinv.dirs clientID dir hdirs
  have hbeside := (beside_newSession b' clientID ((b'.dirs clientID).getD { inode := b'.nextInode })).observe
    [.opened b'.nextSession ((b'.dirs clientID).getD { inode := b'.nextInode }).items.values,
      .joining conn b'.nextSession]
  refine ⟨separate_observe (separate_newSession hinv hdir) fun o ho => ?_, hbeside, ?_⟩
  · rcases mem_cons.mp ho with rfl | ho
    · trivial
    · exact hnote _ o ho _
  rintro _ ⟨⟩ hmine
  refine ⟨hmine, Nat.lt_succ_self _, ?_⟩
  change ((b'.newSession clientID _).session b'.nextSession).clientID = clientID
  rw [session_newSession, if_pos rfl]

theorem keeps_joinSession (hi : i < b.nextSession)
    (husername : (b.client conn).username = some (userOf (b.session i).clientID)) :
    KeepsApart cfg userOf (fun _ b' => Stable b b' ∧ (b'.client conn).session = some i)
      (update conn fun b => b.setClient conn fun cl => { cl with session := some i }) b := by
  refine keeps_update fun b' hinv hmine => ?_
  have husername' := hmine.stable.username conn _ husername
  have hknown : conn ∈ b'.known := hinv.known conn (by rw [husername']; exact some_ne_none _)
  have hkeep : ∀ name, (b'.client conn).username = some name → (b'.client conn).username = some name :=
    fun _ h => h
  refine ⟨separate_setClient hinv hknown hkeep (hinv.subs conn) ?_, stable_setClient hkeep,
    fun _ => untouched_setClient, hmine.stable.trans (stable_setClient hkeep), ?_⟩
  · rintro _ ⟨⟩
    rw [hmine.stable.clientID i hi]
    exact ⟨hi.trans_le hmine.stable.nextSession, husername'⟩
  · rw [client_setClient, if_pos rfl]

theorem keeps_restoreSubs (hi : (b.client conn).session = some i) :
    KeepsApart cfg userOf (fun _ b' => Stable b b')
      (update conn fun b =>
        (b.setClient conn fun cl => { cl with subs := (b.session i).subs }).observe [.joined conn i]) b := by
  refine keeps_update fun b' hinv hmine => ?_
  have howner := hinv.owner conn i (hmine.untouched.session.trans hi)
  have hknown : conn ∈ b'.known := hinv.known conn (by rw [howner.2]; exact some_ne_none _)
  have hkeep : ∀ name, (b'.client conn).username = some name → (b'.client conn).username = some name :=
    fun _ h => h
  have hstable := (stable_setClient (f := fun cl => { cl with subs := (b'.session i).subs }) hkeep).observe
    [.joined conn i]
  refine ⟨separate_observe (separate_setClient hinv hknown hkeep ?_ (hinv.owner conn)) ?_, hstable,
    fun _ h => (untouched_setClient h).observe _, hmine.stable.trans hstable⟩
  · exact fun sub hsub => ⟨_, howner.2, hinv.sessionSubs i sub hsub⟩
  · exact fun o ho => mem_singleton.mp ho ▸ trivial

theorem keeps_takeOver (husername : (b.client conn).username = some (userOf clientID)) :
    KeepsApart cfg userOf (fun _ b' => Stable b b') (takeOver conn clientID) b := by
  refine .bind keeps_resumeSession fun found b₁ ⟨h₁, hlt, hid⟩ => ?_
  have husername₁ := h₁.stable.username conn _ husername
  rw [← hid] at husername₁
  refine .bind (keeps_joinSession hlt husername₁) fun _ b₂ ⟨h₂, hsession⟩ => ?_
  refine .bind (keeps_setSession fun _ => ⟨rfl, rfl, rfl⟩) fun _ b₃ h₃ => ?_
  refine .bind (keeps_restoreSubs (h₃.untouched.session.trans hsession)) fun _ b₄ h₄ => ?_
  exact .pure (((h₁.stable.trans h₂).trans h₃.stable).trans h₄)

theorem keeps_openSession {info : ConnectInfo} (husername : (b.client conn).username = some info.username)
    (h : cfg.sessionDir = true → info.cleanSession = false → info.username = userOf info.clientID) :
    KeepsApart cfg userOf (fun _ b' => Stable b b') (openSession cfg conn info) b := by
  refine .ite (fun _ => .pure (.refl b)) fun hdir => .ite (fun _ => ?_) fun hclean => ?_
  · exact .bind keeps_discardSession fun _ _ h₁ => .pure h₁.stable
  · refine keeps_takeOver ?_
    rw [← h (by simpa using hdir) (Bool.eq_false_of_not_eq_true hclean)]
    exact husername

theorem keeps_requireAuth {info : ConnectInfo} :
    KeepsApart cfg userOf (fun _ b' => Mine conn b b' ∧ cfg.admits info = true) (requireAuth cfg conn info) b := by
  refine .ite (fun _ => ?_) fun hauth => .pure ⟨.refl conn b, ?_⟩
  · exact .bind (KeepsOk.discard (keeps_write nofun)) fun _ _ _ => .throw
  · simpa using hauth

theorem keeps_onConnect {payload : Bytes} (hknown : conn ∈ b.known) (hnone : (b.client conn).username = none)
    (h : ∀ info, parseConnect payload = some info → cfg.admits info = true → cfg.sessionDir = true →
      info.cleanSession = false → info.username = userOf info.clientID) :
    KeepsApart cfg userOf (fun _ b' => ∃ username, (b'.client conn).username = some username)
      (onConnect cfg conn payload) b := by
  unfold onConnect
  split
  · exact .throw
  next info hinfo =>
  refine .bind keeps_requireAuth fun _ b₁ ⟨h₁, hauth⟩ => ?_
  refine .bind (keeps_setUsername (h₁.stable.known conn hknown) (h₁.untouched.username.trans hnone))
    fun _ b₂ husername => ?_
  refine .bind (keeps_openSession husername (h info hinfo hauth)) fun present b₃ h₃ => ?_
  refine .bind keeps_reply fun _ b₄ h₄ => ?_
  refine .bind keeps_look fun session b₅ ⟨h₅, _, hsession⟩ => ?_
  refine KeepsOk.mono (.forM_option (fun i hi => keeps_replay ?_) (.refl conn b₅)) fun _ b₆ h₆ => ?_
  · exact hsession ▸ hi
  · exact ⟨info.username, ((h₃.trans h₄.stable).trans (h₅.stable.trans h₆.stable)).username conn _ husername⟩

end

section

variable {cfg : Config} {userOf : String → String}

theorem keeps_grant {username : String} {granted : List Subscription}
    (husername : (b.client conn).username = some username)
    (hgranted : ∀ sub ∈ granted, permit cfg username sub.filter false = true) :
    KeepsApart cfg userOf
      (fun all b' => Mine conn b b' ∧ ∀ sub ∈ all, permit cfg username sub.filter false = true)
      (act conn fun _ b => (b.setClient conn fun cl => { cl with subs := cl.subs ++ granted },
        .ok ((b.client conn).subs ++ granted))) b := by
  refine keeps_act fun b' hinv hmine _ => ?_
  dsimp only
  have husername' := hmine.stable.username conn username husername
  have hall : ∀ sub ∈ (b'.client conn).subs ++ granted, permit cfg username sub.filter false = true := by
    intro sub hsub
    rcases mem_append.mp hsub with hold | hnew
    · obtain ⟨name, hname, hpermit⟩ := hinv.subs conn sub hold
      cases hname.symm.trans husername'
      exact hpermit
    · exact hgranted sub hnew
  have hknown : conn ∈ b'.known := hinv.known conn (by rw [husername']; exact some_ne_none _)
  have hkeep : ∀ name, (b'.client conn).username = some name → (b'.client conn).username = some name :=
    fun _ h => h
  refine ⟨separate_setClient hinv hknown hkeep (fun sub hsub => ⟨username, husername', hall sub hsub⟩)
    (hinv.owner conn), stable_setClient hkeep, fun _ => untouched_setClient, ?_⟩
  rintro _ ⟨⟩
  refine ⟨hmine.trans ⟨stable_setClient hkeep, ⟨?_, ?_⟩⟩, hall⟩ <;> rw [client_setClient, if_pos rfl]

theorem keeps_setSubs {username : String} {all : List Subscription}
    (husername : (b.client conn).username = some username) (hi : (b.client conn).session = some i)
    (hall : ∀ sub ∈ all, permit cfg username sub.filter false = true) :
    KeepsMine cfg userOf conn
      (update conn fun b => (b.setSession i fun s => { s with subs := all }).observe [.granted i all]) b := by
  refine keeps_beside fun b' hinv hmine _ => ?_
  dsimp only
  have howner := (hinv.owner conn i (hmine.untouched.session.trans hi)).2
  rw [hmine.stable.username conn username husername] at howner
  refine ⟨separate_observe (separate_setSession hinv rfl ?_ (hinv.items i)) ?_,
    beside_of_eq rfl rfl (clientID_setSession (f := fun s => { s with subs := all }) rfl) rfl⟩
  · intro sub hsub
    rw [OwnerMayRead, ← Option.some.inj howner]
    exact hall sub hsub
  · exact fun o ho => mem_singleton.mp ho ▸ trivial

theorem keeps_onSubscribe {payload : Bytes} {username : String}
    (husername : (b.client conn).username = some username) :
    KeepsMine cfg userOf conn (onSubscribe cfg conn payload) b := by
  unfold onSubscribe
  split
  · exact .throw
  next pid subs _ =>
  refine .bind keeps_look fun name b₁ ⟨h₁, _, hname⟩ => ?_
  have husername₁ := h₁.stable.username conn username husername
  obtain rfl : name = username := by rw [hname, husername₁]; rfl
  refine .bind (keeps_grant husername₁ fun sub hsub => (mem_filter.mp hsub).2) fun all b₂ ⟨h₂, hall⟩ => ?_
  refine .bind keeps_look fun session b₃ ⟨h₃, _, hsession⟩ => ?_
  have h := (h₁.trans h₂).trans h₃
  refine .bind (.forM_option (fun i hi => keeps_setSubs (h.stable.username conn _ husername) ?_ hall)
    (.refl conn b₃)) fun _ b₄ h₄ => keeps_reply.mono fun _ _ h₅ => (h.trans h₄).trans h₅
  exact hsession ▸ hi

end

section

variable (cfg : Config) (userOf : String → String)

/-- What a connection knows of itself before a packet: its user, or that it has none yet. -/
def Ready (conn : Nat) (b : Broker) : (connected : Bool) → Prop
  | true => ∃ username, (b.client conn).username = some username
  | false => conn ∈ b.known ∧ (b.client conn).username = none

variable {cfg userOf}

theorem Ready.mine {connected : Bool} (h : Ready conn b connected) (hmine : Mine conn b b') :
    Ready conn b' connected := by
  cases connected with
  | true => exact h.imp fun username => hmine.stable.username conn username
  | false => exact ⟨hmine.stable.known conn h.1, hmine.untouched.username.trans h.2⟩

theorem keeps_read {index : Nat} {packet : Packet} :
    KeepsApart cfg userOf (fun _ b' => Mine conn b b' ∧ Faithful cfg userOf packet)
      (update conn (fun b => b.observe [.read conn index packet]) (.read packet)) b := by
  refine KeepsOk.access fun b' hrely hinv _ hfaithful => ?_
  have hquiet : Quiet cfg b' (b'.observe [.read conn index packet]) :=
    quiet_observe fun o ho => mem_singleton.mp ho ▸ trivial
  have hmine : Mine conn b' (b'.observe [.read conn index packet]) :=
    ⟨hquiet.beside.stable, hquiet.beside.untouched conn⟩
  refine ⟨hquiet.separate hinv, ⟨hmine.stable, fun other _ => hquiet.beside.untouched other⟩, fun _ _ => ?_⟩
  exact ⟨Mine.trans ⟨hrely.1, hrely.2⟩ hmine, hfaithful⟩

theorem keeps_close : KeepsMine cfg userOf conn (close conn) b := by
  refine .bind (keeps_quiet fun b' _ _ =>
    (quiet_setClient (f := fun cl => { cl with closed := true }) fun _ => ⟨rfl, rfl, rfl⟩).observe ?_) fun _ b₁ h₁ => ?_
  · exact fun o ho => mem_singleton.mp ho ▸ trivial
  refine .bind (keeps_quiet fun b' _ _ => { Quiet.refl cfg b' with }) fun _ b₂ h₂ => ?_
  refine .bind keeps_look fun session b₃ ⟨h₃, _, _⟩ => ?_
  refine KeepsOk.mono (.forM_option (fun i _ => keeps_quiet fun b' _ _ => (quiet_setSession fun s => ?_).observe ?_)
    (.refl conn b₃)) fun _ _ h₄ => (h₁.trans h₂).trans (h₃.trans h₄)
  · split <;> exact ⟨rfl, rfl, rfl⟩
  · exact fun o ho => mem_singleton.mp ho ▸ trivial

theorem quiet_of_aside (h : AsideChange conn b b') : Quiet cfg b b' := by
  cases h with
  | idle h =>
    cases h with
    | none => exact .refl cfg b
    | wrote target reply h => exact quiet_observe (by simp [Observation.Justified])
    | outgoing target f h =>
      refine quiet_setClient fun cl => ?_
      rw [h cl]
      exact ⟨rfl, rfl, rfl⟩
    | count target now =>
      refine quiet_setClient fun cl => ?_
      rw [Client.sameButBooks_count cl now]
      exact ⟨rfl, rfl, rfl⟩
  | hold pid pending =>
    exact (quiet_setClient (f := fun cl => { cl with qos2Pending := cl.qos2Pending.insert pid pending })
      fun _ => ⟨rfl, rfl, rfl⟩).observe (by simp [Observation.Justified])
  | release index pid =>
    exact (quiet_setClient (f := fun cl => { cl with qos2Pending := cl.qos2Pending.erase pid })
      fun _ => ⟨rfl, rfl, rfl⟩).observe (by simp [Observation.Justified])
  | _ => exact quiet_observe (by simp [Observation.Justified])

theorem keeps_aside {p : Act α} (hp : StepsOk (Makes conn (AsideChange conn)) p) :
    KeepsMine cfg userOf conn p b := by
  apply hp.keeps (Mine.refl conn) (fun _ _ _ => Mine.trans)
  · intro label run s s' hmakes hrely
    exact hmakes.1 ▸ ⟨hrely.1, hrely.2⟩
  · intro label run choice s hmakes hinv _
    have hquiet : Quiet cfg s (run choice s) := quiet_of_aside (hmakes.2 choice s)
    refine ⟨hquiet.separate hinv, ⟨hquiet.beside.stable, fun other _ => hquiet.beside.untouched other⟩, ?_⟩
    exact ⟨hquiet.beside.stable, hquiet.beside.untouched conn⟩

theorem serves_apart (conn : Nat) : ServesCalls cfg conn (contract cfg userOf)
    (fun connected _ b => Ready conn b connected) (Faithful cfg userOf) where
  accept := fun _ => keeps_accept
  read := fun _ _ _ _ hb => keeps_read.mono fun _ _ h => ⟨hb.mine h.1, h.2⟩
  aside := fun hp hb => (keeps_aside hp).mono fun _ _ h => hb.mine h
  connect := fun _ _ _ hb hfaithful htyp => keeps_onConnect hb.1 hb.2 (hfaithful htyp)
  publish := fun _ _ _ hb => keeps_publish.mono fun _ _ h => Ready.mine hb h
  subscribe := by
    intro index payload b ⟨username, husername⟩
    exact (keeps_onSubscribe husername).mono fun _ _ h => Ready.mine ⟨username, husername⟩ h
  turn := fun _ _ _ hb => hb
  close := fun _ _ => keeps_close.mono fun _ _ _ => trivial

theorem keeps_publishCall {msg : Message} :
    KeepsApart cfg userOf (fun _ _ => True) (publishCall cfg conn msg) b := by
  refine .bind (keeps_beside fun b' hinv _ _ => ?_) fun _ b₁ h₁ => keeps_publish.mono fun _ _ _ => trivial
  split
  · exact ⟨hinv, beside_of_eq rfl rfl (fun _ => rfl) rfl⟩
  · refine ⟨{ hinv with
      known := fun other h => mem_cons_of_mem conn (hinv.known other h)
      history := fun o ho => (hinv.history o ho).of_client rfl }, ?_⟩
    exact ⟨⟨fun _ => mem_cons_of_mem conn, fun _ _ h => h, fun _ _ => rfl, le_rfl⟩, fun _ => ⟨rfl, rfl⟩⟩

def faithfulSystem (cfg : Config) (userOf : String → String) :
    System Broker (Program Label Broker Choice (Except Exit Unit)) Choice :=
  brokerSystem cfg fun label _ _ => FaithfulStep cfg userOf label

theorem contract_fits : (contract cfg userOf).Fits (faithfulSystem cfg userOf) where
  next := rfl
  refl := fun label b => ⟨.refl b, .refl label.conn b⟩
  trans := fun _ _ _ _ h h' => ⟨h.1.trans h'.1, h.2.trans h'.2⟩
  others := fun _ _ label _ _ _ hallowed _ hguar u hu label' hlabel' =>
    ⟨hguar.1, hguar.2 label'.conn ((hallowed label rfl).2 u hu label' hlabel')⟩
  starts := by
    rintro b t _ ⟨conn, ⟨stream, rfl⟩ | ⟨msg, rfl⟩⟩
    · exact Keeps.mono ((serves_apart conn).serves.serve stream b) fun _ _ _ => trivial
    · exact Keeps.mono keeps_publishCall fun _ _ _ => trivial
  enabled := fun _ _ label _ _ _ hallowed => (hallowed label rfl).1

theorem separate_empty : Separate cfg userOf {} where
  known := fun _ h => absurd rfl h
  subs := nofun
  owner := nofun
  sessions := nofun
  sessionSubs := nofun
  items := nofun
  dirs := nofun
  history := nofun

theorem separate_of_run {c : Interleave.Config Broker (Program Label Broker Choice (Except Exit Unit))}
    (h : (faithfulSystem cfg userOf).Run ⟨{}, 0⟩ c) : Separate cfg userOf c.shared :=
  (contract_fits.outline.run h ⟨separate_empty, nofun⟩).1

/-- If a client id is one user's, then what a connection is subscribed to, and what was replayed to
it, is what its user may read. -/
theorem sessions_kept_apart_of_run
    {c : Interleave.Config Broker (Program Label Broker Choice (Except Exit Unit))}
    (hrun : (faithfulSystem cfg userOf).Run ⟨{}, 0⟩ c) {username : String}
    (husername : (c.shared.client conn).username = some username) :
    (∀ sub ∈ (c.shared.client conn).subs, permit cfg username sub.filter false = true) ∧
      (∀ i pid entry, .replayed conn i pid entry ∈ c.shared.history →
        permit cfg username entry.filter false = true) ∧
      ∀ call pid filter msg, .sent call conn pid filter msg ∈ c.shared.history →
        permit cfg username filter false = true := by
  have hseparate := separate_of_run hrun
  have hread {filter : String} (h : (c.shared.client conn).MayRead cfg filter) :
      permit cfg username filter false = true := by
    obtain ⟨name, hname, hpermit⟩ := h
    cases hname.symm.trans husername
    exact hpermit
  exact ⟨fun sub hsub => hread (hseparate.subs conn sub hsub),
    fun i pid entry hentry => hread (hseparate.history _ hentry),
    fun call pid filter msg hsent => hread (hseparate.history _ hsent)⟩

def aliceReads : Config where
  authorize := some fun username _ write => write || username = "alice"

def takenStreams (username : String) : List (Nat × Bytes) :=
  [(0, connectOf "x" "alice" false ++ packetOf 0x82 ([0, 1] ++ appendString "secret/#" ++ [0])),
    (1, connectOf "y" "carol" true ++ packetOf 0x30 (appendString "secret/1" ++ ascii "hi")),
    (2, connectOf "x" username false)]

def takenBroker (username : String) : Broker := serveAll aliceReads (fun _ => {}) (takenStreams username) {}

def takenEntry : Queued where
  msg := { id := "m1", topic := "secret/1", payload := ascii "hi", qos := 0 }
  filter := "secret/#"
  call := ⟨1, 1⟩

theorem sessions_kept_apart_alice :
    ((takenBroker "alice").client 2).username = some "alice" ∧
      .replayed 2 0 0 takenEntry ∈ (takenBroker "alice").history ∧
      permit aliceReads "alice" takenEntry.filter false = true := by
  have hrun : (faithfulSystem aliceReads fun _ => "alice").Run ⟨{}, 0⟩ ⟨takenBroker "alice", 0⟩ :=
    run_serveAll aliceReads _ (by decide +kernel)
  have husername : ((takenBroker "alice").client 2).username = some "alice" := by decide +kernel
  have hreplayed : .replayed 2 0 0 takenEntry ∈ (takenBroker "alice").history := by decide +kernel
  exact ⟨husername, hreplayed, (sessions_kept_apart_of_run hrun husername).2.1 0 0 takenEntry hreplayed⟩

/-- The session of a client id is anybody's who names the id. -/
theorem session_taken_over :
    ∃ c, (brokerSystem aliceReads fun _ _ _ => True).Run ⟨{}, 0⟩ c ∧
      (c.shared.client 2).username = some "bob" ∧
      (c.shared.client 2).subs = [{ filter := "secret/#", qos := 0 }] ∧
      .replayed 2 0 0 takenEntry ∈ c.shared.history ∧ permit aliceReads "bob" "secret/#" false = false :=
  ⟨⟨takenBroker "bob", 0⟩, run_serveAll aliceReads _ (by decide +kernel), by decide +kernel⟩

end

end Nodra.Mqtt
