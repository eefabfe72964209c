import Nodra.Lib.Reader
import Nodra.Mqtt.Replies

/-! The packets read back: what `readPacket` and the parsers make of the bytes that were written. -/
namespace Nodra.Mqtt
open Lines Reader List Option

@[simp] theorem ascii_ofBytes (bytes : Bytes) : ascii (ofBytes bytes) = bytes := by
  unfold ascii ofBytes
  rw [String.toList_ofList, List.map_map]
  refine map_id'' (fun b => ?_) bytes
  have hvalid : b.toNat.isValidChar := .inl (b.toNat_lt.trans (by decide))
  have hchar : (Char.ofNat b.toNat).toNat = b.toNat := by
    simp only [Char.ofNat, hvalid, dif_pos, Char.ofNatAux, Char.toNat, UInt32.toNat, BitVec.toNat_ofNatLT]
  rw [Function.comp_apply, hchar]
  exact UInt8.ofNat_toNat

theorem ofBytes_ne_empty {bytes : Bytes} (h : bytes ≠ []) : ofBytes bytes ≠ "" := by
  intro hempty
  apply h
  rw [← ascii_ofBytes bytes, hempty]
  rfl

theorem uint16_byte {n : Nat} (h : n < 2 ^ 16) : uint16 (byte (n / 256)) (byte n) = n := by
  unfold uint16
  rw [toNat_byte, toNat_byte]
  omega

theorem uint16_lt (high low : UInt8) : uint16 high low < 2 ^ 16 := by
  have hhigh := high.toNat_lt
  have hlow := low.toNat_lt
  unfold uint16
  omega

theorem bytes16_uint16 (high low : UInt8) : bytes16 (uint16 high low) = [high, low] := by
  have hlow := low.toNat_lt
  have hdiv : uint16 high low / 256 = high.toNat := by
    unfold uint16
    omega
  have hmod : byte (uint16 high low) = low := by
    apply UInt8.toNat_inj.mp
    rw [toNat_byte]
    unfold uint16
    omega
  rw [bytes16, hdiv, hmod, byte, UInt8.ofNat_toNat]

def field (bytes : Bytes) : Bytes := bytes16 bytes.length ++ bytes

theorem reads_readString {bytes : Bytes} (h : bytes.length < 2 ^ 16) :
    Reads readString (field bytes) (ofBytes bytes) := by
  intro rest
  have hlength := uint16_byte h
  change readString (byte (bytes.length / 256) :: byte bytes.length :: (bytes ++ rest)) = _
  unfold readString
  simp only [hlength]
  rw [if_neg (by simp)]
  simp

theorem stable_readString : Stable readString := by
  rintro (_ | ⟨high, _ | ⟨low, s⟩⟩) value rest more h
  · cases h
  · cases h
  · change readString (high :: low :: s) = _ at h
    change readString (high :: low :: (s ++ more)) = _
    unfold readString at h ⊢
    simp only at h ⊢
    split at h
    · cases h
    · next hfits =>
      cases h
      rw [if_neg (by simp only [length_append]; omega), take_append_of_le_length (by omega),
        drop_append_of_le_length (by omega)]

theorem reads_readID {n : Nat} (h : n < 2 ^ 16) : Reads readID (bytes16 n) n := by
  intro rest
  change some (uint16 (byte (n / 256)) (byte n), rest) = _
  rw [uint16_byte h]

theorem readRemaining_single {n : Nat} (h : n < 128) (fuel acc mul : Nat) (rest : Bytes) :
    readRemaining (fuel + 1) acc mul (encodeRemaining n ++ rest) = some (acc + n * mul, rest) := by
  have hbyte : (byte n).toNat = n := by rw [toNat_byte]; omega
  rw [encodeRemaining, if_pos h, cons_append, readRemaining, hbyte, if_pos h, Nat.mod_eq_of_lt h]
  rfl

theorem readRemaining_encodeRemaining {fuel n : Nat} (hn : n < 128 ^ (fuel + 1)) (acc mul : Nat)
    (rest : Bytes) :
    readRemaining (fuel + 1) acc mul (encodeRemaining n ++ rest) = some (acc + n * mul, rest) := by
  induction fuel generalizing n acc mul with
  | zero => exact readRemaining_single hn 0 acc mul rest
  | succ fuel ih =>
    by_cases hsmall : n < 128
    · exact readRemaining_single hsmall _ acc mul rest
    · have hbyte : (byte (n % 128 + 128)).toNat = n % 128 + 128 := by rw [toNat_byte]; omega
      have hdiv : n / 128 < 128 ^ (fuel + 1) := by
        rw [Nat.div_lt_iff_lt_mul (by decide), ← Nat.pow_succ]
        exact hn
      have hmod : (n % 128 + 128) % 128 = n % 128 := by omega
      have hsplit : n % 128 * mul + n / 128 * (mul * 128) = n * mul := by
        rw [Nat.mul_comm mul, ← Nat.mul_assoc, ← Nat.add_mul, Nat.mul_comm (n / 128), Nat.mod_add_div]
      rw [encodeRemaining, if_neg hsmall, cons_append, readRemaining, hbyte, hmod, if_neg (by omega),
        ih hdiv, Nat.add_assoc, hsplit]

theorem readPacket_packetOf {payload : Bytes} (h : payload.length ≤ maxPacket) (header : UInt8) (tail : Bytes) :
    readPacket (packetOf header payload ++ tail) =
      some ({ typ := header.toNat / 16, flags := header.toNat % 16, payload }, tail) := by
  have hmax : maxPacket < 128 ^ 4 := by decide
  unfold packetOf
  rw [cons_append, cons_append, append_assoc, readPacket,
    readRemaining_encodeRemaining (by omega)]
  simp only [Nat.zero_add, Nat.mul_one]
  rw [if_neg (by simp only [length_append]; omega)]
  simp

def publishFlags (qos : Nat) (dup : Bool) : Nat := 2 * qos + if qos > 0 ∧ dup then 8 else 0

def publishBody (topic payload : Bytes) (qos pid : Nat) : Bytes :=
  field topic ++ (if qos > 0 then bytes16 pid else []) ++ payload

theorem encode_publish (topic payload : Bytes) {qos : Nat} (hqos : qos ≤ 2) (dup : Bool) (pid : Nat) :
    (Reply.publish (ofBytes topic) payload qos dup pid).encode =
      packetOf (byte (48 + publishFlags qos dup)) (publishBody topic payload qos pid) := by
  have hheader : (48 + (if qos = 1 then 2 else if qos = 2 then 4 else 0) + if qos > 0 ∧ dup then 8 else 0) =
      48 + publishFlags qos dup := by
    have hbits : (if qos = 1 then 2 else if qos = 2 then 4 else 0) = 2 * qos := by
      split
      · omega
      · split <;> omega
    rw [publishFlags, hbits, Nat.add_assoc]
  have hbody : appendString (ofBytes topic) ++ (if qos > 0 then bytes16 pid else []) ++ payload =
      publishBody topic payload qos pid := by
    simp [publishBody, appendString, field]
  simp only [Reply.encode, packetOf]
  rw [hheader, hbody]

theorem parsePublish_publishBody {topic : Bytes} (hne : topic ≠ []) (htopic : topic.length < 2 ^ 16)
    (payload : Bytes) {qos : Nat} (hqos : qos ≤ 2) (dup : Bool) {pid : Nat} (hpid : pid < 2 ^ 16) :
    parsePublish (publishFlags qos dup) (publishBody topic payload qos pid) =
      some ({ topic := ofBytes topic, payload, qos }, if qos > 0 then pid else 0) := by
  have hflags : publishFlags qos dup / 2 % 4 = qos ∧ publishFlags qos dup % 2 = 0 := by
    unfold publishFlags
    split <;> omega
  have hread : readString (publishBody topic payload qos pid) =
      some (ofBytes topic, (if qos > 0 then bytes16 pid else []) ++ payload) := by
    rw [publishBody, append_assoc]
    exact reads_readString htopic _
  have htopic : ¬ (ofBytes topic = "" ∨ qos > 2) := by
    rintro (hempty | hlarge)
    · exact ofBytes_ne_empty hne hempty
    · omega
  unfold parsePublish
  simp only [hread, bind_eq_bind, bind_some, hflags.1, hflags.2, if_neg htopic]
  by_cases hpos : qos > 0
  · have hid : readID (bytes16 pid ++ payload) = some (pid, payload) := reads_readID hpid payload
    simp [hpos, hid]
  · simp [hpos]

/-- A PUBLISH is read back from the stream, whatever follows it. -/
theorem readPacket_publish (topic payload tail : Bytes) (qos pid : Nat) (dup : Bool) (hne : topic ≠ [])
    (htopic : topic.length ≤ 65535) (hqos : qos ≤ 2) (hpid : pid < 2 ^ 16)
    (hbody : (publishBody topic payload qos pid).length ≤ maxPacket) :
    ∃ body, readPacket ((Reply.publish (ofBytes topic) payload qos dup pid).encode ++ tail) =
        some ({ typ := 3, flags := publishFlags qos dup, payload := body }, tail) ∧
      parsePublish (publishFlags qos dup) body =
        some ({ topic := ofBytes topic, payload, qos }, if qos > 0 then pid else 0) := by
  have hheader : (byte (48 + publishFlags qos dup)).toNat = 48 + publishFlags qos dup ∧
      publishFlags qos dup < 16 := by
    rw [toNat_byte]
    unfold publishFlags
    split <;> omega
  refine ⟨publishBody topic payload qos pid, ?_,
    parsePublish_publishBody hne (by omega) payload hqos dup hpid⟩
  rw [encode_publish topic payload hqos, readPacket_packetOf hbody, hheader.1]
  have htyp : (48 + publishFlags qos dup) / 16 = 3 := by omega
  have hflags : (48 + publishFlags qos dup) % 16 = publishFlags qos dup := by omega
  rw [htyp, hflags]

/-- A duplicate of QoS 1 in front of a PINGRESP. -/
theorem readPacket_publish_dup :
    ∃ body, readPacket ((Reply.publish (ofBytes [0x61]) [0x7b] 1 true 7).encode ++ [0xd0, 0x00]) =
        some ({ typ := 3, flags := 10, payload := body }, [0xd0, 0x00]) ∧
      parsePublish 10 body = some ({ topic := ofBytes [0x61], payload := [0x7b], qos := 1 }, 7) :=
  readPacket_publish [0x61] [0x7b] [0xd0, 0x00] 1 7 true (by decide) (by decide) (by decide) (by decide)
    (by decide)

abbrev Field := { bytes : Bytes // bytes.length < 2 ^ 16 }

structure Will where
  topic : Field
  message : Field
  qos : Fin 3
  retain : Bool

/-- A CONNECT of MQTT 3.1.1.  A session that is kept has a name, and a password a user. -/
structure Connect where
  clientID : Field
  cleanSession : Bool
  keepAlive : UInt8 × UInt8 := (0, 60)
  will : Option Will := none
  username : Option Field := none
  password : Option Field := none
  named : cleanSession = false → clientID.val ≠ []
  known : password.isSome → username.isSome

def connectFlags (clean : Bool) (will : Option (Fin 3 × Bool)) (username password : Bool) : UInt8 :=
  (if clean then 0x02 else 0) ||| (match will with
    | none => 0
    | some (qos, retain) => 0x04 ||| UInt8.ofNat (8 * qos.val) ||| if retain then 0x20 else 0) |||
    (if password then 0x40 else 0) ||| if username then 0x80 else 0

def Connect.flags (c : Connect) : UInt8 :=
  connectFlags c.cleanSession (c.will.map fun will => (will.qos, will.retain)) c.username.isSome
    c.password.isSome

def optionalField (value : Option Field) : Bytes := (value.map fun f => field f.val).getD []

def Connect.encode (c : Connect) : Bytes :=
  field (ascii "MQTT") ++ [4, c.flags, c.keepAlive.1, c.keepAlive.2] ++ field c.clientID.val ++
    optionalField (c.will.map Will.topic) ++ optionalField (c.will.map Will.message) ++
    optionalField c.username ++ optionalField c.password

def textOf (value : Option Field) : String := (value.map fun f => ofBytes f.val).getD ""

def Connect.info (c : Connect) : ConnectInfo where
  cleanSession := c.cleanSession
  clientID := ofBytes c.clientID.val
  username := textOf c.username
  password := textOf c.password

theorem connectFlags_bits (clean : Bool) (will : Option (Fin 3 × Bool)) (username password : Bool) :
    (connectFlags clean will username password &&& 0x02 ≠ 0 ↔ clean = true) ∧
      (connectFlags clean will username password &&& 0x04 ≠ 0 ↔ will.isSome = true) ∧
      (connectFlags clean will username password &&& 0x80 ≠ 0 ↔ username = true) ∧
      (connectFlags clean will username password &&& 0x40 ≠ 0 ↔ password = true) := by
  cases will with
  | none => revert clean username password; decide
  | some will =>
    obtain ⟨qos, retain⟩ := will
    revert clean qos retain username password
    decide

def fieldsReader (flags : UInt8) : Reader ConnectInfo := do
  let clientID ← readString
  let _ ← readOptional (flags &&& 0x04 ≠ 0)
  let _ ← readOptional (flags &&& 0x04 ≠ 0)
  let username ← readOptional (flags &&& 0x80 ≠ 0)
  if flags &&& 0x40 ≠ 0 ∧ flags &&& 0x80 = 0 then failure
  else
    let password ← readOptional (flags &&& 0x40 ≠ 0)
    let cleanSession := flags &&& 0x02 ≠ 0
    if !cleanSession ∧ clientID = "" then failure
    else pure { cleanSession, clientID, username, password }

def connectReader : Reader ConnectInfo := do
  let proto ← readString
  let level ← next
  let flags ← next
  let _ ← next
  let _ ← next
  if proto ≠ "MQTT" ∨ level ≠ 4 then failure else fieldsReader flags

theorem map_fst_run_bind {α β : Type} (p : Reader α) (f : α → Reader β) (s : Bytes) :
    ((p >>= f).run s).map Prod.fst = (p.run s).bind fun read => ((f read.1).run read.2).map Prod.fst := by
  rw [StateT.run_bind]
  exact Option.map_bind

theorem fieldsReader_eq (flags : UInt8) (payload : Bytes) :
    ((fieldsReader flags).run payload).map Prod.fst = (do
      let (clientID, payload) ← readString payload
      let (_, payload) ← readOptional (flags &&& 0x04 ≠ 0) payload
      let (_, payload) ← readOptional (flags &&& 0x04 ≠ 0) payload
      let (username, payload) ← readOptional (flags &&& 0x80 ≠ 0) payload
      if flags &&& 0x40 ≠ 0 ∧ flags &&& 0x80 = 0 then none
      else
        let (password, _) ← readOptional (flags &&& 0x40 ≠ 0) payload
        let cleanSession := flags &&& 0x02 ≠ 0
        if !cleanSession ∧ clientID = "" then none
        else some { cleanSession, clientID, username, password }) := by
  unfold fieldsReader
  rw [map_fst_run_bind]
  refine congrArg _ (funext fun clientID => ?_)
  rw [map_fst_run_bind]
  refine congrArg _ (funext fun _ => ?_)
  rw [map_fst_run_bind]
  refine congrArg _ (funext fun _ => ?_)
  rw [map_fst_run_bind]
  refine congrArg _ (funext fun username => ?_)
  split
  · rfl
  · rw [map_fst_run_bind]
    refine congrArg _ (funext fun password => ?_)
    dsimp only
    split <;> rfl

theorem parseConnect_eq (p : Bytes) : parseConnect p = (connectReader.run p).map Prod.fst := by
  unfold parseConnect connectReader
  rw [map_fst_run_bind]
  refine congrArg _ (funext fun read => ?_)
  obtain ⟨proto, rest⟩ := read
  rcases rest with _ | ⟨level, _ | ⟨flags, _ | ⟨high, _ | ⟨low, payload⟩⟩⟩⟩
  · rfl
  · rfl
  · rfl
  · rfl
  · change (if _ then _ else _) =
      ((if proto ≠ "MQTT" ∨ level ≠ 4 then failure else fieldsReader flags).run payload).map Prod.fst
    split
    · rfl
    · exact (fieldsReader_eq flags payload).symm

theorem stable_readOptional (present : Bool) : Stable (readOptional present) := by
  unfold readOptional
  cases present with
  | true => exact stable_readString
  | false =>
    rintro s _ _ more ⟨⟩
    rfl

theorem stable_connectReader : Stable connectReader := by
  refine .bind stable_readString fun proto => .bind stable_next fun level => .bind stable_next fun flags =>
    .bind stable_next fun _ => .bind stable_next fun _ => .ite .failure ?_
  unfold fieldsReader
  refine .bind stable_readString fun clientID => .bind (stable_readOptional _) fun _ =>
    .bind (stable_readOptional _) fun _ => .bind (stable_readOptional _) fun username => .ite .failure ?_
  exact .bind (stable_readOptional _) fun password => .ite .failure (.pure _)

theorem reads_readOptional (value : Option Field) :
    Reads (readOptional value.isSome) (optionalField value) (textOf value) := by
  cases value with
  | none => exact fun _ => rfl
  | some f => exact reads_readString f.property

theorem reads_fieldsReader (c : Connect) :
    Reads (fieldsReader c.flags) (field c.clientID.val ++ (optionalField (c.will.map Will.topic) ++
      (optionalField (c.will.map Will.message) ++ (optionalField c.username ++
        (optionalField c.password ++ []))))) c.info := by
  obtain ⟨hclean, hwill, husername, hpassword⟩ := connectFlags_bits c.cleanSession
    (c.will.map fun will => (will.qos, will.retain)) c.username.isSome c.password.isSome
  rw [isSome_map] at hwill
  have htopic : decide (c.flags &&& 0x04 ≠ 0) = (c.will.map Will.topic).isSome := by
    rw [isSome_map, ← Bool.decide_coe c.will.isSome]
    exact decide_eq_decide.mpr hwill
  have hmessage : decide (c.flags &&& 0x04 ≠ 0) = (c.will.map Will.message).isSome := by
    rw [htopic, isSome_map, isSome_map]
  have huser : decide (c.flags &&& 0x80 ≠ 0) = c.username.isSome := by
    rw [← Bool.decide_coe c.username.isSome]
    exact decide_eq_decide.mpr husername
  have hpass : decide (c.flags &&& 0x40 ≠ 0) = c.password.isSome := by
    rw [← Bool.decide_coe c.password.isSome]
    exact decide_eq_decide.mpr hpassword
  have hknown : ¬ (c.flags &&& 0x40 ≠ 0 ∧ c.flags &&& 0x80 = 0) :=
    fun h => husername.mpr (c.known (hpassword.mp h.1)) h.2
  have hinfo : decide (c.flags &&& 0x02 ≠ 0) = c.cleanSession := by
    rw [← Bool.decide_coe c.cleanSession]
    exact decide_eq_decide.mpr hclean
  have hnamed : ¬ ((!c.cleanSession) = true ∧ ofBytes c.clientID.val = "") := by
    rintro ⟨hkept, hempty⟩
    exact ofBytes_ne_empty (c.named (by simpa using hkept)) hempty
  unfold fieldsReader
  refine .bind (reads_readString c.clientID.property) ?_
  refine .bind (htopic ▸ reads_readOptional _) ?_
  refine .bind (hmessage ▸ reads_readOptional _) ?_
  refine .bind (huser ▸ reads_readOptional _) ?_
  rw [if_neg hknown]
  refine .bind (hpass ▸ reads_readOptional _) ?_
  simp only [hinfo]
  rw [if_neg hnamed]
  exact .pure _

theorem reads_connectReader (c : Connect) : Reads connectReader c.encode c.info := by
  have hproto : ofBytes (ascii "MQTT") = "MQTT" := by decide
  have hencode : c.encode = field (ascii "MQTT") ++ ([4] ++ ([c.flags] ++ ([c.keepAlive.1] ++
      ([c.keepAlive.2] ++ (field c.clientID.val ++ (optionalField (c.will.map Will.topic) ++
      (optionalField (c.will.map Will.message) ++ (optionalField c.username ++
        (optionalField c.password ++ []))))))))) := by
    simp [Connect.encode]
  rw [hencode]
  refine .bind (reads_readString (by decide)) ?_
  refine .bind (reads_next 4) (.bind (reads_next _) (.bind (reads_next _) (.bind (reads_next _) ?_)))
  rw [if_neg (by simp [hproto])]
  exact reads_fieldsReader c

def filterBytes (sub : Field × Fin 3) : Bytes := field sub.1.val ++ [byte sub.2.val]

def subscriptionOf (sub : Field × Fin 3) : Subscription where
  filter := ofBytes sub.1.val
  qos := sub.2.val

theorem readString_eq_some {p rest : Bytes} {text : String} (h : readString p = some (text, rest)) :
    ∃ f : Field, p = field f.val ++ rest ∧ text = ofBytes f.val := by
  rcases p with _ | ⟨high, _ | ⟨low, p⟩⟩
  · cases h
  · cases h
  · unfold readString at h
    simp only at h
    split at h
    · cases h
    · next hfits =>
      cases h
      have hlength : (p.take (uint16 high low)).length = uint16 high low := by
        rw [length_take]
        omega
      refine ⟨⟨p.take (uint16 high low), by rw [hlength]; exact uint16_lt high low⟩, ?_, rfl⟩
      change high :: low :: p = field (p.take (uint16 high low)) ++ p.drop (uint16 high low)
      rw [field, hlength, bytes16_uint16]
      simp

theorem readID_eq_some {p rest : Bytes} {pid : Nat} (h : readID p = some (pid, rest)) :
    pid < 2 ^ 16 ∧ p = bytes16 pid ++ rest := by
  rcases p with _ | ⟨high, _ | ⟨low, p⟩⟩
  · cases h
  · cases h
  · cases h
    exact ⟨uint16_lt high low, by rw [bytes16_uint16]; rfl⟩

theorem readFilters_succ {p : Bytes} (hne : p ≠ []) (fuel : Nat) :
    readFilters (fuel + 1) p = (readString p).bind fun read =>
      match read.2 with
      | q :: rest =>
        if q > 2 then none
        else (readFilters fuel rest).map ({ filter := read.1, qos := q.toNat } :: ·)
      | [] => none := by
  rw [readFilters.eq_3 _ _ hne]
  refine congrArg _ (funext fun read => ?_)
  rcases read with ⟨filter, _ | ⟨q, rest⟩⟩
  · rfl
  · dsimp only
    split
    · rfl
    · cases readFilters fuel rest <;> rfl

theorem readFilters_entries {fuel : Nat} (entries : List (Field × Fin 3))
    (hfuel : (entries.flatMap filterBytes).length ≤ fuel) :
    readFilters fuel (entries.flatMap filterBytes) = some (entries.map subscriptionOf) := by
  induction entries generalizing fuel with
  | nil => cases fuel <;> rfl
  | cons sub entries ih =>
    have hqos : (byte sub.2.val).toNat = sub.2.val := by
      rw [toNat_byte]
      omega
    have hread : readString ((sub :: entries).flatMap filterBytes) =
        some (ofBytes sub.1.val, byte sub.2.val :: entries.flatMap filterBytes) := by
      rw [flatMap_cons, filterBytes, append_assoc]
      exact reads_readString sub.1.property _
    have hlength : (entries.flatMap filterBytes).length + 1 ≤ fuel := by
      refine Nat.le_trans ?_ hfuel
      simp only [flatMap_cons, filterBytes, length_append, length_singleton]
      omega
    obtain ⟨fuel, rfl⟩ : ∃ k, fuel = k + 1 := ⟨fuel - 1, by omega⟩
    rw [readFilters_succ (by simp [filterBytes, field, bytes16]), hread, bind_some]
    dsimp only
    rw [if_neg, ih (by omega), hqos]
    · rfl
    · rw [gt_iff_lt, UInt8.lt_iff_toNat_lt, hqos]
      exact Nat.not_lt.mpr (Nat.le_of_lt_succ sub.2.isLt)

theorem readFilters_eq_some {fuel : Nat} {p : Bytes} {subs : List Subscription}
    (h : readFilters fuel p = some subs) :
    ∃ entries : List (Field × Fin 3), p = entries.flatMap filterBytes ∧
      subs = entries.map subscriptionOf := by
  induction fuel generalizing p subs with
  | zero =>
    cases p with
    | nil =>
      cases h
      exact ⟨[], rfl, rfl⟩
    | cons c p => cases h
  | succ fuel ih =>
    by_cases hne : p = []
    · subst hne
      cases h
      exact ⟨[], rfl, rfl⟩
    · rw [readFilters_succ hne] at h
      obtain ⟨⟨filter, rest⟩, hread, h⟩ := bind_eq_some_iff.mp h
      obtain ⟨f, rfl, rfl⟩ := readString_eq_some hread
      cases rest with
      | nil => cases h
      | cons q rest =>
        dsimp only at h
        split at h
        · cases h
        · next hq =>
          obtain ⟨rest', hrest, rfl⟩ := map_eq_some_iff.mp h
          obtain ⟨entries, rfl, rfl⟩ := ih hrest
          have hsmall : q.toNat < 3 := by
            rw [gt_iff_lt, UInt8.lt_iff_toNat_lt] at hq
            exact Nat.lt_succ_of_le (Nat.le_of_not_lt hq)
          refine ⟨(f, ⟨q.toNat, hsmall⟩) :: entries, ?_, rfl⟩
          simp [filterBytes, byte]

theorem parseSubscribe_iff (p : Bytes) (pid : Nat) (subs : List Subscription) :
    parseSubscribe p = some (pid, subs) ↔
      pid < 2 ^ 16 ∧ ∃ entries : List (Field × Fin 3), entries ≠ [] ∧
        p = bytes16 pid ++ entries.flatMap filterBytes ∧ subs = entries.map subscriptionOf := by
  unfold parseSubscribe
  constructor
  · intro h
    obtain ⟨⟨id, rest⟩, hid, h⟩ := bind_eq_some_iff.mp h
    obtain ⟨read, hread, h⟩ := bind_eq_some_iff.mp h
    obtain ⟨hbound, rfl⟩ := readID_eq_some hid
    obtain ⟨entries, rfl, rfl⟩ := readFilters_eq_some hread
    split at h
    · cases h
    · next hne =>
      cases h
      exact ⟨hbound, entries, fun hnil => hne (by rw [hnil]; rfl), rfl, rfl⟩
  · rintro ⟨hbound, entries, hne, rfl, rfl⟩
    have hid : readID (bytes16 pid ++ entries.flatMap filterBytes) =
        some (pid, entries.flatMap filterBytes) := reads_readID hbound _
    have hmap : entries.map subscriptionOf ≠ [] := by simpa using hne
    simp only [hid, bind_eq_bind, bind_some, readFilters_entries entries le_rfl, if_neg hmap]

/-- CONNECT is read back from its encoding and from no part of it, and SUBSCRIBE is read from the
encodings of its filters only. -/
theorem connect_subscribe_exact :
    (∀ c : Connect, parseConnect c.encode = some c.info ∧
      ∀ part, part <+: c.encode → part ≠ c.encode → parseConnect part = none) ∧
    ∀ p pid subs, parseSubscribe p = some (pid, subs) ↔
      pid < 2 ^ 16 ∧ ∃ entries : List (Field × Fin 3), entries ≠ [] ∧
        p = bytes16 pid ++ entries.flatMap filterBytes ∧ subs = entries.map subscriptionOf := by
  refine ⟨fun c => ⟨?_, fun part hpart hne => ?_⟩, parseSubscribe_iff⟩
  · have hread := reads_connectReader c []
    rw [append_nil] at hread
    rw [parseConnect_eq, hread]
    rfl
  · rw [parseConnect_eq, stable_connectReader.run_eq_none (reads_connectReader c) hpart hne]
    rfl

def willConnect : Connect where
  clientID := ⟨[0x63], by decide⟩
  cleanSession := false
  will := some ⟨⟨[0x77], by decide⟩, ⟨[], by decide⟩, 1, true⟩
  username := some ⟨[0x75], by decide⟩
  password := some ⟨[0x70], by decide⟩
  named := by decide
  known := by decide

theorem connect_subscribe_exact_will :
    parseConnect willConnect.encode = some willConnect.info ∧
      parseConnect willConnect.encode.dropLast = none :=
  ⟨(connect_subscribe_exact.1 willConnect).1,
    (connect_subscribe_exact.1 willConnect).2 _ (List.dropLast_prefix _) (by decide)⟩

theorem stable_readRemaining (fuel n mul : Nat) : Stable (readRemaining fuel n mul) := by
  intro s value rest more h
  change readRemaining fuel n mul s = _ at h
  fun_induction readRemaining fuel n mul s with
  | case1 => cases h
  | case2 => cases h
  | case3 fuel n mul b s _ hlast =>
    obtain ⟨hvalue, hrest⟩ := Prod.mk.inj (some.inj h)
    rw [← hvalue, ← hrest]
    exact if_pos hlast
  | case4 fuel n mul b s _ hmore ih => exact (if_neg hmore).trans (ih h)

theorem stable_readPacket : Stable readPacket := by
  rintro (_ | ⟨header, s⟩) packet rest more h
  · cases h
  · change readPacket (header :: s) = _ at h
    change readPacket (header :: (s ++ more)) = _
    unfold readPacket at h ⊢
    cases hread : readRemaining 4 0 1 s with
    | none => simp [hread] at h
    | some result =>
      have hlong : readRemaining 4 0 1 (s ++ more) = _ := stable_readRemaining 4 0 1 s result.1 result.2 more hread
      simp only [hread, hlong, length_append] at h ⊢
      split at h
      · cases h
      · cases h
        rw [if_neg (by omega), take_append_of_le_length (by omega), drop_append_of_le_length (by omega)]

theorem go_append (fuel fuel' : Nat) (h : fuel ≤ fuel') (s more : Bytes) :
    readPackets.go fuel s <+: readPackets.go fuel' (s ++ more) := by
  induction fuel generalizing fuel' s with
  | zero => exact nil_prefix
  | succ fuel ih =>
    obtain ⟨fuel', rfl⟩ := Nat.exists_eq_add_of_le' (Nat.le_trans (Nat.succ_pos fuel) h)
    unfold readPackets.go
    cases hread : readPacket s with
    | none => exact nil_prefix
    | some result =>
      have hlong : readPacket (s ++ more) = _ := stable_readPacket s result.1 result.2 more hread
      rw [hlong]
      exact (prefix_cons_inj _).mpr (ih _ (Nat.le_of_succ_le_succ h) _)

/-- A packet to send: its first byte and a body that is not too long. -/
abbrev Outgoing := UInt8 × { payload : Bytes // payload.length ≤ maxPacket }

def Outgoing.packet (o : Outgoing) : Packet := { typ := o.1.toNat / 16, flags := o.1.toNat % 16, payload := o.2.val }

def streamOf (packets : List Outgoing) : Bytes := packets.flatMap fun o => packetOf o.1 o.2.val

theorem go_streamOf (packets : List Outgoing) {fuel : Nat} (h : (streamOf packets).length ≤ fuel) :
    readPackets.go fuel (streamOf packets) = packets.map Outgoing.packet := by
  induction packets generalizing fuel with
  | nil => cases fuel <;> rfl
  | cons o packets ih =>
    rw [streamOf, flatMap_cons, ← streamOf] at h ⊢
    cases fuel with
    | zero => simp [packetOf] at h
    | succ fuel =>
      unfold readPackets.go
      rw [readPacket_packetOf o.2.property]
      exact congrArg _ (ih (by simp [packetOf] at h; omega))

/-- From a connection that breaks after any number of bytes, the broker has read packets that were
sent, in their order, and all that were sent completely. -/
theorem readPackets_of_broken_stream (packets : List Outgoing) (n : Nat) :
    readPackets ((streamOf packets).take n) <+: packets.map Outgoing.packet ∧
      ∀ k, (streamOf (packets.take k)).length ≤ n →
        (packets.take k).map Outgoing.packet <+: readPackets ((streamOf packets).take n) := by
  have hread (packets : List Outgoing) : readPackets (streamOf packets) = packets.map Outgoing.packet :=
    go_streamOf packets (le_refl _)
  have hmore (s more : Bytes) : readPackets s <+: readPackets (s ++ more) := go_append _ _ (by simp) s more
  constructor
  · have hwhole := hmore ((streamOf packets).take n) ((streamOf packets).drop n)
    rw [take_append_drop, hread] at hwhole
    exact hwhole
  · intro k hk
    have hparts : streamOf packets = streamOf (packets.take k) ++ streamOf (packets.drop k) := by
      rw [streamOf, streamOf, streamOf, ← flatMap_append, take_append_drop]
    rw [hparts, take_append, take_of_length_le hk, ← hread]
    exact hmore _ _

end Nodra.Mqtt
