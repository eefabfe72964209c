import Nodra.Server.Attempts

/-! The certificates that the server signs, and the list of the revoked ones.  The store
has one serial for a site, while three requests sign certificates. -/
namespace Nodra.Server
open Model Std Interleave Program List Option

theorem hexDigit_digitChar {d : Nat} (h : d < 16) : hexDigit d.digitChar = some d := by
  revert d
  decide

theorem foldlM_hexDigit (digits : List Nat) (h : ∀ d ∈ digits, d < 16) (value : Nat) :
    (digits.map Nat.digitChar).foldlM (fun value c => (hexDigit c).map (16 * value + ·)) value =
      some (digits.foldl (16 * · + ·) value) := by
  induction digits generalizing value with
  | nil => rfl
  | cons d digits ih =>
    have hd := hexDigit_digitChar (h d mem_cons_self)
    rw [map_cons, foldlM_cons, hd]
    exact ih (fun e he => h e (mem_cons_of_mem d he)) _

theorem hexText_ne_empty (serial : Nat) : hexText serial ≠ "" := by
  unfold hexText
  split
  · decide
  · next h =>
    intro hempty
    have hdigits : (Nat.digits 16 serial).reverse.map Nat.digitChar = [] := by
      simpa using congrArg String.toList hempty
    rw [map_eq_nil_iff, reverse_eq_nil_iff, Nat.digits_eq_nil_iff_eq_zero] at hdigits
    exact h hdigits

theorem parseHex_hexText (serial : Nat) : parseHex (hexText serial) = some serial := by
  rw [parseHex, if_neg (hexText_ne_empty serial)]
  unfold hexText
  split
  · next h =>
    subst h
    rfl
  · have hdigits : ∀ d ∈ (Nat.digits 16 serial).reverse, d < 16 :=
      fun d hd => Nat.digits_lt_base (by decide) (mem_reverse.mp hd)
    rw [String.toList_ofList, foldlM_hexDigit _ hdigits, foldl_reverse]
    have hvalue := Nat.ofDigits_digits 16 serial
    rw [Nat.ofDigits_eq_foldr] at hvalue
    simpa [Nat.add_comm] using hvalue

section

def Portal.site (s : Portal) (id : String) : Option Site := s.console.store.site id

def Known (s : Portal) : Prop :=
  ∀ id serial, .signed id serial ∈ s.history → ∀ site ∈ s.site id, site.certificateSerial = hexText serial

structure Kin (s s' : Portal) : Prop where
  cfg : s'.cfg = s.cfg
  site : ∀ id, s'.site id = s.site id
  signed : ∀ id serial, .signed id serial ∈ s'.history ↔ .signed id serial ∈ s.history

structure Lawful (s s' : Portal) : Prop where
  cfg : s'.cfg = s.cfg
  known : Known s → Known s'
  revoked : ∀ id, ∀ site ∈ s.site id, site.revoked = true → ∃ site' ∈ s'.site id, site'.revoked = true

def Unissued (s : Portal) (id : String) : Prop := s.site id = none ∧ ∀ serial, .signed id serial ∉ s.history

variable {s s' s'' : Portal} {id : String}

theorem Kin.refl (s : Portal) : Kin s s := ⟨rfl, fun _ => rfl, fun _ _ => Iff.rfl⟩

theorem Kin.trans (h : Kin s s') (h' : Kin s' s'') : Kin s s'' where
  cfg := h'.cfg.trans h.cfg
  site := fun id => (h'.site id).trans (h.site id)
  signed := fun id serial => (h'.signed id serial).trans (h.signed id serial)

theorem Kin.unissued (h : Kin s s') (hfresh : Unissued s id) : Unissued s' id :=
  ⟨(h.site id).trans hfresh.1, fun serial hmem => hfresh.2 serial ((h.signed id serial).mp hmem)⟩

theorem Kin.lawful (h : Kin s s') : Lawful s s' where
  cfg := h.cfg
  known := by
    intro hknown id serial hsigned site hsite
    rw [h.site] at hsite
    exact hknown id serial ((h.signed id serial).mp hsigned) site hsite
  revoked := by
    intro id site hsite hrevoked
    rw [h.site]
    exact ⟨site, hsite, hrevoked⟩

theorem Lawful.trans (h : Lawful s s') (h' : Lawful s' s'') : Lawful s s'' where
  cfg := h'.cfg.trans h.cfg
  known := fun hknown => h'.known (h.known hknown)
  revoked := by
    intro id site hsite hrevoked
    obtain ⟨site', hsite', hrevoked'⟩ := h.revoked id site hsite hrevoked
    exact h'.revoked id site' hsite' hrevoked'

structure Signs (s s' : Portal) (id : String) (serial : Nat) : Prop where
  cfg : s'.cfg = s.cfg
  site : ∀ other, s'.site other = s.site other
  history : s'.history = s.history ++ [.signed id serial]

theorem Signs.signed_iff {serial : Nat} (h : Signs s s' id serial) (other : String) (n : Nat) :
    .signed other n ∈ s'.history ↔ .signed other n ∈ s.history ∨ other = id ∧ n = serial := by
  rw [h.history, mem_append, mem_singleton, PortalObservation.signed.injEq]

theorem Signs.lawful {serial : Nat} (h : Signs s s' id serial) (hfresh : Unissued s id) : Lawful s s' where
  cfg := h.cfg
  known := by
    intro hknown other n hsigned site hsite
    rw [h.site] at hsite
    rcases (h.signed_iff other n).mp hsigned with hsigned | ⟨rfl, rfl⟩
    · exact hknown other n hsigned site hsite
    · rw [hfresh.1] at hsite
      cases hsite
  revoked := by
    intro other site hsite hrevoked
    rw [h.site]
    exact ⟨site, hsite, hrevoked⟩

structure Adds (s s' : Portal) (site : Site) : Prop where
  cfg : s'.cfg = s.cfg
  site : ∀ id, s'.site id = (s.site id).or (if site.id = id then some site else none)
  signed : ∀ id serial, .signed id serial ∈ s'.history ↔ .signed id serial ∈ s.history

theorem Adds.lawful {site : Site} (h : Adds s s' site)
    (hserial : ∀ serial, .signed site.id serial ∈ s.history → site.certificateSerial = hexText serial) :
    Lawful s s' where
  cfg := h.cfg
  known := by
    intro hknown id serial hsigned found hfound
    rw [h.signed] at hsigned
    rw [h.site, mem_def, or_eq_some_iff] at hfound
    rcases hfound with hfound | ⟨-, hfound⟩
    · exact hknown id serial hsigned found hfound
    · split at hfound
      · next hid =>
        cases hfound
        exact hserial serial (hid ▸ hsigned)
      · cases hfound
  revoked := by
    intro id found hfound hrevoked
    refine ⟨found, ?_, hrevoked⟩
    rw [h.site, mem_def, mem_def.mp hfound]
    rfl

structure Sets (s s' : Portal) (id : String) (site : Site) : Prop where
  cfg : s'.cfg = s.cfg
  there : s.site id ≠ none
  site : ∀ other, s'.site other = if other = id then some site else s.site other
  signed : ∀ other serial, .signed other serial ∈ s'.history ↔ .signed other serial ∈ s.history

theorem Sets.known {site : Site} (h : Sets s s' id site)
    (hknown : ∀ other serial, other ≠ id → .signed other serial ∈ s.history →
      ∀ v ∈ s.site other, v.certificateSerial = hexText serial)
    (hserial : ∀ serial, .signed id serial ∈ s.history → site.certificateSerial = hexText serial) : Known s' := by
  intro other serial hsigned found hfound
  rw [h.signed] at hsigned
  rw [h.site] at hfound
  split at hfound
  · next hother =>
    cases hfound
    exact hserial serial (hother ▸ hsigned)
  · next hother => exact hknown other serial hother hsigned found hfound

theorem Sets.revoked {site : Site} (h : Sets s s' id site)
    (hkeep : ∀ old ∈ s.site id, old.revoked = true → site.revoked = true) :
    ∀ other, ∀ old ∈ s.site other, old.revoked = true → ∃ new ∈ s'.site other, new.revoked = true := by
  intro other old hold hrevoked
  rw [h.site]
  split
  · next hother =>
    subst hother
    exact ⟨site, rfl, hkeep old hold hrevoked⟩
  · exact ⟨old, hold, hrevoked⟩

end

section

variable {env : PortalEnv} {oracle : PortalPoint → PortalChoice} {s : Portal}

theorem kin_of_history {s s' : Portal} {o : PortalObservation} (hconsole : s'.console = s.console)
    (hcfg : s'.cfg = s.cfg) (hhistory : s'.history = s.history ++ [o])
    (ho : ∀ id serial, o ≠ .signed id serial) : Kin s s' where
  cfg := hcfg
  site := fun id => by rw [Portal.site, hconsole, Portal.site]
  signed := by
    intro id serial
    rw [hhistory, mem_append, mem_singleton]
    exact or_iff_left fun h => ho id serial h.symm

theorem attemptLimited_ends (key : String) : (attemptLimited key).Ends oracle (fun _ => Kin s) s :=
  ⟨rfl, fun _ => rfl, fun _ _ => Iff.rfl⟩

theorem recordAttempt_ends (key : String) : (recordAttempt key).Ends oracle (fun _ => Kin s) s :=
  kin_of_history rfl rfl rfl nofun

theorem clearAttempts_ends (key : String) : (clearAttempts key).Ends oracle (fun _ => Kin s) s :=
  kin_of_history rfl rfl rfl nofun

theorem checkToken_ends (key tok : String) : (checkToken env key tok).Ends oracle (fun _ => Kin s) s :=
  .refl s

theorem newSite_ends (body : EnrollBody) (orgID : String) :
    (newSite env body orgID).Ends oracle (fun drawn s' => Kin s s' ∧
      ∀ pair ∈ drawn, pair.2.id = (oracle .newToken).id) s := by
  unfold newSite Ends
  rw [eval_access]
  split
  · refine ⟨.refl s, ?_⟩
    intro pair hpair
    cases hpair
  · refine ⟨.refl s, ?_⟩
    rintro _ ⟨⟩
    rfl

theorem signCSR_ends (siteID : String) :
    (signCSR siteID).Ends oracle (fun result s' => match result with
      | .error _ => Kin s s'
      | .ok signed => Signs s s' siteID signed.serial ∧ (oracle .signCSR).sign = .ok signed.serial) s := by
  unfold signCSR Ends
  rw [eval_access]
  split
  · exact .refl s
  · next h => exact ⟨⟨rfl, fun _ => rfl, rfl⟩, h⟩

theorem signOptional_ends (pki : Bool) (csrPem siteID : String) :
    (signOptional pki csrPem siteID).Ends oracle (fun result s' => match result with
      | .ok (some signed) => Signs s s' siteID signed.serial ∧ csrPem ≠ "" ∧
          (oracle .signCSR).sign = .ok signed.serial
      | _ => Kin s s') s := by
  unfold signOptional
  split
  · next hcsr =>
    refine Ends.bind oracle (signCSR_ends siteID) fun result s' h => ?_
    cases result with
    | error err => exact h
    | ok signed => exact ⟨h.1, hcsr.2, h.2⟩
  · exact .refl s

theorem addSite_ends (site : Site) :
    (addSite env site).Ends oracle (fun result s' => match result with
      | some _ => Kin s s'
      | none => Adds s s' site) s := by
  unfold addSite Ends
  rw [eval_access]
  split
  · exact .refl s
  · refine ⟨rfl, fun id => ?_, fun _ _ => Iff.rfl⟩
    change (s.console.store.state.sites ++ [site]).find? _ = _
    rw [find?_append]
    by_cases hid : site.id = id <;> simp [Portal.site, Store.site, hid]

theorem updateSite_ends (id : String) (fn : Time → Site → Site) (hid : ∀ now v, (fn now v).id = v.id) :
    (updateSite env id fn).Ends oracle (fun result s' => match result with
      | some _ => Kin s s' ∧ ((oracle .updateSite).error ≠ none ∨ s.site id = none)
      | none => ∃ v ∈ s.site id, Sets s s' id (fn (oracle .updateSite).now v)) s := by
  unfold updateSite Ends
  rw [eval_access]
  cases herror : (oracle .updateSite).error with
  | some err => exact ⟨.refl s, .inl (by simp)⟩
  | none =>
    cases hfind : s.site id with
    | none =>
      have hmissing : s.console.store.updateSite env.codecs id (fn (oracle .updateSite).now) =
          .error .notExist := by
        rw [Store.updateSite, Store.updateWith, show List.find? _ _ = none from hfind]
      rw [hmissing]
      exact ⟨.refl s, .inr rfl⟩
    | some v =>
      have hv : v.id = id := by simpa using find?_some hfind
      have hupdate : s.console.store.updateSite env.codecs id (fn (oracle .updateSite).now) =
          .ok (s.console.store.mutate env.codecs (.siteSet (fn (oracle .updateSite).now v))) := by
        rw [Store.updateSite, Store.updateWith, show List.find? _ _ = some v from hfind]
      rw [hupdate]
      refine ⟨v, rfl, rfl, by rw [hfind]; simp, fun other => ?_, fun _ _ => Iff.rfl⟩
      change (KeyedList.upsert Site.id _ s.console.store.state.sites).find? _ = _
      rw [KeyedList.find?_upsert, hid, hv]
      by_cases hother : id = other
      · rw [if_pos hother, if_pos hother.symm]
      · rw [if_neg hother, if_neg (Ne.symm hother)]
        rfl

theorem sites_resolveAlert (store : Nodra.Store) (codecs : Store.Codecs) (id : String) :
    ((store.resolveAlert codecs id).toOption.getD store).state.sites = store.state.sites := by
  unfold Store.resolveAlert Store.updateWith
  split <;> rfl

theorem resolveAlerts_ends (alerts : List Alert) : (resolveAlerts env alerts).Ends oracle (fun _ => Kin s) s := by
  induction alerts generalizing s with
  | nil => exact .refl s
  | cons alert rest ih =>
    refine Ends.bind oracle (?_ : Ends oracle (fun _ => Kin s) _ s) fun _ s' h => ?_
    · unfold Ends
      rw [eval_access]
      split
      · exact .refl s
      · refine ⟨rfl, fun id => ?_, fun _ _ => Iff.rfl⟩
        exact congrArg (List.find? fun v => decide (v.id = id)) (sites_resolveAlert _ _ _)
    · exact h.trans ih

theorem refreshCRL_ends : (refreshCRL).Ends oracle (fun _ => Kin s) s := by
  unfold refreshCRL Ends
  rw [eval_access]
  split
  · exact .refl s
  · split
    · exact ⟨rfl, fun _ => rfl, fun _ _ => Iff.rfl⟩
    · exact .refl s

end

section

variable {env : PortalEnv} {oracle : PortalPoint → PortalChoice} {s : Portal}

/-- The end of both enrollments, where the id that is drawn is new: a certificate is signed
only if its serial is stored. -/
theorem enrolled_ends {body : EnrollBody} {orgID key failed : String} {refused : String → PortalReply}
    {stored : Option Signed → Site → Site} {unsaved : String → PortalReply} {α : Type}
    {view : Portal → α} {pki : α → Bool} {reply : α → PortalChoice → Site → Option Signed → PortalReply}
    (hfresh : Unissued s (oracle .newToken).id) (hid : ∀ certificate site, (stored certificate site).id = site.id)
    (hserial : ∀ signed site, body.csrPem ≠ "" → (oracle .signCSR).sign = .ok signed.serial →
      (stored (some signed) site).certificateSerial = hexText signed.serial) :
    Ends oracle (fun _ => Lawful s) (do
      match ← newSite env body orgID with
      | none => pure { code := 500, error := failed }
      | some (drawn, site) =>
      let s ← .read .arrive view
      match ← signOptional (pki s) body.csrPem site.id with
      | .error err => pure (refused err)
      | .ok certificate =>
      match ← addSite env (stored certificate site) with
      | some err => pure (unsaved err)
      | none =>
        clearAttempts key
        pure (reply s drawn site certificate)) s := by
  refine Ends.bind oracle (newSite_ends body orgID) fun drawn s₁ h₁ => ?_
  match drawn with
  | none => exact h₁.1.lawful
  | some (drawn, site) =>
    have hsite : site.id = (oracle .newToken).id := h₁.2 (drawn, site) rfl
    have hfresh₁ : Unissued s₁ site.id := hsite ▸ h₁.1.unissued hfresh
    refine Ends.bind oracle (.read oracle .arrive view s₁) fun seen s₂ h₂ => ?_
    obtain ⟨-, rfl⟩ := h₂
    refine Ends.bind oracle (signOptional_ends _ _ _) fun certificate s₃ h₃ => ?_
    match certificate with
    | .error err => exact (h₁.1.trans h₃).lawful
    | .ok none =>
      have hkin := h₁.1.trans h₃
      refine Ends.bind oracle (addSite_ends _) fun unsaved s₄ h₄ => ?_
      cases unsaved with
      | some err => exact (hkin.trans h₄).lawful
      | none =>
        refine Ends.bind oracle (clearAttempts_ends key) fun _ s₅ h₅ => ?_
        refine hkin.lawful.trans ((h₄.lawful fun serial hsigned => ?_).trans h₅.lawful)
        rw [hid] at hsigned
        exact absurd hsigned ((h₃.unissued hfresh₁).2 serial)
    | .ok (some signed) =>
      obtain ⟨hsigns, hcsr, hsign⟩ := h₃
      have hlawful := h₁.1.lawful.trans (hsigns.lawful hfresh₁)
      refine Ends.bind oracle (addSite_ends _) fun unsaved s₄ h₄ => ?_
      cases unsaved with
      | some err => exact hlawful.trans h₄.lawful
      | none =>
        refine Ends.bind oracle (clearAttempts_ends key) fun _ s₅ h₅ => ?_
        refine hlawful.trans ((h₄.lawful fun serial hsigned => ?_).trans h₅.lawful)
        rw [hid] at hsigned
        rcases (hsigns.signed_iff _ _).mp hsigned with hsigned | ⟨-, rfl⟩
        · exact absurd hsigned (hfresh₁.2 serial)
        · exact hserial signed site hcsr hsign

theorem enroll_ends (remoteAddr : String) (body : Except String EnrollBody)
    (hfresh : Unissued s (oracle .newToken).id) :
    (enroll env remoteAddr body).Ends oracle (fun _ => Lawful s) s := by
  cases body with
  | error err => exact (Kin.refl s).lawful
  | ok body =>
    refine Ends.bind oracle (attemptLimited_ends _) fun limited s₁ h₁ => ?_
    cases limited with
    | true => exact h₁.lawful
    | false =>
      refine Ends.bind oracle (checkToken_ends _ _) fun found s₂ h₂ => ?_
      have hkin := h₁.trans h₂
      cases found with
      | error err =>
        refine Ends.bind oracle (recordAttempt_ends _) fun _ s₃ h₃ => ?_
        exact (hkin.trans h₃).lawful
      | ok orgID =>
        dsimp only
        split
        · exact hkin.lawful
        · refine Ends.imp ?_ fun _ _ h => hkin.lawful.trans h
          exact enrolled_ends (hkin.unissued hfresh) (fun certificate _ => by cases certificate <;> rfl)
            fun _ _ _ _ => rfl

theorem ztpBootstrap_ends (remoteAddr host : String) (body : Except String ZtpBody)
    (hfresh : Unissued s (oracle .newToken).id)
    (hunsigned : ∀ b, body = .ok b → b.csrPem = "" ∨ ∃ err, (oracle .signCSR).sign = .error err) :
    (ztpBootstrap env remoteAddr host body).Ends oracle (fun _ => Lawful s) s := by
  cases body with
  | error err => exact (Kin.refl s).lawful
  | ok body =>
    refine Ends.bind oracle (attemptLimited_ends _) fun limited s₁ h₁ => ?_
    cases limited with
    | true => exact h₁.lawful
    | false =>
      simp only [Bool.false_eq_true, if_false]
      split
      · exact h₁.lawful
      · refine Ends.bind oracle (checkToken_ends _ _) fun found s₂ h₂ => ?_
        have hkin := h₁.trans h₂
        cases found with
        | error err =>
          refine Ends.bind oracle (recordAttempt_ends _) fun _ s₃ h₃ => ?_
          exact (hkin.trans h₃).lawful
        | ok orgID =>
          refine Ends.imp ?_ fun _ _ h => hkin.lawful.trans h
          refine enrolled_ends (hkin.unissued hfresh) (fun _ _ => rfl) fun signed site hcsr hsign => ?_
          rcases hunsigned body rfl with hempty | ⟨err, herr⟩
          · exact absurd hempty hcsr
          · rw [herr] at hsign
            cases hsign

theorem rotateRefusal_ok {r : Credentials} {id : String} {site : Site}
    (h : rotateRefusal env s r id = .ok site) : site ∈ s.site id ∧ site.id = id := by
  unfold rotateRefusal at h
  split at h
  · cases h
  · split at h
    · next hagent =>
      cases h
      unfold agentSite at hagent
      split at hagent
      · cases hagent
      · next found hfind =>
        have hfound : found = site := by
          split at hagent
          · cases hagent
          · split at hagent
            · exact Option.some.inj hagent
            · split at hagent
              · exact Option.some.inj hagent
              · cases hagent
        subst hfound
        exact ⟨hfind, by simpa using find?_some hfind⟩
    · split at h <;> cases h

theorem Signs.lawful_sets {s₁ s₂ : Portal} {id : String} {serial : Nat} {site : Site}
    (hsigns : Signs s s₁ id serial) (hsets : Sets s₁ s₂ id site) (hnone : ∀ v ∈ s.site id, v.certificateSerial = "")
    (hserial : site.certificateSerial = hexText serial)
    (hkeep : ∀ old ∈ s.site id, old.revoked = true → site.revoked = true) : Lawful s s₂ where
  cfg := hsets.cfg.trans hsigns.cfg
  known := by
    intro hknown
    obtain ⟨v, hv⟩ := ne_none_iff_exists'.mp hsets.there
    rw [hsigns.site] at hv
    refine hsets.known (fun other n hother hsigned v hv => ?_) fun n hsigned => ?_
    · rw [hsigns.site] at hv
      exact hknown other n (((hsigns.signed_iff other n).mp hsigned).resolve_right (hother ·.1)) v hv
    · rcases (hsigns.signed_iff id n).mp hsigned with hsigned | ⟨-, rfl⟩
      · -- a certificate from before would be the one the store has
        exact absurd ((hknown id n hsigned v hv).symm.trans (hnone v hv)) (hexText_ne_empty n)
      · exact hserial
  revoked := by
    intro other old hold hrevoked
    rw [← hsigns.site] at hold
    exact hsets.revoked (fun v hv => hkeep v (hsigns.site id ▸ hv)) other old hold hrevoked

theorem siteRotate_ends (r : Credentials) (id : String) (body : Except String RotateBody)
    (hfirst : (∃ err, (oracle .signCSR).sign = .error err) ∨
      (oracle .updateSite).error = none ∧ ∀ v ∈ s.site id, v.certificateSerial = "") :
    (siteRotate env r id body).Ends oracle (fun _ => Lawful s) s := by
  refine Ends.bind oracle (.read oracle .arrive _ s) fun found s₁ h₁ => ?_
  obtain ⟨hfound, rfl⟩ := h₁
  cases found with
  | error reply => exact (Kin.refl _).lawful
  | ok site =>
    obtain ⟨hsite, hid⟩ := rotateRefusal_ok hfound.symm
    cases body with
    | error err => exact (Kin.refl _).lawful
    | ok body =>
      dsimp only
      split
      · exact (Kin.refl _).lawful
      · refine Ends.bind oracle (signCSR_ends site.id) fun result s₂ h₂ => ?_
        cases result with
        | error err => exact h₂.lawful
        | ok signed =>
          rw [hid] at h₂
          obtain ⟨herror, hnone⟩ := hfirst.resolve_left fun ⟨err, herr⟩ => by
            rw [herr] at h₂
            cases h₂.2
          refine Ends.bind oracle (updateSite_ends id _ fun _ _ => rfl) fun unsaved s₃ h₃ => ?_
          cases unsaved with
          | some err =>
            rcases h₃.2 with herror' | hmissing
            · exact absurd herror herror'
            · rw [h₂.1.site, mem_def.mp hsite] at hmissing
              cases hmissing
          | none =>
            obtain ⟨v, hv, hsets⟩ := h₃
            have hlawful : Lawful s₁ s₃ := by
              refine h₂.1.lawful_sets hsets hnone rfl fun old hold hrevoked => ?_
              rw [h₂.1.site, mem_def, mem_def.mp hold] at hv
              cases hv
              exact hrevoked
            refine Ends.bind oracle (.read oracle .alerts _ s₃) fun alerts s₄ h₄ => ?_
            obtain ⟨-, rfl⟩ := h₄
            refine Ends.bind oracle (resolveAlerts_ends alerts) fun _ s₅ h₅ => ?_
            exact hlawful.trans h₅.lawful

theorem adminRefusal_code {draw : Draw} {console : Console} {tok : String} {method : Method} {reply : ConsoleReply}
    (h : adminRefusal env.toConsoleEnv draw console tok method = some reply) : reply.code ≠ 200 := by
  unfold adminRefusal at h
  dsimp only at h
  split at h
  · split at h <;> cases h <;> decide
  · split at h <;> cases h
    decide

theorem revokeRefusal_code {now : Time} {tok id : String} {reply : PortalReply}
    (h : reply ∈ revokeRefusal env now s tok id) : reply.code ≠ 200 := by
  unfold revokeRefusal at h
  split at h
  · next hrefused =>
    cases h
    exact adminRefusal_code hrefused
  · split at h
    · cases h
    · split at h <;> cases h
      decide

theorem kin_looked (now : Time) (tok : String) : Kin s { s with console := s.console.looked now tok } where
  cfg := rfl
  site := fun id => by
    unfold Portal.site Console.looked
    split <;> rfl
  signed := fun _ _ => Iff.rfl

def Portal.ListsNow (s : Portal) (now : Time) : Prop :=
  s.crl = some (revokedCerts s.console.store.state.sites now)

theorem refreshCRL_listsNow (herror : (oracle .refreshCRL).error = none) (hpki : s.cfg.pki = true) :
    (refreshCRL.eval oracle s).1.ListsNow (oracle .refreshCRL).now := by
  unfold refreshCRL
  rw [eval_access, herror, hpki]
  rfl

theorem siteRevoke_ends (tok id : String) :
    (siteRevoke env tok id).Ends oracle (fun reply s' => Lawful s s' ∧ (reply.code = 200 →
      (∃ site ∈ s'.site id, site.revoked = true) ∧
        ((oracle .refreshCRL).error = none → s.cfg.pki = true → s'.ListsNow (oracle .refreshCRL).now))) s := by
  refine Ends.bind oracle (?_ : Ends oracle (fun refused s' => Kin s s' ∧ ∀ reply ∈ refused, reply.code ≠ 200)
    _ s) fun refused s₁ h₁ => ?_
  · exact ⟨kin_looked _ _, fun reply hreply => revokeRefusal_code hreply⟩
  · cases refused with
    | some reply => exact ⟨h₁.1.lawful, fun hcode => absurd hcode (h₁.2 reply rfl)⟩
    | none =>
      refine Ends.bind oracle (updateSite_ends id _ fun _ _ => rfl) fun unsaved s₂ h₂ => ?_
      cases unsaved with
      | some err => exact ⟨(h₁.1.trans h₂.1).lawful, nofun⟩
      | none =>
        obtain ⟨v, hv, hsets⟩ := h₂
        have hlawful : Lawful s₁ s₂ :=
          { cfg := hsets.cfg
            known := fun hknown => hsets.known (fun other serial _ => hknown other serial)
              fun serial hsigned => hknown id serial hsigned v hv
            revoked := hsets.revoked fun _ _ _ => rfl }
        have hsite : ∃ site ∈ s₂.site id, site.revoked = true := by
          rw [hsets.site, if_pos rfl]
          exact ⟨_, rfl, rfl⟩
        have hcfg : s₂.cfg = s.cfg := hsets.cfg.trans h₁.1.cfg
        refine Ends.bind oracle (?_ : Ends oracle (fun _ s' => Kin s₂ s' ∧ ((oracle .refreshCRL).error = none →
          s.cfg.pki = true → s'.ListsNow (oracle .refreshCRL).now)) _ s₂) fun _ s₃ h₃ => ?_
        · exact ⟨refreshCRL_ends, fun herror hpki => refreshCRL_listsNow herror (hcfg ▸ hpki)⟩
        · refine ⟨(h₁.1.lawful.trans hlawful).trans h₃.1.lawful, fun _ => ⟨?_, h₃.2⟩⟩
          rw [eval_pure, h₃.1.site]
          exact hsite

end

section

inductive CertRequest where
  | enroll (remoteAddr : String) (body : Except String EnrollBody)
  | ztpBootstrap (remoteAddr host : String) (body : Except String ZtpBody)
  | siteRotate (r : Credentials) (id : String) (body : Except String RotateBody)
  | siteRevoke (tok id : String)

variable (env : PortalEnv)

def CertRequest.proc : CertRequest → PortalProc PortalReply
  | .enroll remoteAddr body => Server.enroll env remoteAddr body
  | .ztpBootstrap remoteAddr host body => Server.ztpBootstrap env remoteAddr host body
  | .siteRotate r id body => Server.siteRotate env r id body
  | .siteRevoke tok id => Server.siteRevoke env tok id

/-- New sites get new ids; `ztpBootstrap` signs nothing; `siteRotate` signs only for a site that
has no certificate, and can then store its serial. -/
def Accountable (oracle : PortalPoint → PortalChoice) (s : Portal) : CertRequest → Prop
  | .enroll _ _ => Unissued s (oracle .newToken).id
  | .ztpBootstrap _ _ body => Unissued s (oracle .newToken).id ∧
      ∀ b, body = .ok b → b.csrPem = "" ∨ ∃ err, (oracle .signCSR).sign = .error err
  | .siteRotate _ id _ => (∃ err, (oracle .signCSR).sign = .error err) ∨
      (oracle .updateSite).error = none ∧ ∀ v ∈ s.site id, v.certificateSerial = ""
  | .siteRevoke _ _ => True

inductive CertStep (ok : (PortalPoint → PortalChoice) → Portal → CertRequest → Prop) : Portal → Portal → Prop where
  | serve {s : Portal} (r : CertRequest) (oracle : PortalPoint → PortalChoice) (h : ok oracle s r) :
      CertStep ok s ((r.proc env).eval oracle s).1

def CertRun (ok : (PortalPoint → PortalChoice) → Portal → CertRequest → Prop) : Portal → Portal → Prop :=
  Relation.ReflTransGen (CertStep env ok)

variable {env} {s s' : Portal}

theorem CertStep.lawful (h : CertStep env Accountable s s') : Lawful s s' := by
  obtain ⟨r, oracle, hok⟩ := h
  cases r with
  | enroll remoteAddr body => exact enroll_ends remoteAddr body hok
  | ztpBootstrap remoteAddr host body => exact ztpBootstrap_ends remoteAddr host body hok.1 hok.2
  | siteRotate r id body => exact siteRotate_ends r id body hok
  | siteRevoke tok id => exact (siteRevoke_ends tok id).1

theorem CertRun.lawful (h : CertRun env Accountable s s') : Lawful s s' := by
  induction h with
  | refl => exact (Kin.refl s).lawful
  | tail _ hstep ih => exact ih.trans hstep.lawful

theorem Known.listed (hknown : Known s) {id : String} {serial : Nat} (hsigned : .signed id serial ∈ s.history)
    (hrevoked : ∃ site ∈ s.site id, site.revoked = true) (now : Time) :
    ∃ cert ∈ revokedCerts s.console.store.state.sites now, cert.serial = serial := by
  obtain ⟨site, hsite, hrevoked⟩ := hrevoked
  have hserial := hknown id serial hsigned site hsite
  refine ⟨⟨serial, if site.revokedAt = (0 : Time) then now else site.revokedAt⟩,
    mem_filterMap.mpr ⟨site, mem_of_find?_eq_some hsite, ?_⟩, rfl⟩
  rw [if_pos ⟨hrevoked, hserial ▸ hexText_ne_empty serial⟩, hserial, parseHex_hexText]
  rfl

/-- Once a site is revoked, the list that `siteRevoke` makes, and every list that is made later,
has the serial of every certificate that was signed for it. -/
theorem revoked_listed_of_run {s₀ s₁ s₃ : Portal} {oracle oracle' : PortalPoint → PortalChoice} {tok id : String}
    (hhistory : s₀.history = []) (hpki : s₀.cfg.pki = true) (hbefore : CertRun env Accountable s₀ s₁)
    (hcode : ((siteRevoke env tok id).eval oracle s₁).2.code = 200)
    (hlater : CertRun env Accountable ((siteRevoke env tok id).eval oracle s₁).1 s₃)
    (hgenerated : (oracle .refreshCRL).error = none) (hgenerated' : (oracle' .refreshCRL).error = none) :
    (∀ serial, .signed id serial ∈ ((siteRevoke env tok id).eval oracle s₁).1.history →
      ∃ crl ∈ ((siteRevoke env tok id).eval oracle s₁).1.crl, ∃ cert ∈ crl, cert.serial = serial) ∧
    ∀ serial, .signed id serial ∈ s₃.history →
      ∃ crl ∈ (refreshCRL.eval oracle' s₃).1.crl, ∃ cert ∈ crl, cert.serial = serial := by
  have hknown : Known s₀ := by
    intro id serial hsigned
    rw [hhistory] at hsigned
    cases hsigned
  obtain ⟨hrevoke, hsuccess⟩ := @siteRevoke_ends env oracle s₁ tok id
  obtain ⟨hrevoked, hlist⟩ := hsuccess hcode
  have hpki₁ : s₁.cfg.pki = true := by rw [hbefore.lawful.cfg, hpki]
  have hknown₂ := (hbefore.lawful.trans hrevoke).known hknown
  constructor
  · intro serial hsigned
    exact ⟨_, hlist hgenerated hpki₁, hknown₂.listed hsigned hrevoked _⟩
  · intro serial hsigned
    have hpki₃ : s₃.cfg.pki = true := by rw [hlater.lawful.cfg, hrevoke.cfg, hpki₁]
    have hkin : Kin s₃ (refreshCRL.eval oracle' s₃).1 := refreshCRL_ends
    obtain ⟨site, hsite, hsiteRevoked⟩ := hrevoked
    have hrevoked₃ := (hlater.lawful.trans hkin.lawful).revoked id site hsite hsiteRevoked
    have hknown₃ := (hlater.lawful.trans hkin.lawful).known hknown₂
    exact ⟨_, refreshCRL_listsNow hgenerated' hpki₃,
      hknown₃.listed ((hkin.signed id serial).mpr hsigned) hrevoked₃ _⟩

def pkiPortal : Portal where
  console := { store := someStore, cfg := { adminToken := "root", enrollmentToken := "join" } }

def issuing (serial : Nat) : PortalPoint → PortalChoice := fun _ =>
  { now := 1, id := "site_1", token := "tok", sign := .ok serial }

def joinRequest : EnrollBody := { name := "plant", enrollmentToken := "join", csrPem := "csr" }

def joins : CertRequest := .enroll "10.0.0.9" (.ok joinRequest)

def bootstraps : CertRequest := .ztpBootstrap "10.0.0.9" "" (.ok { toEnrollBody := joinRequest })

def rotates : CertRequest := .siteRotate { peerName := some "site_1" } "site_1" (.ok { csrPem := "csr" })

noncomputable def enrolledPortal : Portal := ((joins.proc portalEnv).eval (issuing 1) pkiPortal).1

noncomputable def rotatedPortal : Portal := ((rotates.proc portalEnv).eval (issuing 2) enrolledPortal).1

noncomputable def bootstrappedPortal : Portal := ((bootstraps.proc portalEnv).eval (issuing 1) pkiPortal).1

noncomputable def revokedAfter (s : Portal) : Portal × PortalReply :=
  (siteRevoke portalEnv "root" "site_1").eval (issuing 0) s

theorem enrolled_listed : ∃ crl ∈ (revokedAfter enrolledPortal).1.crl, ∃ cert ∈ crl, cert.serial = 1 := by
  have hunissued : Accountable (issuing 1) pkiPortal joins := ⟨by decide, nofun⟩
  have hcode : (revokedAfter enrolledPortal).2.code = 200 := by decide
  have hsigned : .signed "site_1" 1 ∈ (revokedAfter enrolledPortal).1.history := by decide
  exact (@revoked_listed_of_run portalEnv pkiPortal enrolledPortal _ (issuing 0) (issuing 0) "root" "site_1"
    rfl rfl (.single (.serve joins (issuing 1) hunissued)) hcode .refl rfl rfl).1 1 hsigned

/-- A certificate that was rotated away is not on the list, and neither is one from `ztpBootstrap`. -/
theorem revoked_unlisted :
    (CertRun portalEnv (fun _ _ _ => True) pkiPortal rotatedPortal ∧
      (revokedAfter rotatedPortal).2.code = 200 ∧
      .signed "site_1" 1 ∈ (revokedAfter rotatedPortal).1.history ∧
      (revokedAfter rotatedPortal).1.crl = some [⟨2, 1⟩]) ∧
    (CertRun portalEnv (fun _ _ _ => True) pkiPortal bootstrappedPortal ∧
      (revokedAfter bootstrappedPortal).2.code = 200 ∧
      .signed "site_1" 1 ∈ (revokedAfter bootstrappedPortal).1.history ∧
      (revokedAfter bootstrappedPortal).1.crl = some []) := by
  refine ⟨⟨?_, ?_, ?_, ?_⟩, ?_, ?_, ?_, ?_⟩
  · refine Relation.ReflTransGen.tail (b := enrolledPortal) ?_ (.serve rotates (issuing 2) trivial)
    exact .single (.serve joins (issuing 1) trivial)
  · decide
  · decide
  · decide
  · exact .single (.serve bootstraps (issuing 1) trivial)
  · decide
  · decide
  · decide

end

end Nodra.Server
