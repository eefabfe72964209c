import Nodra.Lib.JsonString

/-! The JSON grammar over bytes.  Values are only recognised, not built: an
object is read as its keys with the raw text of each value, which is what a
decoder needs that keeps some members undecoded.  Fuel bounds the nesting; the
length of the text is always enough. -/
namespace Nodra.JsonText
open Lines JsonString List Option

def isSpace (c : UInt8) : Bool := c == 0x20 || c == 0x09 || c == 0x0a || c == 0x0d

def skipSpace (s : Bytes) : Bytes := s.dropWhile isSpace

def isDigit (c : UInt8) : Bool := 0x30 ≤ c && c ≤ 0x39

def skipDigits (s : Bytes) : Bytes := s.dropWhile isDigit

def expect (c : UInt8) : Bytes → Option Bytes
  | [] => none
  | d :: rest => if d = c then some rest else none

def skipSomeDigits : Bytes → Option Bytes
  | [] => none
  | c :: rest => if isDigit c then some (skipDigits rest) else none

def skipSign : Bytes → Bytes
  | [] => []
  | c :: rest => if c = 0x2b ∨ c = 0x2d then rest else c :: rest

def skipInteger : Bytes → Option Bytes
  | [] => none
  | c :: rest => if c = 0x30 then some rest else if isDigit c then some (skipDigits rest) else none

def skipFraction : Bytes → Option Bytes
  | [] => some []
  | c :: rest => if c = 0x2e then skipSomeDigits rest else some (c :: rest)

def skipExponent : Bytes → Option Bytes
  | [] => some []
  | c :: rest =>
    if c = 0x65 ∨ c = 0x45 then skipSomeDigits (skipSign rest) else some (c :: rest)

def skipMinus : Bytes → Bytes
  | [] => []
  | c :: rest => if c = 0x2d then rest else c :: rest

def skipNumber (s : Bytes) : Option Bytes :=
  ((skipInteger (skipMinus s)).bind skipFraction).bind skipExponent

def skipWord (word s : Bytes) : Option Bytes :=
  if word.isPrefixOf s then some (s.drop word.length) else none

mutual
def skipValue : Nat → Bytes → Option Bytes
  | 0, _ => none
  | n + 1, s =>
    match skipSpace s with
    | [] => none
    | c :: rest =>
      if c = 0x7b then
        match skipSpace rest with
        | [] => none
        | d :: more => if d = 0x7d then some more else skipMembers n (d :: more)
      else if c = 0x5b then
        match skipSpace rest with
        | [] => none
        | d :: more => if d = 0x5d then some more else skipElements n (d :: more)
      else if c = 0x22 then skipString rest
      else if c = 0x74 then skipWord (ascii "true") (c :: rest)
      else if c = 0x66 then skipWord (ascii "false") (c :: rest)
      else if c = 0x6e then skipWord (ascii "null") (c :: rest)
      else skipNumber (c :: rest)

def skipMembers : Nat → Bytes → Option Bytes
  | 0, _ => none
  | n + 1, s =>
    (expect 0x22 (skipSpace s)).bind fun key =>
    (skipString key).bind fun rest =>
    (expect 0x3a (skipSpace rest)).bind fun value =>
    (skipValue n value).bind fun rest =>
      match skipSpace rest with
      | [] => none
      | c :: rest => if c = 0x2c then skipMembers n rest else if c = 0x7d then some rest else none

def skipElements : Nat → Bytes → Option Bytes
  | 0, _ => none
  | n + 1, s =>
    (skipValue n s).bind fun rest =>
      match skipSpace rest with
      | [] => none
      | c :: rest => if c = 0x2c then skipElements n rest else if c = 0x5d then some rest else none
end

/-- The members of an object from its first key on, and what follows its brace. -/
def members : Nat → Bytes → Option (List (Bytes × Bytes) × Bytes)
  | 0, _ => none
  | n + 1, s =>
    (expect 0x22 (skipSpace s)).bind fun body =>
    (unquote body).bind fun key =>
    (expect 0x3a (skipSpace key.2)).bind fun text =>
    (skipValue (text.length + 1) (skipSpace text)).bind fun rest =>
      let raw := (skipSpace text).take ((skipSpace text).length - rest.length)
      match skipSpace rest with
      | [] => none
      | c :: tail =>
        if c = 0x2c then (members n tail).map fun found => ((key.1, raw) :: found.1, found.2)
        else if c = 0x7d then some ([(key.1, raw)], tail)
        else none

/-- The whole text must be one object, with nothing but space around it. -/
def parseObject (s : Bytes) : Option (List (Bytes × Bytes)) :=
  (expect 0x7b (skipSpace s)).bind fun body =>
    match skipSpace body with
    | [] => none
    | c :: tail =>
      if c = 0x7d then if skipSpace tail = [] then some [] else none
      else
        (members s.length (c :: tail)).bind fun found =>
          if skipSpace found.2 = [] then some found.1 else none

def renderMember (member : Bytes × Bytes) : Bytes := quote member.1 ++ 0x3a :: member.2

def renderMembers : List (Bytes × Bytes) → Bytes
  | [] => []
  | [member] => renderMember member
  | member :: rest => renderMember member ++ 0x2c :: renderMembers rest

def renderObject (all : List (Bytes × Bytes)) : Bytes := 0x7b :: (renderMembers all ++ [0x7d])

/-! A value is recognised the same whatever follows it, unless it is a number
and what follows could continue it. -/

def isNumberByte (c : UInt8) : Bool := isDigit c || c == 0x2e || c == 0x65 || c == 0x45

def Stops (s : Bytes) : Prop := ∀ c rest, s = c :: rest → isNumberByte c = false

theorem skipSpace_append (s more : Bytes) (h : skipSpace s ≠ []) :
    skipSpace (s ++ more) = skipSpace s ++ more := by
  unfold skipSpace at *
  rw [dropWhile_append]
  simp [h]

theorem skipDigits_append (s more : Bytes) (h : skipDigits s ≠ [] ∨ Stops more) :
    skipDigits (s ++ more) = skipDigits s ++ more := by
  unfold skipDigits at *
  rw [dropWhile_append]
  split
  · rename_i hempty
    rw [List.isEmpty_iff] at hempty
    cases more with
    | nil => simp [hempty]
    | cons c rest =>
      have hstop := h.resolve_left (by simp [hempty]) c rest rfl
      simp only [isNumberByte, Bool.or_eq_false_iff] at hstop
      simp [hempty, hstop.1.1.1]
  · rfl

theorem expect_append (c : UInt8) (s rest more : Bytes) (h : expect c s = some rest) :
    expect c (s ++ more) = some (rest ++ more) := by
  cases s with
  | nil => simp [expect] at h
  | cons d s =>
    simp only [expect] at h
    split at h
    · cases h
      simp_all [expect]
    · simp at h

theorem skipSomeDigits_append (s rest more : Bytes) (h : skipSomeDigits s = some rest)
    (hstop : rest ≠ [] ∨ Stops more) : skipSomeDigits (s ++ more) = some (rest ++ more) := by
  cases s with
  | nil => simp [skipSomeDigits] at h
  | cons c s =>
    simp only [skipSomeDigits] at h
    split at h
    · rename_i hc
      cases h
      simp [skipSomeDigits, hc, skipDigits_append s more hstop]
    · simp at h

theorem skipInteger_append (s rest more : Bytes) (h : skipInteger s = some rest)
    (hstop : rest ≠ [] ∨ Stops more) : skipInteger (s ++ more) = some (rest ++ more) := by
  cases s with
  | nil => simp [skipInteger] at h
  | cons c s =>
    simp only [skipInteger] at h
    split at h
    · rename_i hc
      cases h
      simp [skipInteger, hc]
    split at h
    · rename_i hc hd
      cases h
      simp [skipInteger, hc, hd, skipDigits_append s more hstop]
    · simp at h

theorem skipFraction_append (s rest more : Bytes) (h : skipFraction s = some rest)
    (hstop : rest ≠ [] ∨ Stops more) : skipFraction (s ++ more) = some (rest ++ more) := by
  cases s with
  | nil =>
    simp only [skipFraction, Option.some.injEq] at h
    subst h
    cases more with
    | nil => rfl
    | cons c more =>
      have hc := hstop.resolve_left (by simp) c more rfl
      have hne : c ≠ 0x2e := by
        rintro rfl
        simp [isNumberByte] at hc
      simp [skipFraction, hne]
  | cons c s =>
    simp only [skipFraction] at h
    split at h
    · rename_i hc
      simpa [skipFraction, hc] using skipSomeDigits_append s rest more h hstop
    · rename_i hc
      cases h
      simp [skipFraction, hc]

private theorem skipSign_append (s more : Bytes) (h : s ≠ []) :
    skipSign (s ++ more) = skipSign s ++ more := by
  cases s with
  | nil => exact absurd rfl h
  | cons c s =>
    simp only [cons_append, skipSign]
    split <;> rfl

theorem skipExponent_append (s rest more : Bytes) (h : skipExponent s = some rest)
    (hstop : rest ≠ [] ∨ Stops more) : skipExponent (s ++ more) = some (rest ++ more) := by
  cases s with
  | nil =>
    simp only [skipExponent, Option.some.injEq] at h
    subst h
    cases more with
    | nil => rfl
    | cons c more =>
      have hc := hstop.resolve_left (by simp) c more rfl
      have hne : ¬ (c = 0x65 ∨ c = 0x45) := by
        rintro (rfl | rfl) <;> simp [isNumberByte] at hc
      simp [skipExponent, hne]
  | cons c s =>
    simp only [skipExponent] at h
    split at h
    · rename_i hc
      cases s with
      | nil => simp [skipSign, skipSomeDigits] at h
      | cons d s =>
        simp only [cons_append, skipExponent, hc, if_true]
        rw [← cons_append, skipSign_append _ _ (by simp)]
        exact skipSomeDigits_append _ rest more h hstop
    · rename_i hc
      cases h
      simp [skipExponent, hc]

private theorem skipMinus_append (s more : Bytes) (h : s ≠ []) :
    skipMinus (s ++ more) = skipMinus s ++ more := by
  cases s with
  | nil => exact absurd rfl h
  | cons c s =>
    simp only [cons_append, skipMinus]
    split <;> rfl

theorem skipNumber_append (s rest more : Bytes) (h : skipNumber s = some rest)
    (hstop : rest ≠ [] ∨ Stops more) : skipNumber (s ++ more) = some (rest ++ more) := by
  unfold skipNumber at *
  rw [bind_assoc] at *
  obtain ⟨fraction, hint, h⟩ := bind_eq_some_iff.mp h
  obtain ⟨exponent, hfrac, hexp⟩ := bind_eq_some_iff.mp h
  have hexponent : exponent ≠ [] ∨ Stops more := hstop.imp_left fun hrest he => by
    subst he
    simp [skipExponent] at hexp
    exact hrest hexp
  have hfraction : fraction ≠ [] ∨ Stops more := hexponent.imp_left fun hne he => by
    subst he
    simp [skipFraction] at hfrac
    exact hne hfrac
  have hs : s ≠ [] := by
    rintro rfl
    simp [skipMinus, skipInteger] at hint
  rw [skipMinus_append s more hs, skipInteger_append _ _ more hint hfraction, bind_some,
    skipFraction_append _ _ more hfrac hexponent, bind_some]
  exact skipExponent_append _ _ more hexp hstop

theorem skipWord_append (word s rest more : Bytes) (h : skipWord word s = some rest) :
    skipWord word (s ++ more) = some (rest ++ more) := by
  unfold skipWord at *
  split at h
  · rename_i hword
    rw [List.isPrefixOf_iff_prefix] at hword
    cases h
    have hlong := hword.trans (prefix_append s more)
    rw [if_pos (List.isPrefixOf_iff_prefix.mpr hlong), drop_append_of_le_length hword.length_le]
  · simp at h

theorem skipString_append (s rest more : Bytes) (h : skipString s = some rest) :
    skipString (s ++ more) = some (rest ++ more) := by
  unfold skipString at *
  obtain ⟨scanned, hscan, hrest⟩ := map_eq_some_iff.mp h
  rw [scanString_append s scanned.2 more scanned.1 hscan, ← hrest]
  rfl

variable {c : UInt8} {n k : Nat}

private theorem ne_nil_of_skipSpace {s rest : Bytes} (h : skipSpace s = c :: rest) :
    s ≠ [] := by
  rintro rfl
  simp [skipSpace] at h

private theorem skipSpace_append_cons {s rest : Bytes} (more : Bytes)
    (h : skipSpace s = c :: rest) : skipSpace (s ++ more) = c :: (rest ++ more) := by
  rw [skipSpace_append s more (by simp [h]), h, cons_append]

private theorem expect_skipSpace_append {s rest : Bytes} (more : Bytes)
    (h : expect c (skipSpace s) = some rest) :
    expect c (skipSpace (s ++ more)) = some (rest ++ more) := by
  rw [skipSpace_append]
  · exact expect_append c _ rest more h
  · intro hnil
    simp [hnil, expect] at h

def Extends (f g : Bytes → Option Bytes) : Prop :=
  ∀ s rest more, f s = some rest → g (s ++ more) = some (rest ++ more)

/-- The same up to a number that the following text could continue. -/
def ExtendsValue (f g : Bytes → Option Bytes) : Prop :=
  ∀ s rest more, f s = some rest → rest ≠ [] ∨ Stops more → g (s ++ more) = some (rest ++ more)

private theorem skipValue_step (hmembers : Extends (skipMembers n) (skipMembers k))
    (helements : Extends (skipElements n) (skipElements k)) :
    ExtendsValue (skipValue (n + 1)) (skipValue (k + 1)) := by
  intro s rest more h hstop
  simp only [skipValue] at h ⊢
  split at h
  · simp at h
  rename_i c body hs
  rw [skipSpace_append_cons more hs]
  simp only
  split at h
  · rename_i hc
    simp only [hc, if_true]
    split at h
    · simp at h
    rename_i d tail hbody
    rw [skipSpace_append_cons more hbody]
    simp only
    split at h
    · cases h
      simp_all
    · rename_i hd
      simpa [hd] using hmembers _ _ more h
  rename_i hbrace
  simp only [hbrace, if_false]
  split at h
  · rename_i hc
    simp only [hc, if_true]
    split at h
    · simp at h
    rename_i d tail hbody
    rw [skipSpace_append_cons more hbody]
    simp only
    split at h
    · cases h
      simp_all
    · rename_i hd
      simpa [hd] using helements _ _ more h
  rename_i hbracket
  simp only [hbracket, if_false]
  split at h
  · rename_i hc
    simpa [hc] using skipString_append _ _ more h
  rename_i hquote
  simp only [hquote, if_false]
  split at h
  · rename_i hc
    simpa [hc] using skipWord_append _ _ _ more h
  rename_i htrue
  simp only [htrue, if_false]
  split at h
  · rename_i hc
    simpa [hc] using skipWord_append _ _ _ more h
  rename_i hfalse
  simp only [hfalse, if_false]
  split at h
  · rename_i hc
    simpa [hc] using skipWord_append _ _ _ more h
  · rename_i hnull
    simpa [hnull] using skipNumber_append _ _ more h hstop

private theorem skipMembers_step (hvalue : ExtendsValue (skipValue n) (skipValue k))
    (hmembers : Extends (skipMembers n) (skipMembers k)) :
    Extends (skipMembers (n + 1)) (skipMembers (k + 1)) := by
  intro s rest more h
  simp only [skipMembers, bind_eq_some_iff] at h ⊢
  obtain ⟨key, hkey, body, hbody, value, hcolon, tail, htail, h⟩ := h
  split at h
  · simp at h
  rename_i c left hleft
  refine ⟨_, expect_skipSpace_append more hkey, _, skipString_append _ _ more hbody, _,
    expect_skipSpace_append more hcolon, _,
    hvalue _ _ more htail (.inl (ne_nil_of_skipSpace hleft)), ?_⟩
  rw [skipSpace_append_cons more hleft]
  simp only
  split at h
  · rename_i hc
    simpa [hc] using hmembers _ _ more h
  · rename_i hc
    split at h
    · cases h
      simp_all
    · simp at h

private theorem skipElements_step (hvalue : ExtendsValue (skipValue n) (skipValue k))
    (helements : Extends (skipElements n) (skipElements k)) :
    Extends (skipElements (n + 1)) (skipElements (k + 1)) := by
  intro s rest more h
  simp only [skipElements, bind_eq_some_iff] at h ⊢
  obtain ⟨tail, htail, h⟩ := h
  split at h
  · simp at h
  rename_i c left hleft
  refine ⟨_, hvalue _ _ more htail (.inl (ne_nil_of_skipSpace hleft)), ?_⟩
  rw [skipSpace_append_cons more hleft]
  simp only
  split at h
  · rename_i hc
    simpa [hc] using helements _ _ more h
  · rename_i hc
    split at h
    · cases h
      simp_all
    · simp at h

/-- More fuel and more text never change what was recognised.  The three
recognisers move together; an object or an array ends with its own bracket, so
only a bare number looks at what follows. -/
private theorem skip_extends (n : Nat) : ∀ k, n ≤ k →
    ExtendsValue (skipValue n) (skipValue k) ∧ Extends (skipMembers n) (skipMembers k) ∧
      Extends (skipElements n) (skipElements k) := by
  induction n with
  | zero =>
    intro k _
    refine ⟨?_, ?_, ?_⟩ <;> intro s rest more h <;>
      simp [skipValue, skipMembers, skipElements] at h
  | succ n ih =>
    intro k hk
    cases k with
    | zero => omega
    | succ k =>
      obtain ⟨hvalue, hmembers, helements⟩ := ih k (by omega)
      exact ⟨skipValue_step hmembers helements, skipMembers_step hvalue hmembers,
        skipElements_step hvalue helements⟩

theorem skipValue_extends (h : n ≤ k) : ExtendsValue (skipValue n) (skipValue k) :=
  (skip_extends n k h).1

/-- Text that is one value and nothing else, with no control byte and no space in
front: what a compact encoder writes. -/
structure IsCompact (text : Bytes) : Prop where
  value : skipValue (text.length + 1) text = some []
  start : skipSpace text = text
  noControl : ∀ b ∈ text, 0x20 ≤ b

theorem IsCompact.ne_nil {text : Bytes} (h : IsCompact text) : text ≠ [] := by
  rintro rfl
  have hvalue := h.value
  simp [skipValue, skipSpace] at hvalue

theorem IsCompact.skipSpace_append {text : Bytes} (h : IsCompact text) (more : Bytes) :
    skipSpace (text ++ more) = text ++ more := by
  rw [JsonText.skipSpace_append, h.start]
  rw [h.start]
  exact h.ne_nil

theorem IsCompact.skipValue_append {text : Bytes} (h : IsCompact text) (more : Bytes)
    (hstop : Stops more) (hn : text.length + 1 ≤ n) :
    skipValue n (text ++ more) = some more := by
  simpa using skipValue_extends hn text [] more h.value (.inr hstop)

theorem isCompact_quote (s : Bytes) (h : isValid s = true) : IsCompact (quote s) := by
  obtain ⟨pieces, hscan⟩ := scanString_quote s [] h
  refine ⟨?_, rfl, fun b hb => le_of_mem_quote s b hb⟩
  have hstart : skipSpace (quote s) = 0x22 :: ((runes s).flatMap quoteRune ++ [0x22]) := rfl
  simp only [skipValue, hstart]
  rw [if_neg (by decide), if_neg (by decide), if_pos trivial, skipString, hscan]
  rfl

private theorem stops_cons (rest : Bytes) (h : isNumberByte c = false) :
    Stops (c :: rest) := by
  intro d tail heq
  cases heq
  exact h

private theorem members_renderMember {key text : Bytes} (hkey : isValid key = true)
    (htext : IsCompact text) (n : Nat) (c : UInt8) (tail : Bytes)
    (hc : c = 0x2c ∨ c = 0x7d) :
    members (n + 1) (renderMember (key, text) ++ c :: tail) =
      if c = 0x2c then (members n tail).map fun found => ((key, text) :: found.1, found.2)
      else some ([(key, text)], tail) := by
  have hstop : Stops (c :: tail) := by
    apply stops_cons
    rcases hc with rfl | rfl <;> rfl
  have hspace : isSpace c = false := by rcases hc with rfl | rfl <;> rfl
  have hopen : renderMember (key, text) ++ c :: tail =
      0x22 :: ((runes key).flatMap quoteRune ++ 0x22 :: 0x3a :: (text ++ c :: tail)) := by
    simp [renderMember, quote]
  have hquote (s : Bytes) : skipSpace (0x22 :: s) = 0x22 :: s := rfl
  have hcolon (s : Bytes) : skipSpace (0x3a :: s) = 0x3a :: s := rfl
  have hvalue : skipValue ((text ++ c :: tail).length + 1) (text ++ c :: tail) = some (c :: tail) :=
    htext.skipValue_append _ hstop (by simp)
  have hraw : (text ++ c :: tail).take ((text ++ c :: tail).length - (c :: tail).length) = text := by
    simp
  have hskip : skipSpace (c :: tail) = c :: tail := by
    simp [skipSpace, hspace]
  rw [hopen]
  simp only [members, hquote, hcolon, expect, if_true, bind_some, unquote_quote key _ hkey,
    htext.skipSpace_append, hvalue, hraw, hskip]
  rcases hc with rfl | rfl <;> rfl

private theorem renderMembers_cons (member next : Bytes × Bytes) (all : List (Bytes × Bytes)) :
    renderMembers (member :: next :: all) =
      renderMember member ++ 0x2c :: renderMembers (next :: all) := by
  rw [renderMembers]
  simp

theorem members_renderMembers (all : List (Bytes × Bytes)) (hne : all ≠ [])
    (h : ∀ member ∈ all, isValid member.1 = true ∧ IsCompact member.2)
    (n : Nat) (hn : all.length ≤ n) (tail : Bytes) :
    members n (renderMembers all ++ 0x7d :: tail) = some (all, tail) := by
  induction all generalizing n with
  | nil => exact absurd rfl hne
  | cons member all ih =>
    obtain ⟨hkey, htext⟩ := h member (by simp)
    cases n with
    | zero => simp at hn
    | succ n =>
      cases all with
      | nil =>
        rw [renderMembers, members_renderMember hkey htext n 0x7d tail (.inr rfl)]
        rfl
      | cons next all =>
        have hrest := ih (by simp) (fun m hm => h m (mem_cons_of_mem _ hm)) n
          (by simp at hn ⊢; omega)
        rw [renderMembers_cons, append_assoc, cons_append,
          members_renderMember hkey htext n 0x2c _ (.inl rfl), if_pos rfl, hrest]
        rfl

private theorem length_le_renderMembers (all : List (Bytes × Bytes)) :
    all.length ≤ (renderMembers all).length + 1 := by
  induction all with
  | nil => simp
  | cons member all ih =>
    cases all with
    | nil => simp
    | cons next all =>
      simp only [renderMembers, length_append, length_cons] at ih ⊢
      omega

private theorem renderMembers_head (member : Bytes × Bytes) (all : List (Bytes × Bytes)) :
    ∃ rest, renderMembers (member :: all) = 0x22 :: rest := by
  cases all with
  | nil => exact ⟨_, rfl⟩
  | cons next all => exact ⟨_, by rw [renderMembers_cons]; rfl⟩

theorem parseObject_renderObject (all : List (Bytes × Bytes))
    (h : ∀ member ∈ all, isValid member.1 = true ∧ IsCompact member.2) :
    parseObject (renderObject all) = some all := by
  cases all with
  | nil => rfl
  | cons member all =>
    obtain ⟨rest, hhead⟩ := renderMembers_head member all
    have hfuel : (member :: all).length ≤ (renderObject (member :: all)).length := by
      have hlen := length_le_renderMembers (member :: all)
      simp only [renderObject, length_cons, length_append] at hlen ⊢
      omega
    have hmembers := members_renderMembers (member :: all) (by simp) h _ hfuel []
    have hbrace : skipSpace (renderObject (member :: all)) = renderObject (member :: all) := rfl
    have hbody : skipSpace (renderMembers (member :: all) ++ [0x7d]) =
        0x22 :: (rest ++ [0x7d]) := by
      rw [hhead]
      rfl
    rw [hhead, cons_append] at hmembers
    unfold parseObject
    rw [hbrace]
    simp only [renderObject, expect, if_true, bind_some, hbody]
    rw [if_neg (by decide)]
    change (members (renderObject (member :: all)).length _).bind _ = _
    rw [hmembers]
    rfl

private theorem le_of_mem_renderMembers (all : List (Bytes × Bytes))
    (h : ∀ member ∈ all, IsCompact member.2) : ∀ b ∈ renderMembers all, 0x20 ≤ b := by
  have hmember (member : Bytes × Bytes) (hm : IsCompact member.2) :
      ∀ b ∈ renderMember member, 0x20 ≤ b := by
    intro b hb
    simp only [renderMember, mem_append, mem_cons] at hb
    rcases hb with hb | rfl | hb
    · exact le_of_mem_quote _ b hb
    · decide
    · exact hm.noControl b hb
  induction all with
  | nil => simp [renderMembers]
  | cons member all ih =>
    cases all with
    | nil => exact hmember member (h member (by simp))
    | cons next all =>
      intro b hb
      simp only [renderMembers_cons, mem_append, mem_cons] at hb
      rcases hb with hb | rfl | hb
      · exact hmember member (h member (by simp)) b hb
      · decide
      · exact ih (fun m hm => h m (mem_cons_of_mem _ hm)) b hb

theorem isLine_renderObject {limit : Nat} (all : List (Bytes × Bytes))
    (h : ∀ member ∈ all, IsCompact member.2) (hlimit : (renderObject all).length < limit) :
    IsLine limit (renderObject all) := by
  have hcontrol : ∀ b ∈ renderObject all, 0x20 ≤ b := by
    intro b hb
    simp only [renderObject, mem_cons, mem_append, not_mem_nil, or_false] at hb
    rcases hb with rfl | hb | rfl
    · decide
    · exact le_of_mem_renderMembers all h b hb
    · decide
  refine ⟨fun hmem => ?_, fun hmem => ?_, hlimit⟩
  · exact absurd (hcontrol _ hmem) (by decide)
  · exact absurd (hcontrol _ hmem) (by decide)

/-- A type that `encoding/json` carries without loss, in compact form. -/
structure Codec (α : Type) where
  marshal : α → Bytes
  unmarshal : Bytes → Option α
  unmarshal_marshal : ∀ value, unmarshal (marshal value) = some value
  isCompact_marshal : ∀ value, IsCompact (marshal value)

end Nodra.JsonText
