import Nodra.Lib.Lines

/-! JSON strings over raw bytes, as `encoding/json` writes and reads them.  A
string is any byte sequence; bytes that are not well-formed UTF-8 are written as
the escaped replacement rune, so only well-formed text survives a round trip. -/
namespace Nodra.JsonString
open Lines List

def utf8 (t : String) : Bytes := t.toUTF8.data.toList

def utf8? (s : Bytes) : Option String := String.fromUTF8? ⟨s.toArray⟩

theorem utf8?_utf8 (t : String) : utf8? (utf8 t) = some t := dif_pos t.isValidUTF8

theorem utf8_inj {t t' : String} : utf8 t = utf8 t' ↔ t = t' := by
  refine ⟨fun h => ?_, congrArg utf8⟩
  have hread := congrArg utf8? h
  rw [utf8?_utf8, utf8?_utf8] at hread
  exact Option.some.inj hread

def isTail (b : UInt8) : Bool := 0x80 ≤ b && b ≤ 0xbf

def isRune2 (a b : UInt8) : Bool := 0xc2 ≤ a && a ≤ 0xdf && isTail b

def isRune3 (a b c : UInt8) : Bool :=
  isTail c && (a == 0xe0 && 0xa0 ≤ b && b ≤ 0xbf || a == 0xed && 0x80 ≤ b && b ≤ 0x9f ||
    0xe1 ≤ a && a ≤ 0xef && a != 0xed && isTail b)

def isRune4 (a b c d : UInt8) : Bool :=
  isTail c && isTail d && (a == 0xf0 && 0x90 ≤ b && b ≤ 0xbf || a == 0xf4 && 0x80 ≤ b && b ≤ 0x8f ||
    0xf1 ≤ a && a ≤ 0xf3 && isTail b)

/-- Cut a byte string the way `utf8.DecodeRune` does: a well-formed sequence, or
one byte that starts none. -/
def runes : Bytes → List (Option Bytes)
  | [] => []
  | a :: rest =>
    if a < 0x80 then some [a] :: runes rest
    else
      match rest with
      | b :: rest2 =>
        if isRune2 a b then some [a, b] :: runes rest2
        else
          match rest2 with
          | c :: rest3 =>
            if isRune3 a b c then some [a, b, c] :: runes rest3
            else
              match rest3 with
              | d :: rest4 =>
                if isRune4 a b c d then some [a, b, c, d] :: runes rest4
                else none :: runes (b :: c :: d :: rest4)
              | [] => none :: runes [b, c]
          | [] => none :: runes [b]
      | [] => [none]

def replacement : Bytes := [0xef, 0xbf, 0xbd]

def toValid (s : Bytes) : Bytes := (runes s).flatMap fun rune => rune.getD replacement

def isValid (s : Bytes) : Bool := (runes s).all Option.isSome

def hexDigit (n : UInt8) : UInt8 := if n < 10 then 0x30 + n else 0x57 + n

def escapeByte (c : UInt8) : Bytes :=
  if c = 0x22 ∨ c = 0x5c then [0x5c, c]
  else if c = 0x08 then [0x5c, 0x62]
  else if c = 0x0c then [0x5c, 0x66]
  else if c = 0x0a then [0x5c, 0x6e]
  else if c = 0x0d then [0x5c, 0x72]
  else if c = 0x09 then [0x5c, 0x74]
  else if c < 0x20 ∨ c = 0x3c ∨ c = 0x3e ∨ c = 0x26 then
    [0x5c, 0x75, 0x30, 0x30, hexDigit (c >>> 4), hexDigit (c &&& 0x0f)]
  else [c]

/-- Line separators are escaped as well, so that the text is valid JavaScript. -/
def quoteRune : Option Bytes → Bytes
  | none => ascii "\\ufffd"
  | some [c] => escapeByte c
  | some rune =>
    if rune = [0xe2, 0x80, 0xa8] then ascii "\\u2028"
    else if rune = [0xe2, 0x80, 0xa9] then ascii "\\u2029"
    else rune

def quote (s : Bytes) : Bytes := 0x22 :: ((runes s).flatMap quoteRune ++ [0x22])

/-- What a string literal is made of: plain bytes and `\u` code units. -/
inductive Piece where
  | byte (b : UInt8)
  | unit (n : Nat)
deriving DecidableEq

def hexValue (c : UInt8) : Option Nat :=
  if 0x30 ≤ c && c ≤ 0x39 then some (c.toNat - 0x30)
  else if 0x61 ≤ c && c ≤ 0x66 then some (c.toNat - 0x57)
  else if 0x41 ≤ c && c ≤ 0x46 then some (c.toNat - 0x37)
  else none

def codeUnit (a b c d : UInt8) : Option Nat := do
  let a ← hexValue a
  let b ← hexValue b
  let c ← hexValue c
  let d ← hexValue d
  some (((a * 16 + b) * 16 + c) * 16 + d)

def shortEscape (c : UInt8) : Option UInt8 :=
  if c = 0x22 ∨ c = 0x5c ∨ c = 0x2f then some c
  else if c = 0x62 then some 0x08
  else if c = 0x66 then some 0x0c
  else if c = 0x6e then some 0x0a
  else if c = 0x72 then some 0x0d
  else if c = 0x74 then some 0x09
  else none

def consPiece (piece : Piece) (scanned : List Piece × Bytes) : List Piece × Bytes :=
  (piece :: scanned.1, scanned.2)

/-- Read a string literal from behind its opening quote; the second component is
what follows the closing one. -/
def scanString : Bytes → Option (List Piece × Bytes)
  | [] => none
  | c :: rest =>
    if c = 0x22 then some ([], rest)
    else if c = 0x5c then
      match rest with
      | [] => none
      | e :: rest =>
        if e = 0x75 then
          match rest with
          | h1 :: h2 :: h3 :: h4 :: rest =>
            match codeUnit h1 h2 h3 h4 with
            | some n => (scanString rest).map (consPiece (.unit n))
            | none => none
          | _ => none
        else
          match shortEscape e with
          | some b => (scanString rest).map (consPiece (.byte b))
          | none => none
    else if c < 0x20 then none
    else (scanString rest).map (consPiece (.byte c))

def encodeRune (n : Nat) : Bytes :=
  if n < 0x80 then [UInt8.ofNat n]
  else if n < 0x800 then [UInt8.ofNat (0xc0 + n / 0x40), UInt8.ofNat (0x80 + n % 0x40)]
  else if n < 0x10000 then
    [UInt8.ofNat (0xe0 + n / 0x1000), UInt8.ofNat (0x80 + n / 0x40 % 0x40),
      UInt8.ofNat (0x80 + n % 0x40)]
  else
    [UInt8.ofNat (0xf0 + n / 0x40000), UInt8.ofNat (0x80 + n / 0x1000 % 0x40),
      UInt8.ofNat (0x80 + n / 0x40 % 0x40), UInt8.ofNat (0x80 + n % 0x40)]

def isHigh (n : Nat) : Bool := 0xd800 ≤ n && n < 0xdc00
def isLow (n : Nat) : Bool := 0xdc00 ≤ n && n < 0xe000

/-- A high and a low surrogate in a row make one rune; a lone one is replaced. -/
def assemble : List Piece → Bytes
  | [] => []
  | .byte b :: rest => b :: assemble rest
  | .unit n :: rest =>
    if isHigh n then
      match rest with
      | .unit m :: rest2 =>
        if isLow m then encodeRune (0x10000 + (n - 0xd800) * 0x400 + (m - 0xdc00)) ++ assemble rest2
        else replacement ++ assemble (.unit m :: rest2)
      | .byte b :: rest2 => replacement ++ assemble (.byte b :: rest2)
      | [] => replacement
    else if isLow n then replacement ++ assemble rest
    else encodeRune n ++ assemble rest

/-- The value of a string literal, read from behind its opening quote. -/
def unquote (s : Bytes) : Option (Bytes × Bytes) :=
  (scanString s).map fun scanned => (toValid (assemble scanned.1), scanned.2)

def skipString (s : Bytes) : Option Bytes := (scanString s).map Prod.snd

@[simp] theorem scanString_close (rest : Bytes) : scanString (0x22 :: rest) = some ([], rest) := by
  rw [scanString.eq_def]
  simp

variable {b h1 h2 h3 h4 : UInt8} {n : Nat} {c a : UInt8}

theorem scanString_short {e : UInt8} (rest : Bytes) (h : shortEscape e = some b) :
    scanString (0x5c :: e :: rest) = (scanString rest).map (consPiece (.byte b)) := by
  have he : e ≠ 0x75 := by
    rintro rfl
    simp [shortEscape] at h
  rw [scanString.eq_def]
  simp [he, h]

theorem scanString_unit (rest : Bytes) (h : codeUnit h1 h2 h3 h4 = some n) :
    scanString (0x5c :: 0x75 :: h1 :: h2 :: h3 :: h4 :: rest) =
      (scanString rest).map (consPiece (.unit n)) := by
  rw [scanString.eq_def]
  simp [h]

theorem scanString_plain (rest : Bytes) (hquote : c ≠ 0x22) (hslash : c ≠ 0x5c) (hcontrol : ¬ c < 0x20) :
    scanString (c :: rest) = (scanString rest).map (consPiece (.byte c)) := by
  rw [scanString.eq_def]
  simp [hquote, hslash, hcontrol]

private theorem map_consPiece_append {s rest more : Bytes} {piece : Piece} {pieces : List Piece}
    (ih : ∀ rest pieces, scanString s = some (pieces, rest) →
      scanString (s ++ more) = some (pieces, rest ++ more))
    (h : (scanString s).map (consPiece piece) = some (pieces, rest)) :
    (scanString (s ++ more)).map (consPiece piece) = some (pieces, rest ++ more) := by
  obtain ⟨⟨tail, rest'⟩, hscan, hcons⟩ := Option.map_eq_some_iff.mp h
  cases hcons
  rw [ih rest' tail hscan]
  rfl

theorem scanString_append (s rest more : Bytes) (pieces : List Piece)
    (h : scanString s = some (pieces, rest)) :
    scanString (s ++ more) = some (pieces, rest ++ more) := by
  fun_induction scanString s generalizing pieces rest with
  | case2 tail =>
    cases h
    exact scanString_close (tail ++ more)
  | case4 h1 h2 h3 h4 tail n hunit _ ih =>
    simp only [cons_append]
    rw [scanString_unit _ hunit]
    exact map_consPiece_append ih h
  | case7 e tail _ b hshort _ ih =>
    simp only [cons_append]
    rw [scanString_short _ hshort]
    exact map_consPiece_append ih h
  | case10 c tail hquote hslash hcontrol ih =>
    rw [cons_append, scanString_plain _ hquote hslash hcontrol]
    exact map_consPiece_append ih h
  | _ => simp at h

/-- What `runes` calls well formed: one ASCII byte, or several bytes above it. -/
def IsRune (rune : Bytes) : Prop :=
  (∃ c, c < 0x80 ∧ rune = [c]) ∨ 2 ≤ rune.length ∧ ∀ b ∈ rune, 0x80 ≤ b

private theorem isRune2_high (h : isRune2 a b = true) : 0x80 ≤ a ∧ 0x80 ≤ b := by
  simp only [isRune2, isTail, Bool.and_eq_true, decide_eq_true_eq] at h
  grind

private theorem isRune3_high (h : isRune3 a b c = true) :
    0x80 ≤ a ∧ 0x80 ≤ b ∧ 0x80 ≤ c := by
  simp only [isRune3, isTail, Bool.and_eq_true, Bool.or_eq_true, decide_eq_true_eq,
    beq_iff_eq] at h
  grind

private theorem isRune4_high {d : UInt8} (h : isRune4 a b c d = true) :
    0x80 ≤ a ∧ 0x80 ≤ b ∧ 0x80 ≤ c ∧ 0x80 ≤ d := by
  simp only [isRune4, isTail, Bool.and_eq_true, Bool.or_eq_true, decide_eq_true_eq,
    beq_iff_eq] at h
  grind

theorem isRune_of_mem_runes (s rune : Bytes) (h : some rune ∈ runes s) : IsRune rune := by
  fun_induction runes s with
  | case1 => simp at h
  | case2 a rest ha ih =>
    rcases mem_cons.mp h with h | h
    · exact .inl ⟨a, ha, Option.some.inj h⟩
    · exact ih h
  | case3 a ha b rest hrune ih =>
    rcases mem_cons.mp h with h | h
    · cases h
      exact .inr ⟨by simp, by simpa using isRune2_high hrune⟩
    · exact ih h
  | case4 a ha b _ c rest hrune ih =>
    rcases mem_cons.mp h with h | h
    · cases h
      exact .inr ⟨by simp, by simpa using isRune3_high hrune⟩
    · exact ih h
  | case5 a ha b _ c _ d rest hrune ih =>
    rcases mem_cons.mp h with h | h
    · cases h
      exact .inr ⟨by simp, by simpa using isRune4_high hrune⟩
    · exact ih h
  | case9 => simp at h
  | _ => simp_all

theorem flatten_runes (s : Bytes) (h : isValid s = true) (filler : Bytes) :
    (runes s).flatMap (fun rune => rune.getD filler) = s := by
  unfold isValid at h
  fun_induction runes s <;> simp_all

@[simp] theorem toValid_of_isValid (s : Bytes) (h : isValid s = true) : toValid s = s :=
  flatten_runes s h replacement

/-- `text` is literal text for the bytes `value`, in front of anything. -/
def Reads (text value : Bytes) : Prop :=
  ∃ pieces, (∀ rest, scanString (text ++ rest) =
      (scanString rest).map fun scanned => (pieces ++ scanned.1, scanned.2)) ∧
    ∀ more, assemble (pieces ++ more) = value ++ assemble more

theorem Reads.nil : Reads [] [] :=
  ⟨[], fun rest => by simp, fun more => by simp⟩

theorem Reads.append {text value text' value' : Bytes} (h : Reads text value)
    (h' : Reads text' value') : Reads (text ++ text') (value ++ value') := by
  obtain ⟨pieces, hscan, hvalue⟩ := h
  obtain ⟨pieces', hscan', hvalue'⟩ := h'
  refine ⟨pieces ++ pieces', fun rest => ?_, fun more => ?_⟩
  · rw [append_assoc, hscan, hscan', Option.map_map]
    congr 1
    funext scanned
    simp
  · rw [append_assoc, hvalue, hvalue', append_assoc]

theorem reads_byte {text : Bytes}
    (h : ∀ rest, scanString (text ++ rest) = (scanString rest).map (consPiece (.byte b))) :
    Reads text [b] :=
  ⟨[.byte b], fun rest => h rest, fun _ => rfl⟩

theorem reads_unit (h : codeUnit h1 h2 h3 h4 = some n) (hhigh : isHigh n = false) (hlow : isLow n = false) :
    Reads [0x5c, 0x75, h1, h2, h3, h4] (encodeRune n) := by
  refine ⟨[.unit n], fun rest => scanString_unit rest h, fun more => ?_⟩
  rw [singleton_append, assemble.eq_def]
  simp [hhigh, hlow]

theorem reads_high (rune : Bytes) (h : ∀ b ∈ rune, 0x80 ≤ b) : Reads rune rune := by
  induction rune with
  | nil => exact .nil
  | cons b rune ih =>
    have hb : 0x80 ≤ b := h b (by simp)
    have hbyte : Reads [b] [b] := reads_byte fun rest =>
      scanString_plain rest (by grind) (by grind) (by grind)
    exact hbyte.append (ih fun b' hb' => h b' (mem_cons_of_mem _ hb'))

private theorem codeUnit_hexDigit (c : UInt8) :
    codeUnit 0x30 0x30 (hexDigit (c >>> 4)) (hexDigit (c &&& 0x0f)) = some c.toNat := by
  have hall : ∀ n : Fin 256, codeUnit 0x30 0x30 (hexDigit (UInt8.ofNat n.val >>> 4))
      (hexDigit (UInt8.ofNat n.val &&& 0x0f)) = some n.val := by decide +kernel
  have hc := hall ⟨c.toNat, c.toNat_lt⟩
  simpa using hc

private theorem reads_escapeByte (c : UInt8) (hc : c < 0x80) : Reads (escapeByte c) [c] := by
  unfold escapeByte
  split
  · rename_i h
    exact reads_byte fun rest => scanString_short rest (by rcases h with rfl | rfl <;> rfl)
  split
  · subst c; exact reads_byte fun rest => scanString_short rest rfl
  split
  · subst c; exact reads_byte fun rest => scanString_short rest rfl
  split
  · subst c; exact reads_byte fun rest => scanString_short rest rfl
  split
  · subst c; exact reads_byte fun rest => scanString_short rest rfl
  split
  · subst c; exact reads_byte fun rest => scanString_short rest rfl
  split
  · have hlt : c.toNat < 0x80 := by simpa [UInt8.lt_iff_toNat_lt] using hc
    have hunit := reads_unit (codeUnit_hexDigit c) (by simp [isHigh]; omega)
      (by simp [isLow]; omega)
    simpa [encodeRune, hlt] using hunit
  · rename_i hquote _ _ _ _ _ hcontrol
    exact reads_byte fun rest => scanString_plain rest (fun h => hquote (.inl h))
      (fun h => hquote (.inr h)) (fun h => hcontrol (.inl h))

private theorem quoteRune_long (rune : Bytes) (h : 2 ≤ rune.length) :
    quoteRune (some rune) =
      if rune = [0xe2, 0x80, 0xa8] then ascii "\\u2028"
      else if rune = [0xe2, 0x80, 0xa9] then ascii "\\u2029"
      else rune := by
  match rune, h with
  | _ :: _ :: _, _ => rfl

theorem reads_quoteRune (rune : Bytes) (h : IsRune rune) : Reads (quoteRune (some rune)) rune := by
  rcases h with ⟨c, hc, rfl⟩ | ⟨hlen, hhigh⟩
  · exact reads_escapeByte c hc
  · rw [quoteRune_long rune hlen]
    split
    · subst rune
      exact reads_unit (n := 0x2028) rfl rfl rfl
    split
    · subst rune
      exact reads_unit (n := 0x2029) rfl rfl rfl
    · exact reads_high rune hhigh

private theorem reads_runes (all : List (Option Bytes)) (hsome : all.all Option.isSome = true)
    (hrune : ∀ rune, some rune ∈ all → IsRune rune) :
    Reads (all.flatMap quoteRune) (all.flatMap fun rune => rune.getD []) := by
  induction all with
  | nil => exact .nil
  | cons rune all ih =>
    simp only [all_cons, Bool.and_eq_true] at hsome
    obtain ⟨rune, rfl⟩ := Option.isSome_iff_exists.mp hsome.1
    have hhead := reads_quoteRune rune (hrune rune (by simp))
    have htail := ih hsome.2 fun r hr => hrune r (mem_cons_of_mem _ hr)
    exact hhead.append htail

theorem unquote_quote (s rest : Bytes) (h : isValid s = true) :
    unquote ((runes s).flatMap quoteRune ++ 0x22 :: rest) = some (s, rest) := by
  obtain ⟨pieces, hscan, hvalue⟩ := reads_runes (runes s) h (isRune_of_mem_runes s)
  have hs : assemble pieces = s := by
    simpa [flatten_runes s h, assemble] using hvalue []
  unfold unquote
  rw [hscan]
  simp [hs, h]

theorem scanString_quote (s rest : Bytes) (h : isValid s = true) :
    ∃ pieces, scanString ((runes s).flatMap quoteRune ++ 0x22 :: rest) = some (pieces, rest) := by
  obtain ⟨pieces, hscan, -⟩ := reads_runes (runes s) h (isRune_of_mem_runes s)
  exact ⟨pieces, by rw [hscan]; simp⟩

private theorem le_of_mem_escapeByte (c b : UInt8) (h : b ∈ escapeByte c) : 0x20 ≤ b := by
  have hall : ∀ n : Fin 256, (escapeByte (UInt8.ofNat n.val)).all (0x20 ≤ ·) = true := by decide +kernel
  have hbytes := List.all_eq_true.mp (hall ⟨c.toNat, c.toNat_lt⟩) b (by simpa using h)
  exact decide_eq_true_eq.mp hbytes

theorem le_of_mem_quote (s : Bytes) (b : UInt8) (h : b ∈ quote s) : 0x20 ≤ b := by
  unfold quote at h
  simp only [mem_cons, mem_append, mem_flatMap, not_mem_nil, or_false] at h
  rcases h with rfl | ⟨rune, hrune, hb⟩ | rfl
  · decide
  · cases rune with
    | none =>
      revert b
      decide +kernel
    | some rune =>
      rcases isRune_of_mem_runes s rune hrune with ⟨c, hc, rfl⟩ | ⟨hlen, hhigh⟩
      · exact le_of_mem_escapeByte c b hb
      · rw [quoteRune_long rune hlen] at hb
        split at hb
        · revert b
          decide +kernel
        split at hb
        · revert b
          decide +kernel
        · have := hhigh b hb
          grind
  · decide

end Nodra.JsonString
