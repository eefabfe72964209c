import Mathlib

/-! Newline-delimited logs over byte strings.  A log is read back the way
`bufio.Scanner` reads lines: a last line without its newline still counts, and
a line that does not fit the buffer ends the scan with an error. -/
namespace Nodra.Lines
open List

abbrev Bytes := List UInt8

def ascii (text : String) : Bytes := text.toList.map fun c => UInt8.ofNat c.toNat

def newline : UInt8 := 0x0a
def carriageReturn : UInt8 := 0x0d

/-- The segments between newlines.  What follows the last newline is a segment
only when it is not empty. -/
def rawLines : Bytes → List Bytes
  | [] => []
  | c :: rest =>
    if c = newline then [] :: rawLines rest
    else
      match rawLines rest with
      | [] => [[c]]
      | line :: lines => (c :: line) :: lines

def dropReturn (line : Bytes) : Bytes :=
  if line.getLast? = some carriageReturn then line.dropLast else line

/-- The lines a scanner with a buffer of `limit` bytes hands out, and whether it
stopped at a line that is too long. -/
def scan (limit : Nat) (file : Bytes) : List Bytes × Bool :=
  let raw := rawLines file
  let fit := raw.takeWhile fun line => decide (line.length < limit)
  (fit.map dropReturn, decide (fit.length < raw.length))

def join (lines : List Bytes) : Bytes := lines.flatMap fun line => line ++ [newline]

@[simp] theorem join_nil : join [] = [] := rfl

@[simp] theorem join_cons (line : Bytes) (lines : List Bytes) :
    join (line :: lines) = line ++ newline :: join lines := by
  simp [join]

@[simp] theorem join_append (left right : List Bytes) :
    join (left ++ right) = join left ++ join right := by
  simp [join]

/-- What a writer must respect for its line to come back unchanged. -/
structure IsLine (limit : Nat) (line : Bytes) : Prop where
  noNewline : newline ∉ line
  noReturn : carriageReturn ∉ line
  fits : line.length < limit

theorem rawLines_append_newline (line rest : Bytes) (h : newline ∉ line) :
    rawLines (line ++ newline :: rest) = line :: rawLines rest := by
  induction line with
  | nil => simp [rawLines]
  | cons c line ih =>
    have hc : c ≠ newline := fun hc => h (by simp [hc])
    have hline : newline ∉ line := fun hm => h (mem_cons_of_mem _ hm)
    simp only [cons_append, rawLines, hc, if_false, ih hline]

theorem rawLines_of_noNewline (line : Bytes) (hne : line ≠ []) (h : newline ∉ line) :
    rawLines line = [line] := by
  induction line with
  | nil => exact absurd rfl hne
  | cons c line ih =>
    have hc : c ≠ newline := fun hc => h (by simp [hc])
    have hline : newline ∉ line := fun hm => h (mem_cons_of_mem _ hm)
    cases line with
    | nil => simp [rawLines, hc]
    | cons d line => simp only [rawLines, hc, if_false] at ih ⊢; rw [ih (by simp) hline]

theorem rawLines_join_append (lines : List Bytes) (tail : Bytes)
    (h : ∀ line ∈ lines, newline ∉ line) :
    rawLines (join lines ++ tail) = lines ++ rawLines tail := by
  induction lines with
  | nil => rfl
  | cons line lines ih =>
    rw [join_cons, append_assoc, cons_append,
      rawLines_append_newline _ _ (h line (by simp)),
      ih fun l hl => h l (mem_cons_of_mem _ hl)]
    rfl

theorem rawLines_ne_nil (file : Bytes) (h : file ≠ []) : rawLines file ≠ [] := by
  cases file with
  | nil => exact absurd rfl h
  | cons c file =>
    unfold rawLines
    split
    · simp
    · split <;> simp

def EndsLine (file : Bytes) : Prop := file = [] ∨ file.getLast? = some newline

theorem endsLine_append_newline (file line : Bytes) : EndsLine (file ++ (line ++ [newline])) := by
  right
  rw [← append_assoc, getLast?_concat]

theorem endsLine_join (lines : List Bytes) : EndsLine (join lines) := by
  induction lines with
  | nil => exact .inl rfl
  | cons line lines ih =>
    rw [join_cons, append_cons]
    rcases ih with hnil | hlast
    · rw [hnil, append_nil]
      exact endsLine_append_newline [] line
    · right
      rw [getLast?_append, hlast]
      rfl

theorem rawLines_append (file rest : Bytes) (h : EndsLine file) :
    rawLines (file ++ rest) = rawLines file ++ rawLines rest := by
  induction file with
  | nil => rfl
  | cons c file ih =>
    rcases eq_nil_or_concat file with rfl | ⟨init, last, rfl⟩
    · have hc : c = newline := by simpa [EndsLine] using h
      simp [rawLines, hc]
    · have hfile : EndsLine (init.concat last) := by
        rcases h with hnil | hlast
        · cases hnil
        · right
          rwa [getLast?_cons_of_ne_nil (by simp)] at hlast
      have hne := rawLines_ne_nil (init.concat last) (by simp)
      rw [cons_append, rawLines, rawLines, ih hfile]
      split
      · rfl
      · cases hraw : rawLines (init.concat last) with
        | nil => exact absurd hraw hne
        | cons line lines => rfl

theorem dropReturn_of_noReturn (line : Bytes) (h : carriageReturn ∉ line) :
    dropReturn line = line := by
  unfold dropReturn
  split
  · rename_i hlast
    exact absurd (mem_of_getLast? hlast) h
  · rfl

theorem scan_of_rawLines (limit : Nat) (file : Bytes) (lines : List Bytes)
    (hraw : rawLines file = lines) (h : ∀ line ∈ lines, IsLine limit line) :
    scan limit file = (lines, false) := by
  have hfit : lines.takeWhile (fun line => decide (line.length < limit)) = lines := by
    rw [takeWhile_eq_self_iff]
    intro line hline
    simpa using (h line hline).fits
  have hdrop : lines.map dropReturn = lines := by
    rw [map_congr_left fun line hline => dropReturn_of_noReturn line (h line hline).noReturn,
      List.map_id']
  unfold scan
  simp only [hraw, hfit, hdrop, Nat.lt_irrefl, decide_false]

theorem scan_join (limit : Nat) (lines : List Bytes) (h : ∀ line ∈ lines, IsLine limit line) :
    scan limit (join lines) = (lines, false) := by
  apply scan_of_rawLines _ _ _ _ h
  have hraw := rawLines_join_append lines [] fun line hline => (h line hline).noNewline
  simpa [rawLines] using hraw

theorem scan_join_append (limit : Nat) (lines : List Bytes) (tail : Bytes) (hne : tail ≠ [])
    (h : ∀ line ∈ lines, IsLine limit line) (htail : IsLine limit tail) :
    scan limit (join lines ++ tail) = (lines ++ [tail], false) := by
  apply scan_of_rawLines
  · rw [rawLines_join_append lines tail fun line hline => (h line hline).noNewline,
      rawLines_of_noNewline tail hne htail.noNewline]
  · intro line hline
    rcases mem_append.mp hline with hline | hline
    · exact h line hline
    · rw [mem_singleton.mp hline]
      exact htail

section

variable {σ ρ ε : Type}

/-- Replay a log: every scanned line takes one step, and an oversized line is an
error only once the lines before it have been replayed. -/
def replay (limit : Nat) (tooLong : ε) (step : σ → Bytes → Except ε σ) (s : σ) (file : Bytes) :
    Except ε σ := do
  let s ← (scan limit file).1.foldlM step s
  if (scan limit file).2 then .error tooLong else .ok s

theorem foldlM_ok (step : σ → Bytes → Except ε σ) (apply : σ → ρ → σ) (encode : ρ → Bytes)
    (records : List ρ) (s : σ)
    (hstep : ∀ s, ∀ r ∈ records, step s (encode r) = .ok (apply s r)) :
    (records.map encode).foldlM step s = .ok (records.foldl apply s) := by
  induction records generalizing s with
  | nil => rfl
  | cons r records ih =>
    rw [map_cons, foldlM_cons, hstep s r (by simp)]
    exact ih (apply s r) fun s' r' hr' => hstep s' r' (mem_cons_of_mem _ hr')

theorem replay_invariant {limit : Nat} {tooLong : ε} {step : σ → Bytes → Except ε σ} {keep : σ → Prop}
    (hstep : ∀ s s' line, step s line = .ok s' → keep s → keep s') {s s' : σ} {file : Bytes}
    (h : replay limit tooLong step s file = .ok s') (hs : keep s) : keep s' := by
  have hfold (lines : List Bytes) (s : σ) (hs : keep s) : ∀ s', lines.foldlM step s = .ok s' → keep s' := by
    induction lines generalizing s with
    | nil =>
      rintro _ ⟨⟩
      exact hs
    | cons line lines ih =>
      intro s' h
      rw [foldlM_cons] at h
      cases hline : step s line with
      | error err =>
        rw [hline] at h
        cases h
      | ok s₁ =>
        rw [hline] at h
        exact ih s₁ (hstep s s₁ line hline hs) s' h
  unfold replay at h
  cases hlines : (scan limit file).1.foldlM step s with
  | error err =>
    rw [hlines] at h
    cases h
  | ok s₁ =>
    rw [hlines] at h
    change (if (scan limit file).2 then Except.error tooLong else Except.ok s₁) = .ok s' at h
    split at h
    · cases h
    · cases h
      exact hfold _ s hs _ hlines

theorem replay_join (limit : Nat) (tooLong : ε) (step : σ → Bytes → Except ε σ)
    (apply : σ → ρ → σ) (encode : ρ → Bytes) (records : List ρ) (s : σ)
    (hline : ∀ r ∈ records, IsLine limit (encode r))
    (hstep : ∀ s, ∀ r ∈ records, step s (encode r) = .ok (apply s r)) :
    replay limit tooLong step s (join (records.map encode)) = .ok (records.foldl apply s) := by
  have hscan := scan_join limit (records.map encode) (by
    intro line hmem
    obtain ⟨r, hr, rfl⟩ := List.mem_map.mp hmem
    exact hline r hr)
  unfold replay
  rw [hscan, foldlM_ok step apply encode records s hstep]
  rfl

theorem scan_append (limit : Nat) (file line : Bytes) (hend : EndsLine file)
    (hfits : (scan limit file).2 = false) (hline : IsLine limit line) :
    scan limit (file ++ (line ++ [newline])) = ((scan limit file).1 ++ [line], false) := by
  have hall : (rawLines file).takeWhile (fun line => decide (line.length < limit)) =
      rawLines file := by
    simp only [scan, decide_eq_false_iff_not, Nat.not_lt] at hfits
    exact (List.takeWhile_prefix _).eq_of_length_le hfits
  have hraw : rawLines (file ++ (line ++ [newline])) = rawLines file ++ [line] := by
    rw [rawLines_append file _ hend, rawLines_append_newline line [] hline.noNewline]
    rfl
  have hone : [line].takeWhile (fun line => decide (line.length < limit)) = [line] := by
    simp [hline.fits]
  unfold scan
  simp only [hraw, hall, takeWhile_append, if_true, hone, map_append, Nat.lt_irrefl,
    decide_false]
  simp [dropReturn_of_noReturn line hline.noReturn]

theorem replay_append {limit : Nat} {tooLong : ε} {step : σ → Bytes → Except ε σ} {s s' s'' : σ}
    {file line : Bytes} (hend : EndsLine file) (h : replay limit tooLong step s file = .ok s')
    (hline : IsLine limit line) (hstep : step s' line = .ok s'') :
    replay limit tooLong step s (file ++ (line ++ [newline])) = .ok s'' := by
  unfold replay at h ⊢
  cases hfold : (scan limit file).1.foldlM step s with
  | error err =>
    rw [hfold] at h
    cases h
  | ok t =>
    rw [hfold] at h
    cases hfits : (scan limit file).2 with
    | true =>
      rw [hfits] at h
      cases h
    | false =>
      rw [hfits] at h
      cases h
      rw [scan_append limit file line hend hfits hline, foldlM_append, hfold]
      change (do
        let s ← step s' line >>= pure
        if false = true then Except.error tooLong else Except.ok s) = Except.ok s''
      rw [hstep]
      rfl

theorem replay_join_append (limit : Nat) (tooLong : ε) (step : σ → Bytes → Except ε σ)
    (apply : σ → ρ → σ) (encode : ρ → Bytes) (records : List ρ) (last : ρ) (s : σ)
    (hne : encode last ≠ [])
    (hline : ∀ r ∈ records ++ [last], IsLine limit (encode r))
    (hstep : ∀ s, ∀ r ∈ records ++ [last], step s (encode r) = .ok (apply s r)) :
    replay limit tooLong step s (join (records.map encode) ++ encode last) =
      .ok ((records ++ [last]).foldl apply s) := by
  have hscan := scan_join_append limit (records.map encode) (encode last) hne (by
    intro line hmem
    obtain ⟨r, hr, rfl⟩ := List.mem_map.mp hmem
    exact hline r (by simp [hr])) (hline last (by simp))
  have hmap : records.map encode ++ [encode last] = (records ++ [last]).map encode := by simp
  unfold replay
  rw [hscan, hmap, foldlM_ok step apply encode (records ++ [last]) s hstep]
  rfl

end

end Nodra.Lines
