import Nodra.Server.Model

/-! Topic filters, and what the filters granted to a client of the broker give access to. -/
namespace Nodra.Router
open List Option

theorem splitSlash_ne_nil (text : List Char) : splitSlash text ≠ [] := by
  cases text with
  | nil => simp [splitSlash]
  | cons c rest =>
    unfold splitSlash
    split
    · simp
    · split <;> simp

theorem splitSlash_cons_of_ne {c : Char} (h : c ≠ '/') {rest level : List Char} {levels : List (List Char)}
    (hrest : splitSlash rest = level :: levels) : splitSlash (c :: rest) = (c :: level) :: levels := by
  rw [splitSlash, if_neg h, hrest]

theorem splitSlash_eq (text : List Char) : splitSlash text = text.splitOn '/' := by
  induction text with
  | nil => rfl
  | cons c rest ih =>
    rw [List.splitOn, splitOnP_cons_eq_if_modifyHead, ← List.splitOn, ← ih]
    by_cases h : c = '/'
    · rw [splitSlash, if_pos h, if_pos (by simpa using h)]
    · obtain ⟨level, levels, hrest⟩ := exists_cons_of_ne_nil (splitSlash_ne_nil rest)
      rw [splitSlash_cons_of_ne h hrest, if_neg (by simpa using h), hrest]
      rfl

theorem slash_not_mem_of_mem_splitSlash {text level : List Char} (h : level ∈ splitSlash text) :
    '/' ∉ level := by
  induction text generalizing level with
  | nil => simp_all [splitSlash]
  | cons c rest ih =>
    by_cases hc : c = '/'
    · rw [splitSlash, if_pos hc] at h
      rcases mem_cons.mp h with rfl | h
      · simp
      · exact ih h
    · obtain ⟨first, others, hrest⟩ := exists_cons_of_ne_nil (splitSlash_ne_nil rest)
      rw [splitSlash_cons_of_ne hc hrest] at h
      rcases mem_cons.mp h with rfl | h
      · have hfirst := ih (hrest ▸ mem_cons_self)
        simp [hfirst, Ne.symm hc]
      · exact ih (hrest ▸ mem_cons_of_mem _ h)

theorem head?_splitSlash (text : List Char) :
    (splitSlash text).head? = some [] ↔ text = [] ∨ text.head? = some '/' := by
  cases text with
  | nil => simp [splitSlash]
  | cons c rest =>
    by_cases hc : c = '/'
    · simp [splitSlash, hc]
    · obtain ⟨level, levels, hrest⟩ := exists_cons_of_ne_nil (splitSlash_ne_nil rest)
      simp [splitSlash_cons_of_ne hc hrest, hc]

theorem getLast?_splitSlash (text : List Char) :
    (splitSlash text).getLast? = some [] ↔ text = [] ∨ text.getLast? = some '/' := by
  induction text with
  | nil => simp [splitSlash]
  | cons c rest ih =>
    obtain ⟨level, levels, hrest⟩ := exists_cons_of_ne_nil (splitSlash_ne_nil rest)
    by_cases hc : c = '/'
    · rw [splitSlash, if_pos hc, hrest, getLast?_cons_cons, ← hrest, ih, hc]
      cases rest <;> simp
    · rw [splitSlash_cons_of_ne hc hrest]
      cases levels with
      | nil =>
        -- without a slash there is one level, the text
        have htext : rest = level := by
          have hjoin : ['/'].intercalate (rest.splitOn '/') = rest := intercalate_splitOn '/'
          rw [← splitSlash_eq, hrest] at hjoin
          simpa using hjoin.symm
        have hslash : '/' ∉ level := slash_not_mem_of_mem_splitSlash (hrest ▸ mem_cons_self)
        refine iff_of_false (by simp) ?_
        rintro (h | h)
        · simp at h
        · have hmem := mem_of_getLast? h
          simp [Ne.symm hc, htext, hslash] at hmem
      | cons second others =>
        have hne : rest ≠ [] := by
          rintro rfl
          simp [splitSlash] at hrest
        rw [getLast?_cons_cons, ← getLast?_cons_cons (a := level), ← hrest, ih]
        obtain ⟨d, rest, rfl⟩ := exists_cons_of_ne_nil hne
        simp

/-- The levels of a topic that is not blank: the first and the last have a text. -/
structure Proper (levels : List (List Char)) : Prop where
  ne_nil : levels ≠ []
  slash : ∀ level ∈ levels, '/' ∉ level
  head : levels.head? ≠ some []
  last : levels.getLast? ≠ some []

theorem trimSlashes_eq (text : List Char) :
    trimSlashes text = (text.dropWhile (· = '/')).rdropWhile (· = '/') := rfl

theorem head?_trimSlashes (text : List Char) : (trimSlashes text).head? ≠ some '/' := by
  intro h
  have hsub : trimSlashes text <+: text.dropWhile (· = '/') := rdropWhile_prefix _ _
  obtain ⟨rest, hrest⟩ := hsub
  have hhead := head?_dropWhile_not (· = '/') text
  rw [← hrest, head?_append, h] at hhead
  simp at hhead

theorem getLast?_trimSlashes (text : List Char) : (trimSlashes text).getLast? ≠ some '/' := by
  intro h
  have hne : trimSlashes text ≠ [] := by
    intro hnil
    simp [hnil] at h
  rw [getLast?_eq_some_getLast hne, Option.some.injEq] at h
  exact rdropWhile_last_not (· = '/') (text.dropWhile (· = '/')) hne (decide_eq_true h)

theorem proper_levels (text : String) : levels text = [[]] ∨ Proper (levels text) := by
  by_cases hempty : trimSlashes text.toList = []
  · exact .inl (by simp [levels, hempty, splitSlash])
  · refine .inr ⟨splitSlash_ne_nil _, fun _ => slash_not_mem_of_mem_splitSlash, ?_, ?_⟩
    · exact fun h => ((head?_splitSlash _).mp h).elim hempty (head?_trimSlashes _)
    · exact fun h => ((getLast?_splitSlash _).mp h).elim hempty (getLast?_trimSlashes _)

theorem levels_intercalate {ls : List (List Char)} (h : Proper ls) :
    levels (String.ofList (['/'].intercalate ls)) = ls := by
  have hsplit : splitSlash (['/'].intercalate ls) = ls := by
    rw [splitSlash_eq]
    exact splitOn_intercalate '/' h.slash h.ne_nil
  have hhead : (['/'].intercalate ls).head? ≠ some '/' := by
    intro hslash
    exact h.head (hsplit ▸ (head?_splitSlash _).mpr (.inr hslash))
  have hlast : (['/'].intercalate ls).getLast? ≠ some '/' := by
    intro hslash
    exact h.last (hsplit ▸ (getLast?_splitSlash _).mpr (.inr hslash))
  have htrim : trimSlashes (['/'].intercalate ls) = ['/'].intercalate ls := by
    have hdrop : (['/'].intercalate ls).dropWhile (· = '/') = ['/'].intercalate ls := by
      refine dropWhile_eq_self_iff.mpr fun hlength hslash => hhead ?_
      rw [head?_eq_getElem?, getElem?_eq_getElem hlength, of_decide_eq_true hslash]
    rw [trimSlashes_eq, hdrop]
    refine rdropWhile_eq_self_iff.mpr fun hne hslash => hlast ?_
    rw [getLast?_eq_some_getLast hne, of_decide_eq_true hslash]
  rw [levels, String.toList_ofList, htrim, hsplit]

section

variable {a f topic : List (List Char)} {filter level : List Char}

theorem matchLevels_cons (h : filter ≠ ['#']) (level : List Char) :
    matchLevels (filter :: a) (level :: topic) =
      (decide (filter = ['+'] ∨ filter = level) && matchLevels a topic) := by
  rw [matchLevels, if_neg h]
  by_cases hlevel : filter = ['+'] ∨ filter = level
  · rw [if_neg (by tauto), decide_eq_true hlevel, Bool.true_and]
  · rw [if_pos (by tauto), decide_eq_false hlevel, Bool.false_and]

theorem matchLevels_cons_nil (h : filter ≠ ['#']) : matchLevels (filter :: a) [] = false := by
  simp [matchLevels, h]

theorem matchLevels_hash : matchLevels (['#'] :: a) topic = a.isEmpty := by
  cases topic <;> simp [matchLevels]

theorem matchLevels_self (h : ['#'] ∉ f) : matchLevels f f = true := by
  induction f with
  | nil => rfl
  | cons filter f ih =>
    rw [mem_cons, not_or] at h
    rw [matchLevels_cons (Ne.symm h.1), ih h.2]
    simp

theorem matchLevels_trans (h : ['#'] ∉ f) (haf : matchLevels a f = true)
    (hft : matchLevels f topic = true) : matchLevels a topic = true := by
  induction a generalizing f topic with
  | nil =>
    cases f with
    | nil => exact hft
    | cons => simp [matchLevels] at haf
  | cons filter a ih =>
    by_cases hhash : filter = ['#']
    · subst hhash
      rw [matchLevels_hash] at haf ⊢
      exact haf
    · cases f with
      | nil => simp [matchLevels_cons_nil hhash] at haf
      | cons between f =>
        rw [mem_cons, not_or] at h
        cases topic with
        | nil => simp [matchLevels_cons_nil (Ne.symm h.1)] at hft
        | cons level topic =>
          rw [matchLevels_cons hhash, Bool.and_eq_true, decide_eq_true_eq] at haf ⊢
          rw [matchLevels_cons (Ne.symm h.1), Bool.and_eq_true, decide_eq_true_eq] at hft
          refine ⟨?_, ih h.2 haf.2 hft.2⟩
          rcases haf.1 with hplus | rfl
          · exact .inl hplus
          · exact hft.1

theorem matchLevels_pluses (topic : List (List Char)) :
    matchLevels (List.replicate topic.length ['+']) topic = true := by
  induction topic with
  | nil => rfl
  | cons level topic ih =>
    rw [length_cons, replicate_succ, matchLevels_cons (by decide), ih]
    simp

theorem matchLevels_append_hash (h : ['#'] ∉ f) :
    matchLevels (f ++ [['#']]) topic = true ↔
      ∃ n, matchLevels (f ++ List.replicate n ['+']) topic = true := by
  induction f generalizing topic with
  | nil => exact iff_of_true matchLevels_hash ⟨topic.length, matchLevels_pluses topic⟩
  | cons filter f ih =>
    rw [mem_cons, not_or] at h
    cases topic with
    | nil =>
      simp only [cons_append, matchLevels_cons_nil (Ne.symm h.1), Bool.false_eq_true, exists_false]
    | cons level topic =>
      simp only [cons_append, matchLevels_cons (Ne.symm h.1), Bool.and_eq_true, ih h.2,
        exists_and_left]

theorem matchLevels_append_of_length_lt (h : matchLevels a topic = true)
    (hlength : a.length < topic.length) (more : List (List Char)) :
    matchLevels a (topic ++ more) = true := by
  induction a generalizing topic with
  | nil =>
    cases topic with
    | nil => simp at hlength
    | cons => simp [matchLevels] at h
  | cons filter a ih =>
    by_cases hhash : filter = ['#']
    · subst hhash
      rw [matchLevels_hash] at h ⊢
      exact h
    · cases topic with
      | nil => simp at hlength
      | cons level topic =>
        rw [matchLevels_cons hhash, Bool.and_eq_true] at h
        rw [cons_append, matchLevels_cons hhash, Bool.and_eq_true]
        exact ⟨h.1, ih h.2 (by simpa using hlength)⟩

def fill (level : List Char) (f : List (List Char)) : List (List Char) :=
  f.map fun filter => if filter = ['+'] then level else filter

theorem matchLevels_fill_self (h : ['#'] ∉ f) : matchLevels f (fill level f) = true := by
  induction f with
  | nil => rfl
  | cons filter f ih =>
    rw [mem_cons, not_or] at h
    rw [fill, map_cons, matchLevels_cons (Ne.symm h.1), Bool.and_eq_true, decide_eq_true_eq]
    refine ⟨?_, ih h.2⟩
    split
    · exact .inl ‹_›
    · exact .inr rfl

theorem matchLevels_fill (h : level ∉ a) : matchLevels a (fill level f) = matchLevels a f := by
  induction a generalizing f with
  | nil => cases f <;> rfl
  | cons filter a ih =>
    rw [mem_cons, not_or] at h
    by_cases hhash : filter = ['#']
    · subst hhash
      rw [matchLevels_hash, matchLevels_hash]
    · cases f with
      | nil => rfl
      | cons between f =>
        rw [fill, map_cons, matchLevels_cons hhash, matchLevels_cons hhash, ← fill, ih h.2]
        split
        · next hplus => simp [hplus, Ne.symm h.1]
        · rfl

theorem matchLevels_of_inner_hash (h : ['#'] ∈ f.dropLast) : matchLevels f topic = false := by
  induction f generalizing topic with
  | nil => simp at h
  | cons filter f ih =>
    cases f with
    | nil => simp at h
    | cons second f =>
      by_cases hhash : filter = ['#']
      · subst hhash
        exact matchLevels_hash
      · cases topic with
        | nil => exact matchLevels_cons_nil hhash
        | cons level topic =>
          rw [dropLast_cons_cons, mem_cons] at h
          rw [matchLevels_cons hhash, ih (h.resolve_left (Ne.symm hhash)), Bool.and_false]

theorem getLast?_of_matchLevels (h : ['#'] ∉ f) (hmatch : matchLevels f topic = true)
    (hlast : f.getLast? = some []) : topic.getLast? = some [] := by
  induction f generalizing topic with
  | nil => simp at hlast
  | cons filter f ih =>
    rw [mem_cons, not_or] at h
    cases topic with
    | nil => simp [matchLevels_cons_nil (Ne.symm h.1)] at hmatch
    | cons level topic =>
      rw [matchLevels_cons (Ne.symm h.1), Bool.and_eq_true, decide_eq_true_eq] at hmatch
      cases f with
      | nil =>
        obtain rfl : filter = [] := by simpa using hlast
        obtain rfl : [] = level := hmatch.1.resolve_left (by simp)
        obtain rfl : topic = [] := by simpa [matchLevels] using hmatch.2
        rfl
      | cons second f =>
        rw [getLast?_cons_cons] at hlast
        have hrest := ih h.2 hmatch.2 hlast
        cases topic with
        | nil => simp at hrest
        | cons => rwa [getLast?_cons_cons]

/-- Each of these levels of a filter is `+` or the level of the topic at its place. -/
def Covers (f topic : List (List Char)) : Prop :=
  ∀ (i : Nat) (filter level), f[i]? = some filter → topic[i]? = some level → filter = ['+'] ∨ filter = level

/-- What the levels of a filter mean: all of them and no more, or all before a `#` at the end. -/
def Describes (f topic : List (List Char)) : Prop :=
  ['#'] ∉ f ∧ f.length = topic.length ∧ Covers f topic ∨
    ∃ before, f = before ++ [['#']] ∧ ['#'] ∉ before ∧ before.length ≤ topic.length ∧ Covers before topic

theorem covers_nil (topic : List (List Char)) : Covers [] topic := by
  intro i filter level h
  simp at h

theorem covers_cons : Covers (filter :: f) (level :: topic) ↔
    (filter = ['+'] ∨ filter = level) ∧ Covers f topic := by
  constructor
  · intro h
    exact ⟨h 0 filter level rfl rfl, fun i => h (i + 1)⟩
  · rintro ⟨hfirst, hrest⟩ (_ | i) filter' level' hf ht
    · cases hf
      cases ht
      exact hfirst
    · exact hrest i filter' level' hf ht

theorem describes_cons (h : filter ≠ ['#']) : Describes (filter :: f) (level :: topic) ↔
    (filter = ['+'] ∨ filter = level) ∧ Describes f topic := by
  have hends : (∃ before, filter :: f = before ++ [['#']] ∧ ['#'] ∉ before ∧
        before.length ≤ (level :: topic).length ∧ Covers before (level :: topic)) ↔
      (filter = ['+'] ∨ filter = level) ∧ ∃ before, f = before ++ [['#']] ∧ ['#'] ∉ before ∧
        before.length ≤ topic.length ∧ Covers before topic := by
    constructor
    · rintro ⟨_ | ⟨first, before⟩, heq, hnone, hlength, hcovers⟩
      · exact absurd (List.cons.inj heq).1 h
      · obtain ⟨rfl, rfl⟩ := List.cons.inj heq
        obtain ⟨hfirst, hcovers⟩ := covers_cons.mp hcovers
        exact ⟨hfirst, before, rfl, fun hmem => hnone (mem_cons_of_mem _ hmem),
          Nat.le_of_succ_le_succ hlength, hcovers⟩
    · rintro ⟨hfirst, before, rfl, hnone, hlength, hcovers⟩
      exact ⟨filter :: before, rfl, by simp [hnone, Ne.symm h], Nat.succ_le_succ hlength,
        covers_cons.mpr ⟨hfirst, hcovers⟩⟩
  unfold Describes
  rw [hends, covers_cons, mem_cons, not_or, length_cons, length_cons, Nat.add_right_cancel_iff]
  constructor
  · rintro (⟨⟨-, hnone⟩, hlength, hfirst, hcovers⟩ | ⟨hfirst, hends⟩)
    · exact ⟨hfirst, .inl ⟨hnone, hlength, hcovers⟩⟩
    · exact ⟨hfirst, .inr hends⟩
  · rintro ⟨hfirst, ⟨hnone, hlength, hcovers⟩ | hends⟩
    · exact .inl ⟨⟨Ne.symm h, hnone⟩, hlength, hfirst, hcovers⟩
    · exact .inr ⟨hfirst, hends⟩

theorem matchLevels_iff_describes : matchLevels f topic = true ↔ Describes f topic := by
  induction f generalizing topic with
  | nil =>
    rw [matchLevels, List.isEmpty_iff]
    constructor
    · rintro rfl
      exact .inl ⟨by simp, rfl, covers_nil []⟩
    · rintro (⟨-, hlength, -⟩ | ⟨before, heq, -⟩)
      · exact length_eq_zero_iff.mp hlength.symm
      · simp at heq
  | cons filter f ih =>
    by_cases hhash : filter = ['#']
    · subst hhash
      rw [matchLevels_hash, List.isEmpty_iff]
      constructor
      · rintro rfl
        exact .inr ⟨[], rfl, by simp, Nat.zero_le _, covers_nil topic⟩
      · rintro (⟨hnone, -⟩ | ⟨_ | ⟨first, before⟩, heq, hnone, -⟩)
        · simp at hnone
        · exact (List.cons.inj heq).2
        · rw [← (List.cons.inj heq).1] at hnone
          simp at hnone
    · cases topic with
      | nil =>
        rw [matchLevels_cons_nil hhash]
        refine iff_of_false (by simp) ?_
        rintro (⟨-, hlength, -⟩ | ⟨_ | ⟨first, before⟩, heq, -, hlength, -⟩)
        · simp at hlength
        · exact hhash (List.cons.inj heq).1
        · simp at hlength
      | cons level topic =>
        rw [matchLevels_cons hhash, Bool.and_eq_true, decide_eq_true_eq, ih, describes_cons hhash]

/-- A filter matches a topic exactly if its levels describe those of the topic. -/
theorem isMatch_iff_describes (filter topic : String) :
    isMatch filter topic = true ↔ Describes (levels filter) (levels topic) :=
  matchLevels_iff_describes

end

section

def deepest (filters : List String) : Nat := (filters.map fun filter => (levels filter).length).foldr max 0

def coveredAt (filters : List String) (f : List (List Char)) (n : Nat) : Bool :=
  filters.any fun filter => matchLevels (levels filter) (f ++ List.replicate n ['+'])

/-- A filter that ends in `#` is granted at every depth.  No deeper filter need be looked at than
the deepest; and there are no topics with a blank last level. -/
def hashCovered (filters : List String) (filter : String) : Bool :=
  let f := (levels filter).dropLast
  (levels filter).getLast? ≠ some ['#'] || ['#'] ∈ f ||
    (List.range (deepest filters + 2)).all fun n =>
      (n = 0 && (f.getLast?.getD []).isEmpty) || coveredAt filters f n

variable {filters : List String} {filter : String} {f : List (List Char)}

variable {granted topic : String} {n : Nat} {level : List Char}

theorem length_le_deepest (h : granted ∈ filters) :
    (levels granted).length ≤ deepest filters := by
  induction filters with
  | nil => cases h
  | cons first filters ih =>
    rcases mem_cons.mp h with rfl | h
    · exact le_max_left _ _
    · exact (ih h).trans (le_max_right _ _)

theorem hashCovered_iff (hlevels : levels filter = f ++ [['#']]) (h : ['#'] ∉ f) :
    hashCovered filters filter = true ↔
      ∀ n ≤ deepest filters + 1, (n = 0 → f.getLast?.getD [] ≠ []) → coveredAt filters f n = true := by
  simp only [hashCovered, hlevels, dropLast_concat, getLast?_concat]
  simp only [ne_eq, not_true_eq_false, decide_false, h, Bool.false_or, List.all_eq_true, mem_range,
    Nat.lt_succ_iff, Bool.or_eq_true, Bool.and_eq_true, decide_eq_true_eq, List.isEmpty_iff]
  exact forall₂_congr fun n _ => by tauto

theorem exists_fresh (filters : List String) :
    ∃ level : List Char, level ≠ [] ∧ '/' ∉ level ∧ level ≠ ['#'] ∧
      ∀ granted ∈ filters, level ∉ levels granted := by
  have hbound : ∃ bound, ∀ level ∈ filters.flatMap levels, level.length ≤ bound := by
    generalize filters.flatMap levels = all
    induction all with
    | nil => exact ⟨0, by simp⟩
    | cons first all ih =>
      obtain ⟨bound, hbound⟩ := ih
      refine ⟨max first.length bound, fun level hlevel => ?_⟩
      rcases mem_cons.mp hlevel with rfl | hlevel
      · exact le_max_left _ _
      · exact (hbound level hlevel).trans (le_max_right _ _)
  obtain ⟨bound, hbound⟩ := hbound
  refine ⟨List.replicate (bound + 1) 'x', by simp, by simp, by simp [replicate_succ], ?_⟩
  intro granted hgranted hlevel
  have hlength := hbound _ (mem_flatMap.mpr ⟨granted, hgranted, hlevel⟩)
  rw [length_replicate] at hlength
  omega

def Contained (filters : List String) (filter : String) : Prop :=
  ∀ topic, isMatch filter topic → ∃ granted ∈ filters, granted = topic ∨ isMatch granted topic

theorem matchLevels_of_granted (h : ['#'] ∉ levels topic)
    (hgranted : granted = topic ∨ isMatch granted topic) :
    matchLevels (levels granted) (levels topic) = true := by
  rcases hgranted with rfl | hmatch
  · exact matchLevels_self h
  · exact hmatch

theorem not_mem_pluses (h : ['#'] ∉ f) (n : Nat) : ['#'] ∉ f ++ List.replicate n ['+'] := by
  simp [h]

theorem proper_of_levels (hlevels : levels filter = f ++ [['#']]) : Proper (f ++ [['#']]) := by
  rcases proper_levels filter with heq | hproper
  · rw [hlevels] at heq
    cases f <;> simp at heq
  · rwa [hlevels] at hproper

theorem Proper.pluses (h : Proper (f ++ [['#']])) (hn : n = 0 → f.getLast?.getD [] ≠ []) :
    Proper (f ++ List.replicate n ['+']) where
  ne_nil := by
    intro hnil
    obtain ⟨rfl, hpluses⟩ := append_eq_nil_iff.mp hnil
    exact hn (by simpa using hpluses) rfl
  slash := by
    intro level hlevel
    rcases mem_append.mp hlevel with hlevel | hlevel
    · exact h.slash level (mem_append_left _ hlevel)
    · rw [eq_of_mem_replicate hlevel]
      decide
  head := by
    cases f with
    | nil => cases n <;> simp [replicate_succ]
    | cons first f => simpa using h.head
  last := by
    cases n with
    | zero =>
      intro hlast
      rw [replicate_zero, append_nil] at hlast
      exact hn rfl (by rw [hlast]; rfl)
    | succ n => simp [replicate_succ']

theorem Proper.fill {ls : List (List Char)} (h : Proper ls) (hne : level ≠ [])
    (hslash : '/' ∉ level) : Proper (fill level ls) := by
  have hblank (filter : List Char) (heq : (if filter = ['+'] then level else filter) = []) :
      filter = [] := by
    split at heq
    · exact absurd heq hne
    · exact heq
  refine ⟨by simpa [Router.fill] using h.ne_nil, fun filled hfilled => ?_, fun hhead => ?_, fun hlast => ?_⟩
  · obtain ⟨filter, hmem, rfl⟩ := List.mem_map.mp hfilled
    split
    · exact hslash
    · exact h.slash filter hmem
  · rw [Router.fill, head?_map, map_eq_some_iff] at hhead
    obtain ⟨filter, hhead, heq⟩ := hhead
    exact h.head (hblank filter heq ▸ hhead)
  · rw [Router.fill, getLast?_map, map_eq_some_iff] at hlast
    obtain ⟨filter, hlast, heq⟩ := hlast
    exact h.last (hblank filter heq ▸ hlast)

theorem hash_not_mem_fill (hlevel : level ≠ ['#']) (h : ['#'] ∉ f) :
    ['#'] ∉ fill level f := by
  intro hmem
  obtain ⟨filter, hfilter, heq⟩ := List.mem_map.mp hmem
  split at heq
  · exact hlevel heq
  · exact h (heq ▸ hfilter)

theorem last_of_matchLevels (hlevels : levels filter = f ++ [['#']]) (h : ['#'] ∉ f)
    (hmatch : matchLevels f (levels topic) = true) : f.getLast?.getD [] ≠ [] := by
  intro hblank
  cases f with
  | nil =>
    have hnil : levels topic = [] := by simpa [matchLevels] using hmatch
    exact splitSlash_ne_nil _ hnil
  | cons first f =>
    have hlast : (first :: f).getLast? = some [] := by
      rwa [getLast?_eq_some_getLast (by simp), getD_some, ← some_inj,
        ← getLast?_eq_some_getLast] at hblank
    rcases proper_levels topic with heq | hproper
    · rw [mem_cons, not_or] at h
      rw [heq, matchLevels_cons (Ne.symm h.1), Bool.and_eq_true, decide_eq_true_eq] at hmatch
      have hfirst : first ≠ [] := by
        rintro rfl
        exact (proper_of_levels hlevels).head rfl
      obtain rfl := hmatch.1.resolve_right hfirst
      cases f with
      | nil => simp at hlast
      | cons second f =>
        rw [mem_cons, not_or] at h
        simp [matchLevels_cons_nil (Ne.symm h.2.1)] at hmatch
    · exact hproper.last (getLast?_of_matchLevels h hmatch hlast)

theorem coveredAt_of_contained (hlevels : levels filter = f ++ [['#']]) (h : ['#'] ∉ f)
    (hcontained : Contained filters filter) (hn : n = 0 → f.getLast?.getD [] ≠ []) :
    coveredAt filters f n = true := by
  obtain ⟨level, hne, hslash, hhash, hfresh⟩ := exists_fresh filters
  have hproper : Proper (fill level (f ++ List.replicate n ['+'])) :=
    ((proper_of_levels hlevels).pluses hn).fill hne hslash
  have hhash' : ['#'] ∉ fill level (f ++ List.replicate n ['+']) :=
    hash_not_mem_fill hhash (not_mem_pluses h n)
  have hmatch : isMatch filter (String.ofList (['/'].intercalate (fill level (f ++ List.replicate n ['+'])))) := by
    rw [isMatch, levels_intercalate hproper, hlevels, matchLevels_append_hash h]
    exact ⟨n, matchLevels_fill_self (not_mem_pluses h n)⟩
  obtain ⟨granted, hmem, hgranted⟩ := hcontained _ hmatch
  have hcovers := matchLevels_of_granted (by rwa [levels_intercalate hproper]) hgranted
  rw [levels_intercalate hproper, matchLevels_fill (hfresh granted hmem)] at hcovers
  exact List.any_eq_true.mpr ⟨granted, hmem, hcovers⟩

theorem contained_of_hashCovered (hlevels : levels filter = f ++ [['#']]) (h : ['#'] ∉ f)
    (hcovered : hashCovered filters filter = true) : Contained filters filter := by
  rw [hashCovered_iff hlevels h] at hcovered
  intro topic hmatch
  rw [isMatch, hlevels, matchLevels_append_hash h] at hmatch
  obtain ⟨n, hn⟩ := hmatch
  have hblank : n = 0 → f.getLast?.getD [] ≠ [] := by
    rintro rfl
    rw [replicate_zero, append_nil] at hn
    exact last_of_matchLevels hlevels h hn
  have hat : coveredAt filters f n = true := by
    by_cases hle : n ≤ deepest filters + 1
    · exact hcovered n hle hblank
    · -- a filter that reaches below the deepest one reaches any depth
      obtain ⟨granted, hmem, hcovers⟩ :=
        List.any_eq_true.mp (hcovered (deepest filters + 1) le_rfl (by simp))
      have hlength := length_le_deepest hmem
      have hdeeper := matchLevels_append_of_length_lt hcovers
        (by rw [length_append, length_replicate]; omega)
        (List.replicate (n - (deepest filters + 1)) ['+'])
      rw [append_assoc, replicate_append_replicate, Nat.add_sub_cancel' (by omega)] at hdeeper
      exact List.any_eq_true.mpr ⟨granted, hmem, hdeeper⟩
  obtain ⟨granted, hmem, hcovers⟩ := List.any_eq_true.mp hat
  exact ⟨granted, hmem, .inr (matchLevels_trans (not_mem_pluses h n) hcovers hn)⟩

theorem contained_iff (hgranted : ∃ granted ∈ filters, granted = filter ∨ isMatch granted filter) :
    Contained filters filter ↔ hashCovered filters filter = true := by
  by_cases hhash : ['#'] ∈ (levels filter).dropLast
  · refine iff_of_true (fun topic hmatch => ?_) (by simp [hashCovered, hhash])
    simp [isMatch, matchLevels_of_inner_hash hhash] at hmatch
  · by_cases hlast : (levels filter).getLast? = some ['#']
    · have hlevels : levels filter = (levels filter).dropLast ++ [['#']] :=
        (dropLast_append_getLast? _ hlast).symm
      refine ⟨fun hcontained => ?_, contained_of_hashCovered hlevels hhash⟩
      rw [hashCovered_iff hlevels hhash]
      exact fun n _ hn => coveredAt_of_contained hlevels hhash hcontained hn
    · -- without a `#` whatever grants the filter grants all its topics
      have hnone : ['#'] ∉ levels filter := by
        have hne : levels filter ≠ [] := splitSlash_ne_nil _
        intro hmem
        rw [← dropLast_append_getLast hne, mem_append] at hmem
        rcases hmem with hmem | hmem
        · exact hhash hmem
        · exact hlast (mem_singleton.mp hmem ▸ getLast?_eq_some_getLast hne)
      refine iff_of_true (fun topic hmatch => ?_) (by simp [hashCovered, hlast])
      obtain ⟨granted, hmem, hgranted⟩ := hgranted
      exact ⟨granted, hmem, .inr (matchLevels_trans hnone (matchLevels_of_granted hnone hgranted) hmatch)⟩

end

end Nodra.Router

namespace Nodra.Mqtt
open Router

structure MQTTClient where
  username : String
  password : String := ""
  publish : List String := []
  subscribe : List String := []

def authenticate (clients : List MQTTClient) (u p : String) : Bool :=
  clients.any fun cl => u = cl.username && p = cl.password

def authorize (clients : List MQTTClient) (u topic : String) (write : Bool) : Bool :=
  match clients.find? fun cl => cl.username = u with
  | none => false
  | some cl =>
    (if write then cl.publish else cl.subscribe).any fun filter => filter = topic || isMatch filter topic

def subscribeOf (clients : List MQTTClient) (u : String) : List String :=
  ((clients.find? fun cl => cl.username = u).map MQTTClient.subscribe).getD []

theorem authorize_subscribe (clients : List MQTTClient) (u filter : String) :
    authorize clients u filter false = true ↔
      ∃ granted ∈ subscribeOf clients u, granted = filter ∨ isMatch granted filter := by
  unfold authorize subscribeOf
  cases clients.find? fun cl => cl.username = u with
  | none => simp
  | some cl => simp

/-- A filter that is granted gives access to granted topics only, unless it ends in `#` and
reaches to a depth that no filter of the list covers. -/
theorem granted_topics_contained_iff (clients : List MQTTClient) (u filter : String)
    (hgranted : authorize clients u filter false = true) :
    (∀ topic, isMatch filter topic →
        ∃ granted ∈ subscribeOf clients u, granted = topic ∨ isMatch granted topic) ↔
      hashCovered (subscribeOf clients u) filter = true :=
  contained_iff ((authorize_subscribe clients u filter).mp hgranted)

def lineClients : List MQTTClient := [{ username := "press", subscribe := ["line/+", "press/#"] }]

/-- One level is granted, but `#` reaches below. -/
theorem hash_reaches_below :
    authorize lineClients "press" "line/#" false = true ∧ isMatch "line/#" "line/1/secret" = true ∧
      ¬ ∃ granted ∈ subscribeOf lineClients "press",
        granted = "line/1/secret" ∨ isMatch granted "line/1/secret" = true := by
  decide

theorem granted_topics_contained_press :
    authorize lineClients "press" "press/+/#" false = true ∧
      ∀ topic, isMatch "press/+/#" topic →
        ∃ granted ∈ subscribeOf lineClients "press", granted = topic ∨ isMatch granted topic :=
  ⟨by decide, (granted_topics_contained_iff lineClients "press" "press/+/#" (by decide)).mpr (by decide)⟩

end Nodra.Mqtt
