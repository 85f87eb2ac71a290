import Crosstab.Description
import Crosstab.Proofs.Text

/-!
# Descriptions that can be read back

A description is read by cutting it at its first arrow, its commas and the first colon of each part.
This says what has to be left out for it to be read back.
-/
namespace Crosstab.Description

open List

open Text (isBlank trim IsTrimmed)

/-- An arrow stands in the text, written as one character or as two. -/
def HasArrow (text : List Char) : Prop := arrow ∈ text ∨ ['-', '>'] <:+: text

/-- A text that can stand for the value of a dimension. -/
structure IsValue (text : String) : Prop where
  trimmed : IsTrimmed isBlank text.toList
  comma : ',' ∉ text.toList
  unarrowed : ¬ HasArrow text.toList

/-- A text that can stand for a dimension. -/
structure IsDimension (text : String) : Prop extends IsValue text where
  inhabited : text ≠ ""
  colon : ':' ∉ text.toList

/-- A text that can stand for a measure. -/
structure IsMeasure (text : String) : Prop where
  inhabited : text ≠ ""
  trimmed : IsTrimmed isBlank text.toList

/-! ### Arrows -/

theorem HasArrow.of_infix {part text : List Char} (has : HasArrow part) (inside : part <:+: text) :
    HasArrow text :=
  has.imp (fun member => inside.subset member) fun spelled => spelled.trans inside

theorem not_hasArrow_nil : ¬ HasArrow [] := by simp [HasArrow]

theorem hasArrow_cons {c : Char} {rest : List Char} :
    HasArrow (c :: rest) ↔ c = arrow ∨ (c = '-' ∧ rest.head? = some '>') ∨ HasArrow rest := by
  have spelled : ['-', '>'] <+: c :: rest ↔ c = '-' ∧ rest.head? = some '>' := by
    cases rest <;> simp [eq_comm]
  rw [HasArrow, HasArrow, mem_cons, infix_cons_iff, spelled, eq_comm (a := arrow)]
  tauto

theorem hasArrow_append_cons {c : Char} (plain : c ∉ ['-', '>', arrow]) (front back : List Char) :
    HasArrow (front ++ c :: back) ↔ HasArrow front ∨ HasArrow back := by
  simp only [mem_cons, not_mem_nil, or_false, not_or] at plain
  obtain ⟨noTail, noHead, noArrow⟩ := plain
  induction front with
  | nil => simp [hasArrow_cons, not_hasArrow_nil, noTail, noArrow]
  | cons first front ih =>
    have next : (front ++ c :: back).head? = some '>' ↔ front.head? = some '>' := by
      cases front <;> simp [noHead]
    rw [cons_append, hasArrow_cons, hasArrow_cons, ih, next]
    tauto

theorem splitArrow_cons (c : Char) (rest : List Char) :
    splitArrow (c :: rest) =
      if c = '-' ∧ rest.head? = some '>' then some ([], rest.tail)
      else if c = arrow then some ([], rest)
      else (splitArrow rest).map fun parts => (c :: parts.1, parts.2) := by
  by_cases spelled : c = '-' ∧ rest.head? = some '>'
  · obtain ⟨rfl, first⟩ := spelled
    obtain ⟨behind, rfl⟩ := head?_eq_some_iff.mp first
    simp [splitArrow]
  · rw [if_neg spelled, splitArrow]
    rintro behind rfl rfl
    exact spelled ⟨rfl, rfl⟩

theorem splitArrow_eq_some {text before after : List Char}
    (cut : splitArrow text = some (before, after)) :
    before <+: text ∧ ¬ HasArrow before ∧ after.length < text.length := by
  induction text generalizing before with
  | nil => cases cut
  | cons c rest ih =>
    rw [splitArrow_cons] at cut
    split at cut
    · cases cut
      have shorter : rest.tail.length < (c :: rest).length := by
        rw [length_tail, length_cons]
        omega
      exact ⟨List.nil_prefix, not_hasArrow_nil, shorter⟩
    next unspelled =>
      split at cut
      · cases cut
        exact ⟨List.nil_prefix, not_hasArrow_nil, by simp⟩
      next other =>
        obtain ⟨⟨front, back⟩, deeper, made⟩ := Option.map_eq_some_iff.mp cut
        cases made
        obtain ⟨⟨behind, rfl⟩, unarrowed, shorter⟩ := ih deeper
        refine ⟨⟨behind, rfl⟩, ?_, Nat.lt_succ_of_lt shorter⟩
        rw [hasArrow_cons, not_or, not_or]
        refine ⟨other, ?_, unarrowed⟩
        -- An arrow that starts here would go on in the text as it does in its front.
        rintro ⟨tail, head⟩
        apply unspelled
        rw [head?_append, head]
        exact ⟨tail, rfl⟩

private theorem splitArrow_eq_none {text : List Char} (uncut : splitArrow text = none) :
    ¬ HasArrow text := by
  induction text with
  | nil => exact not_hasArrow_nil
  | cons c rest ih =>
    rw [splitArrow_cons] at uncut
    split at uncut
    · cases uncut
    next unspelled =>
      split at uncut
      · cases uncut
      next other =>
        rw [hasArrow_cons, not_or, not_or]
        exact ⟨other, unspelled, ih (Option.map_eq_none_iff.mp uncut)⟩

private theorem splitArrow_append {before : List Char} (unarrowed : ¬ HasArrow before)
    (after : List Char) : splitArrow (before ++ arrow :: after) = some (before, after) := by
  induction before with
  | nil => simp [splitArrow_cons, arrow]
  | cons c before ih =>
    rw [hasArrow_cons, not_or, not_or] at unarrowed
    obtain ⟨other, unspelled, later⟩ := unarrowed
    have apart : ¬ (c = '-' ∧ (before ++ arrow :: after).head? = some '>') := by
      cases before with
      | nil => simp [arrow]
      | cons next before => simpa using unspelled
    rw [cons_append, splitArrow_cons, if_neg apart, if_neg other, ih later]
    rfl

/-! ### Parts of the dimensions -/

private theorem splitFirst_append {mark : Char} {front : List Char} (unmarked : mark ∉ front)
    (back : List Char) : splitFirst mark (front ++ mark :: back) = some (front, back) := by
  induction front with
  | nil => simp [splitFirst]
  | cons c front ih =>
    rw [mem_cons, not_or] at unmarked
    rw [cons_append, splitFirst, if_neg (Ne.symm unmarked.1), ih unmarked.2]
    rfl

private theorem splitFirst_eq_some {mark : Char} {text front back : List Char}
    (cut : splitFirst mark text = some (front, back)) :
    text = front ++ mark :: back ∧ mark ∉ front := by
  induction text generalizing front with
  | nil => cases cut
  | cons c rest ih =>
    rw [splitFirst] at cut
    split at cut
    next found =>
      cases cut
      exact ⟨by rw [found]; rfl, not_mem_nil⟩
    next other =>
      obtain ⟨⟨deeper, behind⟩, found, made⟩ := Option.map_eq_some_iff.mp cut
      cases made
      obtain ⟨rfl, unmarked⟩ := ih found
      exact ⟨rfl, by simpa [Ne.symm other] using unmarked⟩

private theorem splitCommas_eq_splitOn (text : List Char) : splitCommas text = text.splitOn ',' := by
  induction text with
  | nil => rfl
  | cons c rest ih =>
    rw [splitCommas, splitOn_cons_eq_if_modifyHead, ih]
    cases parts : rest.splitOn ',' with
    | nil => exact absurd parts (splitOn_ne_nil _ _)
    | cons part parts => simp

/-- The parts stand in the text without its commas, the first one at its start. -/
theorem splitCommas_parts (text : List Char) : ∃ part parts, splitCommas text = part :: parts ∧
    part <+: text ∧ ∀ p ∈ part :: parts, ',' ∉ p ∧ p <:+: text := by
  induction text with
  | nil => exact ⟨[], [], rfl, nil_prefix, by simp⟩
  | cons c rest ih =>
    obtain ⟨part, parts, cut, starts, each⟩ := ih
    have further : ∀ p ∈ part :: parts, ',' ∉ p ∧ p <:+: c :: rest := fun p member =>
      ⟨(each p member).1, (each p member).2.trans (suffix_cons c rest).isInfix⟩
    rw [splitCommas, cut]
    split
    · refine ⟨[], part :: parts, rfl, nil_prefix, ?_⟩
      rw [forall_mem_cons]
      exact ⟨⟨not_mem_nil, nil_infix⟩, further⟩
    next other =>
      rw [forall_mem_cons] at each further
      have longer : c :: part <+: c :: rest := cons_prefix_cons.mpr ⟨rfl, starts⟩
      refine ⟨c :: part, parts, rfl, longer, forall_mem_cons.mpr ⟨?_, further.2⟩⟩
      exact ⟨by simpa [Ne.symm other] using each.1.1, longer.isInfix⟩

/-! ### What is read -/

private theorem isValue_trim {inner part : List Char} (inside : inner <:+: part) (comma : ',' ∉ part)
    (unarrowed : ¬ HasArrow part) : IsValue (String.ofList (trim isBlank inner)) := by
  have within : trim isBlank inner <:+: part := (Text.trim_infix inner).trans inside
  constructor
  · rw [String.toList_ofList]
    exact Text.isTrimmed_trim inner
  · rw [String.toList_ofList]
    exact fun member => comma (within.subset member)
  · rw [String.toList_ofList]
    exact fun has => unarrowed (has.of_infix within)

variable {text : String} {pair : String × String} {pairs : List (String × String)}

private theorem readPair?_eq_some {part : List Char}
    (read : readPair? part = some pair) (comma : ',' ∉ part) (unarrowed : ¬ HasArrow part) :
    IsDimension pair.1 ∧ IsValue pair.2 := by
  unfold readPair? at read
  split at read
  · cases read
  next dimension value cut =>
    obtain ⟨rfl, colon⟩ := splitFirst_eq_some cut
    simp only at read
    split at read
    · cases read
    next inhabited =>
      cases read
      refine ⟨⟨?_, ?_, ?_⟩, ?_⟩
      · exact isValue_trim (prefix_append ..).isInfix comma unarrowed
      · simpa using inhabited
      · rw [String.toList_ofList]
        exact fun member => colon ((Text.trim_infix dimension).subset member)
      · exact isValue_trim ⟨dimension ++ [':'], [], by simp⟩ comma unarrowed

theorem parse_of_cut {before after : List Char}
    (cut : splitArrow (trim isBlank text.toList) = some (before, after)) :
    parse text = ((splitCommas before).filterMap readPair?,
      if (trim isBlank after).isEmpty then none else some (String.ofList (trim isBlank after))) := by
  simp only [parse, cut]

theorem parse_of_uncut (uncut : splitArrow (trim isBlank text.toList) = none) :
    parse text = ((splitCommas (trim isBlank text.toList)).filterMap readPair?, none) := by
  simp only [parse, uncut]
  rfl

theorem proper_of_parse {measure : Option String} (read : parse text = (pairs, measure)) :
    ∀ pair ∈ pairs, IsDimension pair.1 ∧ IsValue pair.2 := by
  -- Dimensions are read from what comes before the first arrow, and so from a text without one.
  obtain ⟨dimensions, unarrowed, rfl⟩ : ∃ dimensions, ¬ HasArrow dimensions ∧
      pairs = (splitCommas dimensions).filterMap readPair? := by
    cases cut : splitArrow (trim isBlank text.toList) with
    | none =>
      rw [parse_of_uncut cut] at read
      exact ⟨_, splitArrow_eq_none cut, (congrArg Prod.fst read).symm⟩
    | some parts =>
      rw [parse_of_cut cut] at read
      exact ⟨_, (splitArrow_eq_some cut).2.1, (congrArg Prod.fst read).symm⟩
  intro pair member
  obtain ⟨part, among, read⟩ := mem_filterMap.mp member
  obtain ⟨first, others, cut, _, each⟩ := splitCommas_parts dimensions
  obtain ⟨comma, inside⟩ := each part (cut ▸ among)
  exact readPair?_eq_some read comma fun has => unarrowed (has.of_infix inside)

theorem measure_of_parse {measure : String} (read : parse text = (pairs, some measure)) :
    IsMeasure measure ∧ measure.length < text.length := by
  cases cut : splitArrow (trim isBlank text.toList) with
  | none =>
    rw [parse_of_uncut cut] at read
    cases read
  | some parts =>
    rw [parse_of_cut cut] at read
    have after := congrArg Prod.snd read
    simp only at after
    split at after
    · cases after
    next inhabited =>
      cases after
      refine ⟨⟨by simpa using inhabited, ?_⟩, ?_⟩
      · rw [String.toList_ofList]
        exact Text.isTrimmed_trim parts.2
      · have shorter := (splitArrow_eq_some cut).2.2
        have inner := (Text.trim_infix parts.2 : trim isBlank _ <:+: _).length_le
        have outer := (Text.trim_infix text.toList : trim isBlank _ <:+: _).length_le
        rw [String.length_ofList, ← String.length_toList]
        omega

/-! ### What is written -/

theorem toList_pairText (pair : String × String) :
    (pairText pair).toList = pair.1.toList ++ ':' :: ' ' :: pair.2.toList := by
  simp [pairText]

private theorem readPair?_pairText (dimension : IsDimension pair.1)
    (value : IsValue pair.2) {front back : List Char} (inFront : ∀ c ∈ front, isBlank c)
    (inBack : ∀ c ∈ back, isBlank c) :
    readPair? (front ++ (pairText pair).toList ++ back) = some pair := by
  have colon : ':' ∉ front ++ pair.1.toList := by
    rw [mem_append, not_or]
    exact ⟨fun member => absurd (inFront _ member) (by decide), dimension.colon⟩
  have cut : splitFirst ':' (front ++ (pairText pair).toList ++ back) =
      some (front ++ pair.1.toList, [' '] ++ pair.2.toList ++ back) := by
    rw [← splitFirst_append colon, toList_pairText]
    simp
  have left : trim isBlank (front ++ pair.1.toList) = pair.1.toList := by
    simpa using Text.trim_between inFront (forall_mem_nil _) dimension.trimmed
  have right : trim isBlank ([' '] ++ pair.2.toList ++ back) = pair.2.toList :=
    Text.trim_between (by simp; decide) inBack value.trimmed
  have inhabited : ¬ pair.1.toList.isEmpty := by simpa using dimension.inhabited
  simp only [readPair?, cut, left, right, if_neg inhabited, String.ofList_toList]

def pairChars (pairs : List (String × String)) : List Char :=
  [',', ' '].intercalate (pairs.map fun pair => (pairText pair).toList)

theorem pairChars_cons_cons (pair next : String × String) (pairs : List (String × String)) :
    pairChars (pair :: next :: pairs) =
      (pairText pair).toList ++ ',' :: ' ' :: pairChars (next :: pairs) := by
  simp [pairChars, intercalate_cons_cons]

private theorem exists_pairChars_cons (pair : String × String) (pairs : List (String × String)) :
    ∃ behind, pairChars (pair :: pairs) = pair.1.toList ++ behind := by
  cases pairs with
  | nil => exact ⟨':' :: ' ' :: pair.2.toList, by simp [pairChars, toList_pairText]⟩
  | cons next pairs =>
    rw [pairChars_cons_cons, toList_pairText, append_assoc]
    exact ⟨_, rfl⟩

private theorem toList_describe (inhabited : pairs ≠ []) (measure : String) :
    (describe pairs measure).toList =
      (pairChars pairs ++ [' ']) ++ arrow :: ([' '] ++ measure.toList) := by
  have some : ¬ pairs.isEmpty := by simpa using inhabited
  simp [describe, some, pairChars, String.toList_intercalate, Function.comp_def]

theorem plain_pairText (dimension : IsDimension pair.1) (value : IsValue pair.2) :
    ',' ∉ (pairText pair).toList ∧ ¬ HasArrow (pairText pair).toList := by
  rw [toList_pairText]
  constructor
  · simp [dimension.comma, value.comma]
  · have behind : HasArrow (' ' :: pair.2.toList) ↔ _ := hasArrow_append_cons (by decide) [] _
    rw [hasArrow_append_cons (by decide), behind]
    simp [dimension.unarrowed, value.unarrowed, not_hasArrow_nil]

section

variable (proper : ∀ pair ∈ pairs, IsDimension pair.1 ∧ IsValue pair.2)

include proper

private theorem not_hasArrow_pairChars : ¬ HasArrow (pairChars pairs) := by
  induction pairs with
  | nil => exact not_hasArrow_nil
  | cons pair pairs ih =>
    rw [forall_mem_cons] at proper
    have own := (plain_pairText proper.1.1 proper.1.2).2
    cases pairs with
    | nil => simpa [pairChars] using own
    | cons next pairs =>
      have behind : HasArrow (' ' :: pairChars (next :: pairs)) ↔ _ :=
        hasArrow_append_cons (by decide) [] _
      rw [pairChars_cons_cons, hasArrow_append_cons (by decide), behind]
      simp [own, ih proper.2, not_hasArrow_nil]

/-- The parts between the commas are read back as the pairs, with blanks around them. -/
theorem filterMap_readPair? (inhabited : pairs ≠ []) {front : List Char}
    (inFront : ∀ c ∈ front, isBlank c) :
    (splitCommas (front ++ pairChars pairs ++ [' '])).filterMap readPair? = pairs := by
  have blank : ∀ c ∈ [' '], isBlank c := by simp; decide
  induction pairs generalizing front with
  | nil => exact absurd rfl inhabited
  | cons pair pairs ih =>
    rw [forall_mem_cons] at proper
    obtain ⟨⟨dimension, value⟩, others⟩ := proper
    have comma : ',' ∉ front ++ (pairText pair).toList := by
      rw [mem_append, not_or]
      exact ⟨fun member => absurd (inFront _ member) (by decide), (plain_pairText dimension value).1⟩
    cases pairs with
    | nil =>
      have single : pairChars [pair] = (pairText pair).toList := by simp [pairChars]
      have last : ',' ∉ front ++ (pairText pair).toList ++ [' '] := by simpa using comma
      rw [splitCommas_eq_splitOn, single, splitOn_eq_singleton last]
      rw [filterMap_cons, readPair?_pairText dimension value inFront blank]
      rfl
    | cons next pairs =>
      -- The blank behind a comma belongs to the next part.
      have cut : splitCommas (front ++ pairChars (pair :: next :: pairs) ++ [' ']) =
          (front ++ (pairText pair).toList) ::
            splitCommas ([' '] ++ pairChars (next :: pairs) ++ [' ']) := by
        rw [splitCommas_eq_splitOn, splitCommas_eq_splitOn,
          ← splitOn_append_cons_self_of_not_mem comma, pairChars_cons_cons]
        simp
      have first := readPair?_pairText dimension value inFront (forall_mem_nil _)
      rw [append_nil] at first
      rw [cut, filterMap_cons, first, ih others (cons_ne_nil _ _) blank]

/-- A description that is put together from proper texts is read back. -/
theorem parse_describe_of_proper (inhabited : pairs ≠ []) {measure : String} (named : IsMeasure measure) :
    parse (describe pairs measure) = (pairs, some measure) := by
  have ends : IsTrimmed isBlank (describe pairs measure).toList := by
    cases pairs with
    | nil => contradiction
    | cons pair pairs =>
      obtain ⟨behind, spelled⟩ := exists_pairChars_cons pair pairs
      have dimension := (proper pair mem_cons_self).1
      have trimmed := Text.isTrimmed_append dimension.trimmed (by simpa using dimension.inhabited)
        named.trimmed (by simpa using named.inhabited) (behind ++ [' ', arrow, ' '])
      rw [toList_describe inhabited, spelled]
      simpa using trimmed
  have cut : splitArrow (trim isBlank (describe pairs measure).toList) =
      some (pairChars pairs ++ [' '], [' '] ++ measure.toList) := by
    rw [Text.trim_eq_self ends, toList_describe inhabited, splitArrow_append]
    rw [hasArrow_append_cons (by decide)]
    simp [not_hasArrow_pairChars proper, not_hasArrow_nil]
  have behind : trim isBlank ([' '] ++ measure.toList) = measure.toList := by
    have blank : ∀ c ∈ [' '], isBlank c := by simp; decide
    simpa using Text.trim_between blank (forall_mem_nil _) named.trimmed
  have before := filterMap_readPair? proper inhabited (forall_mem_nil _)
  have some : ¬ measure.toList.isEmpty := by simpa using named.inhabited
  rw [parse_of_cut cut, behind, if_neg some, String.ofList_toList]
  exact congrArg (·, Option.some measure) before

end

/-! ### Reading back -/

/-- A description is read back exactly if it has a pair, if its dimensions, values and measure are
trimmed, and if none of them contains what would end it. -/
theorem parse_describe_iff (pairs : List (String × String)) (measure : String) :
    parse (describe pairs measure) = (pairs, some measure) ↔
      pairs ≠ [] ∧ (∀ pair ∈ pairs, IsDimension pair.1 ∧ IsValue pair.2) ∧ IsMeasure measure := by
  constructor
  · intro read
    obtain ⟨named, shorter⟩ := measure_of_parse read
    refine ⟨?_, proper_of_parse read, named⟩
    -- Without pairs the measure would be read from a part of itself.
    rintro rfl
    exact absurd shorter (Nat.lt_irrefl _)
  · rintro ⟨inhabited, proper, named⟩
    exact parse_describe_of_proper proper inhabited named

/-- What is read from any text can be written and read again. -/
theorem parse_describe_of_parse {text measure : String} {pairs : List (String × String)}
    (read : parse text = (pairs, some measure)) (inhabited : pairs ≠ []) :
    (∀ pair ∈ pairs, IsDimension pair.1 ∧ IsValue pair.2) ∧ IsMeasure measure ∧
      parse (describe pairs measure) = (pairs, some measure) := by
  have proper := proper_of_parse read
  have named := (measure_of_parse read).1
  exact ⟨proper, named, parse_describe_of_proper proper inhabited named⟩

/-- Parts that are no pairs are left out, a value keeps its colons and a measure its arrows. -/
theorem untidy_text_is_tidied :
    parse "\t town : York ,, old,: no , hours :9:30->\u00a0pay, -> mean→ " =
        ([("town", "York"), ("hours", "9:30")], some "pay, -> mean→") ∧
      parse (describe [("town", "York"), ("hours", "9:30")] "pay, -> mean→") =
        ([("town", "York"), ("hours", "9:30")], some "pay, -> mean→") := by
  have read : parse "\t town : York ,, old,: no , hours :9:30->\u00a0pay, -> mean→ " =
      ([("town", "York"), ("hours", "9:30")], some "pay, -> mean→") := by decide +kernel
  exact ⟨read, (parse_describe_of_parse read (by simp)).2.2⟩

end Crosstab.Description
