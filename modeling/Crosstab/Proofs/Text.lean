import Crosstab.Text
import Mathlib.Data.List.Basic
import Mathlib.Tactic.IntervalCases

/-!
# Delimited, trimmed and quoted texts

A part of a text ends before a character that it does not contain, or says itself where it ends;
then the text can be taken apart again. A quoted text says where it ends and what it quotes.
-/
namespace Crosstab

open List

variable {α : Type}

theorem forall_mem_of_all {p : α → Prop} [DecidablePred p] {list : List α}
    (checked : (list.all fun a => p a) = true) : ∀ a ∈ list, p a := by
  simpa using checked

variable {p : α → Bool} {front rest : List α}

theorem takeWhile_append_stop (all : ∀ c ∈ front, p c) (stop : ∀ c ∈ rest.head?, p c = false) :
    (front ++ rest).takeWhile p = front ∧ (front ++ rest).dropWhile p = rest := by
  have stopped : rest.takeWhile p = [] ∧ rest.dropWhile p = rest := by
    cases rest with
    | nil => exact ⟨rfl, rfl⟩
    | cons c rest => simp [stop c rfl]
  rw [takeWhile_append_of_pos all, dropWhile_append_of_pos all, stopped.1, stopped.2]
  exact ⟨append_nil _, rfl⟩

theorem append_unique_of_stop {front' rest' : List α} (all : ∀ c ∈ front, p c)
    (all' : ∀ c ∈ front', p c) (stop : ∀ c ∈ rest.head?, p c = false)
    (stop' : ∀ c ∈ rest'.head?, p c = false) (same : front ++ rest = front' ++ rest') :
    front = front' ∧ rest = rest' := by
  obtain ⟨taken, dropped⟩ := takeWhile_append_stop all stop
  obtain ⟨taken', dropped'⟩ := takeWhile_append_stop all' stop'
  rw [same] at taken dropped
  exact ⟨taken.symm.trans taken', dropped.symm.trans dropped'⟩

/-- Parts that say where they end if one of some characters follows. -/
def SelfDelimiting (stops : List Char) (written : α → List Char) (a b : α) : Prop :=
  ∀ rest rest', (∀ c ∈ rest.head?, c ∈ stops) → (∀ c ∈ rest'.head?, c ∈ stops) →
    written a ++ rest = written b ++ rest' → a = b ∧ rest = rest'

theorem intercalate_cons (separator part : List Char) (parts : List (List Char)) :
    separator.intercalate (part :: parts) = part ++ parts.flatMap (separator ++ ·) := by
  induction parts generalizing part with
  | nil => simp
  | cons next parts ih =>
    rw [intercalate_cons_cons, ih, flatMap_cons, append_assoc, append_assoc]

section

variable {stops : List Char} {written : α → List Char} {between close : Char} {more : List Char}
  (separates : between ∈ stops) (closes : close ∈ stops)

include separates closes

/-- Behind a part stands what separates it from the next one, or what closes the list. -/
theorem head_separated (parts : List α) (rest : List Char) :
    ∀ c ∈ (parts.flatMap (fun a => between :: more ++ written a) ++ close :: rest).head?,
      c ∈ stops := by
  cases parts with
  | nil => simpa using closes
  | cons a parts => simpa using separates

variable (apart : between ≠ close)

include apart

variable {parts others : List α} {rest rest' : List Char}

/-- Separated parts are known up to the character that closes them. -/
theorem separated_unique (delimited : ∀ a ∈ parts, ∀ b ∈ others, SelfDelimiting stops written a b)
    (same : parts.flatMap (fun a => between :: more ++ written a) ++ close :: rest =
      others.flatMap (fun b => between :: more ++ written b) ++ close :: rest') :
    parts = others ∧ rest = rest' := by
  -- Where one list has ended, a closing character would have to be what separates parts.
  induction parts generalizing others with
  | nil =>
    cases others with
    | nil => exact ⟨rfl, by simpa using same⟩
    | cons b others =>
      injection same with first _
      exact absurd first.symm apart
  | cons a parts ih =>
    cases others with
    | nil =>
      injection same with first _
      exact absurd first apart
    | cons b others =>
      simp only [flatMap_cons, append_assoc, cons_append, List.cons.injEq, true_and,
        append_cancel_left_eq] at same
      obtain ⟨rfl, behind⟩ := delimited a mem_cons_self b mem_cons_self _ _
        (head_separated separates closes parts rest) (head_separated separates closes others rest') same
      obtain ⟨rfl, after⟩ := ih (fun x first y second => delimited x (mem_cons_of_mem _ first) y
        (mem_cons_of_mem _ second)) behind
      exact ⟨rfl, after⟩

/-- A list of one part at least is known by what separates and what closes it. -/
theorem intercalate_cons_unique {a b : α}
    (delimited : ∀ x ∈ a :: parts, ∀ y ∈ b :: others, SelfDelimiting stops written x y)
    (same : (between :: more).intercalate ((a :: parts).map written) ++ close :: rest =
      (between :: more).intercalate ((b :: others).map written) ++ close :: rest') :
    a :: parts = b :: others ∧ rest = rest' := by
  simp only [map_cons, intercalate_cons, flatMap_map, append_assoc] at same
  obtain ⟨rfl, behind⟩ := delimited a mem_cons_self b mem_cons_self _ _
    (head_separated separates closes parts rest) (head_separated separates closes others rest') same
  obtain ⟨rfl, after⟩ := separated_unique separates closes apart (fun x first y second =>
    delimited x (mem_cons_of_mem _ first) y (mem_cons_of_mem _ second)) behind
  exact ⟨rfl, after⟩

/-- A list is known by what separates and what closes it, if no part starts like its end. -/
theorem intercalate_unique (delimited : ∀ a ∈ parts, ∀ b ∈ others, SelfDelimiting stops written a b)
    (opened : ∀ a ∈ parts ++ others, ∃ first behind, written a = first :: behind ∧ first ≠ close)
    (same : (between :: more).intercalate (parts.map written) ++ close :: rest =
      (between :: more).intercalate (others.map written) ++ close :: rest') :
    parts = others ∧ rest = rest' := by
  have refused {a : α} (listed : a ∈ parts ++ others) (list : List α) (front back : List Char) :
      (between :: more).intercalate ((a :: list).map written) ++ front ≠ close :: back := by
    obtain ⟨first, behind, spelled, other⟩ := opened a listed
    rw [map_cons, intercalate_cons, spelled]
    intro equal
    injection equal with head _
    exact other head
  cases parts with
  | nil =>
    cases others with
    | nil => exact ⟨rfl, by simpa using same⟩
    | cons b others => exact absurd same.symm (refused (by simp) others _ _)
  | cons a parts =>
    cases others with
    | nil => exact absurd same (refused (by simp) parts _ _)
    | cons b others => exact intercalate_cons_unique separates closes apart delimited same

end

/-! ### Trimmed texts -/

namespace Text

variable {inClass : Char → Bool} {text front back : List Char}

def IsTrimmed (inClass : Char → Bool) (text : List Char) : Prop :=
  (∀ c ∈ text.head?, inClass c = false) ∧ ∀ c ∈ text.getLast?, inClass c = false

private theorem isTrimmed_reverse (trimmed : IsTrimmed inClass text) :
    IsTrimmed inClass text.reverse := by
  rw [IsTrimmed, head?_reverse, getLast?_reverse]
  exact trimmed.symm

theorem isTrimmed_append (first : IsTrimmed inClass front)
    (frontInhabited : front ≠ []) (last : IsTrimmed inClass back) (backInhabited : back ≠ [])
    (text : List Char) : IsTrimmed inClass (front ++ text ++ back) := by
  constructor
  · rw [append_assoc, head?_append_of_ne_nil _ frontInhabited]
    exact first.1
  · rw [getLast?_append_of_ne_nil _ backInhabited]
    exact last.2

private theorem head?_dropWhile (text : List Char) :
    ∀ c ∈ (text.dropWhile inClass).head?, inClass c = false := by
  intro c first
  have stopped := head?_dropWhile_not inClass text
  rw [Option.mem_def.mp first] at stopped
  exact stopped

/-- What is in the class is dropped in front of a trimmed text, and if the text is empty also behind
it. -/
theorem dropWhile_front (inFront : ∀ c ∈ front, inClass c)
    (inBack : ∀ c ∈ back, inClass c) (trimmed : IsTrimmed inClass text) :
    (front ++ text ++ back).dropWhile inClass = if text = [] then [] else text ++ back := by
  rw [append_assoc, dropWhile_append_of_pos inFront]
  cases text with
  | nil =>
    have dropped : (back ++ []).dropWhile inClass = [] := dropWhile_append_of_pos inBack
    simpa using dropped
  | cons c rest => simp [trimmed.1 c rfl]

theorem trim_between (inFront : ∀ c ∈ front, inClass c)
    (inBack : ∀ c ∈ back, inClass c) (trimmed : IsTrimmed inClass text) :
    trim inClass (front ++ text ++ back) = text := by
  rw [trim, dropWhile_front inFront inBack trimmed]
  split
  next empty => simp [empty]
  next inhabited =>
    have behind : ∀ c ∈ back.reverse, inClass c := by simpa using inBack
    have dropped := dropWhile_front behind (forall_mem_nil _) (isTrimmed_reverse trimmed)
    simp only [append_nil, reverse_eq_nil_iff, inhabited, ↓reduceIte] at dropped
    rw [reverse_append, dropped, reverse_reverse]

theorem trim_eq_self (trimmed : IsTrimmed inClass text) : trim inClass text = text := by
  simpa using trim_between (forall_mem_nil _) (forall_mem_nil _) trimmed

theorem trim_prefix_dropWhile (text : List Char) : trim inClass text <+: text.dropWhile inClass := by
  rw [trim, ← reverse_suffix, reverse_reverse]
  exact dropWhile_suffix inClass

theorem trim_infix (text : List Char) : trim inClass text <:+: text :=
  (trim_prefix_dropWhile text).isInfix.trans (dropWhile_suffix inClass).isInfix

theorem isTrimmed_trim (text : List Char) : IsTrimmed inClass (trim inClass text) := by
  constructor
  · -- What is left starts as the text without its front does, unless it is empty.
    intro c first
    obtain ⟨rest, spelled⟩ : trim inClass text <+: _ := trim_prefix_dropWhile text
    apply head?_dropWhile text
    rw [← spelled, head?_append, Option.mem_def.mp first]
    rfl
  · rw [trim, getLast?_reverse]
    exact head?_dropWhile _

/-! ### Hexadecimal digits -/

def hexDigitValue (c : Char) : Nat := if c.isDigit then c.toNat - 48 else c.toNat - 87

def hexValue (digits : List Char) : Nat :=
  digits.foldl (fun value c => 16 * value + hexDigitValue c) 0

private theorem hexDigitValue_digitChar {n : Nat} (small : n < 16) : hexDigitValue n.digitChar = n := by
  interval_cases n <;> rfl

private theorem hexValue_toDigits (n : Nat) : hexValue (Nat.toDigits 16 n) = n := by
  induction n using Nat.strongRecOn with
  | ind n ih =>
    rw [Nat.toDigits_eq_if (by decide)]
    split
    next small => simp [hexValue, hexDigitValue_digitChar small]
    next large =>
      have front := ih (n / 16) (by omega)
      rw [hexValue] at front ⊢
      rw [foldl_append, front, foldl_cons, foldl_nil,
        hexDigitValue_digitChar (Nat.mod_lt _ (by decide)), Nat.div_add_mod]

private theorem hexValue_hexDigits (width code : Nat) : hexValue (hexDigits width code) = code := by
  have zeros (count : Nat) :
      (replicate count '0').foldl (fun value c => 16 * value + hexDigitValue c) 0 = 0 := by
    induction count with
    | zero => rfl
    | succ count ih =>
      exact ih
  unfold hexDigits hexValue
  rw [foldl_append, zeros]
  exact hexValue_toDigits code

variable {width : Nat} {quote : Char} {a b rest rest' : List Char}

private theorem length_hexDigits {code : Nat} (some : 0 < width) (fits : code < 16 ^ width) :
    (hexDigits width code).length = width := by
  have short := (Nat.length_toDigits_le_iff (by decide) some).mpr fits
  unfold hexDigits
  rw [length_append, length_replicate]
  omega

/-! ### Escapes -/

/-- The number of digits behind the mark of a hexadecimal escape. -/
def hexWidth? : Char → Option Nat
  | 'x' => some 2
  | 'u' => some 4
  | 'U' => some 8
  | _ => none

/-- The character behind the backslash of a short escape. -/
def shortEscape : Char → Char
  | 'n' => '\n'
  | 'r' => '\r'
  | 't' => '\t'
  | mark => mark

/-- Takes one character back from the front of an escaped text. -/
def takeChar : List Char → Option (Char × List Char)
  | [] => none
  | first :: rest =>
    if first = '\\' then
      match rest with
      | [] => none
      | mark :: rest =>
        match hexWidth? mark with
        | some width => some (Char.ofNat (hexValue (rest.take width)), rest.drop width)
        | none => some (shortEscape mark, rest)
    else some (first, rest)

private theorem takeChar_hexDigits {mark : Char} (marks : hexWidth? mark = some width) {c : Char}
    (fits : c.toNat < 16 ^ width) (some : 0 < width) (rest : List Char) :
    takeChar ('\\' :: mark :: hexDigits width c.toNat ++ rest) = Option.some (c, rest) := by
  have length := length_hexDigits some fits
  show takeChar ('\\' :: mark :: (hexDigits width c.toNat ++ rest)) = _
  simp only [takeChar, ↓reduceIte, marks]
  rw [take_left' length, drop_left' length, hexValue_hexDigits, Char.ofNat_toNat]

/-- A literal is delimited by an apostrophe or a double quote. -/
def IsQuote (quote : Char) : Prop := quote = '\'' ∨ quote = '"'

theorem isQuote_quoteFor (text : List Char) : IsQuote (quoteFor text) := by
  unfold quoteFor
  split
  · exact .inr rfl
  · exact .inl rfl

private theorem takeChar_escapeChar (isQuote : IsQuote quote) (c : Char) (rest : List Char) :
    takeChar (escapeChar quote c ++ rest) = some (c, rest) := by
  unfold escapeChar
  by_cases special : c = quote ∨ c = '\\'
  · rw [if_pos special]
    rcases special with rfl | rfl
    · rcases isQuote with rfl | rfl <;> rfl
    · rfl
  · rw [if_neg special]
    -- The three blanks with short escapes, then what is shown as it is, then the three widths.
    split
    next newline => rw [newline]; rfl
    split
    next back => rw [back]; rfl
    split
    next tab => rw [tab]; rfl
    split
    next => simp [takeChar, not_or.mp special]
    split
    next short => exact takeChar_hexDigits rfl short (by decide) rest
    split
    next medium => exact takeChar_hexDigits rfl medium (by decide) rest
    next => exact takeChar_hexDigits rfl c.val.toNat_lt (by decide) rest

private theorem exists_head_escapeChar (isQuote : IsQuote quote) (c : Char) :
    ∃ first rest, escapeChar quote c = first :: rest ∧ first ≠ quote := by
  have unescaped : '\\' ≠ quote := by rcases isQuote with rfl | rfl <;> decide
  unfold escapeChar
  split
  · exact ⟨_, _, rfl, unescaped⟩
  next ordinary =>
    split
    · exact ⟨_, _, rfl, unescaped⟩
    split
    · exact ⟨_, _, rfl, unescaped⟩
    split
    · exact ⟨_, _, rfl, unescaped⟩
    split
    · exact ⟨_, _, rfl, (not_or.mp ordinary).1⟩
    split
    · exact ⟨_, _, rfl, unescaped⟩
    split
    · exact ⟨_, _, rfl, unescaped⟩
    · exact ⟨_, _, rfl, unescaped⟩

private theorem escaped_unique (isQuote : IsQuote quote)
    (same : a.flatMap (escapeChar quote) ++ quote :: rest =
      b.flatMap (escapeChar quote) ++ quote :: rest') : a = b ∧ rest = rest' := by
  induction a generalizing b with
  | nil =>
    cases b with
    | nil => exact ⟨rfl, by simpa using same⟩
    | cons c b =>
      obtain ⟨first, more, escaped, other⟩ := exists_head_escapeChar isQuote c
      rw [flatMap_cons, escaped] at same
      injection same with equal _
      exact absurd equal.symm other
  | cons c a ih =>
    cases b with
    | nil =>
      obtain ⟨first, more, escaped, other⟩ := exists_head_escapeChar isQuote c
      rw [flatMap_cons, escaped] at same
      injection same with equal _
      exact absurd equal other
    | cons d b =>
      -- Taking one character back from both sides leaves the induction hypothesis.
      have taken := congrArg takeChar same
      simp only [flatMap_cons, append_assoc, takeChar_escapeChar isQuote, Option.some.injEq,
        Prod.mk.injEq] at taken
      obtain ⟨rfl, behind⟩ := taken
      obtain ⟨rfl, after⟩ := ih behind
      exact ⟨rfl, after⟩

/-- Quoted texts with anything behind them are alike only if they quote the same. -/
theorem quotedChars_unique (same : quotedChars a ++ rest = quotedChars b ++ rest') :
    a = b ∧ rest = rest' := by
  unfold quotedChars at same
  simp only [cons_append, append_assoc, cons.injEq] at same
  obtain ⟨quote, same⟩ := same
  rw [← quote] at same
  exact escaped_unique (isQuote_quoteFor a) same

end Text

end Crosstab
