import Crosstab.Proofs.Number.Reading
import Crosstab.Value

/-!
# Literals are told apart

The literal of a value says where it ends and which value it stands for, except that all doubles
that are no numbers are written alike.
-/
namespace Crosstab.Value

open List Number Text

/-! ### Doubles that are no numbers -/

mutual

/-- A double that is no number stands somewhere inside. -/
def hasNan : Value → Bool
  | real x => x.isNan
  | list items => anyNan items
  | record fields => anyFieldNan fields
  | _ => false

def anyNan : List Value → Bool
  | [] => false
  | item :: rest => hasNan item || anyNan rest

def anyFieldNan : List (String × Value) → Bool
  | [] => false
  | (_, v) :: rest => hasNan v || anyFieldNan rest

end

variable {items : List Value} {fields : List (String × Value)} {rest rest' : List Char}
  {x : Double} {v w : Value}

private theorem anyNan_eq_false : anyNan items = false ↔ ∀ v ∈ items, v.hasNan = false := by
  induction items with
  | nil => simp [anyNan]
  | cons item rest ih => simp [anyNan, ih]

private theorem anyFieldNan_eq_false :
    anyFieldNan fields = false ↔ ∀ field ∈ fields, field.2.hasNan = false := by
  induction fields with
  | nil => simp [anyFieldNan]
  | cons field rest ih => simp [anyFieldNan, ih]

/-! ### Parts of literals -/

def spelling (v : Value) : List Char := v.literal.toList

/-- A field of a record: the quoted name and the literal. -/
def fieldSpelling (field : String × Value) : List Char :=
  quotedChars field.1.toList ++ ':' :: ' ' :: field.2.spelling

private theorem literalItems_toList (items : List Value) :
    (literalItems items).toList = [',', ' '].intercalate (items.map spelling) := by
  induction items with
  | nil => rfl
  | cons item rest ih =>
    cases rest with
    | nil => simp [literalItems, spelling]
    | cons next rest =>
      rw [literalItems, String.toList_append, String.toList_append, ih]
      · simp only [map_cons, intercalate_cons_cons]
        rfl
      · simp

private theorem literalFields_toList (fields : List (String × Value)) :
    (literalFields fields).toList = [',', ' '].intercalate (fields.map fieldSpelling) := by
  induction fields with
  | nil => rfl
  | cons field rest ih =>
    obtain ⟨name, v⟩ := field
    cases rest with
    | nil => simp [literalFields, fieldSpelling, quoted, spelling]
    | cons next rest =>
      rw [literalFields, String.toList_append, ih]
      · simp [fieldSpelling, quoted, spelling, intercalate_cons_cons]
      · simp

theorem spelling_text (s : String) : (text s).spelling = quotedChars s.toList := by
  rw [spelling, literal, quoted, String.toList_ofList]

theorem spelling_date (d : Date) : (date d).spelling = "datetime.date(".toList ++
    (d.year.repr.toList ++ ',' :: ' ' :: (d.month.repr.toList ++ ',' :: ' ' ::
      (d.day.repr.toList ++ [')']))) := by
  have comma : ", ".toList = [',', ' '] := by decide
  have close : ")".toList = [')'] := by decide
  rw [spelling, literal]
  delta Date.literal
  simp only [String.toList_append, Nat.toString_eq_repr, comma, close, append_assoc,
    cons_append, nil_append]

theorem spelling_list (items : List Value) :
    (list items).spelling = '[' :: ([',', ' '].intercalate (items.map spelling) ++ [']']) := by
  rw [spelling, literal, String.toList_append, String.toList_append, literalItems_toList]
  rfl

theorem spelling_record (fields : List (String × Value)) : (record fields).spelling =
    '\x7b' :: ([',', ' '].intercalate (fields.map fieldSpelling) ++ ['\x7d']) := by
  rw [spelling, literal, String.toList_append, String.toList_append, literalFields_toList]
  rfl

/-! ### Sorts of literals -/

/-- What the first character of a literal tells. -/
inductive Form where
  | null
  | truth
  | number
  | text
  | date
  | list
  | record
  deriving DecidableEq

def form : Value → Form
  | null => .null
  | bool _ => .truth
  | int _ => .number
  | real _ => .number
  | text _ => .text
  | date _ => .date
  | list _ => .list
  | record _ => .record

def Form.ofChar? (first : Char) : Option Form :=
  if first = 'N' then some .null
  else if first = 'T' ∨ first = 'F' then some .truth
  else if first = '\'' ∨ first = '"' then some .text
  else if first = 'd' then some .date
  else if first = '[' then some .list
  else if first = '\x7b' then some .record
  else if first ∈ 'i' :: 'n' :: '-' :: figures then some .number
  else none

theorem repr_chars (n : Nat) : n.repr.toList ≠ [] ∧ ∀ c ∈ n.repr.toList, c.isDigit := by
  rw [Nat.toList_repr]
  exact ⟨Nat.toDigits_ne_nil, fun c member => Nat.isDigit_of_mem_toDigits (by decide) (by decide) member⟩

theorem int_chars (n : Int) : (toString n).toList ≠ [] ∧
    ∀ c ∈ (toString n).toList, c ∈ '-' :: figures := by
  rw [Int.toString_eq_repr, Int.repr_eq_if]
  split
  · obtain ⟨some, digits⟩ := repr_chars n.toNat
    exact ⟨some, fun c member => mem_cons_of_mem _ (mem_figures (digits c member))⟩
  · obtain ⟨_, digits⟩ := repr_chars (-n).toNat
    refine ⟨by simp, ?_⟩
    intro c member
    rw [String.toList_append, mem_append] at member
    rcases member with sign | inside
    · simp_all
    · exact mem_cons_of_mem _ (mem_figures (digits c inside))

theorem exists_head_spelling (v : Value) :
    ∃ first rest, v.spelling = first :: rest ∧ Form.ofChar? first = some v.form := by
  have numeric : ∀ c ∈ 'i' :: '-' :: figures, Form.ofChar? c = some .number :=
    forall_mem_of_all (by decide)
  cases v with
  | null => exact ⟨'N', ['o', 'n', 'e'], rfl, rfl⟩
  | bool b =>
    cases b with
    | true => exact ⟨'T', ['r', 'u', 'e'], rfl, rfl⟩
    | false => exact ⟨'F', ['a', 'l', 's', 'e'], rfl, rfl⟩
  | int n =>
    obtain ⟨some, chars⟩ := int_chars n
    obtain ⟨first, rest, spelled⟩ := exists_cons_of_ne_nil some
    refine ⟨first, rest, spelled, numeric first ?_⟩
    exact mem_cons_of_mem _ (chars first (by rw [spelled]; exact mem_cons_self))
  | real x =>
    by_cases none : x.isNan
    · exact ⟨'n', ['a', 'n'], by rw [spelling, literal, Double.text, if_pos none]; rfl, rfl⟩
    · obtain ⟨first, rest, spelled, leading, _⟩ := Double.exists_text_eq (by simpa using none)
      rw [spelling, literal, spelled]
      split
      · exact ⟨_, _, rfl, rfl⟩
      · refine ⟨first, rest, rfl, numeric first ?_⟩
        rcases mem_cons.mp leading with rfl | digit
        · exact mem_cons_self
        · exact mem_cons_of_mem _ (mem_cons_of_mem _ digit)
  | text s =>
    refine ⟨quoteFor s.toList, _, spelling_text s, ?_⟩
    rcases isQuote_quoteFor s.toList with quote | quote <;> rw [quote] <;> rfl
  | date d => exact ⟨'d', _, spelling_date d, rfl⟩
  | list items => exact ⟨'[', _, spelling_list items, rfl⟩
  | record fields => exact ⟨'\x7b', _, spelling_record fields, rfl⟩

/-! ### Values from literals -/

/-- What may stand behind a literal. -/
def closers : List Char := [',', ')', ']', '\x7d']

private theorem number_unique {a b : List Char} (first : ∀ c ∈ a, c ∈ plainChars)
    (second : ∀ c ∈ b, c ∈ plainChars) (stop : ∀ c ∈ rest.head?, c ∈ closers)
    (stop' : ∀ c ∈ rest'.head?, c ∈ closers) (same : a ++ rest = b ++ rest') :
    a = b ∧ rest = rest' := by
  have foreign : ∀ c ∈ closers, plainChars.contains c = false := forall_mem_of_all (by decide)
  exact append_unique_of_stop (p := plainChars.contains) (by simpa using first)
    (by simpa using second) (fun c head => foreign c (stop c head))
    (fun c head => foreign c (stop' c head)) same

theorem repr_unique {m n : Nat} (same : m.repr.toList = n.repr.toList) : m = n := by
  rw [Nat.toList_repr, Nat.toList_repr] at same
  rw [← Nat.ofDigitChars_ten_toDigits (n := m), same, Nat.ofDigitChars_ten_toDigits]

theorem int_unique {m n : Int} (same : (toString m).toList = (toString n).toList) : m = n := by
  have unsigned (k l : Nat) : k.repr.toList ≠ ("-" ++ l.repr).toList := by
    intro equal
    have digit := (repr_chars k).2 '-' (by rw [equal, String.toList_append]; simp)
    cases digit
  rw [Int.toString_eq_repr, Int.toString_eq_repr, Int.repr_eq_if, Int.repr_eq_if] at same
  -- Either both have the sign or none; what is left are the digits of naturals.
  split at same
  next ofM =>
    split at same
    next ofN =>
      have equal := repr_unique same
      omega
    next => exact absurd same (unsigned _ _)
  next ofM =>
    split at same
    next => exact absurd same.symm (unsigned _ _)
    next ofN =>
      rw [String.toList_append, String.toList_append, append_cancel_left_eq] at same
      have equal := repr_unique same
      omega

private theorem date_unique {a b : Date} (same : (date a).spelling ++ rest = (date b).spelling ++ rest') :
    a = b ∧ rest = rest' := by
  -- Each part of a date is a run of digits with something else behind it.
  have part {m n : Nat} {c : Char} {front back : List Char} (other : c.isDigit = false)
      (equal : m.repr.toList ++ c :: front = n.repr.toList ++ c :: back) : m = n ∧ front = back := by
    obtain ⟨digits, behind⟩ := append_unique_of_stop (repr_chars m).2 (repr_chars n).2
      (by simpa using other) (by simpa using other) equal
    exact ⟨repr_unique digits, by simpa using behind⟩
  simp only [spelling_date, append_assoc, append_cancel_left_eq, cons_append, nil_append] at same
  obtain ⟨year, same⟩ := part rfl same
  injection same with _ same
  obtain ⟨month, same⟩ := part rfl same
  injection same with _ same
  obtain ⟨day, same⟩ := part rfl same
  refine ⟨?_, same⟩
  cases a
  cases b
  simp_all

theorem real_chars (number : x.isNan = false) :
    (∀ c ∈ (real x).spelling, c ∈ plainChars) ∧ ∃ c ∈ (real x).spelling, c ∉ '-' :: figures := by
  obtain ⟨first, rest, spelled, _, plain, c, inside, marked⟩ := Double.exists_text_eq number
  rw [spelling, literal, spelled]
  refine ⟨forall_mem_append.mpr ⟨?_, plain⟩, c, mem_append_right _ inside, marked⟩
  split <;> exact forall_mem_of_all (by decide)

private theorem int_plain (n : Int) : ∀ c ∈ (int n).spelling, c ∈ plainChars := by
  have inside : ∀ c ∈ '-' :: figures, c ∈ plainChars := forall_mem_of_all (by decide)
  exact fun c member => inside c ((int_chars n).2 c member)

private theorem int_ne_real (n : Int) (number : x.isNan = false) :
    (int n).spelling ≠ (real x).spelling := by
  intro same
  obtain ⟨c, inside, marked⟩ := (real_chars number).2
  rw [← same] at inside
  exact marked ((int_chars n).2 c inside)

theorem opened_spelling {close : Char} (foreign : Form.ofChar? close = none) (v : Value) :
    ∃ first behind, v.spelling = first :: behind ∧ first ≠ close := by
  obtain ⟨first, rest, spelled, form⟩ := exists_head_spelling v
  refine ⟨first, rest, spelled, ?_⟩
  rintro rfl
  rw [foreign] at form
  cases form

private theorem opened_fieldSpelling (field : String × Value) :
    ∃ first behind, fieldSpelling field = first :: behind ∧ first ≠ '\x7d' := by
  refine ⟨quoteFor field.1.toList, _, rfl, ?_⟩
  rcases isQuote_quoteFor field.1.toList with quote | quote <;> rw [quote] <;> decide

private theorem fieldSpelling_delimited {a b : String × Value}
    (delimited : SelfDelimiting closers spelling a.2 b.2) :
    SelfDelimiting closers fieldSpelling a b := by
  intro rest rest' stop stop' same
  unfold fieldSpelling at same
  simp only [append_assoc, cons_append] at same
  obtain ⟨name, same⟩ := quotedChars_unique same
  simp only [cons.injEq, true_and] at same
  obtain ⟨value, behind⟩ := delimited rest rest' stop stop' same
  exact ⟨Prod.ext (String.toList_inj.mp name) value, behind⟩

private theorem form_unique (same : v.spelling ++ rest = w.spelling ++ rest') : v.form = w.form := by
  obtain ⟨first, front, spelled, form⟩ := exists_head_spelling v
  obtain ⟨first', front', spelled', form'⟩ := exists_head_spelling w
  rw [spelled, spelled'] at same
  injection same with head _
  rw [head, form'] at form
  exact (Option.some.inj form).symm

private theorem bool_delimited (a b : Bool) : SelfDelimiting closers spelling (bool a) (bool b) := by
  intro rest rest' _ _ same
  cases a <;> cases b
  · exact ⟨rfl, append_cancel_left same⟩
  · injection same with head _
    cases head
  · injection same with head _
    cases head
  · exact ⟨rfl, append_cancel_left same⟩

private theorem number_delimited (numeric : v.form = .number) (numeric' : w.form = .number)
    (ofV : v.hasNan = false) (ofW : w.hasNan = false) : SelfDelimiting closers spelling v w := by
  intro rest rest' stop stop' same
  have plain {v : Value} (numeric : v.form = .number) (number : v.hasNan = false) :
      ∀ c ∈ v.spelling, c ∈ plainChars := by
    cases v with
    | int n => exact int_plain n
    | real x => exact (real_chars number).1
    | _ => cases numeric
  obtain ⟨equal, behind⟩ := number_unique (plain numeric ofV) (plain numeric' ofW) stop stop' same
  refine ⟨?_, behind⟩
  cases v with
  | int m =>
    cases w with
    | int n => exact congrArg int (int_unique equal)
    | real y => exact absurd equal (int_ne_real m ofW)
    | _ => cases numeric'
  | real x =>
    cases w with
    | int n => exact absurd equal.symm (int_ne_real n ofV)
    | real y => exact congrArg real (Double.text_injective ofV ofW (String.toList_inj.mp equal))
    | _ => cases numeric'
  | _ => cases numeric

private theorem text_delimited (s t : String) : SelfDelimiting closers spelling (text s) (text t) := by
  intro rest rest' _ _ same
  rw [spelling_text, spelling_text] at same
  obtain ⟨equal, behind⟩ := quotedChars_unique same
  exact ⟨congrArg text (String.toList_inj.mp equal), behind⟩

private theorem list_delimited {others : List Value}
    (parts : ∀ a ∈ items, ∀ b ∈ others, SelfDelimiting closers spelling a b) :
    SelfDelimiting closers spelling (list items) (list others) := by
  intro rest rest' _ _ same
  simp only [spelling_list, cons_append, append_assoc, cons.injEq, true_and, nil_append] at same
  obtain ⟨rfl, behind⟩ := intercalate_unique (by decide) (by decide) (by decide) parts
    (fun v _ => opened_spelling (by decide) v) same
  exact ⟨rfl, behind⟩

private theorem record_delimited {others : List (String × Value)}
    (parts : ∀ a ∈ fields, ∀ b ∈ others, SelfDelimiting closers spelling a.2 b.2) :
    SelfDelimiting closers spelling (record fields) (record others) := by
  intro rest rest' _ _ same
  simp only [spelling_record, cons_append, append_assoc, cons.injEq, true_and, nil_append] at same
  obtain ⟨rfl, behind⟩ := intercalate_unique (by decide) (by decide) (by decide)
    (fun a first b second => fieldSpelling_delimited (parts a first b second))
    (fun field _ => opened_fieldSpelling field) same
  exact ⟨rfl, behind⟩

private theorem spelling_delimited_of_parts
    (parts : ∀ a : Value, sizeOf a < sizeOf v → ∀ b : Value, a.hasNan = false → b.hasNan = false →
      SelfDelimiting closers spelling a b) (ofV : v.hasNan = false) (ofW : w.hasNan = false) :
    SelfDelimiting closers spelling v w := by
  intro rest rest' stop stop' same
  have forms := form_unique same
  -- Literals of different forms start differently, so both values have the form of the first one.
  cases v with
  | null =>
    cases w with
    | null => exact ⟨rfl, append_cancel_left same⟩
    | _ => cases forms
  | bool a =>
    cases w with
    | bool b => exact bool_delimited a b rest rest' stop stop' same
    | _ => cases forms
  | int m => exact number_delimited rfl forms.symm ofV ofW rest rest' stop stop' same
  | real x => exact number_delimited rfl forms.symm ofV ofW rest rest' stop stop' same
  | text s =>
    cases w with
    | text t => exact text_delimited s t rest rest' stop stop' same
    | _ => cases forms
  | date a =>
    cases w with
    | date b =>
      obtain ⟨rfl, behind⟩ := date_unique same
      exact ⟨rfl, behind⟩
    | _ => cases forms
  | list items =>
    cases w with
    | list others =>
      refine list_delimited (fun a first b second => ?_) rest rest' stop stop' same
      refine parts a ?_ b (anyNan_eq_false.mp ofV a first) (anyNan_eq_false.mp ofW b second)
      have smaller := sizeOf_lt_of_mem first
      simp only [list.sizeOf_spec]
      omega
    | _ => cases forms
  | record fields =>
    cases w with
    | record others =>
      refine record_delimited (fun a first b second => ?_) rest rest' stop stop' same
      refine parts a.2 ?_ b.2 (anyFieldNan_eq_false.mp ofV a first)
        (anyFieldNan_eq_false.mp ofW b second)
      have smaller := sizeOf_lt_of_mem first
      obtain ⟨name, value⟩ := a
      simp only [record.sizeOf_spec, Prod.mk.sizeOf_spec] at smaller ⊢
      omega
    | _ => cases forms

/-- Values without doubles that are no numbers are known by their literals. -/
theorem spelling_delimited (ofV : v.hasNan = false) (ofW : w.hasNan = false) :
    SelfDelimiting closers spelling v w := by
  induction size : sizeOf v using Nat.strongRecOn generalizing v w with
  | ind n ih =>
    subst size
    exact spelling_delimited_of_parts (fun a smaller b ofA ofB => ih _ smaller ofA ofB rfl) ofV ofW

/-! ### Literals of what is no number -/

theorem spelling_of_isNan (nan : v.isNan) : v.spelling = ['n', 'a', 'n'] := by
  cases v with
  | real x =>
    have nan : x.isNan := nan
    rw [spelling, literal, Double.text, if_pos nan]
    rfl
  | _ => cases nan

/-- Nothing else starts like what is no number. -/
theorem head_spelling_ne (number : v.isNan = false) : v.spelling ++ rest ≠ 'n' :: rest' := by
  intro same
  obtain ⟨first, front, spelled, form⟩ := exists_head_spelling v
  obtain rfl : first = 'n' := by
    rw [spelled] at same
    exact (cons.inj same).1
  have numeric : v.form = .number := (Option.some.inj form).symm
  cases v with
  | int n =>
    have figure := (int_chars n).2 'n' (by rw [← literal, ← spelling, spelled]; exact mem_cons_self)
    exact absurd figure (by decide)
  | real x =>
    obtain ⟨leading, behind, text, figure, _⟩ := Double.exists_text_eq number
    rw [spelling, literal, text] at spelled
    split at spelled
    · exact absurd (cons.inj spelled).1 (by decide)
    · rw [(cons.inj spelled).1] at figure
      exact absurd figure (by decide)
  | _ => cases numeric

/-- Literals say where they end, and values that are or contain only numbers are known by them. -/
theorem literal_unique (ofV : v.isNan ∨ v.hasNan = false)
    (ofW : w.isNan ∨ w.hasNan = false) (stop : ∀ c ∈ rest.head?, c ∈ closers)
    (stop' : ∀ c ∈ rest'.head?, c ∈ closers) (same : v.spelling ++ rest = w.spelling ++ rest') :
    (v = w ∨ v.isNan ∧ w.isNan) ∧ rest = rest' := by
  cases nan : v.isNan with
  | true =>
    rw [spelling_of_isNan nan] at same
    cases other : w.isNan with
    | true => exact ⟨.inr ⟨rfl, rfl⟩, by simpa [spelling_of_isNan other] using same⟩
    | false => exact absurd same.symm (head_spelling_ne other)
  | false =>
    cases other : w.isNan with
    | true =>
      rw [spelling_of_isNan other] at same
      exact absurd same (head_spelling_ne nan)
    | false =>
      obtain ⟨rfl, behind⟩ := spelling_delimited (ofV.resolve_left (by simp [nan]))
        (ofW.resolve_left (by simp [other])) rest rest' stop stop' same
      exact ⟨.inl rfl, behind⟩

theorem literal_delimited (ofV : v.isNan ∨ v.hasNan = false) (ofW : w.isNan ∨ w.hasNan = false) :
    SelfDelimiting closers String.toList v.literal w.literal := by
  intro rest rest' stop stop' same
  obtain ⟨rfl | ⟨nan, other⟩, behind⟩ := literal_unique ofV ofW stop stop' same
  · exact ⟨rfl, behind⟩
  · refine ⟨String.toList_inj.mp ?_, behind⟩
    exact (spelling_of_isNan nan).trans (spelling_of_isNan other).symm

end Crosstab.Value
