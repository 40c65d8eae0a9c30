import OpLog.Library.Numerals
import OpLog.Source.AddToLog

/-!
# Reading a date back

The numbers of a date stand between separators, so a text that begins with a date determines
them and what comes behind. `delimited` says of a format that it is of this kind; the source
has no other ones.
-/
namespace OpLog.Format
open Library Source

def isNumeral (c : Char) : Bool := c.isDigit || c = '+' || c = '-'

/-- What an item prints of a date. -/
def number (date : LocalDateTime) : Numeric → Int
  | .year => date.year
  | .month => date.month
  | .day => date.day
  | .hour => date.hour
  | .minute => date.minute
  | .second => date.second

def millisecond (date : LocalDateTime) : Nat := date.nanosecond / 1000000

/-- The item prints the same of both dates. -/
def Agree (date date' : LocalDateTime) : Item → Prop
  | .numeric spec => number date spec = number date' spec
  | .literal _ => True
  | .space _ => True
  | .nanosecond3 => millisecond date = millisecond date'

section Agree
variable (date date' : LocalDateTime)

@[simp] theorem agree_year : Agree date date' (.numeric .year) ↔ date.year = date'.year := Iff.rfl

@[simp] theorem agree_month : Agree date date' (.numeric .month) ↔ date.month = date'.month :=
  Int.ofNat_inj

@[simp] theorem agree_day : Agree date date' (.numeric .day) ↔ date.day = date'.day := Int.ofNat_inj

@[simp] theorem agree_hour : Agree date date' (.numeric .hour) ↔ date.hour = date'.hour :=
  Int.ofNat_inj

@[simp] theorem agree_minute : Agree date date' (.numeric .minute) ↔ date.minute = date'.minute :=
  Int.ofNat_inj

@[simp] theorem agree_second : Agree date date' (.numeric .second) ↔ date.second = date'.second :=
  Int.ofNat_inj

@[simp] theorem agree_literal (text : String) : Agree date date' (.literal text) ↔ True := Iff.rfl

@[simp] theorem agree_space (text : String) : Agree date date' (.space text) ↔ True := Iff.rfl

@[simp] theorem agree_nanosecond3 :
    Agree date date' .nanosecond3 ↔ date.nanosecond / 1000000 = date'.nanosecond / 1000000 := Iff.rfl

end Agree

/-! ## Numbers -/

theorem toList_padZero (width n : Nat) : (padZero width n).toList = Numerals.padded width n :=
  String.toList_ofList

theorem padZero_inj {width m n : Nat} (same : padZero width m = padZero width n) : m = n := by
  apply @Numerals.padded_inj width
  rw [← toList_padZero, ← toList_padZero, same]

theorem padZero_numeral {width n : Nat} {c : Char} (member : c ∈ (padZero width n).toList) :
    isNumeral c = true := by
  rw [toList_padZero] at member
  unfold isNumeral
  rw [Numerals.isDigit_of_mem_padded member]
  rfl

/-- A sign is not the beginning of a padded number. -/
theorem signed_ne_padZero {sign : String} {c : Char} (head : sign.toList = [c])
    (no_digit : c.isDigit = false) (width m n : Nat) : sign ++ padZero width m ≠ padZero width n := by
  intro same
  have chars := congrArg String.toList same
  rw [String.toList_append, head, toList_padZero, toList_padZero] at chars
  have digit : c.isDigit = true := by
    apply @Numerals.isDigit_of_mem_padded width n
    rw [← chars]
    exact List.mem_cons_self
  rw [no_digit] at digit
  cases digit

theorem append_inj_of_one {a b s t : String} (one : a.toList.length = 1) (one' : b.toList.length = 1)
    (same : a ++ s = b ++ t) : a = b ∧ s = t := by
  have chars := congrArg String.toList same
  rw [String.toList_append, String.toList_append] at chars
  obtain ⟨sign, rest⟩ := List.append_inj chars (one.trans one'.symm)
  exact ⟨String.toList_inj.mp sign, String.toList_inj.mp rest⟩

def sign (year : Int) : String := if year < 0 then "-" else "+"

/-- What chrono prints of a year. -/
def yearText (year : Int) : String :=
  if 0 ≤ year ∧ year ≤ 9999 then padZero 4 year.toNat else sign year ++ padZero 4 year.natAbs

theorem sign_char (year : Int) : ∃ c, (sign year).toList = [c] ∧ c.isDigit = false ∧
    isNumeral c = true := by
  unfold sign
  split
  · exact ⟨'-', rfl, rfl, rfl⟩
  · exact ⟨'+', rfl, rfl, rfl⟩

theorem sign_inj {year year' : Int} (same : sign year = sign year') : year < 0 ↔ year' < 0 := by
  unfold sign at same
  split at same
  · split at same
    · omega
    · exact absurd same (by decide)
  · split at same
    · exact absurd same (by decide)
    · omega

theorem yearText_inj {year year' : Int} (same : yearText year = yearText year') : year = year' := by
  obtain ⟨c, head, no_digit, -⟩ := sign_char year
  obtain ⟨c', head', no_digit', -⟩ := sign_char year'
  unfold yearText at same
  by_cases short : 0 ≤ year ∧ year ≤ 9999
  · rw [if_pos short] at same
    by_cases short' : 0 ≤ year' ∧ year' ≤ 9999
    · rw [if_pos short'] at same
      have digits := padZero_inj same
      omega
    · rw [if_neg short'] at same
      exact absurd same.symm (signed_ne_padZero head' no_digit' 4 _ _)
  · rw [if_neg short] at same
    by_cases short' : 0 ≤ year' ∧ year' ≤ 9999
    · rw [if_pos short'] at same
      exact absurd same (signed_ne_padZero head no_digit 4 _ _)
    · rw [if_neg short'] at same
      obtain ⟨signs, digits⟩ := append_inj_of_one (by rw [head]; rfl) (by rw [head']; rfl) same
      have size := padZero_inj digits
      have negative := sign_inj signs
      omega

theorem format_inj {date date' : LocalDateTime} {spec : Numeric}
    (same : spec.format date = spec.format date') : number date spec = number date' spec := by
  cases spec with
  | year => exact yearText_inj same
  | _ => exact congrArg Int.ofNat (padZero_inj same)

theorem format_congr {date date' : LocalDateTime} {spec : Numeric}
    (same : number date spec = number date' spec) : spec.format date = spec.format date' := by
  cases spec with
  | year => exact congrArg yearText same
  | _ => exact congrArg (padZero 2) (Int.ofNat.inj same)

theorem format_numeral {date : LocalDateTime} {spec : Numeric} {c : Char}
    (member : c ∈ (spec.format date).toList) : isNumeral c = true := by
  cases spec with
  | year =>
    change c ∈ (yearText date.year).toList at member
    unfold yearText at member
    split at member
    · exact padZero_numeral member
    · obtain ⟨s, chars, -, numeral⟩ := sign_char date.year
      rw [String.toList_append, chars] at member
      rcases List.mem_append.mp member with sign | digits
      · rw [List.mem_singleton.mp sign]
        exact numeral
      · exact padZero_numeral digits
  | _ => exact padZero_numeral member

/-! ## Formats -/

/-- The text behind a number goes on with something else. -/
def Plain (text : List Char) : Prop := ∀ c ∈ text.head?, isNumeral c = false

def opensPlain : List Item → Bool
  | [] => true
  | .numeric _ :: _ => false
  | .literal text :: _ => text.toList.head?.any fun c => !isNumeral c
  | .space text :: _ => text.toList.head?.any fun c => !isNumeral c
  | .nanosecond3 :: _ => true

/-- Every number is followed by a separator or by the end of the format. -/
def delimited : List Item → Bool
  | [] => true
  | .numeric _ :: rest => opensPlain rest && delimited rest
  | .literal _ :: rest => delimited rest
  | .space _ :: rest => delimited rest
  | .nanosecond3 :: rest => opensPlain rest && delimited rest

theorem delimited_in_path (logType : OpLogType) : delimited (formatDateInPath logType) = true := by
  cases logType <;> decide

theorem delimited_in_log (logType : OpLogType) : delimited (formatDateInLog logType) = true := by
  cases logType <;> decide

/-- A log that splits prints a period and stamps its entries. -/
theorem items_of_split {logType : OpLogType} (split : logType ≠ .noSplit) :
    (formatDateInPath logType).isEmpty = false ∧ (formatDateInLog logType).isEmpty = false := by
  cases logType with
  | noSplit => exact absurd rfl split
  | _ => exact ⟨rfl, rfl⟩

theorem toList_writeDate_cons (date : LocalDateTime) (item : Item) (format : List Item)
    (rest : List Char) :
    (writeDate date (item :: format)).toList ++ rest =
      (item.format date).toList ++ ((writeDate date format).toList ++ rest) := by
  unfold writeDate
  rw [String.toList_join, String.toList_join, List.map_cons, List.flatMap_cons, List.append_assoc]

theorem plain_of_any {text : String} (first : text.toList.head?.any (fun c => !isNumeral c) = true)
    (rest : List Char) : Plain (text.toList ++ rest) := by
  unfold Plain
  cases chars : text.toList with
  | nil =>
    rw [chars] at first
    cases first
  | cons c tail =>
    rw [chars] at first
    intro c' member
    rw [← Option.some.inj member]
    simpa using first

theorem plain_writeDate {format : List Item} (opens : opensPlain format = true) (date : LocalDateTime)
    {rest : List Char} (plain : Plain rest) : Plain ((writeDate date format).toList ++ rest) := by
  cases format with
  | nil => exact plain
  | cons item format =>
    rw [toList_writeDate_cons]
    cases item with
    | numeric spec => cases opens
    | literal text => exact plain_of_any opens _
    | space text => exact plain_of_any opens _
    | nanosecond3 =>
      have dot : (Item.nanosecond3.format date).toList =
          '.' :: (padZero 3 (millisecond date)).toList := by
        unfold Item.format
        rw [String.toList_append]
        rfl
      rw [dot]
      intro c member
      rw [← Option.some.inj member]
      rfl

/-- A text that begins with a date in such a format determines what is printed of the date,
and the text behind it. -/
theorem writeDate_inj {format : List Item} (delimits : delimited format = true)
    {date date' : LocalDateTime} {rest rest' : List Char} (plain : Plain rest) (plain' : Plain rest')
    (same : (writeDate date format).toList ++ rest = (writeDate date' format).toList ++ rest') :
    (∀ item ∈ format, Agree date date' item) ∧ rest = rest' := by
  induction format with
  | nil => exact ⟨fun item member => absurd member List.not_mem_nil, same⟩
  | cons item format ih =>
    rw [toList_writeDate_cons, toList_writeDate_cons] at same
    have step (agree : Agree date date' item)
        (later : (∀ item ∈ format, Agree date date' item) ∧ rest = rest') :
        (∀ item' ∈ item :: format, Agree date date' item') ∧ rest = rest' := by
      refine ⟨fun item' member => ?_, later.2⟩
      rcases List.mem_cons.mp member with rfl | member
      · exact agree
      · exact later.1 item' member
    cases item with
    | numeric spec =>
      obtain ⟨opens, delimits⟩ := Bool.and_eq_true_iff.mp delimits
      obtain ⟨digits, after⟩ := Numerals.split_run (fun _ => format_numeral)
        (fun _ => format_numeral) (plain_writeDate opens date plain)
        (plain_writeDate opens date' plain') same
      exact step (format_inj (String.toList_inj.mp digits)) (ih delimits after)
    | literal text => exact step trivial (ih delimits (List.append_cancel_left same))
    | space text => exact step trivial (ih delimits (List.append_cancel_left same))
    | nanosecond3 =>
      obtain ⟨opens, delimits⟩ := Bool.and_eq_true_iff.mp delimits
      unfold Item.format at same
      rw [String.toList_append, String.toList_append, List.append_assoc, List.append_assoc] at same
      obtain ⟨digits, after⟩ := Numerals.split_run (fun _ => padZero_numeral)
        (fun _ => padZero_numeral) (plain_writeDate opens date plain)
        (plain_writeDate opens date' plain') (List.append_cancel_left same)
      exact step (padZero_inj (String.toList_inj.mp digits)) (ih delimits after)

/-- Only what is printed of the date matters. -/
theorem writeDate_congr {format : List Item} {date date' : LocalDateTime}
    (agree : ∀ item ∈ format, Agree date date' item) :
    writeDate date format = writeDate date' format := by
  have each : format.map (Item.format date) = format.map (Item.format date') := by
    apply List.map_congr_left
    intro item member
    cases item with
    | numeric spec => exact format_congr (agree _ member)
    | literal text => rfl
    | space text => rfl
    | nanosecond3 => exact congrArg (fun ms => "." ++ padZero 3 ms) (agree _ member)
  unfold writeDate
  rw [each]

theorem writeDate_eq_iff {format : List Item} (delimits : delimited format = true)
    (date date' : LocalDateTime) :
    writeDate date format = writeDate date' format ↔ ∀ item ∈ format, Agree date date' item := by
  constructor
  · intro same
    have nothing : Plain [] := fun c member => absurd member (by simp)
    exact (writeDate_inj delimits nothing nothing (by rw [same])).1
  · exact writeDate_congr

end OpLog.Format
