import SlidingCache.Proofs.Text.Decimal
import SlidingCache.Proofs.Text.Utf8
import SlidingCache.Proofs.Time.Calendar
import SlidingCache.Time.Iso8601

/-!
# What is written of an instant is read back

The form that `Instant.toText` gives to an instant in UTC stands for that instant
(`Instant.ofText?_toText`). The fields of the form have a fixed width, so each is found at its
position; the fraction of a second is there or not, and with it the place where the offset begins.
-/

namespace SlidingCache

namespace Iso8601

variable {t : Bytes} {pos stop count a b : Nat}

/-! ## Digits -/

def digitOctet (d : Nat) : UInt8 := UInt8.ofNat (0x30 + d)

theorem octet_ofDigit {d : Nat} (h : d < 10) : (CodePoint.ofDigit d).octet = digitOctet d := by
  simp [CodePoint.octet, CodePoint.ofDigit, h, digitOctet]

theorem ofByte_digitOctet {d : Nat} (h : d < 10) :
    CodePoint.ofByte (digitOctet d) = CodePoint.ofDigit d := by
  ext
  simp only [CodePoint.ofByte, digitOctet, CodePoint.ofDigit, h, dif_pos]
  exact Utf8.toNat_ofNat (by omega)

theorem digit?_digitOctet {d : Nat} (h : d < 10) : digit? (digitOctet d) = some d := by
  rw [digit?, ofByte_digitOctet h, CodePoint.digit?_ofDigit h]

theorem digitOctet_ne_octet {d : Nat} {c : Char} (h : d < 10)
    (hc : c.toNat < 0x30 ∨ 0x39 < c.toNat) (hlt : c.toNat < 0x100) : digitOctet d ≠ octet c := by
  intro heq
  have := congrArg UInt8.toNat heq
  rw [octet, digitOctet, Utf8.toNat_ofNat hlt, Utf8.toNat_ofNat (by omega)] at this
  omega

theorem startsOffset_digitOctet {d : Nat} (h : d < 10) : startsOffset (digitOctet d) = false := by
  have hne : ∀ c ∈ ['+', '-', 'Z'], digitOctet d ≠ octet c := by
    intro c hc
    simp only [List.mem_cons, List.not_mem_nil, or_false] at hc
    rcases hc with rfl | rfl | rfl <;> exact digitOctet_ne_octet h (by decide) (by decide)
  simp [startsOffset, hyphen, hne]

/-- One more digit. -/
theorem number?_succ : number? t pos (count + 1) = (do
    let n ← number? t pos count
    let d ← digit? (octetAt t (pos + count))
    return n * 10 + d) := by
  simp only [number?, List.range_succ, List.mapM_append, List.mapM_cons, List.mapM_nil]
  cases (List.range count).mapM fun i => digit? (octetAt t (pos + i)) with
  | none => rfl
  | some ds =>
    cases digit? (octetAt t (pos + count)) with
    | none => rfl
    | some d => simp

/-- The digits of a number stand at a position, no more than it has there. -/
def HasDigits (t : Bytes) (pos : Nat) : (count n : Nat) → Prop
  | 0, n => n = 0
  | count + 1, n =>
    HasDigits t pos count (n / 10) ∧ octetAt t (pos + count) = digitOctet (n % 10)

theorem HasDigits.zero {n : Nat} (h : n = 0) : HasDigits t pos 0 n := h

theorem number?_of_hasDigits {n : Nat} (h : HasDigits t pos count n) :
    number? t pos count = some n := by
  induction count generalizing n with
  | zero => exact congrArg some (h : n = 0).symm
  | succ count ih =>
    obtain ⟨hfirst, hlast⟩ := h
    rw [number?_succ, ih hfirst, hlast, digit?_digitOctet (by omega)]
    simp only [Option.bind_eq_bind, Option.bind_some, Option.pure_def, Option.some.injEq]
    omega

/-! ## Times of day -/

/-- Hours, minutes and seconds with colons between them, from a position on. -/
structure HasClock (t : Bytes) (pos hour minute second : Nat) : Prop where
  hour : number? t pos 2 = some hour
  hourMark : octetAt t (pos + 2) = octet ':'
  minute : number? t (pos + 3) 2 = some minute
  minuteMark : octetAt t (pos + 3 + 2) = octet ':'
  second : number? t (pos + 3 + 3) 2 = some second

section
variable {hour minute second micro : Nat} {missing : Nat} {fields : List Nat} {colons : Bool}

/-- A field before a colon. -/
theorem fields?_colon {n : Nat} (hn : number? t pos 2 = some n)
    (hmark : octetAt t (pos + 2) = octet ':') (hstop : pos + 3 < stop)
    (hcolons : fields.length = 0 ∨ colons = true) :
    fields? t stop (missing + 1) pos fields colons =
      fields? t stop missing (pos + 3) (fields ++ [n]) true := by
  have hcolons' : if (fields ++ [n]).length = 1 then True else colons = true := by
    rcases hcolons with h | h <;> simp [h]
  simp only [fields?, hn, Option.bind_eq_bind, Option.bind_some, hmark]
  rw [if_neg (by omega), if_pos ⟨hcolons', trivial⟩, decide_eq_true hcolons']

/-- The last field. -/
theorem fields?_stop {n : Nat} (hn : number? t pos 2 = some n) (hstop : stop ≤ pos + 3) :
    fields? t stop (missing + 1) pos fields colons =
      some (.ofFields (fields ++ [n]) 0 (octetAt t (pos + 2) ≠ 0)) := by
  simp only [fields?, hn, Option.bind_eq_bind, Option.bind_some]
  rw [if_pos hstop]
  rfl

/-- A field before a fraction. -/
theorem fields?_period {n : Nat} (hn : number? t pos 2 = some n)
    (hmark : octetAt t (pos + 2) = octet '.') (hstop : pos + 3 < stop) :
    fields? t stop (missing + 1) pos fields colons =
      fraction? t (pos + 3) stop (fields ++ [n]) := by
  have hne : octet '.' ≠ octet ':' := by decide
  simp only [fields?, hn, Option.bind_eq_bind, Option.bind_some, hmark]
  rw [if_neg (by omega), if_neg fun h => hne h.2, if_pos (.inl trivial)]

theorem clock?_of_hasClock (h : HasClock t pos hour minute second) (hstop : stop = pos + 8) :
    clock? t pos stop = some ⟨hour, minute, second, 0, octetAt t stop ≠ 0⟩ := by
  subst hstop
  rw [clock?, fields?_colon h.hour h.hourMark (by omega) (.inl rfl),
    fields?_colon h.minute h.minuteMark (by omega) (.inr rfl), fields?_stop h.second (by omega)]
  rfl

theorem clock?_of_fraction (h : HasClock t pos hour minute second)
    (hmark : octetAt t (pos + 8) = octet '.') (hmicro : number? t (pos + 9) 6 = some micro)
    (hstop : stop = pos + 15) :
    ∃ leftover, clock? t pos stop = some ⟨hour, minute, second, micro, leftover⟩ := by
  subst hstop
  rw [clock?, fields?_colon h.hour h.hourMark (by omega) (.inl rfl),
    fields?_colon h.minute h.minuteMark (by omega) (.inr rfl),
    fields?_period h.second hmark (by omega)]
  have hcount : min 6 (pos + 15 - (pos + 3 + 3 + 3)) = 6 := by omega
  have hmicro : number? t (pos + 3 + 3 + 3) 6 = some micro := hmicro
  simp only [fraction?, hcount, hmicro, Option.bind_eq_bind, Option.bind_some]
  refine ⟨decide (octetAt ((t.drop (pos + 3 + 3 + 3 + 6)).dropWhile isDigit) 0 ≠ 0), ?_⟩
  simp [Clock.ofFields]

end

/-! ## The written form -/

/-- Date and time of day as octets. -/
def stamp (d : Date) (hour minute second : Nat) : Bytes :=
  let two (n : Nat) := [digitOctet (n / 10 % 10), digitOctet (n % 10)]
  digitOctet (d.year / 10 / 10 / 10 % 10) :: digitOctet (d.year / 10 / 10 % 10) :: two d.year ++
    hyphen :: two d.month ++ hyphen :: two d.day ++ octet 'T' :: two hour ++
    octet ':' :: two minute ++ octet ':' :: two second

/-- A fraction of a second as octets. -/
def fraction (micro : Nat) : Bytes :=
  if micro = 0 then [] else
    [octet '.', digitOctet (micro / 10 / 10 / 10 / 10 / 10 % 10),
      digitOctet (micro / 10 / 10 / 10 / 10 % 10), digitOctet (micro / 10 / 10 / 10 % 10),
      digitOctet (micro / 10 / 10 % 10), digitOctet (micro / 10 % 10), digitOctet (micro % 10)]

def zone : Bytes := [octet '+', octet '0', octet '0', octet ':', octet '0', octet '0']

section
variable {d : Date} {hour minute second micro : Nat} {rest : Bytes}

theorem date?_stamp (d : Date) (hour minute second : Nat) (rest : Bytes) (hyear : d.year < 10000)
    (hmonth : d.month < 100) (hday : d.day < 100) :
    date? (stamp d hour minute second ++ rest) 10 = some d := by
  have hy : number? (stamp d hour minute second ++ rest) 0 4 = some d.year :=
    number?_of_hasDigits ⟨⟨⟨⟨.zero (by omega), rfl⟩, rfl⟩, rfl⟩, rfl⟩
  have hm : number? (stamp d hour minute second ++ rest) 5 2 = some d.month :=
    number?_of_hasDigits ⟨⟨.zero (by omega), rfl⟩, rfl⟩
  have hd : number? (stamp d hour minute second ++ rest) 8 2 = some d.day :=
    number?_of_hasDigits ⟨⟨.zero (by omega), rfl⟩, rfl⟩
  have h4 : octetAt (stamp d hour minute second ++ rest) 4 = hyphen := rfl
  have h7 : octetAt (stamp d hour minute second ++ rest) 7 = hyphen := rfl
  have h5 : octetAt (stamp d hour minute second ++ rest) 5 ≠ weekMark :=
    digitOctet_ne_octet (Nat.mod_lt _ (by decide)) (by decide) (by decide)
  simp [date?, hy, hm, hd, h4, h5, h7]

theorem hasClock_stamp (d : Date) (rest : Bytes) (hhour : hour < 100) (hminute : minute < 100)
    (hsecond : second < 100) :
    HasClock (stamp d hour minute second ++ rest) 11 hour minute second where
  hour := number?_of_hasDigits ⟨⟨.zero (by omega), rfl⟩, rfl⟩
  hourMark := rfl
  minute := number?_of_hasDigits ⟨⟨.zero (by omega), rfl⟩, rfl⟩
  minuteMark := rfl
  second := number?_of_hasDigits ⟨⟨.zero (by omega), rfl⟩, rfl⟩

theorem octetAt_append {l r : Bytes} (k : Nat) : octetAt (l ++ r) (l.length + k) = octetAt r k := by
  simp [octetAt, List.getD_eq_getElem?_getD, List.getElem?_append_right]

theorem offset?_zone {l : Bytes} : offset? (l ++ zone) l.length = some .utc := by
  have hhour : number? (l ++ zone) (l.length + 1) 2 = some 0 :=
    number?_of_hasDigits ⟨⟨.zero rfl, octetAt_append 1⟩, octetAt_append 2⟩
  have hminute : number? (l ++ zone) (l.length + 1 + 3) 2 = some 0 :=
    number?_of_hasDigits ⟨⟨.zero rfl, octetAt_append 4⟩, octetAt_append 5⟩
  have hend : octetAt (l ++ zone) (l.length + 1 + 3 + 2) = 0 := octetAt_append 6
  have hlength : (l ++ zone).length = l.length + 6 := by simp [zone]
  have hplus : octetAt (l ++ zone) l.length = octet '+' := octetAt_append 0
  have hclock : clock? (l ++ zone) (l.length + 1) (l ++ zone).length =
      some ⟨0, 0, 0, 0, false⟩ := by
    rw [clock?, fields?_colon hhour (octetAt_append 3) (by omega) (.inl rfl),
      fields?_stop hminute (by omega), hend]
    rfl
  rw [offset?, hplus, if_neg (by decide)]
  simp only [hclock, Option.bind_eq_bind, Option.bind_some]
  rfl

theorem startsOffset_of_mem_fraction {b : UInt8} (h : b ∈ fraction micro) :
    startsOffset b = false := by
  unfold fraction at h
  split at h
  · cases h
  · simp only [List.mem_cons, List.not_mem_nil, or_false] at h
    rcases h with rfl | rfl | rfl | rfl | rfl | rfl | rfl
    · rfl
    all_goals exact startsOffset_digitOctet (Nat.mod_lt _ (by decide))

theorem length_takeWhile_stamp :
    (((stamp d hour minute second ++ (fraction micro ++ zone)).drop 11).takeWhile
      (!startsOffset ·)).length = 8 + (fraction micro).length := by
  have hdigit : ∀ n, startsOffset (digitOctet (n % 10)) = false :=
    fun n => startsOffset_digitOctet (Nat.mod_lt _ (by decide))
  have hcolon : startsOffset (octet ':') = false := rfl
  have hrest : (fraction micro ++ zone).takeWhile (!startsOffset ·) = fraction micro := by
    rw [List.takeWhile_append_of_pos fun b hb => by simp [startsOffset_of_mem_fraction hb]]
    exact List.append_nil _
  simp [stamp, hdigit, hcolon, hrest]
  omega

/-- The time of day and the offset. -/
theorem timed?_stamp (hhour : hour < 100) (hminute : minute < 100) (hsecond : second < 100)
    (hmicro : micro < 1000000) (date : Date) :
    timed? (stamp d hour minute second ++ (fraction micro ++ zone)) date 11 =
      Instant.ofParts? date hour minute second micro (some .utc) := by
  have hclock := hasClock_stamp d (fraction micro ++ zone) hhour hminute hsecond
  have hlength : (stamp d hour minute second ++ fraction micro).length =
      19 + (fraction micro).length := by
    simp [stamp]; omega
  have hzone := offset?_zone (l := stamp d hour minute second ++ fraction micro)
  rw [hlength, List.append_assoc] at hzone
  have hlt : 19 + (fraction micro).length <
      (stamp d hour minute second ++ (fraction micro ++ zone)).length := by
    rw [← List.append_assoc, List.length_append, hlength]
    simp [zone]
  obtain ⟨leftover, hparts⟩ : ∃ leftover,
      clock? (stamp d hour minute second ++ (fraction micro ++ zone)) 11
        (19 + (fraction micro).length) = some ⟨hour, minute, second, micro, leftover⟩ := by
    by_cases h0 : micro = 0
    · subst h0
      exact ⟨_, clock?_of_hasClock hclock rfl⟩
    · have hfraction : fraction micro = _ := if_neg h0
      refine clock?_of_fraction hclock ?_ ?_ (by rw [hfraction]; rfl)
      · rw [hfraction]; rfl
      · rw [hfraction]
        exact number?_of_hasDigits
          ⟨⟨⟨⟨⟨⟨.zero (by omega), rfl⟩, rfl⟩, rfl⟩, rfl⟩, rfl⟩, rfl⟩
  have hstop : 11 + (8 + (fraction micro).length) = 19 + (fraction micro).length := by omega
  simp only [timed?, length_takeWhile_stamp, hstop, hparts, hzone, Option.bind_eq_bind,
    Option.bind_some, hlt, if_true]

end

end Iso8601

namespace Instant

open Iso8601

section
variable (i : Instant)

theorem isValid_date : i.date.IsValid := by
  apply Date.isValid_ofDayNumber
  have := i.inCalendar
  simp only [calendarUs, calendarDays, usPerDay] at *
  omega

/-- Date and time of day give the reading. -/
theorem ofParts?_date :
    ofParts? i.date i.hour i.minute i.second i.microsecond i.offset = some i := by
  have hreading : (((i.date.dayNumber * 24 + i.hour) * 60 + i.minute) * 60 + i.second) * usPerSecond
      + i.microsecond = i.reading := by
    simp only [date, Date.dayNumber_ofDayNumber, hour, minute, second, microsecond, usPerDay,
      usPerSecond]
    omega
  have hparts : i.hour < 24 ∧ i.minute < 60 ∧ i.second < 60 ∧ i.microsecond < usPerSecond := by
    simp only [hour, minute, second, microsecond, usPerSecond]
    omega
  simp only [ofParts?, hreading]
  rw [dif_pos ⟨i.isValid_date, hparts.1, hparts.2.1, hparts.2.2.1, hparts.2.2.2, i.inCalendar⟩]

theorem day_date_lt : i.date.day < 100 := by
  have hday := i.isValid_date.day.2
  have hlengths : ∀ leap, ∀ n ∈ monthLengths leap, n ≤ 31 := by decide
  have hle : (monthLengths (isLeapYear i.date.year)).getD (i.date.month - 1) 0 ≤ 31 := by
    rw [List.getD_eq_getElem?_getD]
    cases h : (monthLengths (isLeapYear i.date.year))[i.date.month - 1]? with
    | none => decide
    | some n => exact hlengths _ n (List.mem_of_getElem? h)
  omega

end

section
variable {i : Instant}

/-- The numbers below a hundred that the form holds, and the fraction of a second. -/
theorem parts_lt : i.hour < 100 ∧ i.minute < 100 ∧ i.second < 100 ∧ i.microsecond < 1000000 := by
  simp only [hour, minute, second, microsecond, usPerSecond]
  omega

theorem toText_utc (h : i.offset = some .utc) : i.toText =
    Text.digits 4 i.date.year ++ ("-" : Text) ++ Text.digits 2 i.date.month ++ ("-" : Text)
      ++ Text.digits 2 i.date.day ++ ("T" : Text) ++ Text.digits 2 i.hour ++ (":" : Text)
      ++ Text.digits 2 i.minute ++ (":" : Text) ++ Text.digits 2 i.second
      ++ (if i.microsecond = 0 then [] else ("." : Text) ++ Text.digits 6 i.microsecond)
      ++ ("+00:00" : Text) := by
  have hyear := i.isValid_date.year.2
  have hmonth := i.isValid_date.month.2
  have hday := i.day_date_lt
  have hparts := i.parts_lt
  have hzone : Offset.utc.toText = "+00:00" := by
    simp [Offset.toText, Offset.utc, Text.ofNat, Text.numeral_ten_lt]
    rfl
  simp only [toText, readingText, h, Option.map_some, Option.getD_some, hzone]
  have hmonth : i.date.month < 100 := Nat.lt_of_le_of_lt hmonth (by decide)
  rw [Text.padded_ofNat 3 (Nat.lt_succ_of_le hyear), Text.padded_ofNat 1 hmonth,
    Text.padded_ofNat 1 hday, Text.padded_ofNat 1 hparts.1, Text.padded_ofNat 1 hparts.2.1,
    Text.padded_ofNat 1 hparts.2.2.1, Text.padded_ofNat 5 hparts.2.2.2]

theorem all_isAscii_toText (h : i.offset = some .utc) : i.toText.all CodePoint.isAscii := by
  rw [toText_utc h]
  by_cases h0 : i.microsecond = 0
  · simp only [List.all_append, Text.all_isAscii_digits, h0, if_true]
    rfl
  · simp only [List.all_append, Text.all_isAscii_digits, h0, if_false]
    rfl

theorem utf8?_toText (h : i.offset = some .utc) :
    i.toText.utf8? = some (stamp i.date i.hour i.minute i.second ++
      (fraction i.microsecond ++ zone)) := by
  have hdigits : ∀ n, (CodePoint.ofDigit (n % 10)).octet = digitOctet (n % 10) :=
    fun n => octet_ofDigit (Nat.mod_lt _ (by decide))
  rw [Text.utf8?_of_isAscii (all_isAscii_toText h), toText_utc h]
  by_cases h0 : i.microsecond = 0
  · simp [Text.digits, stamp, fraction, hdigits, h0]
    rfl
  · simp [Text.digits, stamp, fraction, hdigits, h0]
    rfl

end

/-- **The written form of an instant in UTC stands for that instant.** -/
theorem ofText?_toText {i : Instant} (h : i.offset = some .utc) : ofText? i.toText = some i := by
  have hyear := i.isValid_date.year.2
  have hmonth := i.isValid_date.month.2
  have hday := i.day_date_lt
  have hparts := i.parts_lt
  simp only [ofText?, utf8?_toText h, Option.bind_eq_bind, Option.bind_some]
  generalize hrest : fraction i.microsecond ++ zone = rest
  have hlength : 19 ≤ (stamp i.date i.hour i.minute i.second ++ rest).length := by simp [stamp]
  have hfifth : octetAt (stamp i.date i.hour i.minute i.second ++ rest) 5 ≠ weekMark :=
    digitOctet_ne_octet (Nat.mod_lt _ (by decide)) (by decide) (by decide)
  have hfourth : octetAt (stamp i.date i.hour i.minute i.second ++ rest) 4 = hyphen := rfl
  have hend : dateEnd? (stamp i.date i.hour i.minute i.second ++ rest) = some 10 := by
    rw [dateEnd?, if_neg (by omega), if_pos hfourth, if_pos hfifth]
  have hwidth : width (octetAt (stamp i.date i.hour i.minute i.second ++ rest) 10) = 1 := rfl
  rw [if_neg (by omega), hend]
  simp only [Option.bind_some, date?_stamp i.date i.hour i.minute i.second rest
    (Nat.lt_succ_of_le hyear) (Nat.lt_of_le_of_lt hmonth (by decide)) hday]
  rw [if_neg (by omega), hwidth, ← hrest,
    timed?_stamp hparts.1 hparts.2.1 hparts.2.2.1 hparts.2.2.2, ← h]
  exact i.ofParts?_date

end Instant

end SlidingCache
