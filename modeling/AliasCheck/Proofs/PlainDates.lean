import AliasCheck.Check
import AliasCheck.Proofs.Stretches

/-!
# How dates may be written

The check for dates accepts timestamps, and it accepts plain dates that are written in full: four
digits for the year and two each for the month and the day. It also accepts plain dates with blanks,
signs and short numbers. A `PlainDate` is such a text in its parts, and what is accepted is exactly
what has parts that name a day of the calendar.
-/

namespace AliasCheck
namespace Calendar

/-! ## Days -/

/-- The days of the Gregorian calendar. -/
inductive IsCalendarDay (year : Int) : Nat → Nat → Prop where
  /-- One of the days of a long month. -/
  | long {month day : Nat} (hmonth : month ∈ [1, 3, 5, 7, 8, 10, 12]) (hfirst : 1 ≤ day)
      (hlast : day ≤ 31) : IsCalendarDay year month day
  /-- One of the days of a short month. -/
  | short {month day : Nat} (hmonth : month ∈ [4, 6, 9, 11]) (hfirst : 1 ≤ day)
      (hlast : day ≤ 30) : IsCalendarDay year month day
  | february {day : Nat} (hfirst : 1 ≤ day) (hlast : day ≤ 28) : IsCalendarDay year 2 day
  /-- The day that is put in every four years, except in three centuries out of four. -/
  | leapDay (hfour : 4 ∣ year) (hcentury : 100 ∣ year → 400 ∣ year) : IsCalendarDay year 2 29

section Days

variable {year : Int} {month day : Nat}

theorem isLeapYear_iff : isLeapYear year = true ↔ 4 ∣ year ∧ (100 ∣ year → 400 ∣ year) := by
  simp only [isLeapYear, Bool.and_eq_true, Bool.or_eq_true, decide_eq_true_eq]
  omega

theorem daysIn_long (h : month ∈ [1, 3, 5, 7, 8, 10, 12]) : daysIn year month = 31 := by
  simp only [List.mem_cons, List.not_mem_nil, or_false] at h
  rcases h with rfl | rfl | rfl | rfl | rfl | rfl | rfl <;> rfl

theorem daysIn_short (h : month ∈ [4, 6, 9, 11]) : daysIn year month = 30 := by
  simp only [List.mem_cons, List.not_mem_nil, or_false] at h
  rcases h with rfl | rfl | rfl | rfl <;> rfl

theorem month_cases : 1 ≤ month ∧ month ≤ 12 ↔
    month ∈ [1, 3, 5, 7, 8, 10, 12] ∨ month ∈ [4, 6, 9, 11] ∨ month = 2 := by
  simp only [List.mem_cons, List.not_mem_nil, or_false]
  omega

theorem isDay_eq_true : isDay year month day = true ↔
    1 ≤ month ∧ month ≤ 12 ∧ 1 ≤ day ∧ day ≤ daysIn year month := by
  simp only [isDay, Bool.and_eq_true, decide_eq_true_eq, and_assoc]

theorem isDay_iff : isDay year month day = true ↔ IsCalendarDay year month day := by
  rw [isDay_eq_true]
  constructor
  · rintro ⟨hmonth, hmonth', hfirst, hlast⟩
    rcases month_cases.mp ⟨hmonth, hmonth'⟩ with hlong | hshort | rfl
    · exact .long hlong hfirst (daysIn_long hlong ▸ hlast)
    · exact .short hshort hfirst (daysIn_short hshort ▸ hlast)
    · rw [daysIn] at hlast
      split at hlast
      · rename_i hleap
        obtain ⟨hfour, hcentury⟩ := isLeapYear_iff.mp hleap
        rcases Nat.lt_or_eq_of_le hlast with hless | rfl
        · exact .february hfirst (Nat.le_of_lt_succ hless)
        · exact .leapDay hfour hcentury
      · exact .february hfirst hlast
  · intro h
    cases h with
    | long hmonth hfirst hlast =>
      have hbounds := month_cases.mpr (.inl hmonth)
      rw [daysIn_long hmonth]
      exact ⟨hbounds.1, hbounds.2, hfirst, hlast⟩
    | short hmonth hfirst hlast =>
      have hbounds := month_cases.mpr (.inr (.inl hmonth))
      rw [daysIn_short hmonth]
      exact ⟨hbounds.1, hbounds.2, hfirst, hlast⟩
    | february hfirst hlast =>
      refine ⟨by decide, by decide, hfirst, Nat.le_trans hlast ?_⟩
      rw [daysIn]
      split <;> decide
    | leapDay hfour hcentury =>
      have hdays : daysIn year 2 = 29 := if_pos (isLeapYear_iff.mpr ⟨hfour, hcentury⟩)
      exact ⟨by decide, by decide, by decide, Nat.le_of_eq hdays.symm⟩

end Days

/-! ## Texts -/

/-- A number in decimal digits. -/
structure IsNumeral (ds : List Char) : Prop where
  ne_nil : ds ≠ []
  digits : ∀ c ∈ ds, c.isDigit = true

/-- Room that may be left in front of a number. -/
def IsGap (cs : List Char) : Prop := ∀ c ∈ cs, Unicode.isSpace c = true

/-- What stands in front of the digits of a year. -/
inductive Sign where
  | absent | plus | minus
  deriving DecidableEq, Repr

def Sign.text : Sign → List Char
  | absent => []
  | plus => ['+']
  | minus => ['-']

/-- The year that a sign and a number make. -/
def Sign.apply : Sign → Nat → Int
  | absent, n | plus, n => n
  | minus, n => -n

/-- The parts of a text that may be a plain date. -/
structure PlainDate where
  yearGap : List Char
  sign : Sign
  year : List Char
  monthGap : List Char
  month : List Char
  dayGap : List Char
  day : List Char

namespace PlainDate

/-- The parts put together, with hyphens between them. -/
def text (d : PlainDate) : List Char :=
  d.yearGap ++ (d.sign.text ++ (d.year ++ '-' ::
    (d.monthGap ++ (d.month ++ '-' :: (d.dayGap ++ d.day)))))

/-- The number of the year. -/
def yearNumber (d : PlainDate) : Int := d.sign.apply (Nat.ofDigitChars 10 d.year 0)

/-- The parts are numbers that name a day of the calendar in the years that can be told apart. A
number may be short and stand behind a gap, and a year with a sign may be of any length. -/
structure NamesDay (d : PlainDate) : Prop where
  yearGap : IsGap d.yearGap
  monthGap : IsGap d.monthGap
  dayGap : IsGap d.dayGap
  year : IsNumeral d.year
  month : IsNumeral d.month
  day : IsNumeral d.day
  year_length : d.sign = .absent → d.year.length ≤ 4
  month_length : d.month.length ≤ 2
  day_length : d.day.length ≤ 2
  bounds : -262143 ≤ d.yearNumber ∧ d.yearNumber ≤ 262142
  calendar : IsCalendarDay d.yearNumber (Nat.ofDigitChars 10 d.month 0)
    (Nat.ofDigitChars 10 d.day 0)

/-- There are four digits for the year and two each for the month and the day, and nothing but the
hyphens beside them. -/
structure IsFull (d : PlainDate) : Prop where
  yearGap : d.yearGap = []
  sign : d.sign = .absent
  monthGap : d.monthGap = []
  dayGap : d.dayGap = []
  year_length : d.year.length = 4
  month_length : d.month.length = 2
  day_length : d.day.length = 2

end PlainDate

/-- A plain date that is written in full: `YYYY-MM-DD`, where this is a day of the calendar. -/
def IsFullDate (cs : List Char) : Prop :=
  ∃ year month day : List Char, year.length = 4 ∧ month.length = 2 ∧ day.length = 2 ∧
    (∀ c ∈ year ++ month ++ day, c.isDigit = true) ∧ cs = year ++ '-' :: (month ++ '-' :: day) ∧
    IsCalendarDay (Nat.ofDigitChars 10 year 0) (Nat.ofDigitChars 10 month 0)
      (Nat.ofDigitChars 10 day 0)

/-! ## Reading numbers -/

section Reading

variable {width n : Nat} {cs ds gap rest : List Char}

/-- The next character is no digit. -/
def EndsNumeral (rest : List Char) : Prop := ∀ c, rest.head? = some c → c.isDigit = false

theorem endsNumeral_hyphen (rest : List Char) : EndsNumeral ('-' :: rest) := by
  rintro c ⟨⟩
  rfl

theorem endsNumeral_nil : EndsNumeral [] := nofun

theorem IsNumeral.head (h : IsNumeral ds) (rest : List Char) :
    ∃ d more, ds ++ rest = d :: more ∧ d.isDigit = true := by
  obtain ⟨hne, hdigits⟩ := h
  cases ds with
  | nil => exact absurd rfl hne
  | cons d ds => exact ⟨d, ds ++ rest, rfl, hdigits d List.mem_cons_self⟩

theorem IsNumeral.head_not_isSpace (h : IsNumeral ds) (rest : List Char) :
    ∀ c, (ds ++ rest).head? = some c → Unicode.isSpace c = false := by
  intro c hc
  obtain ⟨d, more, hds, hd⟩ := h.head rest
  rw [hds] at hc
  cases hc
  exact not_isSpace_of_isDigit hd

theorem Sign.head_not_isSpace (sign : Sign) (h : IsNumeral ds) (rest : List Char) :
    ∀ c, (sign.text ++ (ds ++ rest)).head? = some c → Unicode.isSpace c = false := by
  cases sign with
  | absent => exact h.head_not_isSpace rest
  | plus | minus =>
    rintro c ⟨⟩
    rfl

theorem upTo_append (h : IsNumeral ds) (hlength : ds.length ≤ width) (hrest : EndsNumeral rest) :
    upTo width (ds ++ rest) = some (Nat.ofDigitChars 10 ds 0, rest) := by
  have htake : ((ds ++ rest).takeWhile Char.isDigit).take width = ds := by
    rw [takeWhile_append_eq h.digits hrest, List.take_of_length_le hlength]
  simp only [upTo, htake, if_neg h.ne_nil, List.drop_left]
  rfl

theorem exists_of_upTo (h : upTo width cs = some (n, rest)) :
    ∃ ds, cs = ds ++ rest ∧ IsNumeral ds ∧ ds.length ≤ width ∧ n = Nat.ofDigitChars 10 ds 0 := by
  simp only [upTo] at h
  split at h
  · cases h
  · rename_i hne
    cases h
    obtain ⟨more, hsplit, -, hdigits, -⟩ := exists_takeWhile Char.isDigit cs
    have hfront := (List.take_prefix width (cs.takeWhile Char.isDigit)).trans
      (List.takeWhile_prefix Char.isDigit)
    refine ⟨_, ?_, ⟨hne, fun c hc => hdigits c (List.mem_of_mem_take hc)⟩,
      List.length_take_le .., rfl⟩
    exact (List.prefix_iff_eq_append.mp hfront).symm

theorem part_append (hgap : IsGap gap) (h : IsNumeral ds) (hlength : ds.length ≤ 2)
    (hrest : EndsNumeral rest) :
    part (gap ++ (ds ++ rest)) = some (Nat.ofDigitChars 10 ds 0, rest) := by
  rw [part, dropWhile_append_eq hgap (h.head_not_isSpace rest)]
  exact upTo_append h hlength hrest

theorem exists_gap (cs : List Char) :
    ∃ gap, cs = gap ++ cs.dropWhile Unicode.isSpace ∧ IsGap gap :=
  ⟨cs.takeWhile Unicode.isSpace, List.takeWhile_append_dropWhile.symm,
    List.all_eq_true.mp List.all_takeWhile⟩

theorem exists_of_part (h : part cs = some (n, rest)) :
    ∃ gap ds, cs = gap ++ (ds ++ rest) ∧ IsGap gap ∧ IsNumeral ds ∧ ds.length ≤ 2 ∧
      n = Nat.ofDigitChars 10 ds 0 := by
  obtain ⟨gap, hcs, hgap⟩ := exists_gap cs
  obtain ⟨ds, hds, hnumeral, hlength, hn⟩ := exists_of_upTo h
  exact ⟨gap, ds, by rw [← hds, ← hcs], hgap, hnumeral, hlength, hn⟩

theorem year_append {sign : Sign} (hgap : IsGap gap) (h : IsNumeral ds)
    (hlength : sign = .absent → ds.length ≤ 4) (hrest : EndsNumeral rest) :
    year (gap ++ (sign.text ++ (ds ++ rest)))
      = some (sign.apply (Nat.ofDigitChars 10 ds 0), rest) := by
  have hsigned : ds.length ≤ (ds ++ rest).length := by
    rw [List.length_append]
    exact Nat.le_add_right ..
  rw [year, dropWhile_append_eq hgap (sign.head_not_isSpace h rest)]
  cases sign with
  | absent =>
    obtain ⟨d, more, hds, hd⟩ := h.head rest
    have hread := upTo_append h (hlength rfl) hrest
    rw [Sign.text, List.nil_append]
    rw [hds] at hread ⊢
    split
    · rename_i heq
      cases heq
      cases hd
    · rename_i heq
      cases heq
      cases hd
    · rw [hread]
      rfl
  | plus | minus =>
    show (upTo (ds ++ rest).length (ds ++ rest)).map _ = _
    rw [upTo_append h hsigned hrest]
    rfl

theorem exists_of_year {y : Int} (h : year cs = some (y, rest)) :
    ∃ gap sign ds, cs = gap ++ (Sign.text sign ++ (ds ++ rest)) ∧ IsGap gap ∧ IsNumeral ds ∧
      (sign = .absent → ds.length ≤ 4) ∧ y = sign.apply (Nat.ofDigitChars 10 ds 0) := by
  obtain ⟨gap, hcs, hgap⟩ := exists_gap cs
  rw [year] at h
  split at h
  all_goals
    rename_i heq
    obtain ⟨⟨n, rest'⟩, hread, heq'⟩ := Option.map_eq_some_iff.mp h
    cases heq'
    obtain ⟨ds, hds, hnumeral, hlength, rfl⟩ := exists_of_upTo hread
  · exact ⟨gap, .minus, ds, by rw [hcs, heq, hds]; rfl, hgap, hnumeral, nofun, rfl⟩
  · exact ⟨gap, .plus, ds, by rw [hcs, heq, hds]; rfl, hgap, hnumeral, nofun, rfl⟩
  · exact ⟨gap, .absent, ds, by rw [← hds]; exact hcs, hgap, hnumeral, fun _ => hlength, rfl⟩

theorem one_eq_some {c : Char} : one (· = c) cs = some rest ↔ cs = c :: rest := by
  cases cs with
  | nil => simp [one]
  | cons d cs => simp only [one]; split <;> simp_all

theorem suffix_of_one {condition : Char → Bool} (h : one condition cs = some rest) :
    rest <:+ cs := by
  cases cs with
  | nil => cases h
  | cons c cs =>
    rw [one] at h
    split at h
    · cases h
      exact List.suffix_cons c _
    · cases h

theorem suffix_of_fixed (h : fixed width cs = some (n, rest)) : rest <:+ cs := by
  simp only [fixed] at h
  split at h
  · cases h
    exact List.drop_suffix width cs
  · cases h

theorem getD_false_eq_true {x : Option Bool} : x.getD false = true ↔ x = some true := by
  cases x <;> simp

end Reading

/-! ## Plain dates -/

section PlainDates

variable {cs : List Char}

theorem isPlainDate_eq_true : isPlainDate cs = true ↔
    ∃ y month day atMonth atDay, year cs = some (y, '-' :: atMonth) ∧
      part atMonth = some (month, '-' :: atDay) ∧ part atDay = some (day, []) ∧
      minYear ≤ y ∧ y ≤ maxYear ∧ IsCalendarDay y month day := by
  simp only [isPlainDate, getD_false_eq_true, Option.bind_eq_bind, Option.bind_eq_some_iff,
    Prod.exists, one_eq_some, Option.some.injEq, Bool.and_eq_true, decide_eq_true_eq,
    List.isEmpty_iff, isDay_iff]
  constructor
  · rintro ⟨y, _, hyear, atMonth, rfl, month, _, hmonth, atDay, rfl, day, _, hday,
      ⟨⟨hmin, hmax⟩, hcalendar⟩, rfl⟩
    exact ⟨y, month, day, atMonth, atDay, hyear, hmonth, hday, hmin, hmax, hcalendar⟩
  · rintro ⟨y, month, day, atMonth, atDay, hyear, hmonth, hday, hmin, hmax, hcalendar⟩
    exact ⟨y, _, hyear, atMonth, rfl, month, _, hmonth, atDay, rfl, day, _, hday,
      ⟨⟨hmin, hmax⟩, hcalendar⟩, rfl⟩

/-- Parts that name a day make a plain date. -/
theorem isPlainDate_text {d : PlainDate} (h : d.NamesDay) : isPlainDate d.text = true := by
  have hday := part_append h.dayGap h.day h.day_length endsNumeral_nil
  rw [List.append_nil] at hday
  exact isPlainDate_eq_true.mpr ⟨_, _, _, _, _,
    year_append h.yearGap h.year h.year_length (endsNumeral_hyphen _),
    part_append h.monthGap h.month h.month_length (endsNumeral_hyphen _), hday,
    h.bounds.1, h.bounds.2, h.calendar⟩

/-- A plain date is what has parts that name a day. -/
theorem isPlainDate_iff : isPlainDate cs = true ↔ ∃ d : PlainDate, d.NamesDay ∧ d.text = cs := by
  constructor
  · intro h
    obtain ⟨y, month, day, atMonth, atDay, hyear, hmonth, hday, hmin, hmax, hcalendar⟩ :=
      isPlainDate_eq_true.mp h
    obtain ⟨yearGap, sign, ys, rfl, hyearGap, hys, hyearLength, rfl⟩ := exists_of_year hyear
    obtain ⟨monthGap, ms, rfl, hmonthGap, hms, hmonthLength, rfl⟩ := exists_of_part hmonth
    obtain ⟨dayGap, ds, rfl, hdayGap, hds, hdayLength, rfl⟩ := exists_of_part hday
    rw [List.append_nil]
    exact ⟨⟨yearGap, sign, ys, monthGap, ms, dayGap, ds⟩,
      ⟨hyearGap, hmonthGap, hdayGap, hys, hms, hds, hyearLength, hmonthLength, hdayLength,
        ⟨hmin, hmax⟩, hcalendar⟩, rfl⟩
  · rintro ⟨d, hd, rfl⟩
    exact isPlainDate_text hd

end PlainDates

/-! ## The parts of a text -/

section Parts

variable {gap gap' ds ds' rest rest' : List Char} {sign sign' : Sign}

/-- A number and the gap in front of it can be told from a text in one way only. -/
theorem part_unique (heq : gap ++ (ds ++ rest) = gap' ++ (ds' ++ rest')) (hgap : IsGap gap)
    (hgap' : IsGap gap') (h : IsNumeral ds) (h' : IsNumeral ds') (hrest : EndsNumeral rest)
    (hrest' : EndsNumeral rest') : gap = gap' ∧ ds = ds' ∧ rest = rest' := by
  obtain ⟨rfl, hnumerals⟩ := stretch_unique heq hgap hgap' (h.head_not_isSpace rest)
    (h'.head_not_isSpace rest')
  exact ⟨rfl, stretch_unique hnumerals h.digits h'.digits hrest hrest'⟩

/-- A digit is no sign. -/
theorem sign_unique (heq : sign.text ++ (ds ++ rest) = sign'.text ++ (ds' ++ rest'))
    (h : IsNumeral ds) (h' : IsNumeral ds') : sign = sign' ∧ ds ++ rest = ds' ++ rest' := by
  obtain ⟨d, more, hds, hd⟩ := h.head rest
  obtain ⟨d', more', hds', hd'⟩ := h'.head rest'
  rw [hds, hds'] at heq ⊢
  cases sign <;> cases sign' <;> cases heq
  all_goals first | exact ⟨rfl, rfl⟩ | cases hd | cases hd'

/-- A text has parts that name a day in one way only. -/
theorem PlainDate.NamesDay.unique {d d' : PlainDate} (h : d.NamesDay) (h' : d'.NamesDay)
    (heq : d.text = d'.text) : d = d' := by
  obtain ⟨hyearGap, hyear⟩ := stretch_unique heq h.yearGap h'.yearGap
    (d.sign.head_not_isSpace h.year _) (d'.sign.head_not_isSpace h'.year _)
  obtain ⟨hsign, hyear⟩ := sign_unique hyear h.year h'.year
  obtain ⟨hyear, hmonth⟩ := stretch_unique hyear h.year.digits h'.year.digits
    (endsNumeral_hyphen _) (endsNumeral_hyphen _)
  obtain ⟨hmonthGap, hmonth, hday⟩ := part_unique (List.tail_eq_of_cons_eq hmonth) h.monthGap
    h'.monthGap h.month h'.month (endsNumeral_hyphen _) (endsNumeral_hyphen _)
  have hends := List.tail_eq_of_cons_eq hday
  rw [← List.append_nil d.day, ← List.append_nil d'.day] at hends
  obtain ⟨hdayGap, hday, -⟩ := part_unique hends h.dayGap h'.dayGap h.day h'.day endsNumeral_nil
    endsNumeral_nil
  cases d
  cases d'
  subst hyearGap hsign hyear hmonthGap hmonth hdayGap hday
  rfl

end Parts

/-! ## Plain dates in full -/

section FullDates

variable {cs : List Char} {d : PlainDate}

theorem IsFullDate.length (h : IsFullDate cs) : cs.length = 10 := by
  obtain ⟨year, month, day, hyear, hmonth, hday, -, rfl, -⟩ := h
  simp only [List.length_append, List.length_cons, hyear, hmonth, hday]

/-- A date in full has parts that say so. -/
theorem exists_of_isFullDate (h : IsFullDate cs) :
    ∃ d : PlainDate, d.NamesDay ∧ d.IsFull ∧ d.text = cs := by
  obtain ⟨year, month, day, hyear, hmonth, hday, hdigits, rfl, hcalendar⟩ := h
  simp only [List.mem_append, or_imp, forall_and] at hdigits
  obtain ⟨⟨hyears, hmonths⟩, hdays⟩ := hdigits
  have hnumeral : ∀ ds : List Char, ds.length ≠ 0 → (∀ c ∈ ds, c.isDigit = true) → IsNumeral ds :=
    fun ds hds hall => ⟨fun h => hds (h ▸ rfl), hall⟩
  have hless := ofDigitChars_lt hyears
  rw [hyear] at hless
  have hbounds : (-262143 : Int) ≤ Nat.ofDigitChars 10 year 0 ∧
      (Nat.ofDigitChars 10 year 0 : Int) ≤ 262142 := by omega
  exact ⟨⟨[], .absent, year, [], month, [], day⟩,
    ⟨nofun, nofun, nofun, hnumeral year (by omega) hyears, hnumeral month (by omega) hmonths,
      hnumeral day (by omega) hdays, fun _ => Nat.le_of_eq hyear, Nat.le_of_eq hmonth,
      Nat.le_of_eq hday, hbounds, hcalendar⟩,
    ⟨rfl, rfl, rfl, rfl, hyear, hmonth, hday⟩, rfl⟩

/-- Parts in full make a date in full, and no others do. -/
theorem isFullDate_text_iff (h : d.NamesDay) : IsFullDate d.text ↔ d.IsFull := by
  constructor
  · intro hfull
    obtain ⟨d', h', hfull', htext⟩ := exists_of_isFullDate hfull
    exact h.unique h' htext.symm ▸ hfull'
  · intro hfull
    refine ⟨d.year, d.month, d.day, hfull.year_length, hfull.month_length, hfull.day_length,
      ?_, ?_, ?_⟩
    · intro c hc
      rw [List.mem_append, List.mem_append] at hc
      rcases hc with (hc | hc) | hc
      · exact h.year.digits c hc
      · exact h.month.digits c hc
      · exact h.day.digits c hc
    · rw [PlainDate.text, hfull.yearGap, hfull.sign, hfull.monthGap, hfull.dayGap]
      rfl
    · have hcalendar := h.calendar
      rw [PlainDate.yearNumber, hfull.sign] at hcalendar
      exact hcalendar

end FullDates

/-! ## Plain dates and timestamps -/

/-- A timestamp gives a time. -/
theorem colon_mem_of_isTimestamp {cs : List Char} (h : isTimestamp cs = true) : ':' ∈ cs := by
  simp only [isTimestamp, getD_false_eq_true, Option.bind_eq_bind, Option.bind_eq_some_iff,
    Prod.exists] at h
  obtain ⟨_, _, hyear, _, hhyphen, _, _, hmonth, _, hhyphen', _, _, hday, _, hmark, _, atColon,
    hhour, rest, hcolon, -⟩ := h
  have hatDay := ((suffix_of_fixed hmonth).trans (suffix_of_one hhyphen)).trans
    (suffix_of_fixed hyear)
  have hatHour := ((suffix_of_one hmark).trans (suffix_of_fixed hday)).trans
    ((suffix_of_one hhyphen').trans hatDay)
  have hatColon : atColon <:+ cs := (suffix_of_fixed hhour).trans hatHour
  rw [one_eq_some.mp hcolon] at hatColon
  exact hatColon.mem List.mem_cons_self

theorem PlainDate.NamesDay.colon_not_mem {d : PlainDate} (h : d.NamesDay) : ':' ∉ d.text := by
  have hgap : ∀ {gap}, IsGap gap → ':' ∉ gap := fun hgap hmem => absurd (hgap _ hmem) (by decide)
  have hnumeral : ∀ {ds}, IsNumeral ds → ':' ∉ ds :=
    fun hds hmem => absurd (hds.digits _ hmem) (by decide)
  have hsign : ':' ∉ d.sign.text := by cases d.sign <;> decide
  have hhyphen : ':' ≠ '-' := by decide
  simp only [PlainDate.text, List.mem_append, List.mem_cons, not_or]
  exact ⟨hgap h.yearGap, hsign, hnumeral h.year, hhyphen, hgap h.monthGap, hnumeral h.month,
    hhyphen, hgap h.dayGap, hnumeral h.day⟩

/-! ## The check for dates -/

section Check

variable {text : String}

theorem isDate_iff : isDate text = true ↔ isTimestamp text.toList = true ∨
    ∃ d : PlainDate, d.NamesDay ∧ d.text = text.toList := by
  rw [isDate, Bool.or_eq_true, isPlainDate_iff]

/-- What is accepted is a timestamp or a date in full, except for the plain dates with other
parts. -/
theorem isDate_iff_isFullDate :
    (isDate text = true ↔ isTimestamp text.toList = true ∨ IsFullDate text.toList) ↔
      ∀ d : PlainDate, d.NamesDay → d.text = text.toList → d.IsFull := by
  rw [isDate_iff]
  constructor
  · intro h d hd htext
    rcases h.mp (.inr ⟨d, hd, htext⟩) with htimestamp | hfull
    · exact absurd (colon_mem_of_isTimestamp htimestamp) (htext ▸ hd.colon_not_mem)
    · rw [← htext] at hfull
      exact (isFullDate_text_iff hd).mp hfull
  · intro h
    refine or_congr_right ⟨?_, ?_⟩
    · rintro ⟨d, hd, htext⟩
      rw [← htext]
      exact (isFullDate_text_iff hd).mpr (h d hd htext)
    · intro hfull
      obtain ⟨d, hd, -, htext⟩ := exists_of_isFullDate hfull
      exact ⟨d, hd, htext⟩

end Check

/-- The builtin check for dates accepts strings that are timestamps or have the parts of a plain
date. A plain date is one in full if its parts have no gap and no sign, four digits for the year and
two each for the month and the day. So timestamps and dates in full are all that is accepted
wherever the text is no plain date with other parts. -/
theorem builtin_date_iff (value : Json) :
    ∃ check, Table.get? "Date" Check.builtins = some check ∧
      (check (some value) = .ok () ↔ ∃ text, value = .string text ∧
        (isTimestamp text.toList = true ∨ ∃ d : PlainDate, d.NamesDay ∧ d.text = text.toList)) ∧
      (∀ d : PlainDate, d.NamesDay → (IsFullDate d.text ↔ d.IsFull)) ∧
      ((check (some value) = .ok () ↔ ∃ text, value = .string text ∧
          (isTimestamp text.toList = true ∨ IsFullDate text.toList)) ↔
        ∀ text, value = .string text →
          ∀ d : PlainDate, d.NamesDay → d.text = text.toList → d.IsFull) := by
  refine ⟨Check.instanceOf .date, rfl, ?_, fun d h => isFullDate_text_iff h, ?_⟩
  · rw [Check.instanceOf_date_eq_ok_iff]
    simp only [isDate_iff]
  · rw [Check.instanceOf_date_eq_ok_iff]
    cases value with
    | string text => simpa using isDate_iff_isFullDate
    | _ => simp

/-- Gaps, a sign, a long year and a short month do not keep this from being a date. -/
theorem builtin_date_iff_example :
    ∃ d check, Table.get? "Date" Check.builtins = some check ∧ PlainDate.NamesDay d ∧
      d.text = " +02016-2- 29".toList ∧ check (some (.string " +02016-2- 29")) = .ok () ∧
      ¬ IsFullDate d.text := by
  obtain ⟨check, hcheck, haccepts, hparts, -⟩ := builtin_date_iff (.string " +02016-2- 29")
  generalize hparts' : (⟨[' '], .plus, "02016".toList, [], "2".toList, [' '], "29".toList⟩ :
    PlainDate) = d
  have hd : d.NamesDay := by
    subst hparts'
    exact {
      yearGap := List.forall_mem_singleton.mpr (by decide)
      monthGap := nofun
      dayGap := List.forall_mem_singleton.mpr (by decide)
      year := ⟨nofun, List.all_eq_true.mp rfl⟩
      month := ⟨nofun, List.all_eq_true.mp rfl⟩
      day := ⟨nofun, List.all_eq_true.mp rfl⟩
      year_length := nofun
      month_length := by decide
      day_length := by decide
      bounds := by decide
      calendar := .leapDay (by decide) (by decide) }
  have htext : d.text = " +02016-2- 29".toList := by
    subst hparts'
    rfl
  refine ⟨d, check, hcheck, hd, htext, haccepts.mpr ⟨_, rfl, .inr ⟨d, hd, htext⟩⟩, fun h => ?_⟩
  have hsign := ((hparts d hd).mp h).sign
  subst hparts'
  cases hsign

/-- Not only dates that are written in full are accepted. -/
theorem not_isFullDate : ¬ ∀ value : Json, Check.instanceOf .date (some value) = .ok () ↔
    ∃ text, value = .string text ∧
      (isTimestamp text.toList = true ∨ IsFullDate text.toList) := by
  intro h
  obtain ⟨text, htext, hwritten⟩ := (h (.string "2015-5-7")).mp rfl
  cases htext
  rcases hwritten with htimestamp | hfull
  · exact absurd htimestamp (by decide)
  · exact absurd hfull.length (by decide)

end Calendar
end AliasCheck
