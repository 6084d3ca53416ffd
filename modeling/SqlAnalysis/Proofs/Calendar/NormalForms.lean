import SqlAnalysis.Proofs.Calendar.Chronology
import SqlAnalysis.Proofs.Text.Padding
import SqlAnalysis.SqlType.Storage

/-!
# Dates and their normal forms

A text is a date exactly if it writes a day of the calendar in digits, and a date and time if a
time of day follows after one blank. The normal form writes the same value at full width, so
that the normal forms are ordered by their bytes as the values are in time.
-/
namespace SqlAnalysis
namespace Calendar

/-! ### Fields of digits -/

/-- Between `least` and `most` ASCII digits that write a number. -/
structure DigitField (least most : Nat) (cs : List Char) (n : Nat) : Prop where
  digits : ∀ c ∈ cs, '0' ≤ c ∧ c ≤ '9'
  least_le : least ≤ cs.length
  le_most : cs.length ≤ most
  value : Nat.ofDigitChars 10 cs 0 = n

section

variable {least most n : Nat} {cs : List Char}

theorem all_isDigit_iff : cs.all Text.isDigit ↔ ∀ c ∈ cs, '0' ≤ c ∧ c ≤ '9' := by
  simp only [List.all_eq_true, Text.isDigit, Bool.and_eq_true, decide_eq_true_eq]

theorem field?_eq_some_iff (hleast : 0 < least) :
    field? least most cs = some n ↔ DigitField least most cs n := by
  simp only [field?, Text.natural?, Option.ite_none_right_eq_some, Option.some.injEq,
    all_isDigit_iff, Text.digitsValue_eq]
  constructor
  · rintro ⟨⟨hge, hle⟩, ⟨-, hdigits⟩, hvalue⟩
    exact ⟨hdigits, hge, hle, hvalue⟩
  · rintro ⟨hdigits, hge, hle, hvalue⟩
    exact ⟨⟨hge, hle⟩, ⟨List.length_pos_iff.mp (hleast.trans_le hge), hdigits⟩, hvalue⟩

theorem DigitField.lt (h : DigitField least most cs n) : n < 10 ^ most := by
  have hlt := Text.digitsValue_lt (all_isDigit_iff.mpr h.digits)
  rw [Text.digitsValue_eq, h.value] at hlt
  exact hlt.trans_le (Nat.pow_le_pow_right (by decide) h.le_most)

theorem DigitField.not_mem {sep : Char} (hsep : Text.isDigit sep = false)
    (h : DigitField least most cs n) : sep ∉ cs := by
  intro hmem
  rw [List.all_eq_true.mp (all_isDigit_iff.mpr h.digits) sep hmem] at hsep
  cases hsep

theorem field_padded {width : Nat} (hwidth : 0 < width) (hleast : least ≤ width)
    (hn : n < 10 ^ width) : DigitField least width (Text.padded width n).toList n where
  digits := all_isDigit_iff.mp (Text.digits_padded width n).all
  least_le := by rwa [Text.length_padded hwidth hn]
  le_most := (Text.length_padded hwidth hn).le
  value := by rw [← Text.digitsValue_eq, Text.digitsValue_padded]

end

theorem split_eq_three {sep : Char} {cs a b c : List Char} (h : Text.split sep cs = [a, b, c]) :
    cs = a ++ sep :: (b ++ sep :: c) := by
  rw [← Text.join_split sep cs, h]
  rfl

theorem split_three {sep : Char} {a b c : List Char} (ha : sep ∉ a) (hb : sep ∉ b)
    (hc : sep ∉ c) : Text.split sep (a ++ sep :: (b ++ sep :: c)) = [a, b, c] := by
  rw [Text.split_append sep ha, Text.split_append sep hb, Text.split_of_not_mem sep hc]

/-- Reading three fields between separators is finding them there. -/
theorem exists_fields_iff {sep : Char} {least most least' most' a b c : Nat} {cs : List Char}
    (hsep : Text.isDigit sep = false) (hleast : 0 < least) (hleast' : 0 < least') :
    (∃ x y z, Text.split sep cs = [x, y, z] ∧ field? least most x = some a ∧
      field? least' most' y = some b ∧ field? least' most' z = some c) ↔
    ∃ x y z, cs = x ++ sep :: (y ++ sep :: z) ∧ DigitField least most x a ∧
      DigitField least' most' y b ∧ DigitField least' most' z c := by
  simp only [field?_eq_some_iff hleast, field?_eq_some_iff hleast']
  constructor
  · rintro ⟨x, y, z, hsplit, hfields⟩
    exact ⟨x, y, z, split_eq_three hsplit, hfields⟩
  · rintro ⟨x, y, z, rfl, hx, hy, hz⟩
    exact ⟨x, y, z, split_three (hx.not_mem hsep) (hy.not_mem hsep) (hz.not_mem hsep), hx, hy, hz⟩

/-! ### Three numbers at full width -/

section

variable {width a b c a' b' c' : Nat}

/-- Three numbers with a separator between them, the later two with two digits. -/
def fullWidth (sep : Char) (width a b c : Nat) : List Char :=
  (Text.padded width a).toList ++
    sep :: ((Text.padded 2 b).toList ++ sep :: (Text.padded 2 c).toList)

theorem length_fullWidth (sep : Char) (hwidth : 0 < width) (ha : a < 10 ^ width) (hb : b < 100)
    (hc : c < 100) : (fullWidth sep width a b c).length = width + 6 := by
  rw [fullWidth, List.length_append, List.length_cons, List.length_append, List.length_cons,
    Text.length_padded hwidth ha, Text.length_padded (by decide) hb,
    Text.length_padded (by decide) hc]

theorem isAscii_of_digits {cs : List Char} (h : cs.all Text.isDigit) : Text.IsAscii cs := by
  intro c hc
  have hrange := Text.toNat_of_isDigit (List.all_eq_true.mp h c hc)
  omega

theorem isAscii_fullWidth {sep : Char} (hsep : sep.toNat < 128) :
    Text.IsAscii (fullWidth sep width a b c) := by
  have hpadded : ∀ width n, Text.IsAscii (Text.padded width n).toList :=
    fun width n => isAscii_of_digits (Text.digits_padded width n).all
  exact List.forall_mem_append.mpr ⟨hpadded width a, List.forall_mem_cons.mpr ⟨hsep,
    List.forall_mem_append.mpr ⟨hpadded 2 b, List.forall_mem_cons.mpr ⟨hsep, hpadded 2 c⟩⟩⟩⟩

theorem fullWidth_lt_iff (sep : Char) (hwidth : 0 < width) (ha : a < 10 ^ width)
    (ha' : a' < 10 ^ width) (hb : b < 100) (hb' : b' < 100) (hc : c < 100) (hc' : c' < 100) :
    fullWidth sep width a b c < fullWidth sep width a' b' c' ↔
      a < a' ∨ a = a' ∧ (b < b' ∨ b = b' ∧ c < c') := by
  have hfirst := (Text.length_padded hwidth ha).trans (Text.length_padded hwidth ha').symm
  have hsecond : (Text.padded 2 b).toList.length = (Text.padded 2 b').toList.length := by
    rw [Text.length_padded (by decide) hb, Text.length_padded (by decide) hb']
  rw [fullWidth, fullWidth, Text.append_lt_append_iff hfirst, List.cons_lt_cons_self,
    Text.append_lt_append_iff hsecond, List.cons_lt_cons_self, Text.padded_lt_iff hwidth ha ha',
    Text.padded_inj, Text.padded_lt_iff (by decide) hb hb', Text.padded_inj,
    Text.padded_lt_iff (by decide) hc hc']

end

end Calendar

/-! ### Dates -/

namespace Date

open Calendar

variable {d e : Date} {cs : List Char}

/-- Whether a text writes the numbers of a date: four digits, one or two, and one or two. -/
def SpelledBy (d : Date) (cs : List Char) : Prop :=
  ∃ year month day, cs = year ++ '-' :: (month ++ '-' :: day) ∧
    DigitField 4 4 year d.year ∧ DigitField 1 2 month d.month ∧ DigitField 1 2 day d.day

theorem ofChars?_eq_some_iff : ofChars? cs = some d ↔ d.SpelledBy cs ∧ d.IsDay := by
  rw [SpelledBy, ← exists_fields_iff rfl (by decide) (by decide), ← exists?_iff, ofChars?]
  constructor
  · intro h
    split at h
    · next y m day hsplit =>
      simp only [Option.bind_eq_bind, Option.bind_eq_some_iff, Option.ite_none_right_eq_some,
        Option.some.injEq] at h
      obtain ⟨year, hyear, month, hmonth, number, hday, hexists, rfl⟩ := h
      exact ⟨⟨y, m, day, hsplit, hyear, hmonth, hday⟩, hexists⟩
    · cases h
  · rintro ⟨⟨y, m, day, hsplit, hyear, hmonth, hday⟩, hexists⟩
    simp only [hsplit, hyear, hmonth, hday, Option.bind_eq_bind, Option.bind_some, hexists,
      if_true]

theorem SpelledBy.year_lt (h : d.SpelledBy cs) : d.year < 10 ^ 4 := by
  obtain ⟨_, _, _, -, hyear, -, -⟩ := h
  exact hyear.lt

theorem SpelledBy.not_mem {sep : Char} (hsep : Text.isDigit sep = false) (hdash : sep ≠ '-')
    (h : d.SpelledBy cs) : sep ∉ cs := by
  obtain ⟨year, month, day, rfl, hyear, hmonth, hday⟩ := h
  simp only [List.mem_append, List.mem_cons, hyear.not_mem hsep, hmonth.not_mem hsep,
    hday.not_mem hsep, hdash, or_self, not_false_eq_true]

theorem toList_render (d : Date) :
    d.render.toList = fullWidth '-' 4 d.year d.month d.day := by
  simp [render, toString, fullWidth]

theorem spelledBy_render (hyear : d.year < 10 ^ 4) (h : d.IsDay) : d.SpelledBy d.render.toList :=
  ⟨_, _, _, d.toList_render, field_padded (by decide) le_rfl hyear,
    field_padded (by decide) (by decide) h.month_lt, field_padded (by decide) (by decide) h.day_lt⟩

/-- The normal form of a date is read as this date. -/
theorem ofText?_render {s : String} (h : ofText? s = some d) : ofText? d.render = some d := by
  obtain ⟨hspelled, hday⟩ := ofChars?_eq_some_iff.mp h
  exact ofChars?_eq_some_iff.mpr ⟨spelledBy_render hspelled.year_lt hday, hday⟩

theorem isAscii_render (d : Date) : Text.IsAscii d.render.toList := by
  rw [toList_render]
  exact isAscii_fullWidth (by decide)

theorem length_render (hyear : d.year < 10 ^ 4) (h : d.IsDay) : d.render.toList.length = 10 := by
  rw [toList_render, length_fullWidth '-' (by decide) hyear h.month_lt h.day_lt]

theorem render_lt_iff (hyear : d.year < 10 ^ 4) (hd : d.IsDay) (hyear' : e.year < 10 ^ 4)
    (he : e.IsDay) : d.render.toList < e.render.toList ↔ d.dayNumber < e.dayNumber := by
  rw [toList_render, toList_render, fullWidth_lt_iff '-' (by decide) hyear hyear' hd.month_lt
    he.month_lt hd.day_lt he.day_lt, dayNumber_lt_iff hd he]

theorem render_inj (hyear : d.year < 10 ^ 4) (hd : d.IsDay) (hyear' : e.year < 10 ^ 4)
    (he : e.IsDay) : d.render.toList = e.render.toList ↔ d = e := by
  refine ⟨fun h => ?_, fun h => h ▸ rfl⟩
  have hspelled := spelledBy_render hyear hd
  rw [h] at hspelled
  have hread := ofChars?_eq_some_iff.mpr ⟨hspelled, hd⟩
  rw [ofChars?_eq_some_iff.mpr ⟨spelledBy_render hyear' he, he⟩] at hread
  exact (Option.some.inj hread).symm

/-- Whether a text names a day of the calendar. -/
def DenotedBy (s : String) (d : Date) : Prop :=
  d.SpelledBy s.toList ∧ d.IsDay

end Date

/-! ### Times of day -/

namespace TimeOfDay

open Calendar

variable {t u : TimeOfDay} {cs : List Char}

/-- Whether a text writes the numbers of a time of day, two digits for each. -/
def SpelledBy (t : TimeOfDay) (cs : List Char) : Prop :=
  ∃ hour minute second, cs = hour ++ ':' :: (minute ++ ':' :: second) ∧
    DigitField 2 2 hour t.hour ∧ DigitField 2 2 minute t.minute ∧ DigitField 2 2 second t.second

theorem ofChars?_eq_some_iff : ofChars? cs = some t ↔ t.SpelledBy cs ∧ t.IsTime := by
  rw [SpelledBy, ← exists_fields_iff rfl (by decide) (by decide), ← exists?_iff, ofChars?]
  constructor
  · intro h
    split at h
    · next h m s hsplit =>
      simp only [Option.bind_eq_bind, Option.bind_eq_some_iff, Option.ite_none_right_eq_some,
        Option.some.injEq] at h
      obtain ⟨hour, hhour, minute, hminute, second, hsecond, hexists, rfl⟩ := h
      exact ⟨⟨_, _, _, hsplit, hhour, hminute, hsecond⟩, hexists⟩
    · cases h
  · rintro ⟨⟨h, m, s, hsplit, hhour, hminute, hsecond⟩, hexists⟩
    simp only [hsplit, hhour, hminute, hsecond, Option.bind_eq_bind, Option.bind_some, hexists,
      if_true]

theorem toList_render (t : TimeOfDay) :
    t.render.toList = fullWidth ':' 2 t.hour t.minute t.second := by
  simp [render, toString, fullWidth]

theorem IsTime.fields_lt (h : t.IsTime) : t.hour < 100 ∧ t.minute < 100 ∧ t.second < 100 :=
  ⟨h.hour_lt.trans (by decide), h.minute_lt.trans (by decide), h.second_lt.trans (by decide)⟩

theorem spelledBy_render (h : t.IsTime) : t.SpelledBy t.render.toList := by
  obtain ⟨hhour, hminute, hsecond⟩ := h.fields_lt
  exact ⟨_, _, _, t.toList_render, field_padded (by decide) le_rfl hhour,
    field_padded (by decide) le_rfl hminute, field_padded (by decide) le_rfl hsecond⟩

theorem isAscii_render (t : TimeOfDay) : Text.IsAscii t.render.toList := by
  rw [toList_render]
  exact isAscii_fullWidth (by decide)

theorem length_render (h : t.IsTime) : t.render.toList.length = 8 := by
  obtain ⟨hhour, hminute, hsecond⟩ := h.fields_lt
  rw [toList_render, length_fullWidth ':' (by decide) hhour hminute hsecond]

theorem render_lt_iff (ht : t.IsTime) (hu : u.IsTime) :
    t.render.toList < u.render.toList ↔ t.secondOfDay < u.secondOfDay := by
  obtain ⟨hhour, hminute, hsecond⟩ := ht.fields_lt
  obtain ⟨hhour', hminute', hsecond'⟩ := hu.fields_lt
  rw [toList_render, toList_render, fullWidth_lt_iff ':' (by decide) hhour hhour' hminute hminute'
    hsecond hsecond', secondOfDay_lt_iff ht hu]

end TimeOfDay

/-! ### Dates with times -/

namespace Moment

variable {m n : Moment} {cs : List Char}

/-- Whether a text writes a date, one blank and a time of day. -/
def SpelledBy (m : Moment) (cs : List Char) : Prop :=
  ∃ date time, cs = date ++ ' ' :: time ∧ m.date.SpelledBy date ∧ m.time.SpelledBy time

theorem ofText?_eq_some_iff {s : String} :
    ofText? s = some m ↔ m.SpelledBy s.toList ∧ m.IsMoment := by
  simp only [ofText?, Option.bind_eq_bind, Option.bind_eq_some_iff, Prod.exists,
    Date.ofChars?_eq_some_iff, TimeOfDay.ofChars?_eq_some_iff, Option.pure_def, Option.some.injEq]
  constructor
  · rintro ⟨before, after, hsplit, date, ⟨hdate, hday⟩, time, ⟨htime, hsecond⟩, rfl⟩
    exact ⟨⟨before, after, Text.eq_append_of_splitFirst? hsplit, hdate, htime⟩, hday, hsecond⟩
  · rintro ⟨⟨before, after, heq, hdate, htime⟩, hday, hsecond⟩
    rw [heq, Text.splitFirst?_append (hdate.not_mem rfl (by decide))]
    exact ⟨before, after, rfl, m.date, ⟨hdate, hday⟩, m.time, ⟨htime, hsecond⟩, rfl⟩

theorem toList_render (m : Moment) :
    m.render.toList = m.date.render.toList ++ ' ' :: m.time.render.toList := by
  simp [render, toString]

theorem SpelledBy.year_lt (h : m.SpelledBy cs) : m.date.year < 10 ^ 4 := by
  obtain ⟨_, _, -, hdate, -⟩ := h
  exact hdate.year_lt

theorem isAscii_render (m : Moment) : Text.IsAscii m.render.toList := by
  rw [toList_render]
  exact List.forall_mem_append.mpr ⟨m.date.isAscii_render,
    List.forall_mem_cons.mpr ⟨by decide, m.time.isAscii_render⟩⟩

theorem spelledBy_render (hyear : m.date.year < 10 ^ 4) (h : m.IsMoment) :
    m.SpelledBy m.render.toList :=
  ⟨_, _, m.toList_render, Date.spelledBy_render hyear h.date, TimeOfDay.spelledBy_render h.time⟩

/-- The normal form of a date and time is read as this date and time. -/
theorem ofText?_render {s : String} (h : ofText? s = some m) : ofText? m.render = some m := by
  obtain ⟨hspelled, hmoment⟩ := ofText?_eq_some_iff.mp h
  exact ofText?_eq_some_iff.mpr ⟨spelledBy_render hspelled.year_lt hmoment, hmoment⟩

theorem length_render (hyear : m.date.year < 10 ^ 4) (h : m.IsMoment) :
    m.render.toList.length = 19 := by
  rw [toList_render, List.length_append, List.length_cons, Date.length_render hyear h.date,
    TimeOfDay.length_render h.time]

theorem render_lt_iff (hyear : m.date.year < 10 ^ 4) (hm : m.IsMoment)
    (hyear' : n.date.year < 10 ^ 4) (hn : n.IsMoment) :
    m.render.toList < n.render.toList ↔ m.secondNumber < n.secondNumber := by
  have hlength : m.date.render.toList.length = n.date.render.toList.length := by
    rw [Date.length_render hyear hm.date, Date.length_render hyear' hn.date]
  rw [toList_render, toList_render, Text.append_lt_append_iff hlength, List.cons_lt_cons_self,
    Date.render_lt_iff hyear hm.date hyear' hn.date, Date.render_inj hyear hm.date hyear' hn.date,
    TimeOfDay.render_lt_iff hm.time hn.time, secondNumber_lt_iff hm hn]

/-- Whether a text names a second of a day of the calendar. -/
def DenotedBy (s : String) (m : Moment) : Prop :=
  m.SpelledBy s.toList ∧ m.IsMoment

end Moment

/-! ### Normalization -/

namespace Calendar

/-- A check and a normalization of texts that name values, each of which has a number that says
when it is: exactly the texts that name a value pass and have a normal form, and the normal form
has a fixed length, names the same value, is its own normal form and is ordered by its bytes as
the values are in time. -/
structure IsNormalization {α : Type} (valid : String → Bool) (normalize? : String → Option String)
    (DenotedBy : String → α → Prop) (number : α → Nat) (length : Nat) : Prop where
  valid_iff : ∀ s, valid s = true ↔ ∃ v, DenotedBy s v
  denoted_unique : ∀ s v w, DenotedBy s v → DenotedBy s w → v = w
  isSome_iff : ∀ s, (normalize? s).isSome = true ↔ ∃ v, DenotedBy s v
  length_eq : ∀ s t, normalize? s = some t → t.length = length
  denotes : ∀ s t, normalize? s = some t → ∀ v, DenotedBy t v ↔ DenotedBy s v
  idempotent : ∀ s t, normalize? s = some t → normalize? t = some t
  ordered : ∀ s t s' t', normalize? s = some t → normalize? s' = some t' →
    ∀ v v', DenotedBy s v → DenotedBy s' v' →
      (Text.bytes t < Text.bytes t' ↔ number v < number v')

/-- Reading and rendering make a normalization, if the texts read are those that name the value
and the rendered text is read again, is of one length and is ordered as the values. -/
theorem isNormalization_of_reads {α : Type} {DenotedBy : String → α → Prop} {number : α → Nat}
    {length : Nat} {ofText? : String → Option α} {render : α → String}
    (hreads : ∀ s v, ofText? s = some v ↔ DenotedBy s v)
    (hrender : ∀ s v, DenotedBy s v → DenotedBy (render v) v ∧
      (render v).toList.length = length ∧ Text.IsAscii (render v).toList)
    (horder : ∀ s v s' v', DenotedBy s v → DenotedBy s' v' →
      ((render v).toList < (render v').toList ↔ number v < number v')) :
    IsNormalization (fun s => (ofText? s).isSome) (fun s => (ofText? s).map render) DenotedBy
      number length := by
  have hsome : ∀ s, (ofText? s).isSome = true ↔ ∃ v, DenotedBy s v := fun s => by
    simp only [Option.isSome_iff_exists, hreads]
  have hunique : ∀ s v w, DenotedBy s v → DenotedBy s w → v = w := fun s v w hv hw =>
    Option.some.inj (((hreads s v).mpr hv).symm.trans ((hreads s w).mpr hw))
  -- A normal form is the rendered value, and the value is named by both texts.
  have hnormal : ∀ s t, (ofText? s).map render = some t → ∃ v, DenotedBy s v ∧ render v = t :=
    fun s t h => by simpa only [Option.map_eq_some_iff, hreads] using h
  refine ⟨hsome, hunique, fun s => by rw [Option.isSome_map, hsome], ?_, ?_, ?_, ?_⟩
  · intro s t h
    obtain ⟨v, hv, rfl⟩ := hnormal s t h
    rw [← String.length_toList]
    exact (hrender s v hv).2.1
  · intro s t h w
    obtain ⟨v, hv, rfl⟩ := hnormal s t h
    have hagain := (hrender s v hv).1
    exact ⟨fun hw => hunique _ v w hagain hw ▸ hv, fun hw => hunique s v w hv hw ▸ hagain⟩
  · intro s t h
    obtain ⟨v, hv, rfl⟩ := hnormal s t h
    exact Option.map_eq_some_iff.mpr ⟨v, (hreads _ v).mpr (hrender s v hv).1, rfl⟩
  · intro s t s' t' h h' v v' hv hv'
    obtain ⟨w, hw, rfl⟩ := hnormal s t h
    obtain ⟨w', hw', rfl⟩ := hnormal s' t' h'
    obtain rfl := hunique s v w hv hw
    obtain rfl := hunique s' v' w' hv' hw'
    rw [Text.bytes_lt_iff (hrender s v hv).2.2 (hrender s' v' hv').2.2, horder s v s' v' hv hv']

/-- Texts of dates and of dates with times are checked and brought to their normal forms. -/
theorem dates_normalize :
    IsNormalization TypeKind.date.admitsText Date.normalize? Date.DenotedBy Date.dayNumber 10 ∧
    IsNormalization TypeKind.datetime.admitsText Moment.normalize? Moment.DenotedBy
      Moment.secondNumber 19 := by
  constructor
  · refine isNormalization_of_reads (fun s d => Date.ofChars?_eq_some_iff) ?_ ?_
    · rintro s d ⟨hspelled, hday⟩
      exact ⟨⟨Date.spelledBy_render hspelled.year_lt hday, hday⟩,
        Date.length_render hspelled.year_lt hday, d.isAscii_render⟩
    · rintro s d s' d' ⟨hspelled, hday⟩ ⟨hspelled', hday'⟩
      exact Date.render_lt_iff hspelled.year_lt hday hspelled'.year_lt hday'
  · refine isNormalization_of_reads (fun s m => Moment.ofText?_eq_some_iff) ?_ ?_
    · rintro s m ⟨hspelled, hmoment⟩
      exact ⟨⟨Moment.spelledBy_render hspelled.year_lt hmoment, hmoment⟩,
        Moment.length_render hspelled.year_lt hmoment, m.isAscii_render⟩
    · rintro s m s' m' ⟨hspelled, hmoment⟩ ⟨hspelled', hmoment'⟩
      exact Moment.render_lt_iff hspelled.year_lt hmoment hspelled'.year_lt hmoment'

end Calendar
end SqlAnalysis
