import Mathlib.Tactic.SplitIfs
import SqlAnalysis.Literal
import SqlAnalysis.Syntax.Ident
import SqlAnalysis.Token.Scan

/-!
# Scans of texts of a known form

What a scan finds at the beginning of a word, a number, a string or a quoted name
that is followed by something else. Each scan takes as much as it can, so what
follows must not go on with it.
-/
namespace SqlAnalysis

/-- Whether a text is at its end or goes on with a certain kind of character. -/
def Follows (ends : Char → Bool) (rest : List Char) : Prop :=
  ∀ c ∈ rest.head?, ends c = true

theorem Follows.nil (ends : Char → Bool) : Follows ends [] := by
  simp [Follows]

theorem follows_cons {ends : Char → Bool} {c : Char} {cs : List Char} :
    Follows ends (c :: cs) ↔ ends c = true := by
  simp [Follows]

theorem Follows.mono {ends ends' : Char → Bool} {rest : List Char} (h : Follows ends rest)
    (himp : ∀ c, ends c = true → ends' c = true) : Follows ends' rest :=
  fun c hc => himp c (h c hc)

section

variable {p : Char → Bool} {cs rest : List Char}

theorem takeWhile_of_follows (h : Follows (fun c => !p c) rest) : rest.takeWhile p = [] := by
  cases rest with
  | nil => rfl
  | cons c rest => simp_all [follows_cons]

theorem takeWhile_append_of_follows (hcs : cs.all p) (h : Follows (fun c => !p c) rest) :
    (cs ++ rest).takeWhile p = cs := by
  rw [List.takeWhile_append_of_pos (by simpa using hcs), takeWhile_of_follows h, List.append_nil]

end

namespace Text

theorem isDigit_iff {c : Char} : isDigit c = true ↔ 48 ≤ c.toNat ∧ c.toNat ≤ 57 := by
  simp [isDigit, Char.le_def, UInt32.le_iff_toNat_le]

theorem isLetter_iff {c : Char} :
    isLetter c = true ↔ 97 ≤ c.toNat ∧ c.toNat ≤ 122 ∨ 65 ≤ c.toNat ∧ c.toNat ≤ 90 := by
  simp [isLetter, Char.le_def, UInt32.le_iff_toNat_le]

end Text

namespace Scan

/-! ### Words -/

theorem isDigit_of_isNameStart {c : Char} (h : isNameStart c = true) :
    Text.isDigit c = false := by
  rw [Bool.eq_false_iff, ne_eq, Text.isDigit_iff]
  rintro ⟨hlow, hhigh⟩
  simp only [isNameStart, Bool.or_eq_true, Text.isLetter_iff, decide_eq_true_eq] at h
  rcases h with (h | rfl) | h
  · omega
  · exact absurd hhigh (by decide)
  · omega

theorem scan_of_isNameStart {c : Char} (h : isNameStart c = true) (cs : List Char) :
    scan c cs = word c cs := by
  have hne (d : Char) (hd : isNameStart d = false) : c ≠ d := by
    rintro rfl
    simp [h] at hd
  have hstart : startsNumber c cs.head? = false := by
    simp [startsNumber, isDigit_of_isNameStart h, hne '.' rfl]
  simp [scan, h, hstart, hne '\n' rfl, hne '\r' rfl, hne ' ' rfl, hne '\t' rfl, hne '\x0c' rfl,
    hne '-' rfl, hne '/' rfl, hne '\x27' rfl, hne '\x22' rfl, hne '\x60' rfl, hne '[' rfl]

/-- A word ends before the first character that is no part of a name. -/
def endsWord (c : Char) : Bool := !isNameChar c

theorem scan_word {c : Char} {more rest : List Char} (hc : isNameStart c = true)
    (hmore : more.all isNameChar = true) (hrest : Follows endsWord rest) :
    scan c (more ++ rest) = token (wordKind (c :: more)) more.length := by
  rw [scan_of_isNameStart hc, word, takeWhile_append_of_follows hmore hrest]

/-! ### Quoted texts -/

theorem stringRest_cons {c : Char} (h : c ≠ '\x27') (h' : c ≠ '\x5c') (cs : List Char) :
    stringRest (c :: cs) = (stringRest cs).cons c 1 := by
  rw [stringRest] <;> simp_all

/-- Whether a backslash of a text begins an escape when the text stands between quotes with
its own quotes doubled: it stands before a character that can be escaped, or at the end,
where the closing quote comes next. -/
def hasEscape : List Char → Bool
  | [] => false
  | c :: cs => (c = '\x5c' && (unescape? (cs.headD '\x27')).isSome) || hasEscape cs

theorem hasEscape_of_not_mem {cs : List Char} (h : '\x5c' ∉ cs) : hasEscape cs = false := by
  induction cs with
  | nil => rfl
  | cons c cs ih =>
    obtain ⟨hc, hcs⟩ := not_or.mp (mt List.mem_cons.mpr h)
    simp [hasEscape, Ne.symm hc, ih hcs]

/-- A backslash that begins no escape stands for itself. -/
theorem stringRest_backslash {cs rest : List Char} (h : unescape? (cs.headD '\x27') = none) :
    stringRest ('\x5c' :: (Text.double '\x27' cs ++ '\x27' :: rest)) =
      (stringRest (Text.double '\x27' cs ++ '\x27' :: rest)).cons '\x5c' 1 := by
  cases cs with
  | nil => cases h
  | cons c cs =>
    have hc : c ≠ '\x27' := by
      rintro rfl
      cases h
    have hnone : unescape? c = none := h
    simp [Text.double, hc, stringRest, hnone]

/-- A text is read back from between its quotes if no backslash of it begins an escape. -/
theorem stringRest_double {cs rest : List Char} (hcs : hasEscape cs = false)
    (hrest : Follows (· ≠ '\x27') rest) :
    stringRest (Text.double '\x27' cs ++ '\x27' :: rest) =
      ⟨cs, (Text.double '\x27' cs).length + 1, true⟩ := by
  induction cs with
  | nil =>
    cases rest with
    | nil => rfl
    | cons c rest =>
      have hc : c ≠ '\x27' := by simpa [Follows] using hrest
      simp [Text.double, stringRest, hc]
  | cons c cs ih =>
    rw [hasEscape, Bool.or_eq_false_iff] at hcs
    obtain ⟨hhead, htail⟩ := hcs
    have ih := ih htail
    by_cases hc : c = '\x27'
    · subst hc
      simp [Text.double, stringRest, ih, Quoted.cons]
    by_cases hc' : c = '\x5c'
    · subst hc'
      have hnone : unescape? (cs.headD '\x27') = none := by simpa using hhead
      simp [Text.double, stringRest_backslash hnone, ih, Quoted.cons]
    · simp [Text.double, hc, stringRest_cons hc hc', ih, Quoted.cons]

theorem nameRest_cons {quote c : Char} (h : c ≠ quote) (cs : List Char) :
    nameRest quote (c :: cs) = (nameRest quote cs).cons c 1 := by
  cases cs <;> simp [nameRest, h, Quoted.cons]

theorem nameRest_double {quote : Char} {rest : List Char} (cs : List Char)
    (hrest : Follows (· ≠ quote) rest) :
    nameRest quote (Text.double quote cs ++ quote :: rest) =
      ⟨cs, (Text.double quote cs).length + 1, true⟩ := by
  induction cs with
  | nil =>
    cases rest with
    | nil => simp [Text.double, nameRest]
    | cons c rest =>
      have hc : c ≠ quote := by simpa [Follows] using hrest
      simp [Text.double, nameRest, hc]
  | cons c cs ih =>
    by_cases hc : c = quote
    · subst hc
      simp [Text.double, nameRest, ih, Quoted.cons]
    · simp [Text.double, hc, nameRest_cons hc, ih, Quoted.cons]

theorem scan_string {cs rest : List Char} (hcs : hasEscape cs = false)
    (hrest : Follows (· ≠ '\x27') rest) :
    scan '\x27' (Text.double '\x27' cs ++ '\x27' :: rest) =
      token (textKind cs) ((Text.double '\x27' cs).length + 1) := by
  change string _ = _
  rw [string, stringRest_double hcs hrest]
  rfl

theorem scan_quotedName {rest : List Char} (cs : List Char) (hrest : Follows (· ≠ '\x22') rest) :
    scan '\x22' (Text.double '\x22' cs ++ '\x22' :: rest) =
      token (.quotedName (String.ofList cs)) ((Text.double '\x22' cs).length + 1) := by
  change quotedName _ = _
  rw [nameRest_double cs hrest]
  rfl

/-! ### Numbers -/

/-- What a number may be followed by. -/
def endsNumber (c : Char) : Bool :=
  !Text.isDigit c && c ≠ '.' && c ≠ 'e' && c ≠ 'E'

/-- A run of digits. -/
structure Digits (ds : List Char) : Prop where
  ne_nil : ds ≠ []
  all : ds.all Text.isDigit = true

/-- Nothing, or a point with digits after it. -/
inductive Fraction : List Char → Prop
  | none : Fraction []
  | point {ds} : Digits ds → Fraction ('.' :: ds)

/-- Nothing, or the mark of an exponent with digits after it. -/
inductive Exponent : List Char → Prop
  | none : Exponent []
  | mark {ds} : Digits ds → Exponent ('e' :: ds)
  | minus {ds} : Digits ds → Exponent ('e' :: '-' :: ds)

/-- A number as it is written. -/
inductive Numeral : List Char → Prop
  | mk {whole fraction exponent} : Digits whole → Fraction fraction → Exponent exponent →
      Numeral (whole ++ (fraction ++ exponent))

theorem Digits.head {d : Char} {ds : List Char} (h : Digits (d :: ds)) :
    Text.isDigit d = true := by
  have hall := h.all
  simp only [List.all_cons, Bool.and_eq_true] at hall
  exact hall.1

theorem ne_of_isDigit {c d : Char} (hc : Text.isDigit c = true) (hd : Text.isDigit d = false) :
    c ≠ d := by
  rintro rfl
  simp [hc] at hd

theorem Fraction.length_eq {fraction rest : List Char} (h : Fraction fraction)
    (hrest : Follows (fun c => !Text.isDigit c && c ≠ '.') rest) :
    fractionLength (fraction ++ rest) = fraction.length := by
  cases h with
  | none =>
    cases rest with
    | nil => rfl
    | cons c rest =>
      have hc : c ≠ '.' := by simp_all [Follows]
      rw [List.nil_append, fractionLength] <;> simp_all
  | @point ds h =>
    have htake := takeWhile_append_of_follows h.all (hrest.mono (by simp_all))
    obtain ⟨d, ds, rfl⟩ := List.exists_cons_of_ne_nil h.ne_nil
    have hname : isNameStart d = false := by
      rw [Bool.eq_false_iff]
      intro hname
      exact Bool.false_ne_true ((isDigit_of_isNameStart hname).symm.trans h.head)
    have hletter : (Text.isLetter d || d = '_') = false := by simp_all [isNameStart]
    simp only [List.cons_append] at htake ⊢
    simp only [fractionLength, hletter, htake, Bool.false_eq_true, if_false, List.length_cons]
    omega

theorem Exponent.length_eq {exponent rest : List Char} (h : Exponent exponent)
    (hrest : Follows endsNumber rest) :
    exponentLength (exponent ++ rest) = exponent.length := by
  have hdigits : Follows (fun c => !Text.isDigit c) rest := hrest.mono (by simp_all [endsNumber])
  cases h with
  | none =>
    cases rest with
    | nil => rfl
    | cons c rest => simp_all [Follows, endsNumber, exponentLength]
  | @mark ds h =>
    have htake := takeWhile_append_of_follows h.all hdigits
    obtain ⟨d, ds, rfl⟩ := List.exists_cons_of_ne_nil h.ne_nil
    have hplus : d ≠ '+' := ne_of_isDigit h.head rfl
    have hminus : d ≠ '-' := ne_of_isDigit h.head rfl
    simp only [List.cons_append] at htake
    simp [exponentLength, hplus, hminus, htake, Nat.add_comm]
  | @minus ds h =>
    have htake := takeWhile_append_of_follows h.all hdigits
    simp [exponentLength, htake, h.ne_nil]
    omega

theorem Exponent.follows {exponent rest : List Char} (h : Exponent exponent)
    (hrest : Follows endsNumber rest) :
    Follows (fun c => !Text.isDigit c && c ≠ '.') (exponent ++ rest) := by
  cases h with
  | none => exact hrest.mono (by simp_all [endsNumber])
  | mark => exact follows_cons.mpr rfl
  | minus => exact follows_cons.mpr rfl

theorem Fraction.follows {fraction rest : List Char} (h : Fraction fraction)
    (hrest : Follows (fun c => !Text.isDigit c && c ≠ '.') rest) :
    Follows (fun c => !Text.isDigit c) (fraction ++ rest) := by
  cases h with
  | none => exact hrest.mono (by simp_all)
  | point => exact follows_cons.mpr rfl

theorem scan_of_isDigit {c : Char} (h : Text.isDigit c = true) (cs : List Char) :
    scan c cs = number (c :: cs) := by
  have hne (d : Char) (hd : Text.isDigit d = false) : c ≠ d := ne_of_isDigit h hd
  have hstart : startsNumber c cs.head? = true := by simp [startsNumber, h]
  simp [scan, hstart, hne '\n' rfl, hne '\r' rfl, hne ' ' rfl, hne '\t' rfl, hne '\x0c' rfl,
    hne '-' rfl, hne '/' rfl, hne '\x27' rfl, hne '\x22' rfl, hne '\x60' rfl, hne '[' rfl]

theorem Numeral.of_digits {ds : List Char} (h : Digits ds) : Numeral ds := by
  simpa using Numeral.mk h .none .none

theorem Numeral.head {text : List Char} (h : Numeral text) :
    ∃ c more, text = c :: more ∧ Text.isDigit c = true := by
  cases h with
  | @mk whole fraction exponent hwhole =>
    obtain ⟨d, ds, rfl⟩ := List.exists_cons_of_ne_nil hwhole.ne_nil
    exact ⟨d, _, rfl, hwhole.head⟩

/-- A number is scanned to its end. -/
theorem Numeral.scan {c : Char} {more rest : List Char} (h : Numeral (c :: more))
    (hrest : Follows endsNumber rest) :
    scan c (more ++ rest) = token (numberKind (c :: more)) more.length := by
  generalize htext : c :: more = text at h
  cases h with
  | @mk whole fraction exponent hwhole hfraction hexponent =>
  have hafter := hexponent.follows hrest
  have htake := takeWhile_append_of_follows hwhole.all (hfraction.follows hafter)
  have hcut : c :: (more ++ rest) = whole ++ (fraction ++ (exponent ++ rest)) := by
    rw [← List.cons_append, htext]
    simp only [List.append_assoc]
  have hlength : more.length + 1 = whole.length + fraction.length + exponent.length := by
    rw [← List.length_cons (a := c), htext]
    simp only [List.length_append]
    omega
  have hdigit : Text.isDigit c = true := by
    obtain ⟨d, ds, rfl⟩ := List.exists_cons_of_ne_nil hwhole.ne_nil
    exact (List.cons.inj htext).1 ▸ hwhole.head
  have hcutWhole : (c :: (more ++ rest)).drop whole.length = fraction ++ (exponent ++ rest) := by
    rw [hcut, List.drop_left]
  have hcutFraction :
      (c :: (more ++ rest)).drop (whole.length + fraction.length) = exponent ++ rest := by
    rw [← List.drop_drop, hcutWhole, List.drop_left]
  have hcutAll : (c :: (more ++ rest)).take (more.length + 1) = c :: more := by
    rw [← List.cons_append, ← List.length_cons (a := c), List.take_left]
  rw [scan_of_isDigit hdigit, number]
  simp only [hcut ▸ htake, hcutWhole, hfraction.length_eq hafter, hcutFraction,
    hexponent.length_eq hrest, ← hlength, hcutAll, Nat.add_sub_cancel, htext]

end Scan
end SqlAnalysis
