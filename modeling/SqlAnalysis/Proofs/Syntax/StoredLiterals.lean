import SqlAnalysis.Canonical
import SqlAnalysis.Proofs.Calendar.NormalForms
import SqlAnalysis.Proofs.Syntax.Texts

/-!
# Literals as they are stored

What is written for a value in a column of a type is a literal again: numbers in a text
column are quoted, truth values are numbers, and dates are in their normal form. It is read
as the literal that it shows, if the value was read itself. Written a second time it stays as
it is, unless it is the number of a truth value in a text column.
-/
namespace SqlAnalysis

/-! ### Numbers with a sign -/

namespace Scan

/-- The text of a number, which may have a minus sign. -/
inductive SignedNumeral : List Char → Prop
  | plain {cs} : Numeral cs → SignedNumeral cs
  | minus {cs} : Numeral cs → SignedNumeral ('-' :: cs)

theorem signedNumeral_integer (i : Int) : SignedNumeral (toString i).toList := by
  cases i with
  | ofNat n =>
    rw [Binary64.toList_toString_ofNat]
    exact .plain (.of_digits (Text.digits_toDigits n))
  | negSucc n =>
    rw [Binary64.toList_toString_negSucc]
    exact .minus (.of_digits (Text.digits_toDigits (n + 1)))

theorem signedNumeral_finite (negative : Bool) (m : Nat) (q : Int) :
    SignedNumeral (Binary64.render (.finite negative m q)).toList := by
  have hplain := (Binary64.render_realNumeral m q).numeral
  cases negative with
  | false => exact .plain hplain
  | true =>
    have htext : (Binary64.render (.finite true m q)).toList =
        '-' :: (Binary64.render (.finite false m q)).toList := by
      simp [Binary64.render]
    rw [htext]
    exact .minus hplain

end Scan

/-! ### Texts without a backslash -/

/-- Whether a quoted text says just what stands in it. -/
def Text.Verbatim (cs : List Char) : Prop :=
  '\x5c' ∉ cs

namespace Text.Verbatim

variable {cs ds : List Char}

theorem append (h : Verbatim cs) (h' : Verbatim ds) : Verbatim (cs ++ ds) := by
  simpa [Verbatim] using ⟨h, h'⟩

theorem cons {c : Char} (hc : '\x5c' ≠ c) (h : Verbatim cs) : Verbatim (c :: cs) := by
  simpa [Verbatim] using ⟨hc, h⟩

theorem of_digits (h : cs.all isDigit = true) : Verbatim cs := by
  intro hmem
  cases List.all_eq_true.mp h _ hmem

theorem of_numeral (h : Scan.Numeral cs) : Verbatim cs := by
  cases h with
  | @mk whole fraction exponent hwhole hfraction hexponent =>
    refine (of_digits hwhole.all).append (append ?_ ?_)
    · cases hfraction with
      | none => exact List.not_mem_nil
      | point hds => exact cons (by decide) (of_digits hds.all)
    · cases hexponent with
      | none => exact List.not_mem_nil
      | mark hds => exact cons (by decide) (of_digits hds.all)
      | minus hds => exact cons (by decide) (cons (by decide) (of_digits hds.all))

theorem padded (width n : Nat) : Verbatim (padded width n).toList := by
  have hzeros : (List.replicate (width - (toString n).toList.length) '0').all isDigit = true :=
    Binary64.all_replicate_zero _
  have hdigits : (toString n).toList = Nat.toDigits 10 n := Nat.toList_repr
  rw [Text.padded, String.toList_ofList]
  refine (of_digits hzeros).append ?_
  rw [hdigits]
  exact of_digits (Text.digits_toDigits n).all

theorem of_signedNumeral (h : Scan.SignedNumeral cs) : Verbatim cs := by
  cases h with
  | plain h => exact of_numeral h
  | minus h => exact cons (by decide) (of_numeral h)

theorem date (d : Date) : Verbatim d.render.toList := by
  simp only [Date.render, String.toList_append, toString]
  exact ((((padded 4 d.year).append (cons (by decide) List.not_mem_nil)).append
    (padded 2 d.month)).append (cons (by decide) List.not_mem_nil)).append (padded 2 d.day)

theorem moment (m : Moment) : Verbatim m.render.toList := by
  have htime : Verbatim m.time.render.toList := by
    simp only [TimeOfDay.render, String.toList_append, toString]
    exact ((((padded 2 _).append (cons (by decide) List.not_mem_nil)).append
      (padded 2 _)).append (cons (by decide) List.not_mem_nil)).append (padded 2 _)
  simp only [Moment.render, String.toList_append, toString]
  exact ((date m.date).append (cons (by decide) List.not_mem_nil)).append htime

end Text.Verbatim
namespace Literal

/-! ### Signed literals -/

theorem render_ofText (s : String) : (ofText s).render = quote s := by
  unfold ofText
  split
  · next c hc =>
    have hs : s = c.toString := by
      rw [← String.ofList_toList (s := s), hc]
      rfl
    rw [hs]
    rfl
  · rfl

theorem ofText_plain {s : String} (h : Text.Verbatim s.toList) : (ofText s).Plain := by
  unfold ofText
  split
  · next c hc =>
    refine ⟨fun heq => h ?_, rfl⟩
    rw [hc, heq]
    exact List.mem_singleton_self _
  · next hlength =>
    refine ⟨⟨fun hone => ?_, h⟩, rfl⟩
    obtain ⟨c, hc⟩ := List.length_eq_one_iff.mp hone
    exact hlength c hc

/-- A literal that is read, or a number with a minus sign. -/
inductive Signed : Literal → Prop
  | plain {value} : value.Plain → Signed value
  | integer {i} : Plain (.integer i) → Signed (.integer (-i))
  | float {x} : Plain (.float x) → Signed (.float x.negate)

/-- The default that a literal is written as. A number below zero has a minus sign. -/
def asDefault : Literal → Expr
  | .integer (.negSucc n) =>
    .unary { span := Span.zero } .negate (.constant { span := Span.zero } (.integer (n + 1)))
  | .float (.finite true m q) =>
    .unary { span := Span.zero } .negate (.constant { span := Span.zero } (.float (.finite false m q)))
  | value => .constant { span := Span.zero } value

theorem isSome_literal?_asDefault (value : Literal) : value.asDefault.literal?.isSome = true := by
  unfold asDefault
  split <;> rfl

theorem render_asDefault (value : Literal) : value.asDefault.render = value.render := by
  unfold asDefault
  split
  · next n =>
    have htext : (Expr.render (.unary { span := Span.zero } .negate
        (.constant { span := Span.zero } (.integer (n + 1))))).toList =
          '-' :: (toString (Int.ofNat (n + 1))).toList := by
      simp [Expr.render, bracketIf, Expr.isOperation, render]
    rw [← String.toList_inj, htext, render, Binary64.toList_toString_ofNat,
      Binary64.toList_toString_negSucc]
  · simp [Expr.render, bracketIf, Expr.isOperation, render, Binary64.render]
  · rfl

theorem Signed.asDefault_built {P : Expr → Prop} {value : Literal} (h : value.Signed) :
    value.asDefault.DefaultOf P := by
  cases h with
  | @plain value h =>
    cases value with
    | integer i =>
      obtain ⟨n, rfl, -⟩ := h.natural
      exact .constant h
    | float x =>
      obtain ⟨m, q, rfl⟩ := h.word.finite
      exact .constant h
    | _ => exact .constant h
  | @integer i h =>
    obtain ⟨n, rfl, -⟩ := h.natural
    cases n with
    | zero => exact .constant h
    | succ n => exact .negative h rfl
  | @float x h =>
    obtain ⟨m, q, rfl⟩ := h.word.finite
    exact .negative h rfl

theorem Signed.finite {x : Binary64} (h : Signed (.float x)) :
    ∃ negative m q, x = .finite negative m q := by
  cases h with
  | plain h =>
    obtain ⟨m, q, rfl⟩ := h.word.finite
    exact ⟨_, m, q, rfl⟩
  | float h =>
    obtain ⟨m, q, rfl⟩ := h.word.finite
    exact ⟨_, m, q, rfl⟩

/-- The default that a literal is written as writes this literal. -/
theorem Signed.literal?_asDefault {value : Literal} (h : value.Signed) :
    value.asDefault.literal? = some value := by
  cases value with
  | integer i => cases i <;> rfl
  | float x =>
    obtain ⟨negative, m, q, rfl⟩ := h.finite
    cases negative <;> rfl
  | _ => rfl

end Literal

/-! ### Values in columns -/

namespace TypeKind

open Literal

variable {value : Literal}

/-- A value for a column that is no text, as a literal. -/
def storedPlain : Literal → Literal
  | .boolean b => .integer (if b then 1 else 0)
  | value => value

/-- A value for a text column, as a literal. -/
def storedText : Literal → Literal
  | .integer i => .ofText (toString i)
  | .float x => .ofText x.render
  | value => storedPlain value

/-- The normal form of a text that `parse` can read, and other values as texts. -/
def storedAs {α : Type} (parse : String → Option α) (render : α → String) (value : Literal) : Literal :=
  match value.text?.bind parse with
  | some a => .ofText (render a)
  | none => storedText value

/-- The literal that is written for a value in a column. -/
def stored (kind : TypeKind) (value : Literal) : Literal :=
  match kind with
  | .varchar | .char | .text => storedText value
  | .date => storedAs Date.ofText? Date.render value
  | .datetime => storedAs Moment.ofText? Moment.render value
  | _ => storedPlain value

theorem storedAs_of_some {α : Type} {parse : String → Option α} {render : α → String} {a : α}
    (h : value.text?.bind parse = some a) : storedAs parse render value = .ofText (render a) := by
  rw [storedAs, h]

theorem storedAs_of_none {α : Type} {parse : String → Option α} {render : α → String}
    (h : value.text?.bind parse = none) : storedAs parse render value = storedText value := by
  rw [storedAs, h]

theorem render_storedPlain (value : Literal) : (storedPlain value).render = formatPlain value := by
  cases value with
  | boolean b => cases b <;> rfl
  | _ => rfl

theorem render_storedText (value : Literal) : (storedText value).render = formatText value := by
  cases value with
  | integer i => exact render_ofText _
  | float x => exact render_ofText _
  | boolean b => exact render_storedPlain (.boolean b)
  | _ => rfl

theorem render_storedAs {α : Type} (parse : String → Option α) (render : α → String)
    (value : Literal) : (storedAs parse render value).render =
      formatNormal (fun s => (parse s).map render) value := by
  have hnormal : (value.text?.bind fun s => (parse s).map render) =
      (value.text?.bind parse).map render := Option.map_bind.symm
  rw [storedAs, formatNormal, hnormal]
  cases value.text?.bind parse with
  | some _ => exact render_ofText _
  | none => exact render_storedText value

theorem render_stored (kind : TypeKind) (value : Literal) :
    (kind.stored value).render = kind.formatValue value := by
  cases kind with
  | varchar | char | text => exact render_storedText value
  | date => exact render_storedAs Date.ofText? Date.render value
  | datetime => exact render_storedAs Moment.ofText? Moment.render value
  | _ => exact render_storedPlain value

theorem storedPlain_signed (h : value.Signed) : (storedPlain value).Signed := by
  cases value with
  | boolean b =>
    cases b with
    | false => exact .plain ⟨Nat.zero_le _, rfl⟩
    | true => exact .plain ⟨show 1 ≤ Scan.maxInteger by decide, rfl⟩
  | _ => exact h

theorem storedText_signed (h : value.Signed) : (storedText value).Signed := by
  cases value with
  | integer i => exact .plain (ofText_plain (.of_signedNumeral (Scan.signedNumeral_integer i)))
  | float x =>
    obtain ⟨negative, m, q, rfl⟩ := h.finite
    exact .plain (ofText_plain (.of_signedNumeral (Scan.signedNumeral_finite negative m q)))
  | _ => exact storedPlain_signed h

theorem storedAs_signed {α : Type} (parse : String → Option α) {render : α → String}
    (hrender : ∀ a, Text.Verbatim (render a).toList) (h : value.Signed) :
    (storedAs parse render value).Signed := by
  cases hparse : value.text?.bind parse with
  | some a =>
    rw [storedAs_of_some hparse]
    exact .plain (ofText_plain (hrender a))
  | none =>
    rw [storedAs_of_none hparse]
    exact storedText_signed h

/-- What is written for a value can be read. -/
theorem stored_signed (kind : TypeKind) (h : value.Signed) : (kind.stored value).Signed := by
  cases kind with
  | varchar | char | text => exact storedText_signed h
  | date => exact storedAs_signed _ Text.Verbatim.date h
  | datetime => exact storedAs_signed _ Text.Verbatim.moment h
  | _ => exact storedPlain_signed h

end TypeKind

/-! ### Dates and numbers -/

/-- Whether a text begins as a date does: with digits and a dash behind them. -/
def Text.BeginsDate (cs : List Char) : Prop :=
  ∃ year rest, Scan.Digits year ∧ cs = year ++ '-' :: rest

theorem Date.SpelledBy.beginsDate {d : Date} {cs : List Char} (h : d.SpelledBy cs) :
    Text.BeginsDate cs := by
  obtain ⟨year, month, day, rfl, hyear, -, -⟩ := h
  have hne : year ≠ [] := by
    rintro rfl
    cases hyear.least_le
  exact ⟨year, _, ⟨hne, Calendar.all_isDigit_iff.mpr hyear.digits⟩, rfl⟩

theorem Moment.SpelledBy.beginsDate {m : Moment} {cs : List Char} (h : m.SpelledBy cs) :
    Text.BeginsDate cs := by
  obtain ⟨date, time, rfl, hdate, -⟩ := h
  obtain ⟨year, rest, hyear, rfl⟩ := hdate.beginsDate
  exact ⟨year, rest ++ ' ' :: time, hyear, by rw [List.append_assoc, List.cons_append]⟩

/-- In a number a dash stands at the start or behind the mark of the exponent. -/
theorem Scan.SignedNumeral.not_beginsDate {cs : List Char} (h : SignedNumeral cs) :
    ¬ Text.BeginsDate cs := by
  rintro ⟨year, rest, hyear, htext⟩
  cases h with
  | plain h =>
    cases h with
    | @mk whole fraction exponent hwhole hfraction hexponent =>
      have hfollows : Follows (fun c => !Text.isDigit c) (fraction ++ exponent) := by
        cases hfraction <;> cases hexponent <;> simp [Follows, Text.isDigit]
      have hdash : Follows (fun c => !Text.isDigit c) ('-' :: rest) := follows_cons.mpr (by decide)
      have hdigits : whole = year := by
        rw [← takeWhile_append_of_follows hwhole.all hfollows, htext,
          takeWhile_append_of_follows hyear.all hdash]
      rw [hdigits] at htext
      have hbehind := List.append_cancel_left htext
      cases hfraction with
      | none => cases hexponent <;> cases hbehind
      | point _ => cases hbehind
  | minus _ =>
    obtain ⟨c, more, rfl⟩ := List.exists_cons_of_ne_nil hyear.ne_nil
    cases (List.cons.inj htext).1
    cases hyear.head

/-! ### Values stored twice -/

/-- Whether a literal is a truth value. -/
def Literal.isBoolean : Literal → Bool
  | .boolean _ => true
  | _ => false

namespace TypeKind

open Literal

variable {value : Literal} {kind : TypeKind}

/-- Whether numbers are quoted in columns of the kind. -/
def quotesNumbers (kind : TypeKind) : Bool :=
  kind.isText || kind.isTemporal

theorem storedPlain_storedPlain (value : Literal) :
    storedPlain (storedPlain value) = storedPlain value := by
  cases value <;> rfl

theorem storedText_ofText (s : String) : storedText (ofText s) = ofText s := by
  unfold ofText
  split <;> rfl

theorem storedText_storedText (h : value.isBoolean = false) :
    storedText (storedText value) = storedText value := by
  cases value with
  | integer i => exact storedText_ofText _
  | float x => exact storedText_ofText _
  | boolean b => cases h
  | _ => rfl

/-- A normal form is its own normal form, and numbers have none. -/
theorem storedAs_storedAs {α : Type} {parse : String → Option α} {render : α → String}
    (hnormal : ∀ s a, parse s = some a → parse (render a) = some a)
    (hnumber : ∀ s a, parse s = some a → Text.BeginsDate s.toList)
    (h : value.Signed) (hboolean : value.isBoolean = false) :
    storedAs parse render (storedAs parse render value) = storedAs parse render value := by
  cases hparse : value.text?.bind parse with
  | some a =>
    obtain ⟨s, -, hs⟩ := Option.bind_eq_some_iff.mp hparse
    rw [storedAs_of_some hparse]
    refine storedAs_of_some ?_
    rw [text?_ofText, Option.bind_some, hnormal s a hs]
  | none =>
    have hquoted {s : String} (hs : Scan.SignedNumeral s.toList) :
        (ofText s).text?.bind parse = none := by
      rw [text?_ofText, Option.bind_some, Option.eq_none_iff_forall_ne_some]
      exact fun a ha => hs.not_beginsDate (hnumber s a ha)
    have hagain : (storedText value).text?.bind parse = none := by
      cases value with
      | integer i => exact hquoted (Scan.signedNumeral_integer i)
      | float x =>
        obtain ⟨negative, m, q, rfl⟩ := h.finite
        exact hquoted (Scan.signedNumeral_finite negative m q)
      | boolean b => cases hboolean
      | _ => exact hparse
    rw [storedAs_of_none hparse, storedAs_of_none hagain, storedText_storedText hboolean]

/-- What is written for a value is written as it is the second time, but for a truth value
among texts: that is written as a number, and numbers are quoted. -/
theorem stored_stored (h : value.Signed)
    (hsettled : (value.isBoolean && kind.quotesNumbers) = false) :
    kind.stored (kind.stored value) = kind.stored value := by
  have hboolean (hquotes : kind.quotesNumbers = true) : value.isBoolean = false := by
    rwa [hquotes, Bool.and_true] at hsettled
  cases kind with
  | varchar | char | text => exact storedText_storedText (hboolean rfl)
  | date =>
    exact storedAs_storedAs (fun _ _ => Date.ofText?_render)
      (fun s d hd => (Date.ofChars?_eq_some_iff.mp hd).1.beginsDate) h (hboolean rfl)
  | datetime =>
    exact storedAs_storedAs (fun _ _ => Moment.ofText?_render)
      (fun s m hm => (Moment.ofText?_eq_some_iff.mp hm).1.beginsDate) h (hboolean rfl)
  | _ => exact storedPlain_storedPlain value

/-- The number of a truth value among texts gets its quotes the second time. -/
theorem length_stored_lt (hquotes : kind.quotesNumbers = true) (hboolean : value.isBoolean = true) :
    (kind.stored value).render.length < (kind.stored (kind.stored value)).render.length := by
  cases value with
  | boolean b => cases b <;> cases kind <;> first | decide +kernel | cases hquotes
  | _ => cases hboolean

end TypeKind

/-! ### Literals of expressions -/

namespace Expr

theorem literal?_withNote (note : Note) (e : Expr) : (e.withNote note).literal? = e.literal? := by
  cases e with
  | unary note' op operand =>
    cases op with
    | not => rfl
    | negate =>
      cases operand with
      | constant _ value => cases value <;> rfl
      | _ => rfl
  | _ => rfl

/-- The value of a constant. -/
def constant? : Expr → Option Literal
  | .constant _ value => some value
  | _ => none

theorem constant?_withNote (note : Note) (e : Expr) : (e.withNote note).constant? = e.constant? := by
  cases e <;> rfl

/-- The literal that an expression writes is one that was read, or a number with a sign. -/
structure WritesSigned (e : Expr) : Prop where
  constant : ∀ value ∈ e.constant?, value.Plain
  signed : ∀ value ∈ e.literal?, value.Signed

namespace WritesSigned

theorem of_literal {e : Expr} (hconstant : e.constant? = none)
    (h : ∀ value ∈ e.literal?, value.Signed) : e.WritesSigned := by
  refine ⟨fun value hvalue => ?_, h⟩
  rw [hconstant] at hvalue
  cases hvalue

theorem of_none {e : Expr} (hconstant : e.constant? = none) (hliteral : e.literal? = none) :
    e.WritesSigned := by
  refine .of_literal hconstant fun value hvalue => ?_
  rw [hliteral] at hvalue
  cases hvalue

theorem negate {span : Span} {operand : Expr} (h : operand.WritesSigned) :
    WritesSigned (.unary { span := span } .negate operand) := by
  refine .of_literal rfl fun value hvalue => ?_
  cases operand with
  | constant note number =>
    have hplain := h.constant number rfl
    cases number with
    | integer i =>
      cases hvalue
      exact .integer hplain
    | float x =>
      cases hvalue
      exact .float hplain
    | _ => cases hvalue
  | _ => cases hvalue

theorem withNote {e : Expr} (h : e.WritesSigned) (note : Note) : (e.withNote note).WritesSigned := by
  refine ⟨?_, ?_⟩
  · rw [constant?_withNote]
    exact h.constant
  · rw [literal?_withNote]
    exact h.signed

end WritesSigned

end Expr

theorem writesSigned_builds : Builds Expr.WritesSigned fun _ => True where
  constant h := ⟨fun _ hvalue => Option.mem_some.mp hvalue ▸ h,
    fun _ hvalue => .plain (Option.mem_some.mp hvalue ▸ h)⟩
  name _ := .of_none rfl rfl
  dot _ _ _ := .of_none rfl rfl
  binary _ _ := .of_none rfl rfl
  unary {_ op _} h :=
    match op with
    | .not => .of_none rfl rfl
    | .negate => h.negate
  plus h := h.withNote _
  call _ _ := .of_none rfl rfl
  callStar _ := .of_none rfl rfl
  brackets h := .of_literal rfl h.signed
  list _ _ := .of_none rfl rfl
  subquery _ := .of_none rfl rfl
  select _ := trivial

end SqlAnalysis
