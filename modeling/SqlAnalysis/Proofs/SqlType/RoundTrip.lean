import SqlAnalysis.Proofs.SqlType.Parameters
import SqlAnalysis.Proofs.Text.Digits

/-!
# Types read back

The text of a type has no blanks. Its name ends at the first bracket, and between the brackets
the numbers are cut apart by commas, so every type that can be declared is read from its text
as it was. All types that resolving meets can be declared.
-/
namespace SqlAnalysis

namespace Text

variable {cs ds : List Char}

/-- Whether nothing is lost when the blanks at both ends are. -/
def Blankless (cs : List Char) : Prop :=
  ∀ c ∈ cs, isBlank c = false

theorem Blankless.append (h : Blankless cs) (h' : Blankless ds) : Blankless (cs ++ ds) :=
  List.forall_mem_append.mpr ⟨h, h'⟩

theorem Blankless.cons {c : Char} (hc : isBlank c = false) (h : Blankless cs) :
    Blankless (c :: cs) :=
  List.forall_mem_cons.mpr ⟨hc, h⟩

theorem Blankless.trimChars (h : Blankless cs) : trimChars cs = cs := by
  have hdrop : ∀ {ds : List Char}, Blankless ds → ds.dropWhile isBlank = ds := by
    intro ds hds
    cases ds with
    | nil => rfl
    | cons d ds => rw [List.dropWhile_cons, if_neg (by simp [hds d List.mem_cons_self])]
  have hreverse : Blankless cs.reverse := fun c hc => h c (List.mem_reverse.mp hc)
  rw [Text.trimChars, hdrop h, hdrop hreverse, List.reverse_reverse]

theorem blankless_join {sep : Char} (hsep : isBlank sep = false) {words : List (List Char)}
    (h : ∀ w ∈ words, Blankless w) : Blankless (join sep words) := by
  induction words with
  | nil => exact fun _ hc => absurd hc List.not_mem_nil
  | cons w words ih =>
    obtain ⟨hw, hwords⟩ := List.forall_mem_cons.mp h
    cases words with
    | nil => exact hw
    | cons v words =>
      rw [join_cons_cons sep w (List.cons_ne_nil v words)]
      exact hw.append (.cons hsep (ih hwords))

theorem isDigit_toDigits {n : Nat} {c : Char} (hc : c ∈ Nat.toDigits 10 n) : isDigit c = true :=
  List.all_eq_true.mp (digits_toDigits n).all c hc

theorem blankless_toDigits (n : Nat) : Blankless (Nat.toDigits 10 n) := by
  intro c hc
  have hdigit := isDigit_iff.mp (isDigit_toDigits hc)
  simp only [isBlank, blankRanges, List.any_cons, List.any_nil, Bool.or_false,
    Bool.or_eq_false_iff, Bool.and_eq_false_iff, decide_eq_false_iff_not]
  omega

/-- A number that fits a word is read from its digits. -/
theorem word?_toDigits {n : Nat} (h : n ≤ maxWord) : word? (Nat.toDigits 10 n) = some n := by
  unfold word?
  dsimp only
  split
  · next rest hplus =>
    have hdigit : isDigit '+' = true := isDigit_toDigits (n := n) (by simp [hplus])
    cases hdigit
  · rw [natural?_toDigits, Option.filter_some_pos (by simpa using h)]

end Text

namespace SqlType

open Text

variable {t : SqlType}

/-! ### The text of a type -/

/-- The numbers of a list in digits, with commas between them. -/
def paramChars (params : List Nat) : List Char :=
  join ',' (params.map (Nat.toDigits 10))

theorem toList_render_of_nil (h : t.params = []) : t.render.toList = t.kind.name.toList := by
  rw [render, h, renderParts]

theorem toList_render_of_ne_nil (h : t.params ≠ []) :
    t.render.toList = t.kind.name.toList ++ '(' :: (paramChars t.params ++ [')']) := by
  have hjoin : (joinWith "," (t.params.map toString)).toList = paramChars t.params := by
    have hdigits : String.toList ∘ toString = Nat.toDigits 10 := funext fun n => Nat.toList_repr
    rw [paramChars, ← hdigits, ← List.map_map]
    exact toList_joinWith ',' (t.params.map toString)
  rw [render, renderParts]
  · simp [hjoin]
  · exact h

theorem name_blankless (kind : TypeKind) :
    Blankless kind.name.toList ∧ kind.name.toList ≠ [] ∧ '(' ∉ kind.name.toList := by
  have hblankless : kind.name.toList.all (fun c => !isBlank c) = true := by
    cases kind <;> decide +kernel
  have hrest : kind.name.toList ≠ [] ∧ '(' ∉ kind.name.toList := by
    cases kind <;> decide +kernel
  refine ⟨fun c hc => ?_, hrest⟩
  simpa using List.all_eq_true.mp hblankless c hc

theorem blankless_paramChars (params : List Nat) : Blankless (paramChars params) := by
  refine blankless_join (by decide) fun w hw => ?_
  obtain ⟨n, -, rfl⟩ := List.mem_map.mp hw
  exact blankless_toDigits n

theorem blankless_render (t : SqlType) : Blankless t.render.toList := by
  obtain ⟨hname, -⟩ := name_blankless t.kind
  by_cases h : t.params = []
  · rwa [toList_render_of_nil h]
  · rw [toList_render_of_ne_nil h]
    refine hname.append (.cons (by decide) ((blankless_paramChars t.params).append ?_))
    exact .cons (by decide) fun _ hc => absurd hc List.not_mem_nil

theorem readParams?_paramChars {params : List Nat} (hne : params ≠ [])
    (hwords : ∀ n ∈ params, n ≤ maxWord) :
    readParams? (paramChars params ++ [')']) = some params := by
  have hcomma : ∀ w ∈ params.map (Nat.toDigits 10), ',' ∉ w := by
    intro w hw hmem
    obtain ⟨n, -, rfl⟩ := List.mem_map.mp hw
    cases isDigit_toDigits hmem
  have hsplit : split ',' (paramChars params) = params.map (Nat.toDigits 10) :=
    split_join ',' (mt List.map_eq_nil_iff.mp hne) hcomma
  rw [readParams?, List.reverse_append]
  show (split ',' (paramChars params).reverse.reverse).mapM _ = _
  rw [List.reverse_reverse, hsplit, mapM_eq_some_iff, List.forall₂_map_left_iff, List.forall₂_same]
  intro n hn
  rw [(blankless_toDigits n).trimChars, word?_toDigits (hwords n hn)]

/-- A text without blanks and brackets is a name. -/
theorem parse_of_none {raw : String} (hblankless : Blankless raw.toList) (hne : raw.toList ≠ [])
    (hsplit : splitFirst? '(' raw.toList = none) : parse raw = ofParts raw [] := by
  unfold parse
  dsimp only
  rw [hblankless.trimChars, hsplit]
  dsimp only
  rw [hblankless.trimChars, String.ofList_toList]
  split
  · exact absurd ‹_› hne
  · next hnone _ => cases hnone
  · next hsome _ => rw [Option.some.inj hsome]

/-- Otherwise its name ends at the first bracket. -/
theorem parse_of_some {raw : String} {name rest : List Char} {params : List Nat}
    (hblankless : Blankless raw.toList) (hname : Blankless name) (hne : name ≠ [])
    (hsplit : splitFirst? '(' raw.toList = some (name, rest))
    (hread : readParams? rest = some params) :
    parse raw = ofParts (String.ofList name) params := by
  unfold parse
  dsimp only
  rw [hblankless.trimChars, hsplit]
  dsimp only
  rw [hname.trimChars, hread]
  split
  · exact absurd rfl hne
  · next hnone => cases hnone
  · next hsome => rw [Option.some.inj hsome]

/-- The text of a type that can be declared is read as that type. -/
theorem Admitted.parse_render (h : t.Admitted) : parse t.render = .ok t := by
  obtain ⟨hname, hne, hbracket⟩ := name_blankless t.kind
  have hparts := ofParts_name h.count
  have hblankless := blankless_render t
  by_cases hparams : t.params = []
  · have hchars := toList_render_of_nil hparams
    have hrender : t.render = t.kind.name := String.toList_inj.mp hchars
    rw [parse_of_none hblankless (hchars ▸ hne), hrender, ← hparams, hparts]
    rw [hchars, splitFirst?_of_not_mem hbracket]
  · have hsplit : splitFirst? '(' t.render.toList =
        some (t.kind.name.toList, paramChars t.params ++ [')']) := by
      rw [toList_render_of_ne_nil hparams, splitFirst?_append hbracket]
    rw [parse_of_some hblankless hname hne hsplit (readParams?_paramChars hparams h.words),
      String.ofList_toList, hparts]

/-! ### Types that arise -/

/-- A type that is read, built from parts or found for a literal, or that operations give on
such types. -/
inductive Arises : SqlType → Prop
  | read {raw : String} {t : SqlType} (h : parse raw = .ok t) : Arises t
  | parts {name : String} {params : List Nat} {t : SqlType} (hwords : ∀ n ∈ params, n ≤ maxWord)
    (h : ofParts name params = .ok t) : Arises t
  | literal {value : Literal} {t : SqlType} (h : value.sqlType? = some t) : Arises t
  | binary {op : BinaryOperator} {a b t : SqlType} (ha : Arises a) (hb : Arises b)
    (h : operate? op a b = some t) : Arises t
  | unary {op : UnaryOperator} {a t : SqlType} (ha : Arises a) (h : operateUnary? op a = some t) :
    Arises t

theorem Arises.admitted (h : t.Arises) : t.Admitted := by
  induction h with
  | read h => exact parse_admitted h
  | parts hwords h => exact ofParts_admitted hwords h
  | literal h => exact sqlType?_admitted h
  | binary _ _ h iha ihb => exact operate?_admitted iha ihb h
  | unary _ h iha => exact operateUnary?_admitted iha h

/-- Every type that arises is read from its text as it is. It has parameters only if it is a
text of limited length or a decimal, and no more of them than its kind takes. -/
theorem arises_reads_back (h : t.Arises) :
    parse t.render = .ok t ∧
      (t.params ≠ [] → t.kind = .varchar ∨ t.kind = .char ∨ t.kind = .decimal) ∧
      t.params.length ≤ t.kind.parameters.length :=
  ⟨h.admitted.parse_render, h.admitted.kind_of_params, h.admitted.count⟩

/-- The larger precision and the larger scale of two decimals of which one is negated, and one
is written with blanks. -/
theorem arises_reads_back_sum :
    let t : SqlType := ⟨.decimal, [10, 4]⟩
    t.Arises ∧ t.params ≠ [] ∧ t.render = "decimal(10,4)" ∧
      (parse t.render = .ok t ∧
        (t.params ≠ [] → t.kind = .varchar ∨ t.kind = .char ∨ t.kind = .decimal) ∧
        t.params.length ≤ t.kind.parameters.length) := by
  intro t
  have hread : parse " DECIMAL ( 10 , 2 ) " = .ok ⟨.decimal, [10, 2]⟩ := by rfl
  have hparts : ofParts "dec" [6, 4] = .ok ⟨.decimal, [6, 4]⟩ := by rfl
  have hnegated : operateUnary? .negate ⟨.decimal, [6, 4]⟩ = some ⟨.decimal, [6, 4]⟩ := rfl
  have hsum : operate? .add ⟨.decimal, [10, 2]⟩ ⟨.decimal, [6, 4]⟩ = some t := rfl
  have hright : SqlType.Arises ⟨.decimal, [6, 4]⟩ := .unary (.parts (by decide) hparts) hnegated
  have harises : t.Arises := .binary (.read hread) hright hsum
  exact ⟨harises, List.cons_ne_nil _ _, rfl, arises_reads_back harises⟩

end SqlType
end SqlAnalysis
