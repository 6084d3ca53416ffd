import SqlAnalysis.Proofs.Token.Respelling
import SqlAnalysis.Proofs.Token.Tiling

/-!
# Texts cut off behind a token

How a token is scanned depends only on its own characters, as long as the text is cut off
right behind some token. The exceptions are a point at the very end, which then belongs to
the digits before it, and a carriage return that has lost its newline.
-/
namespace SqlAnalysis
namespace Scan

variable {p : Char → Bool} {keep cut : List Char}

theorem takeWhile_slice (h : ((keep ++ cut).takeWhile p).length ≤ keep.length) :
    keep.takeWhile p = (keep ++ cut).takeWhile p := by
  rw [List.takeWhile_append] at h ⊢
  split
  · next hall =>
    rw [if_pos hall, List.length_append] at h
    have hnil : cut.takeWhile p = [] := List.eq_nil_of_length_eq_zero (by omega)
    rw [hnil, List.append_nil]
    exact (List.takeWhile_prefix p).eq_of_length hall
  · rfl

theorem blanks_slice (h : blanks (keep ++ cut) ≤ keep.length)
    (hreturn : keep.drop (blanks (keep ++ cut)) = ['\r'] → cut.head? ≠ some '\n') :
    blanks keep = blanks (keep ++ cut) := by
  induction keep with
  | nil =>
    have hnone : blanks cut = 0 := Nat.le_zero.mp h
    simp [blanks, hnone]
  | cons c keep ih =>
    rw [List.cons_append] at h hreturn ⊢
    have hiff : (c = '\r' ∧ keep.head? ≠ some '\n') ↔
        (c = '\r' ∧ (keep ++ cut).head? ≠ some '\n') := by
      cases keep with
      | cons d keep => rfl
      | nil =>
        refine and_congr_right fun hc => ⟨fun _ hnext => ?_, fun _ => by simp⟩
        have hstop : blanks ('\r' :: cut) = 0 := by simp_all [blanks]
        subst hc
        exact hreturn (by rw [List.nil_append, hstop]; rfl) hnext
    rw [blanks] at h hreturn ⊢
    rw [blanks]
    simp only [hiff]
    split
    · next hblank =>
      rw [if_pos hblank] at h hreturn
      rw [ih (by simpa using h) (by simpa using hreturn)]
    · rfl

theorem blockRest_cons {c : Char} {cs : List Char} (h : c = '*' → cs.head? ≠ some '/') :
    blockRest (c :: cs) = ((blockRest cs).1 + 1, (blockRest cs).2) := by
  rw [blockRest]
  rintro tail rfl rfl
  exact h rfl rfl

theorem length_blockRest_pos (c : Char) (cs : List Char) : 0 < (blockRest (c :: cs)).1 := by
  rw [blockRest.eq_def]
  split <;> simp_all

theorem blockRest_slice (h : (blockRest (keep ++ cut)).1 ≤ keep.length) :
    blockRest keep = blockRest (keep ++ cut) := by
  induction keep with
  | nil =>
    cases cut with
    | nil => rfl
    | cons d cut =>
      have := length_blockRest_pos d cut
      rw [List.nil_append, List.length_nil] at h
      omega
  | cons c keep ih =>
    rw [List.cons_append] at h ⊢
    by_cases hopen : c = '*' → (keep ++ cut).head? ≠ some '/'
    · have hopen' : c = '*' → keep.head? ≠ some '/' := by
        intro hc hnext
        obtain ⟨ks, rfl⟩ := List.head?_eq_some_iff.mp hnext
        exact hopen hc rfl
      rw [blockRest_cons hopen] at h ⊢
      rw [blockRest_cons hopen', ih (by simpa using h)]
    · obtain ⟨rfl, hnext⟩ := Classical.not_imp.mp hopen
      obtain ⟨rest, hrest⟩ := List.head?_eq_some_iff.mp (not_not.mp hnext)
      rw [hrest] at h ⊢
      cases keep with
      | nil => simp [blockRest] at h
      | cons k keep =>
        obtain rfl : k = '/' := (List.cons.inj hrest).1
        rfl

/-- What stands between quotes is read alike if the closing quote is still there. -/
theorem stringRest_slice (h : (stringRest (keep ++ cut)).length ≤ keep.length) :
    stringRest keep = stringRest (keep ++ cut) := by
  by_cases hcut : cut = []
  · rw [hcut, List.append_nil]
  obtain ⟨d, cut, rfl⟩ := List.exists_cons_of_ne_nil hcut
  have hpos := length_stringRest_pos d cut
  fun_induction stringRest keep with
  | case1 =>
    rw [List.nil_append, List.length_nil] at h
    omega
  | case2 cs ih =>
    simp only [List.cons_append, stringRest, Quoted.cons, List.length_cons] at h ⊢
    rw [ih (by omega)]
  | case3 rest hrest =>
    cases rest with
    | cons r rest =>
      have hr : r ≠ '\x27' := fun heq => hrest rest (by rw [heq])
      simp [stringRest, hr]
    | nil =>
      by_cases hd : d = '\x27'
      · simp [hd, stringRest, Quoted.cons] at h
      · simp [stringRest, hd]
  | case4 e cs c hescape ih =>
    simp only [List.cons_append, stringRest, hescape, Quoted.cons, List.length_cons] at h ⊢
    rw [ih (by omega)]
  | case5 e cs hescape ih =>
    simp only [List.cons_append, stringRest, hescape, Quoted.cons, List.length_cons] at h ih ⊢
    rw [ih (by omega)]
  | case6 c cs _ hquote hescape ih =>
    by_cases hc : c = '\x5c'
    · subst hc
      obtain rfl : cs = [] := by
        cases cs with
        | nil => rfl
        | cons e cs => exact (hescape e cs rfl rfl).elim
      simp only [List.cons_append, List.nil_append, stringRest, List.length_singleton] at h
      split at h <;> simp only [Quoted.cons] at h <;> omega
    · rw [List.cons_append, stringRest_cons hquote hc] at h ⊢
      rw [ih (by simpa [Quoted.cons] using h)]

theorem length_nameRest_pos (quote c : Char) (cs : List Char) :
    0 < (nameRest quote (c :: cs)).length := by
  rw [nameRest.eq_def]
  split <;> try split
  all_goals try split
  all_goals simp_all [Quoted.cons]

theorem nameRest_slice {quote : Char} (h : (nameRest quote (keep ++ cut)).length ≤ keep.length) :
    nameRest quote keep = nameRest quote (keep ++ cut) := by
  by_cases hcut : cut = []
  · rw [hcut, List.append_nil]
  obtain ⟨d, cut, rfl⟩ := List.exists_cons_of_ne_nil hcut
  have hpos := length_nameRest_pos quote d cut
  fun_induction nameRest quote keep with
  | case1 =>
    rw [List.nil_append, List.length_nil] at h
    omega
  | case2 =>
    by_cases hd : d = quote
    · simp [hd, nameRest, Quoted.cons] at h
    · simp [nameRest, hd]
  | case3 c hc =>
    simp only [List.cons_append, List.nil_append, nameRest_cons hc, Quoted.cons,
      List.length_singleton] at h
    omega
  | case4 cs ih =>
    simp only [List.cons_append, nameRest, if_true, Quoted.cons, List.length_cons] at h ⊢
    rw [ih (by omega)]
  | case5 e cs he => simp [nameRest, he]
  | case6 c e cs hc ih =>
    rw [List.cons_append, nameRest_cons hc] at h ⊢
    rw [ih (by simpa [Quoted.cons] using h)]

theorem bracketRest_slice (h : (bracketRest (keep ++ cut)).length ≤ keep.length) :
    bracketRest keep = bracketRest (keep ++ cut) := by
  induction keep with
  | nil =>
    cases cut with
    | nil => rfl
    | cons d cut =>
      rw [List.nil_append, bracketRest] at h
      split at h <;> simp [Quoted.cons] at h
  | cons c keep ih =>
    rw [List.cons_append, bracketRest] at h ⊢
    rw [bracketRest]
    split
    · rfl
    · next hc =>
      rw [if_neg hc] at h
      rw [ih (by simpa [Quoted.cons] using h)]

/-! ### Numbers -/

theorem fractionLength_slice (h : fractionLength (keep ++ cut) ≤ keep.length)
    (hpoint : keep = ['.'] → fractionLength (keep ++ cut) ≠ 0) :
    fractionLength keep = fractionLength (keep ++ cut) := by
  cases keep with
  | nil =>
    rw [List.nil_append] at h ⊢
    exact (Nat.le_zero.mp h).symm
  | cons c keep =>
    by_cases hc : c = '.'
    · subst hc
      cases keep with
      | nil =>
        have hne := hpoint rfl
        cases cut with
        | nil => rfl
        | cons d cut =>
          simp only [List.cons_append, List.nil_append, fractionLength, List.length_singleton]
            at h hne ⊢
          split at h
          · next hletter => simp [hletter] at hne
          · next hletter =>
            rw [if_neg hletter]
            omega
      | cons d keep =>
        simp only [List.cons_append, fractionLength, List.length_cons] at h ⊢
        split
        · rfl
        · next hletter =>
          rw [if_neg hletter] at h
          have hdigits : (d :: keep).takeWhile Text.isDigit =
              (d :: keep ++ cut).takeWhile Text.isDigit :=
            takeWhile_slice (by simp only [List.cons_append, List.length_cons]; omega)
          rw [hdigits, List.cons_append]
    · rw [List.cons_append, fractionLength_of_ne hc, fractionLength_of_ne hc]

/-- The length of the sign that a text begins with. -/
def signLength (cs : List Char) : Nat :=
  if cs.head? = some '+' ∨ cs.head? = some '-' then 1 else 0

theorem signLength_le (cs : List Char) : signLength cs ≤ cs.length := by
  cases cs with
  | nil => simp [signLength]
  | cons c cs =>
    unfold signLength
    split <;> simp

/-- The digits of an exponent behind its mark and its sign. -/
def exponentDigits (cs : List Char) : List Char :=
  (cs.drop (signLength cs)).takeWhile Text.isDigit

theorem exponentLength_cons {mark : Char} (hmark : mark = 'e' ∨ mark = 'E') (cs : List Char) :
    exponentLength (mark :: cs) =
      if exponentDigits cs = [] then 0 else 1 + signLength cs + (exponentDigits cs).length := by
  rw [exponentLength, if_pos hmark]
  by_cases hsigned : cs.head? = some '+' ∨ cs.head? = some '-'
  · simp [hsigned, exponentDigits, signLength]
  · simp [hsigned, exponentDigits, signLength]

theorem exponentLength_slice (h : exponentLength (keep ++ cut) ≤ keep.length) :
    exponentLength keep = exponentLength (keep ++ cut) := by
  cases keep with
  | nil =>
    rw [List.nil_append] at h ⊢
    exact (Nat.le_zero.mp h).symm
  | cons mark keep =>
    rw [List.cons_append] at h ⊢
    by_cases hmark : mark = 'e' ∨ mark = 'E'
    · rw [exponentLength_cons hmark] at h ⊢
      rw [exponentLength_cons hmark]
      have hlength : (exponentDigits (keep ++ cut)).length + signLength (keep ++ cut) ≤
          keep.length ∨ exponentDigits (keep ++ cut) = [] := by
        by_cases hnone : exponentDigits (keep ++ cut) = []
        · exact .inr hnone
        · rw [if_neg hnone, List.length_cons] at h
          exact .inl (by omega)
      cases keep with
      | nil =>
        -- With no digit behind it the mark is no part of the number.
        have hnone : exponentDigits cut = [] := by
          rcases hlength with hlength | hnone
          · exact List.eq_nil_of_length_eq_zero (Nat.le_zero.mp (Nat.le_trans (Nat.le_add_right _ _)
              hlength))
          · exact hnone
        rw [List.nil_append, if_pos hnone]
        rfl
      | cons d keep =>
        have hsign : signLength (d :: keep ++ cut) = signLength (d :: keep) := rfl
        have hle := signLength_le (d :: keep)
        have hdigits : exponentDigits (d :: keep) = exponentDigits (d :: keep ++ cut) := by
          unfold exponentDigits at hlength ⊢
          rw [hsign, List.drop_append_of_le_length hle] at hlength ⊢
          refine takeWhile_slice ?_
          rw [List.length_drop]
          rcases hlength with hlength | hnone
          · omega
          · simp [hnone]
        rw [hdigits, hsign]
    · simp [exponentLength, hmark]

theorem number_slice {c : Char} (hstart : startsNumber c (keep ++ cut).head? = true)
    (h : (number (c :: (keep ++ cut))).extra ≤ keep.length)
    (hpoint : keep.drop (number (c :: (keep ++ cut))).extra = ['.'] →
      ∃ d ∈ c :: keep.take (number (c :: (keep ++ cut))).extra, Text.isDigit d = false) :
    number (c :: keep) = number (c :: (keep ++ cut)) := by
  simp only [number, token] at h hpoint ⊢
  rw [← List.cons_append] at h hpoint ⊢
  generalize hwhole : (((c :: keep) ++ cut).takeWhile Text.isDigit) = whole at h hpoint ⊢
  generalize hfraction : fractionLength (((c :: keep) ++ cut).drop whole.length) = fraction
    at h hpoint ⊢
  generalize hexponent : exponentLength (((c :: keep) ++ cut).drop (whole.length + fraction)) =
    exponent at h hpoint ⊢
  have hlength : whole.length + fraction + exponent ≤ (c :: keep).length := by
    rw [List.length_cons]
    omega
  have hwhole' : (c :: keep).takeWhile Text.isDigit = whole := by
    rw [← hwhole]
    exact takeWhile_slice (by rw [hwhole]; omega)
  rw [List.drop_append_of_le_length (by omega)] at hfraction hexponent
  have hfraction' : fractionLength ((c :: keep).drop whole.length) = fraction := by
    rw [← hfraction]
    refine fractionLength_slice (by rw [hfraction, List.length_drop]; omega) fun hkeep hnone => ?_
    obtain rfl : fraction = 0 := hfraction ▸ hnone
    cases hcount : whole.length with
    | zero =>
      -- A number that begins with a point goes on with a digit.
      rw [hcount, List.drop_zero] at hkeep hnone
      obtain ⟨rfl, rfl⟩ := List.cons.inj hkeep
      obtain ⟨d, rest, rfl, hd⟩ : ∃ d rest, cut = d :: rest ∧ Text.isDigit d = true := by
        cases cut with
        | nil => simp [startsNumber, Text.isDigit] at hstart
        | cons d rest =>
          have hdigit : Text.isDigit '.' = false := rfl
          exact ⟨d, rest, rfl, by simpa [startsNumber, hdigit] using hstart⟩
      have hname : isNameStart d = false := by
        rw [Bool.eq_false_iff]
        intro hname
        exact Bool.false_ne_true ((isDigit_of_isNameStart hname).symm.trans hd)
      have hletter : (Text.isLetter d || d = '_') = false := by simp_all [isNameStart]
      simp [fractionLength, hletter] at hnone
    | succ count =>
      have hmark : exponent = 0 := by
        rw [← hexponent, Nat.add_zero, hkeep]
        simp [exponentLength]
      rw [hcount, hmark, Nat.add_zero, Nat.add_zero, Nat.add_sub_cancel] at hpoint
      rw [hcount, List.drop_succ_cons] at hkeep
      obtain ⟨d, hd, hdigit⟩ := hpoint hkeep
      have hdigits : (c :: keep).take whole.length = whole := by
        rw [← hwhole']
        exact (List.prefix_iff_eq_take.mp (List.takeWhile_prefix Text.isDigit)).symm
      rw [← List.take_succ_cons, ← hcount, hdigits, ← hwhole'] at hd
      exact Bool.false_ne_true (hdigit.symm.trans (List.all_eq_true.mp List.all_takeWhile d hd))
  have hexponent' : exponentLength ((c :: keep).drop (whole.length + fraction)) = exponent := by
    rw [← hexponent]
    exact exponentLength_slice (by rw [hexponent, List.length_drop]; omega)
  rw [hwhole', hfraction', hexponent', List.take_append_of_le_length hlength]

/-! ### Any token -/

theorem word_slice {c : Char} (h : (word c (keep ++ cut)).extra ≤ keep.length) :
    word c keep = word c (keep ++ cut) := by
  rw [word, word, takeWhile_slice h]

theorem blockComment_slice (h : (blockComment (keep ++ cut)).extra ≤ keep.length + 1) :
    blockComment keep = blockComment (keep ++ cut) := by
  simp only [blockComment] at h ⊢
  have hrest : blockRest keep = blockRest (keep ++ cut) := blockRest_slice (by omega)
  rw [hrest]

theorem string_slice (h : (string (keep ++ cut)).extra ≤ keep.length) :
    string keep = string (keep ++ cut) := by
  rw [string, string, stringRest_slice h]

/-- A number that begins with a point has a digit behind it. -/
theorem extra_number_point {d : Char} (cs : List Char) (hd : Text.isDigit d = true) :
    0 < (number ('.' :: d :: cs)).extra := by
  have hletter : (Text.isLetter d || d = '_') = false := by
    rw [Bool.eq_false_iff]
    intro hletter
    have hname : isNameStart d = true := by simp [isNameStart, hletter]
    exact Bool.false_ne_true ((isDigit_of_isNameStart hname).symm.trans hd)
  have hpoint : Text.isDigit '.' = false := rfl
  have hfraction : 1 < fractionLength ('.' :: d :: cs) := by
    simp [fractionLength, hletter, hd]
  simp only [number, token, List.takeWhile_cons, hpoint, Bool.false_eq_true, if_false,
    List.length_nil, List.drop_zero]
  omega

theorem startsNumber_mono {c : Char} {next next' : Option Char}
    (h : ∀ {d}, next = some d → next' = some d) (hstart : startsNumber c next = true) :
    startsNumber c next' = true := by
  cases next with
  | none => simp_all [startsNumber]
  | some d => rwa [h rfl]

theorem symbol?_slice {c : Char} {next : Option Char}
    (h : ∀ kind, symbol? c next ≠ some (kind, 1)) : symbol? c none = symbol? c next := by
  fun_cases symbol? c next
  all_goals try rfl
  all_goals try exact absurd rfl (h _)
  unfold symbol?
  split <;> simp_all

theorem symbol_slice {c : Char} (h : (symbol c (keep ++ cut)).extra ≤ keep.length) :
    symbol c keep = symbol c (keep ++ cut) := by
  cases keep with
  | cons d keep => rfl
  | nil =>
    have hshort : ∀ kind, symbol? c cut.head? ≠ some (kind, 1) := by
      intro kind hkind
      simp [symbol, hkind, token] at h
    rw [List.nil_append, symbol, symbol, List.head?_nil, symbol?_slice hshort]

/-- Two decisions alike, where what comes of the first is known. -/
theorem ite_slice {p p' : Prop} [Decidable p] [Decidable p'] {a b a' b' s : Scan}
    (hs : (if p then a else b) = s) (hno : ¬p → b = s → ¬p' ∧ b' = s)
    (hyes : p → a = s → p' ∧ a' = s) : (if p' then a' else b') = s := by
  split at hs
  · next hp =>
    obtain ⟨hp', ha⟩ := hyes hp hs
    rw [if_pos hp', ha]
  · next hp =>
    obtain ⟨hp', hb⟩ := hno hp hs
    rw [if_neg hp', hb]

/-- A scan that stays within the kept part of a text does not see what is cut off. -/
theorem scan_slice {c : Char} (h : (scan c (keep ++ cut)).extra ≤ keep.length)
    (hpoint : keep.drop (scan c (keep ++ cut)).extra = ['.'] →
      ∃ d ∈ c :: keep.take (scan c (keep ++ cut)).extra, Text.isDigit d = false)
    (hreturn : keep.drop (scan c (keep ++ cut)).extra = ['\r'] → cut.head? ≠ some '\n') :
    scan c keep = scan c (keep ++ cut) := by
  generalize hs : scan c (keep ++ cut) = s at h hpoint hreturn ⊢
  have hnext : ∀ {d}, keep.head? = some d → (keep ++ cut).head? = some d := by
    intro d hd
    rw [List.head?_append, hd]
    rfl
  -- A scan that has gone beyond its first character has seen the next one.
  have hseen : ∀ {d}, 0 < s.extra → (keep ++ cut).head? = some d → keep.head? = some d := by
    intro d hpos hd
    obtain ⟨k, ks, rfl⟩ := List.exists_cons_of_length_pos (Nat.lt_of_lt_of_le hpos h)
    exact hd
  rw [scan] at hs
  rw [scan]
  refine ite_slice hs (fun hc hs => ⟨hc, ?_⟩) fun hc hs => ⟨hc, hs⟩
  refine ite_slice hs (fun hc hs => ⟨fun hc' => hc ⟨hc'.1, hnext hc'.2⟩, ?_⟩)
    fun hc hs => ⟨⟨hc.1, hseen (by simp [← hs, token]) hc.2⟩, hs⟩
  refine ite_slice hs (fun hc hs => ⟨hc, ?_⟩) fun hc hs => ⟨hc, ?blank⟩
  refine ite_slice hs (fun hc hs => ⟨fun hc' => hc ⟨hc'.1, hnext hc'.2⟩, ?_⟩)
    fun hc hs => ⟨⟨hc.1, hseen ?dash hc.2⟩, ?line⟩
  refine ite_slice hs (fun hc hs => ⟨fun hc' => hc ⟨hc'.1, hnext hc'.2⟩, ?_⟩)
    fun hc hs => ⟨⟨hc.1, hseen (by simp [← hs, blockComment]) hc.2⟩, ?block⟩
  refine ite_slice hs (fun hc hs => ⟨hc, ?_⟩) fun hc hs => ⟨hc, ?string⟩
  refine ite_slice hs (fun hc hs => ⟨hc, ?_⟩) fun hc hs => ⟨hc, ?name⟩
  refine ite_slice hs (fun hc hs => ⟨hc, ?_⟩) fun hc hs => ⟨hc, ?bracket⟩
  refine ite_slice hs (fun hc hs => ⟨fun hc' => hc (startsNumber_mono hnext hc'), ?_⟩)
    fun hc hs => ⟨?digit, ?number⟩
  refine ite_slice hs (fun hc hs => ⟨hc, ?symbol⟩) fun hc hs => ⟨hc, ?word⟩
  all_goals subst hs
  case blank => rw [blanks_slice h hreturn]
  case dash =>
    obtain ⟨cs, hcs⟩ := List.head?_eq_some_iff.mp hc.2
    simp [token, lineRest, hcs]
  case line => rw [lineRest, lineRest, takeWhile_slice h]
  case block =>
    obtain ⟨k, keep, rfl⟩ := List.exists_cons_of_length_pos
      (Nat.lt_of_lt_of_le (Nat.succ_pos _) h)
    exact blockComment_slice h
  case string => exact string_slice h
  case name => rw [nameRest_slice h]
  case bracket => rw [bracketRest_slice h]
  case digit =>
    rw [startsNumber, Bool.or_eq_true] at hc ⊢
    refine hc.imp_right fun hpoint => ?_
    obtain ⟨rfl, d, hd, hdigit⟩ : c = '.' ∧ ∃ d, (keep ++ cut).head? = some d ∧
        Text.isDigit d = true := by simpa [Option.any_eq_true] using hpoint
    obtain ⟨cs, hcs⟩ := List.head?_eq_some_iff.mp hd
    have hpos := extra_number_point cs hdigit
    rw [hcs] at hseen
    simp [hseen hpos rfl, hdigit]
  case number => exact number_slice hc h hpoint
  case word => exact word_slice h
  case symbol => exact symbol_slice h

end Scan
end SqlAnalysis
