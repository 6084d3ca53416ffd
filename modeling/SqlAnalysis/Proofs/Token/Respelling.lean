import Mathlib.Data.Option.Basic
import Mathlib.Tactic.SplitIfs
import SqlAnalysis.Proofs.Text.Folding
import SqlAnalysis.Token.Lexer

/-!
# Tokens of respelled texts

A text in which only words and quoted names are spelled in another case is cut at the
same places into tokens that are alike: each has its kind and its place, and names
differ in case only.
-/
namespace SqlAnalysis

open Text

namespace TokenKind

/-- The kinds are one, up to the case of a name. -/
inductive Like : TokenKind → TokenKind → Prop
  | refl (kind : TokenKind) : Like kind kind
  | name {a b : String} (h : foldCase a = foldCase b) : Like (.name a) (.name b)
  | quotedName {a b : String} (h : foldCase a = foldCase b) : Like (.quotedName a) (.quotedName b)

theorem Like.isTrivia_eq {kind kind' : TokenKind} (h : kind.Like kind') :
    kind.isTrivia = kind'.isTrivia := by
  cases h <;> rfl

theorem Like.isComment_eq {kind kind' : TokenKind} (h : kind.Like kind') :
    kind.isComment = kind'.isComment := by
  cases h <;> rfl

/-- Keywords and names, also those between quotes. -/
def isSpelled : TokenKind → Bool
  | .keyword _ | .name _ | .quotedName _ => true
  | _ => false

end TokenKind

/-- The tokens stand at one place and are of one kind, up to the case of a name. -/
structure Token.Like (t u : Token) : Prop where
  kind : t.kind.Like u.kind
  span : t.span = u.span
  start : t.start = u.start
  stop : t.stop = u.stop
  leadingComment : t.leadingComment = u.leadingComment

namespace Scan

/-- The scans find the same, up to the case of a name. -/
structure Like (s s' : Scan) : Prop where
  kind : Option.Rel TokenKind.Like s.kind s'.kind
  extra : s.extra = s'.extra
  problem : s.problem = s'.problem

theorem Like.refl (s : Scan) : s.Like s := by
  refine ⟨?_, rfl, rfl⟩
  cases s.kind with
  | none => exact .none
  | some kind => exact .some (.refl kind)

variable {c d : Char} {cs ds : List Char}

/-! ### Lengths do not depend on case -/

theorem blanks_eq (h : SameLetters cs ds) : blanks cs = blanks ds := by
  induction h with
  | nil => rfl
  | @cons c d cs ds hc hrest ih =>
    have hnext := not_congr (SameLetters.head?_eq_some_iff hrest (x := '\n') (by decide))
    simp only [blanks, hc.eq_iff (x := ' ') (by decide), hc.eq_iff (x := '\t') (by decide),
      hc.eq_iff (x := '\x0c') (by decide), hc.eq_iff (x := '\r') (by decide), ne_eq, hnext, ih]

theorem lineRest_eq (h : SameLetters cs ds) : lineRest cs = lineRest ds := by
  refine (h.takeWhile fun c d hc => ?_).length_eq
  simp only [ne_eq, hc.eq_iff (x := '\n') (by decide), hc.eq_iff (x := '\r') (by decide)]

theorem blockRest_eq (h : SameLetters cs ds) : blockRest cs = blockRest ds := by
  fun_induction blockRest cs generalizing ds with
  | case1 =>
    cases h
    rfl
  | case2 cs =>
    obtain ⟨ds, rfl, hrest⟩ := h.exists_of_cons (by decide)
    obtain ⟨ds, rfl, -⟩ := hrest.exists_of_cons (by decide)
    rfl
  | case3 c cs hother n closed hrest ih =>
    cases h with
    | @cons _ d _ ds hd hds =>
      rw [blockRest, ← ih hds, hrest]
      rintro ds rfl rfl
      obtain rfl : c = '*' := (hd.eq_iff (by decide)).mpr rfl
      have hslash := (SameLetters.head?_eq_some_iff hds (x := '/') (by decide)).mpr rfl
      cases cs with
      | nil => cases hslash
      | cons c cs => exact hother cs rfl (by simpa using hslash)

theorem length_stringRest_pos (c : Char) (cs : List Char) : 0 < (stringRest (c :: cs)).length := by
  rw [stringRest.eq_def]
  split <;> try split
  all_goals simp_all [Quoted.cons]

/-- Where the characters between the quotes are the same, so is the string. -/
theorem stringRest_eq (h : SameLetters cs ds)
    (hsame : cs.take (stringRest cs).length = ds.take (stringRest cs).length) :
    stringRest cs = stringRest ds := by
  fun_induction stringRest cs generalizing ds with
  | case1 =>
    cases h
    rfl
  | case2 cs ih =>
    obtain ⟨ds, rfl, hquoted⟩ := h.exists_of_cons (by decide)
    obtain ⟨ds, rfl, hrest⟩ := hquoted.exists_of_cons (by decide)
    rw [stringRest, ih hrest (by simpa [Quoted.cons] using hsame)]
  | case3 cs hclosed =>
    obtain ⟨ds, rfl, hrest⟩ := h.exists_of_cons (by decide)
    rw [stringRest]
    rintro ds rfl
    have hquote := (SameLetters.head?_eq_some_iff hrest (x := '\x27') (by decide)).mpr rfl
    cases cs with
    | nil => cases hquote
    | cons c cs => exact hclosed cs (by simpa using hquote)
  | case4 e cs c hescape ih =>
    obtain ⟨ds, rfl, hrest⟩ := h.exists_of_cons (by decide)
    cases hrest with
    | @cons _ e' _ ds _ hds =>
      obtain ⟨rfl, htail⟩ : e = e' ∧
          cs.take (stringRest cs).length = ds.take (stringRest cs).length := by
        simpa [Quoted.cons] using hsame
      rw [stringRest, hescape]
      dsimp only
      rw [ih hds htail]
  | case5 e cs hescape ih =>
    obtain ⟨ds, rfl, hrest⟩ := h.exists_of_cons (by decide)
    have hsame : (e :: cs).take (stringRest (e :: cs)).length =
        ds.take (stringRest (e :: cs)).length := by simpa [Quoted.cons] using hsame
    have hih := ih hrest hsame
    cases hrest with
    | @cons _ e' _ ds _ hds =>
      obtain ⟨n, hn⟩ := Nat.exists_eq_succ_of_ne_zero (Nat.ne_of_gt (length_stringRest_pos e cs))
      obtain ⟨rfl, -⟩ : e = e' ∧ cs.take n = ds.take n := by
        simpa [hn] using hsame
      rw [stringRest, hescape]
      dsimp only
      rw [hih]
  | case6 c cs _ hquote hescape ih =>
    cases h with
    | @cons _ d _ ds hd hds =>
      obtain ⟨rfl, htail⟩ : c = d ∧
          cs.take (stringRest cs).length = ds.take (stringRest cs).length := by
        simpa [Quoted.cons] using hsame
      rw [stringRest, ih hds htail]
      · exact fun _ hc _ => hquote hc
      · exact hquote
      · rintro e ds' hc rfl
        obtain ⟨e, cs', -, -, rfl⟩ := List.forall₂_cons_right_iff.mp hds
        exact hescape e cs' hc rfl

/-- Contents of quoted names that are alike. -/
structure Quoted.Like (q q' : Quoted) : Prop where
  content : SameLetters q.content q'.content
  length : q.length = q'.length
  closed : q.closed = q'.closed

theorem Quoted.Like.cons {q q' : Quoted} (h : q.Like q') (hc : SameLetter c d) (width : Nat) :
    (q.cons c width).Like (q'.cons d width) :=
  ⟨.cons hc h.content, congrArg (· + width) h.length, h.closed⟩

theorem bracketRest_like (h : SameLetters cs ds) : (bracketRest cs).Like (bracketRest ds) := by
  induction h with
  | nil => exact ⟨.nil, rfl, rfl⟩
  | @cons c d cs ds hc hrest ih =>
    have hclosing : c = ']' ↔ d = ']' := hc.eq_iff (by decide)
    simp only [bracketRest, hclosing]
    split
    · exact ⟨.nil, rfl, rfl⟩
    · exact ih.cons hc 1

theorem nameRest_like {quote : Char} (hquote : isLetter quote = false) (h : SameLetters cs ds) :
    (nameRest quote cs).Like (nameRest quote ds) := by
  fun_induction nameRest quote cs generalizing ds with
  | case1 =>
    cases h
    exact ⟨.nil, rfl, rfl⟩
  | case2 =>
    obtain ⟨ds, rfl, hrest⟩ := h.exists_of_cons hquote
    cases hrest
    rw [nameRest, if_pos rfl]
    exact ⟨.nil, rfl, rfl⟩
  | case3 c hc =>
    cases h with
    | @cons _ d _ _ hd hrest =>
      cases hrest
      rw [nameRest, if_neg fun heq => hc ((hd.eq_iff hquote).mpr heq)]
      exact ⟨.cons hd .nil, rfl, rfl⟩
  | case4 cs ih =>
    obtain ⟨ds, rfl, hquoted⟩ := h.exists_of_cons hquote
    obtain ⟨ds, rfl, hrest⟩ := hquoted.exists_of_cons hquote
    rw [nameRest, if_pos rfl, if_pos rfl]
    exact (ih hrest).cons rfl 2
  | case5 c cs hc =>
    obtain ⟨ds, rfl, hrest⟩ := h.exists_of_cons hquote
    cases hrest with
    | @cons _ d _ _ hd hrest =>
      rw [nameRest, if_pos rfl, if_neg fun heq => hc ((hd.eq_iff hquote).mpr heq)]
      exact ⟨.nil, rfl, rfl⟩
  | case6 c c' cs hc ih =>
    cases h with
    | @cons _ d _ _ hd hrest =>
      have hih := ih hrest
      cases hrest with
      | cons hd' hrest =>
        rw [nameRest, if_neg fun heq => hc ((hd.eq_iff hquote).mpr heq)]
        exact hih.cons hd 1

/-! ### Numbers -/

/-- Digits have one spelling. -/
theorem digits_eq (h : SameLetters cs ds) : cs.takeWhile isDigit = ds.takeWhile isDigit := by
  induction h with
  | nil => rfl
  | @cons c d cs ds hc _ ih =>
    rw [List.takeWhile_cons, List.takeWhile_cons, hc.isDigit_eq]
    split
    · next hd =>
      rcases hc.eq_or_letters with rfl | ⟨-, hletter⟩
      · rw [ih]
      · rw [isDigit_iff] at hd
        rw [isLetter_iff] at hletter
        omega
    · rfl

theorem fractionLength_of_ne (hc : c ≠ '.') (cs : List Char) : fractionLength (c :: cs) = 0 := by
  cases cs <;> simp [fractionLength, hc]

theorem fractionLength_eq (h : SameLetters cs ds) : fractionLength cs = fractionLength ds := by
  cases h with
  | nil => rfl
  | @cons c d cs ds hc hrest =>
    have hpoint : c = '.' ↔ d = '.' := hc.eq_iff (by decide)
    by_cases hd : d = '.'
    · obtain rfl := hd
      obtain rfl := hpoint.mpr rfl
      cases hrest with
      | nil => rfl
      | cons hc' hrest =>
        have hdigits := congrArg List.length (digits_eq (.cons hc' hrest))
        simp only [fractionLength, hc'.isLetter_eq, hc'.eq_iff (x := '_') (by decide), hdigits]
    · rw [fractionLength_of_ne hd, fractionLength_of_ne (mt hpoint.mp hd)]

/-- The mark of an exponent is one letter in both cases. -/
theorem isMark_iff (c : Char) : c = 'e' ∨ c = 'E' ↔ c.toLower = 'e' := by
  constructor
  · rintro (rfl | rfl) <;> rfl
  · intro h
    rcases toLower_cases c with hc | ⟨-, -, hc⟩
    · exact .inl (hc.symm.trans h)
    · rw [h] at hc
      have hvalue : c.toNat = 'E'.toNat := by
        have he : 'e'.toNat = 'E'.toNat + 32 := rfl
        omega
      exact .inr (Char.toNat_inj.mp hvalue)

theorem exponentLength_eq (h : SameLetters cs ds) : exponentLength cs = exponentLength ds := by
  cases h with
  | nil => rfl
  | @cons c d cs ds hc hrest =>
    have hplus := SameLetters.head?_eq_some_iff hrest (x := '+') (by decide)
    have hminus := SameLetters.head?_eq_some_iff hrest (x := '-') (by decide)
    have hunsigned := digits_eq hrest
    have hsigned := digits_eq (List.forall₂_drop 1 hrest)
    simp only [exponentLength, isMark_iff, show c.toLower = d.toLower from hc, hplus, hminus]
    split
    · split
      · rw [hsigned]
      · rw [hunsigned]
    · rfl

theorem number_eq (h : SameLetters cs ds)
    (hsame : cs.take ((number cs).extra + 1) = ds.take ((number cs).extra + 1)) :
    number cs = number ds := by
  unfold number at hsame ⊢
  have hfraction := fun n => fractionLength_eq (List.forall₂_drop n h)
  have hexponent := fun n => exponentLength_eq (List.forall₂_drop n h)
  simp only [digits_eq h, hfraction, hexponent, token] at hsame ⊢
  generalize (ds.takeWhile isDigit).length +
    fractionLength (ds.drop (ds.takeWhile isDigit).length) +
    exponentLength (ds.drop ((ds.takeWhile isDigit).length +
      fractionLength (ds.drop (ds.takeWhile isDigit).length))) = length at hsame ⊢
  cases length with
  | zero => rfl
  | succ length =>
    rw [Nat.add_sub_cancel] at hsame
    rw [hsame]

/-! ### Words and marks -/

theorem isNameStart_eq (h : SameLetter c d) : isNameStart c = isNameStart d := by
  rcases h.eq_or_letters with rfl | ⟨hc, hd⟩
  · rfl
  · simp [isNameStart, hc, hd]

theorem isNameChar_eq (h : SameLetter c d) : isNameChar c = isNameChar d := by
  rw [isNameChar, isNameChar, isNameStart_eq h, h.isDigit_eq]

theorem wordKind_like (h : SameLetters cs ds) : (wordKind cs).Like (wordKind ds) := by
  have hfold : foldCase (String.ofList cs) = foldCase (String.ofList ds) := by
    rw [foldCase_ofList, foldCase_ofList, sameLetters_iff.mp h]
  have hword := Keyword.ofWord?_eq hfold
  unfold wordKind
  generalize String.ofList cs = a at hfold hword
  generalize String.ofList ds = b at hfold hword
  cases hb : Keyword.ofWord? b with
  | some word => simpa only [hword, hb] using .refl _
  | none => simpa only [hword, hb] using .name hfold

theorem word_like (hc : SameLetter c d) (h : SameLetters cs ds) : (word c cs).Like (word d ds) := by
  have hmore := h.takeWhile fun _ _ => isNameChar_eq
  have hkind := wordKind_like (.cons hc hmore)
  unfold word token
  exact ⟨.some hkind, hmore.length_eq, rfl⟩

/-- No letter changes what a mark before it means. -/
theorem symbol?_of_isLetter (c : Char) (hd : isLetter d = true) :
    symbol? c (some d) = symbol? c none := by
  have hmarks : d ≠ '=' ∧ d ≠ '>' ∧ d ≠ '|' := by
    refine ⟨?_, ?_, ?_⟩ <;>
    · rintro rfl
      cases hd
  unfold symbol?
  split <;> simp_all

theorem symbol_eq (c : Char) (h : SameLetters cs ds) : symbol c cs = symbol c ds := by
  have hnext : symbol? c cs.head? = symbol? c ds.head? := by
    cases h with
    | nil => rfl
    | cons hd _ =>
      rcases hd.eq_or_letters with rfl | ⟨hc, hd⟩
      · rfl
      · rw [List.head?_cons, List.head?_cons, symbol?_of_isLetter c hc, symbol?_of_isLetter c hd]
  unfold symbol
  rw [hnext]

/-! ### Scans -/

theorem startsNumber_eq (c : Char) (h : SameLetters cs ds) :
    startsNumber c cs.head? = startsNumber c ds.head? := by
  cases h with
  | nil => rfl
  | cons hd _ => simp [startsNumber, hd.isDigit_eq]

/-- The first scan finds what the second does, unless a character behind the first one
is spelled in another case in a token other than a word. -/
def Respells (cs ds : List Char) (s s' : Scan) : Prop :=
  ((∀ kind ∈ s.kind, kind.isSpelled = false) → cs.take s.extra = ds.take s.extra) → s.Like s'

namespace Respells

variable {s s' t t' : Scan}

theorem of_eq (h : s = s') : Respells cs ds s s' :=
  fun _ => h ▸ .refl s

theorem ite {p q : Prop} [Decidable p] [Decidable q] (hpq : p ↔ q)
    (h : p → Respells cs ds s s') (h' : Respells cs ds t t') :
    Respells cs ds (if p then s else t) (if q then s' else t') := by
  by_cases hp : p
  · rw [if_pos hp, if_pos (hpq.mp hp)]
    exact h hp
  · rwa [if_neg hp, if_neg (mt hpq.mpr hp)]

end Respells

theorem string_respells (h : SameLetters cs ds) : Respells cs ds (string cs) (string ds) := by
  intro hsame
  have hplain : ∀ kind ∈ (string cs).kind, kind.isSpelled = false := by
    rintro kind ⟨⟩
    unfold textKind
    split <;> rfl
  rw [string, string, stringRest_eq h (hsame hplain)]
  exact .refl _

theorem quotedName_like {q q' : Quoted} (h : q.Like q') : (quotedName q).Like (quotedName q') := by
  have hfold : foldCase (String.ofList q.content) = foldCase (String.ofList q'.content) := by
    rw [foldCase_ofList, foldCase_ofList, sameLetters_iff.mp h.content]
  unfold quotedName
  rw [h.closed]
  exact ⟨.some (.quotedName hfold), h.length, rfl⟩

theorem number_respells (c : Char) (h : SameLetters cs ds) :
    Respells cs ds (number (c :: cs)) (number (c :: ds)) := by
  intro hsame
  have hplain : ∀ kind ∈ (number (c :: cs)).kind, kind.isSpelled = false := by
    rintro kind ⟨⟩
    unfold numberKind
    split <;> rfl
  have heq := number_eq (.cons rfl h) (congrArg (c :: ·) (hsame hplain))
  rw [heq]
  exact .refl _

/-- A scan finds the same if no character of a token other than a word is spelled in
another case. -/
theorem scan_respells (hc : SameLetter c d) (h : SameLetters cs ds) :
    Respells cs ds (scan c cs) (scan d ds) := by
  rcases hc.eq_or_letters with rfl | ⟨hletter, hletter'⟩
  · have hnewline := h.head?_eq_some_iff (x := '\n') (by decide)
    have hdash := h.head?_eq_some_iff (x := '-') (by decide)
    have hstar := h.head?_eq_some_iff (x := '*') (by decide)
    have hnumber : startsNumber c cs.head? = true ↔ startsNumber c ds.head? = true := by
      rw [startsNumber_eq c h]
    unfold scan
    dsimp only
    refine .ite .rfl (fun _ => .of_eq rfl) <|
      .ite (and_congr_right' hnewline) (fun _ => .of_eq rfl) <|
      .ite .rfl (fun _ => .of_eq ?blanks) <|
      .ite (and_congr_right' hdash) (fun _ => .of_eq ?line) <|
      .ite (and_congr_right' hstar) (fun _ => .of_eq ?block) <|
      .ite .rfl (fun _ => string_respells h) <|
      .ite .rfl (fun hquote _ => quotedName_like (nameRest_like ?quote h)) <|
      .ite .rfl (fun _ _ => quotedName_like (bracketRest_like h)) <|
      .ite hnumber (fun _ => number_respells c h) <|
      .ite .rfl (fun _ _ => word_like rfl h) (.of_eq (symbol_eq c h))
    case blanks => rw [blanks_eq h]
    case line => rw [lineRest_eq h]
    case block => rw [blockComment, blockComment, blockRest_eq (List.forall₂_drop 1 h)]
    case quote => rcases hquote with rfl | rfl <;> rfl
  · have hstart : ∀ x : Char, isLetter x = true → isNameStart x = true := by
      intro x hx
      simp [isNameStart, hx]
    rw [scan_of_isNameStart (hstart c hletter), scan_of_isNameStart (hstart d hletter')]
    exact fun _ => word_like hc h

end Scan

/-! ### Texts -/

theorem Position.after_eq {cs ds : List Char} (h : SameLetters cs ds) (p : Position) :
    p.after cs = p.after ds := by
  induction h generalizing p with
  | nil => rfl
  | @cons c d _ _ hc _ ih =>
    have hnewline : c = '\n' ↔ d = '\n' := hc.eq_iff (by decide)
    simp only [Position.after, hnewline, hc.utf8Size_eq, ih]

namespace Lexed

/-- Wherever two spellings of a text differ, a word or a quoted name of the tokens given
stands. The texts begin at an offset. -/
def DifferWithin (offset : Nat) (tokens : List Token) (cs ds : List Char) : Prop :=
  ∀ i c d, cs[i]? = some c → ds[i]? = some d → c ≠ d →
    ∃ t ∈ tokens, t.kind.isSpelled = true ∧ t.span.start ≤ offset + byteLength (cs.take i) ∧
      offset + byteLength (cs.take i) < t.span.stop

theorem differWithin_iff {offset : Nat} {tokens : List Token} {cs ds : List Char} :
    DifferWithin offset tokens cs ds ↔
      ∀ i < cs.length, cs[i]? = ds[i]? ∨ ds[i]? = none ∨
        ∃ t ∈ tokens, t.kind.isSpelled = true ∧ t.span.start ≤ offset + byteLength (cs.take i) ∧
          offset + byteLength (cs.take i) < t.span.stop := by
  constructor
  · intro h i hi
    have hc := List.getElem?_eq_getElem hi
    cases hd : ds[i]? with
    | none => exact .inr (.inl rfl)
    | some d =>
      by_cases hsame : cs[i] = d
      · exact .inl (by rw [hc, hsame])
      · exact .inr (.inr (h i _ d hc hd hsame))
  · intro h i c d hc hd hne
    rcases h i (List.getElem?_eq_some_iff.mp hc).1 with hsame | hnone | hfound
    · rw [hc, hd] at hsame
      exact absurd (Option.some.inj hsame) hne
    · rw [hd] at hnone
      cases hnone
    · exact hfound

instance (offset : Nat) (tokens : List Token) (cs ds : List Char) :
    Decidable (DifferWithin offset tokens cs ds) :=
  decidable_of_iff' _ differWithin_iff

/-- No token begins before the text does. -/
theorem le_start_of_mem (offset : Nat) (here : Position) (pending : Option Span)
    (cs : List Char) : ∀ t ∈ (lexFrom offset here pending cs).1, offset ≤ t.span.start := by
  fun_induction lexFrom offset here pending cs with
  | case1 => simp
  | case2 offset here pending c cs s taken stop there problems hkind tokens errors hrest ih =>
    intro t ht
    have hle : offset ≤ stop := Nat.le_add_right _ _
    have := ih t (by rwa [hrest])
    omega
  | case3 offset here pending c cs s taken stop there problems kind hkind comment t tokens errors
      hrest ih =>
    have hle : offset ≤ stop := Nat.le_add_right _ _
    refine List.forall_mem_cons.mpr ⟨Nat.le_refl _, fun u hu => ?_⟩
    have := ih u (by rwa [hrest])
    omega

theorem byteLength_take_lt {cs : List Char} {c : Char} {i n : Nat} (hi : cs[i]? = some c)
    (hn : i < n) : byteLength (cs.take i) < byteLength (cs.take n) := by
  induction cs generalizing i n with
  | nil => cases hi
  | cons x xs ih =>
    obtain ⟨n, rfl⟩ := Nat.exists_eq_succ_of_ne_zero (Nat.ne_zero_of_lt hn)
    cases i with
    | zero =>
      have := x.utf8Size_pos
      simp only [List.take_zero, byteLength_nil, List.take_succ_cons, byteLength_cons]
      omega
    | succ i =>
      have := ih (by simpa using hi) (Nat.lt_of_succ_lt_succ hn)
      simp only [List.take_succ_cons, byteLength_cons]
      omega

namespace DifferWithin

variable {offset extra : Nat} {tokens rest : List Token} {c d : Char} {cs ds : List Char}

/-- Characters before all words and quoted names are the same. -/
theorem take_eq (h : DifferWithin offset tokens (c :: cs) (d :: ds)) (hcs : SameLetters cs ds)
    (hbehind : ∀ t ∈ tokens, t.kind.isSpelled = true →
      offset + byteLength (c :: cs.take extra) ≤ t.span.start) :
    cs.take extra = ds.take extra := by
  apply List.ext_getElem?
  intro i
  rw [List.getElem?_take, List.getElem?_take]
  split
  · next hi =>
    by_contra hne
    have hlength := hcs.length_eq
    have hbound : i < cs.length := by
      by_contra hout
      rw [List.getElem?_eq_none (by omega), List.getElem?_eq_none (by omega)] at hne
      exact hne rfl
    have hc := List.getElem?_eq_getElem hbound
    have hd := List.getElem?_eq_getElem (hlength ▸ hbound)
    obtain ⟨t, ht, hspelled, hstart, -⟩ := h (i + 1) _ _ hc hd fun heq => hne (by rw [hc, hd, heq])
    have hbefore := byteLength_take_lt hc hi
    have hstop := hbehind t ht hspelled
    simp only [List.take_succ_cons, byteLength_cons] at hstart hstop
    omega
  · rfl

/-- Beyond some characters only the tokens count that end behind them. -/
theorem drop (h : DifferWithin offset tokens (c :: cs) (d :: ds))
    (hrest : ∀ t ∈ tokens, t ∈ rest ∨ t.span.stop ≤ offset + byteLength (c :: cs.take extra)) :
    DifferWithin (offset + byteLength (c :: cs.take extra)) rest (cs.drop extra)
      (ds.drop extra) := by
  intro i x y hx hy hne
  rw [List.getElem?_drop] at hx hy
  obtain ⟨t, ht, hspelled, hstart, hstop⟩ := h (extra + i + 1) x y hx hy hne
  have hcut : offset + byteLength ((c :: cs).take (extra + i + 1)) =
      offset + byteLength (c :: cs.take extra) + byteLength ((cs.drop extra).take i) := by
    rw [List.take_succ_cons, List.take_add, ← List.cons_append, byteLength_append, Nat.add_assoc]
  rw [hcut] at hstart hstop
  rcases hrest t ht with hmem | hbefore
  · exact ⟨t, hmem, hspelled, hstart, hstop⟩
  · omega

end DifferWithin

/-- The same number of characters of two spellings ends at the same place. -/
theorem taken_eq {c d : Char} {cs ds : List Char} (hc : SameLetter c d) (hcs : SameLetters cs ds)
    (extra : Nat) (here : Position) :
    byteLength (d :: ds.take extra) = byteLength (c :: cs.take extra) ∧
      here.after (d :: ds.take extra) = here.after (c :: cs.take extra) := by
  have htaken : SameLetters (c :: cs.take extra) (d :: ds.take extra) :=
    .cons hc (List.forall₂_take _ hcs)
  exact ⟨htaken.byteLength_eq.symm, (Position.after_eq htaken here).symm⟩

theorem pendingAfter_eq {t u : Token} (h : t.Like u) (pending : Option Span) :
    pendingAfter pending t = pendingAfter pending u := by
  rw [pendingAfter, pendingAfter, h.kind.isTrivia_eq, h.kind.isComment_eq, h.span]

/-- Two spellings of a text are cut into alike tokens, and the same is wrong with them. -/
theorem lexFrom_like (offset : Nat) (here : Position) (pending : Option Span) (cs : List Char) :
    ∀ ds, SameLetters cs ds → DifferWithin offset (lexFrom offset here pending cs).1 cs ds →
      List.Forall₂ Token.Like (lexFrom offset here pending cs).1
          (lexFrom offset here pending ds).1 ∧
        (lexFrom offset here pending cs).2 = (lexFrom offset here pending ds).2 := by
  fun_induction lexFrom offset here pending cs with
  | case1 offset here pending =>
    rintro ds ⟨⟩ -
    rw [lexFrom]
    exact ⟨.cons ⟨.refl _, rfl, rfl, rfl, rfl⟩ .nil, rfl⟩
  | case2 offset here pending c cs s taken stop there problems hkind tokens errors hrest ih =>
    intro ds h hdiffer
    cases h with
    | @cons _ d _ ds hc hcs =>
      have hbehind := le_start_of_mem stop there pending (cs.drop s.extra)
      rw [hrest] at hbehind
      obtain ⟨hkinds, hextra, hproblem⟩ := Scan.scan_respells hc hcs fun _ =>
        hdiffer.take_eq hcs fun t ht _ => hbehind t ht
      obtain ⟨hbytes, hplace⟩ := taken_eq hc hcs s.extra here
      have hnone : (Scan.scan d ds).kind = none := by
        have hkinds : Option.Rel TokenKind.Like none (Scan.scan d ds).kind := hkind ▸ hkinds
        generalize (Scan.scan d ds).kind = kind at hkinds
        cases hkinds
        rfl
      obtain ⟨htokens, herrors⟩ := ih (ds.drop s.extra) (List.forall₂_drop _ hcs) <| by
        rw [hrest]
        exact hdiffer.drop fun t ht => .inl ht
      rw [hrest] at htokens herrors
      rw [lexFrom]
      dsimp only
      rw [hnone, ← hextra, ← hproblem]
      dsimp only
      rw [hbytes, hplace]
      refine ⟨htokens, ?_⟩
      dsimp only at herrors ⊢
      rw [herrors]
  | case3 offset here pending c cs s taken stop there problems kind hkind comment t tokens errors
      hrest ih =>
    intro ds h hdiffer
    cases h with
    | @cons _ d _ ds hc hcs =>
      have hbehind := le_start_of_mem stop there (pendingAfter pending t) (cs.drop s.extra)
      rw [hrest] at hbehind
      obtain ⟨hkinds, hextra, hproblem⟩ := Scan.scan_respells hc hcs fun hplain =>
        hdiffer.take_eq hcs fun u hu hspelled => by
          rcases List.mem_cons.mp hu with rfl | hu
          · cases (hplain kind hkind).symm.trans hspelled
          · exact hbehind u hu
      obtain ⟨hbytes, hplace⟩ := taken_eq hc hcs s.extra here
      obtain ⟨kind', hkind', hlike⟩ :
          ∃ kind', (Scan.scan d ds).kind = some kind' ∧ kind.Like kind' := by
        have hkinds : Option.Rel TokenKind.Like (some kind) (Scan.scan d ds).kind := hkind ▸ hkinds
        generalize (Scan.scan d ds).kind = kind at hkinds
        cases hkinds with
        | some hlike => exact ⟨_, rfl, hlike⟩
      obtain ⟨htokens, herrors⟩ := ih (ds.drop s.extra) (List.forall₂_drop _ hcs) <| by
        rw [hrest]
        refine hdiffer.drop fun u hu => ?_
        rcases List.mem_cons.mp hu with rfl | hu
        · exact .inr (Nat.le_refl _)
        · exact .inl hu
      rw [hrest] at htokens herrors
      rw [lexFrom]
      dsimp only
      rw [hkind', ← hextra, ← hproblem]
      dsimp only
      rw [hbytes, hplace]
      have htoken : t.Like { t with kind := kind' } := ⟨hlike, rfl, rfl, rfl, rfl⟩
      have hcomment : (if kind'.isTrivia = true then none else pending) = t.leadingComment := by
        rw [← hlike.isTrivia_eq]
        rfl
      rw [hcomment]
      rw [pendingAfter_eq htoken] at htokens herrors
      dsimp only at herrors ⊢
      rw [herrors]
      exact ⟨.cons htoken htokens, rfl⟩

end Lexed

/-- Parentheses stand at the same places. -/
theorem BracketFault.find_eq {ts us : List Token} (h : List.Forall₂ Token.Like ts us)
    (opened : List Position) (stray : Option Position) :
    find opened stray ts = find opened stray us := by
  have hleft : ∀ {kind kind' : TokenKind}, kind.Like kind' →
      (kind = .leftParen ↔ kind' = .leftParen) := by
    rintro _ _ (_ | _ | _) <;> simp
  have hright : ∀ {kind kind' : TokenKind}, kind.Like kind' →
      (kind = .rightParen ↔ kind' = .rightParen) := by
    rintro _ _ (_ | _ | _) <;> simp
  induction h generalizing opened stray with
  | nil => rfl
  | cons ht _ ih => simp only [find, hleft ht.kind, hright ht.kind, ht.start, ih]

/-- The texts differ only in the case of letters in words and in quoted names. -/
def Respelled (source other : String) : Prop :=
  foldCase source = foldCase other ∧
    Lexed.DifferWithin 0 (Lexed.ofText source).tokens source.toList other.toList

instance (source other : String) : Decidable (Respelled source other) :=
  inferInstanceAs (Decidable (_ ∧ _))

namespace Respelled

variable {source other : String}

theorem lexed (h : Respelled source other) :
    List.Forall₂ Token.Like (Lexed.ofText source).tokens (Lexed.ofText other).tokens ∧
      (Lexed.ofText source).errors = (Lexed.ofText other).errors ∧
      (Lexed.ofText source).bracketFault = (Lexed.ofText other).bracketFault := by
  obtain ⟨hfold, hdiffer⟩ := h
  obtain ⟨htokens, herrors⟩ :=
    Lexed.lexFrom_like 0 ⟨0, 0⟩ none _ _ (foldCase_eq_iff.mp hfold) hdiffer
  have hfault := BracketFault.find_eq htokens [] none
  refine ⟨htokens, ?_, hfault⟩
  show _ ++ _ = _ ++ _
  rw [herrors, hfault]

theorem significant (h : Respelled source other) :
    List.Forall₂ Token.Like (Lexed.ofText source).significant
      (Lexed.ofText other).significant := by
  refine List.rel_filter (fun t u ht => ?_) h.lexed.1
  simp only [ht.kind.isTrivia_eq]

end Respelled
end SqlAnalysis
