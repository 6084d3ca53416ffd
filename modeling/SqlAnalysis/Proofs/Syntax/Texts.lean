import SqlAnalysis.Proofs.Binary64.Numerals
import SqlAnalysis.Proofs.Syntax.Construction
import SqlAnalysis.Proofs.Token.Lexing

/-!
# Pieces of canonical texts

Names, literals, keywords, operators and lists as they are written, and the tokens that
they lex to. What a piece of text may be followed by is fixed by what the next piece
begins with: a name by anything that is no part of a name, an expression by a blank, a
comma, a closing bracket or a new line.
-/
namespace SqlAnalysis

/-- What may follow a name. -/
def endsName (c : Char) : Bool :=
  Scan.endsWord c && c ≠ '\x22'

/-- What may follow an expression. -/
def endsExpr (c : Char) : Bool :=
  c = ' ' || c = ',' || c = ')' || c = '\n'

theorem endsExpr_iff {c : Char} : endsExpr c = true ↔ c = ' ' ∨ c = ',' ∨ c = ')' ∨ c = '\n' := by
  simp [endsExpr, or_assoc]

theorem endsName_of_endsExpr {c : Char} (h : endsExpr c = true) : endsName c = true := by
  rcases endsExpr_iff.mp h with rfl | rfl | rfl | rfl <;> rfl

theorem endsWord_of_endsName {c : Char} (h : endsName c = true) : Scan.endsWord c = true := by
  simp only [endsName, Bool.and_eq_true] at h
  exact h.1

theorem endsWord_of_endsExpr {c : Char} (h : endsExpr c = true) : Scan.endsWord c = true :=
  endsWord_of_endsName (endsName_of_endsExpr h)

theorem endsNumber_of_endsExpr {c : Char} (h : endsExpr c = true) : Scan.endsNumber c = true := by
  rcases endsExpr_iff.mp h with rfl | rfl | rfl | rfl <;> rfl

/-! ### Tokens -/

/-- Whether a text begins with a character of a certain kind. -/
def Begins (p : Char → Bool) (text : String) : Prop :=
  ∃ c, text.toList.head? = some c ∧ p c = true

/-- Whether a text is empty or begins with a character of a certain kind. -/
def Opens (p : Char → Bool) (text : String) : Prop :=
  Follows p text.toList

section

variable {p p' : Char → Bool} {text text' : String} {rest : List Char}

theorem Begins.mono (h : Begins p text) (himp : ∀ c, p c = true → p' c = true) :
    Begins p' text := by
  obtain ⟨c, hhead, hc⟩ := h
  exact ⟨c, hhead, himp c hc⟩

theorem Begins.append (h : Begins p text) (text' : String) : Begins p (text ++ text') := by
  obtain ⟨c, hhead, hc⟩ := h
  exact ⟨c, by simp [hhead], hc⟩

theorem Begins.opens (h : Begins p text) : Opens p text := by
  obtain ⟨c, hhead, hc⟩ := h
  intro d hd
  rw [hhead] at hd
  exact Option.some.inj hd ▸ hc

theorem Begins.follows (h : Begins p text) (rest : List Char) :
    Follows p (text.toList ++ rest) := by
  obtain ⟨c, hhead, hc⟩ := h
  intro d hd
  rw [List.head?_append, hhead] at hd
  exact Option.some.inj hd ▸ hc

theorem Opens.empty (p : Char → Bool) : Opens p "" := .nil p

theorem Opens.follows (h : Opens p text) (hrest : Follows p rest) :
    Follows p (text.toList ++ rest) := by
  unfold Opens Follows at *
  rw [List.head?_append]
  cases hhead : text.toList.head? with
  | none => simpa using hrest
  | some c => simpa [hhead] using h

theorem Opens.append (h : Opens p text) (h' : Opens p text') : Opens p (text ++ text') := by
  unfold Opens
  rw [String.toList_append]
  exact h.follows h'

end

namespace Written

variable {ends ends' : Char → Bool} {text text' : String} {words words' : List TokenKind}

/-- A single token that is no bracket. -/
theorem token {c : Char} {more : List Char} {kind : TokenKind} (htext : text.toList = c :: more)
    (hscan : ∀ rest, Follows ends rest → Scan.scan c (more ++ rest) = Scan.token kind more.length)
    (htrivia : kind.isTrivia = false) (hleft : kind ≠ .leftParen) (hright : kind ≠ .rightParen) :
    Written ends text [kind] := by
  refine ⟨fun rest ks hrest hlex => ?_, .singleton hleft hright⟩
  rw [htext]
  exact hlex.cons (hscan rest hrest) htrivia

/-- A text between brackets. -/
theorem enclosed (h : Written endsExpr text words) :
    Written endsAny ("(" ++ text ++ ")") (enclosed words) := by
  refine ⟨fun rest ks _ hlex => ?_, h.balanced.enclosed⟩
  have hclose : Lexes (')' :: rest) (.rightParen :: ks) := .token (n := 0) rfl rfl hlex
  have hinner := h.lexes (')' :: rest) (.rightParen :: ks) (follows_cons.mpr rfl) hclose
  have hopen : Lexes ('(' :: (text.toList ++ ')' :: rest))
      (.leftParen :: (words ++ .rightParen :: ks)) := .token (n := 0) rfl rfl hinner
  simpa [SqlAnalysis.enclosed] using hopen

/-- What comes next is no part of this text. -/
theorem append_any (h : Written endsAny text words) (h' : Written ends' text' words') :
    Written ends' (text ++ text') (words ++ words') :=
  h.append h' fun _ _ _ _ => rfl

end Written

theorem wordKind_spelling (k : Keyword) : Scan.wordKind k.spelling.toList = .keyword k := by
  have hall : ∀ k ∈ Keyword.all, Keyword.ofWord? k.spelling = some k := by decide +kernel
  rw [Scan.wordKind, String.ofList_toList, hall k k.mem_all]

theorem Keyword.exists_spelling (k : Keyword) : ∃ c more, k.spelling.toList = c :: more ∧
    Scan.isNameStart c = true ∧ more.all Scan.isNameChar = true := by
  cases k <;> refine ⟨_, _, by simp [spelling]; exact ⟨rfl, rfl⟩, by decide, by decide⟩

theorem Keyword.written (k : Keyword) : Written Scan.endsWord k.spelling [.keyword k] := by
  obtain ⟨c, more, htext, hc, hmore⟩ := k.exists_spelling
  have hkind := wordKind_spelling k
  rw [htext] at hkind
  refine .token htext (fun rest hrest => ?_) rfl nofun nofun
  rw [Scan.scan_word hc hmore hrest, hkind]

/-! ### Names and literals -/

theorem isNameStart_of_letter {c : Char} (h : (Text.isLetter c || c = '_') = true) :
    Scan.isNameStart c = true := by
  unfold Scan.isNameStart
  rw [h]
  rfl

theorem isNameChar_of_plain {c : Char} (h : Ident.isPlainChar c = true) :
    Scan.isNameChar c = true := by
  simp only [Ident.isPlainChar, Bool.or_eq_true] at h
  unfold Scan.isNameChar Scan.isNameStart
  rcases h with (h | h) | h <;> simp [h]

theorem Ident.render_eq (ident : Ident) :
    ident.render = if ident.writtenQuoted then quote ident.name else ident.name := rfl

/-- A name that needs no quotes is a word. -/
theorem Ident.exists_word {ident : Ident} (h : ident.writtenQuoted = false) :
    ∃ c more, ident.name.toList = c :: more ∧ Scan.isNameStart c = true ∧
      more.all Scan.isNameChar = true := by
  have hplain : needsQuotes ident.name = false := by
    simp only [writtenQuoted, Bool.or_eq_false_iff] at h
    exact h.2
  unfold needsQuotes at hplain
  cases hname : ident.name.toList with
  | nil => simp [hname] at hplain
  | cons c more =>
    simp only [hname, Bool.or_eq_false_iff, Bool.not_eq_false', List.any_eq_false,
      Bool.not_eq_true', Bool.not_eq_false] at hplain
    obtain ⟨hc, hmore⟩ := hplain
    exact ⟨c, more, rfl, isNameStart_of_letter hc,
      List.all_eq_true.mpr fun d hd => isNameChar_of_plain (hmore d hd)⟩

/-- A name is found by one scan. -/
theorem Ident.exists_scan (ident : Ident) : ∃ c more, ident.render.toList = c :: more ∧
    ∀ rest, Follows endsName rest →
      Scan.scan c (more ++ rest) = Scan.token ident.word more.length := by
  rw [render_eq, word]
  cases hquoted : ident.writtenQuoted with
  | true =>
    refine ⟨'\x22', Text.double '\x22' ident.name.toList ++ ['\x22'], by simp [quote], ?_⟩
    intro rest hrest
    rw [List.append_assoc, List.singleton_append, Scan.scan_quotedName _ (hrest.mono ?_)]
    · simp
    · simp [endsName]
  | false =>
    simp only [Bool.false_eq_true, if_false]
    obtain ⟨c, more, htext, hc, hmore⟩ := exists_word hquoted
    rw [htext]
    exact ⟨c, more, rfl, fun rest hrest =>
      Scan.scan_word hc hmore (hrest.mono fun _ => endsWord_of_endsName)⟩

/-- What a name may be written as: a quoted name, a plain one or a keyword. -/
theorem Ident.word_cases (ident : Ident) :
    ident.word = .quotedName ident.name ∨ ident.word = .name ident.name ∨
      ∃ k, ident.word = .keyword k := by
  unfold word
  split
  · exact .inl rfl
  · rw [Scan.wordKind, String.ofList_toList]
    cases Keyword.ofWord? ident.name with
    | none => exact .inr (.inl rfl)
    | some k => exact .inr (.inr ⟨k, rfl⟩)

theorem Ident.written (ident : Ident) : Written endsName ident.render [ident.word] := by
  obtain ⟨c, more, htext, hscan⟩ := ident.exists_scan
  refine .token htext hscan ?_ ?_ ?_ <;>
    rcases ident.word_cases with h | h | ⟨k, h⟩ <;> rw [h] <;> first | rfl | nofun

/-- What a name may begin with. -/
theorem Ident.render_begins (ident : Ident) :
    Begins (fun c => c ≠ '-' && !Text.isDigit c) ident.render := by
  rw [render_eq]
  cases hquoted : ident.writtenQuoted with
  | true => exact ⟨'\x22', by simp [quote], rfl⟩
  | false =>
    simp only [Bool.false_eq_true, if_false]
    obtain ⟨c, more, htext, hc, -⟩ := exists_word hquoted
    have hminus : c ≠ '-' := by
      rintro rfl
      simp [Scan.isNameStart, Text.isLetter] at hc
    exact ⟨c, by rw [htext]; rfl, by simp [hminus, Scan.isDigit_of_isNameStart hc]⟩

theorem Written.string {s : String} {kind : TokenKind} (hs : '\x5c' ∉ s.toList)
    (hkind : Scan.textKind s.toList = kind) : Written endsExpr (Literal.quote s) [kind] := by
  subst hkind
  have htext : (Literal.quote s).toList =
      '\x27' :: (Text.double '\x27' s.toList ++ ['\x27']) := by simp [Literal.quote]
  refine .token htext (fun rest hrest => ?_) ?_ ?_ ?_
  · rw [List.append_assoc, List.singleton_append,
      Scan.scan_string (Scan.hasEscape_of_not_mem hs) (hrest.mono ?_)]
    · simp
    · intro c hc
      rcases endsExpr_iff.mp hc with rfl | rfl | rfl | rfl <;> rfl
  all_goals
    unfold Scan.textKind
    split <;> simp [TokenKind.isTrivia]

theorem Written.number {text : String} {kind : TokenKind} (h : Scan.Numeral text.toList)
    (hkind : Scan.numberKind text.toList = kind) : Written endsExpr text [kind] := by
  subst hkind
  obtain ⟨c, more, htext, -⟩ := h.head
  rw [htext] at h ⊢
  refine .token htext (fun rest hrest => ?_) ?_ ?_ ?_
  · exact h.scan (hrest.mono fun c hc => endsNumber_of_endsExpr hc)
  all_goals
    unfold Scan.numberKind
    split <;> simp [TokenKind.isTrivia]

theorem Written.keyword (k : Keyword) : Written endsExpr k.spelling [.keyword k] :=
  k.written.mono fun _ => endsWord_of_endsExpr

theorem Literal.render_natural (n : Nat) :
    (render (.integer n)).toList = Nat.toDigits 10 n := by
  rw [render, Int.toString_eq_repr]
  exact Nat.toList_repr

theorem Literal.Plain.natural {i : Int} (h : Literal.Plain (.integer i)) :
    ∃ n : Nat, i = n ∧ n ≤ Scan.maxInteger := by
  have hvalue : some (integer i.toNat) = some (integer i) := h.literalOf?
  exact ⟨i.toNat, (integer.inj (Option.some.inj hvalue)).symm, h.word⟩

theorem Literal.written {value : Literal} (h : value.Plain) :
    Written endsExpr value.render [value.word] := by
  cases value with
  | integer i =>
    obtain ⟨n, rfl, hn⟩ := h.natural
    refine .number ?_ ?_
    · rw [render_natural]
      exact .of_digits (Text.digits_toDigits n)
    · rw [render_natural, Scan.numberKind, Text.natural?_toDigits,
        Option.filter_some_pos (by simpa using hn)]
      rfl
  | float x =>
    obtain ⟨⟨m, q, rfl⟩, hreads⟩ := h.word
    have hreal := Binary64.render_realNumeral m q
    refine .number hreal.numeral ?_
    rw [Scan.numberKind]
    simp only [render, hreal.natural?_eq_none, hreads]
    rfl
  | boolean b =>
    cases b with
    | true => exact .keyword .TRUE
    | false => exact .keyword .FALSE
  | string s =>
    obtain ⟨hlength, hverbatim⟩ := h.word
    refine .string hverbatim ?_
    unfold Scan.textKind
    split
    · next c hc => simp [hc] at hlength
    · rw [String.ofList_toList]
      rfl
  | character c =>
    have hc : '\x5c' ≠ c := fun heq => h.word heq.symm
    have htext : c.toString.toList = [c] := by simp [Char.toString]
    exact .string (by simpa [htext] using hc) (by rw [htext]; rfl)
  | null => exact .keyword .NULL

/-- No literal begins with a minus sign. -/
theorem Literal.render_begins {value : Literal} (h : value.Plain) :
    Begins (· ≠ '-') value.render := by
  have hquote (s : String) : Begins (· ≠ '-') (quote s) := ⟨'\x27', by simp [quote], rfl⟩
  have hnumeral {text : String} (h : Scan.Numeral text.toList) : Begins (· ≠ '-') text := by
    obtain ⟨c, more, htext, hc⟩ := h.head
    exact ⟨c, by rw [htext]; rfl, by simpa using Scan.ne_of_isDigit hc rfl⟩
  cases value with
  | integer i =>
    obtain ⟨n, rfl, -⟩ := h.natural
    apply hnumeral
    rw [render_natural]
    exact .of_digits (Text.digits_toDigits n)
  | float x =>
    obtain ⟨m, q, rfl⟩ := h.word.finite
    exact hnumeral (Binary64.render_realNumeral m q).numeral
  | boolean b =>
    cases b with
    | true => exact ⟨'T', rfl, rfl⟩
    | false => exact ⟨'F', rfl, rfl⟩
  | string s => exact hquote s
  | character c => exact hquote _
  | null => exact ⟨'N', rfl, rfl⟩

/-! ### Words between blanks -/

namespace Written

variable {ends : Char → Bool} {text text' : String} {words words' : List TokenKind}

/-- The next text is empty or begins with a character that may follow this one. -/
theorem append_opens (h : Written ends text words) (h' : Written ends text' words')
    (hopen : Opens ends text') : Written ends (text ++ text') (words ++ words') :=
  h.append h' fun _ hrest => hopen.follows hrest

/-- The next text begins with a character that may follow this one. -/
theorem append_begins {ends' : Char → Bool} (h : Written ends text words)
    (h' : Written ends' text' words') (hbegins : Begins ends text') :
    Written ends' (text ++ text') (words ++ words') :=
  h.append h' fun rest _ => hbegins.follows rest

/-- A keyword with a blank after it. -/
theorem word (k : Keyword) : Written endsAny (k.spelling ++ " ") [.keyword k] :=
  k.written.append_begins .blank ⟨' ', rfl, rfl⟩

/-- A mark between blanks. -/
theorem spaced {c : Char} {more : List Char} {kind : TokenKind} (htext : text.toList = c :: more)
    (hscan : ∀ rest, Scan.scan c (more ++ ' ' :: rest) = Scan.token kind more.length)
    (htrivia : kind.isTrivia = false) (hleft : kind ≠ .leftParen) (hright : kind ≠ .rightParen) :
    Written endsAny (" " ++ text ++ " ") [kind] := by
  refine ⟨fun rest ks _ hlex => ?_, .singleton hleft hright⟩
  simpa [htext] using (Lexes.cons (hscan rest) htrivia hlex.blank).blank

end Written

theorem BinaryOperator.written (op : BinaryOperator) :
    Written endsAny (" " ++ op.spelling ++ " ") op.words := by
  cases op with
  | or => exact Written.blank.append_any (.word .OR)
  | and => exact Written.blank.append_any (.word .AND)
  | like => exact Written.blank.append_any (.word .LIKE)
  | member => exact Written.blank.append_any (.word .IN)
  | notLike => exact (Written.blank.append_any (.word .NOT)).append_any (.word .LIKE)
  | notMember => exact (Written.blank.append_any (.word .NOT)).append_any (.word .IN)
  | eq => exact .spaced rfl (fun _ => rfl) rfl nofun nofun
  | notEq => exact .spaced rfl (fun _ => rfl) rfl nofun nofun
  | lt => exact .spaced rfl (fun _ => rfl) rfl nofun nofun
  | le => exact .spaced rfl (fun _ => rfl) rfl nofun nofun
  | gt => exact .spaced rfl (fun _ => rfl) rfl nofun nofun
  | ge => exact .spaced rfl (fun _ => rfl) rfl nofun nofun
  | concat => exact .spaced rfl (fun _ => rfl) rfl nofun nofun
  | add => exact .spaced rfl (fun _ => rfl) rfl nofun nofun
  | subtract => exact .spaced rfl (fun _ => rfl) rfl nofun nofun
  | multiply => exact .spaced rfl (fun _ => rfl) rfl nofun nofun
  | divide => exact .spaced rfl (fun _ => rfl) rfl nofun nofun
  | modulo => exact .spaced rfl (fun _ => rfl) rfl nofun nofun

/-- A minus sign before anything but another one. -/
theorem Written.minus : Written (· ≠ '-') "-" [.minus] := by
  refine .token (c := '-') rfl (fun rest hrest => ?_) rfl nofun nofun
  have hnext : rest.head? ≠ some '-' := by
    intro h
    simpa using hrest '-' h
  simp [Scan.scan, hnext, Scan.startsNumber, Scan.isNameStart, Scan.symbol, Scan.symbol?,
    Text.isDigit, Text.isLetter, Scan.token]

/-- A point after a name. -/
theorem Written.point : Written (fun c => !Text.isDigit c) "." [.dot] := by
  refine .token (c := '.') rfl (fun rest hrest => ?_) rfl nofun nofun
  have hnext : rest.head?.any Text.isDigit = false := by
    cases rest with
    | nil => rfl
    | cons d rest => simpa [Follows] using hrest
  simp [Scan.scan, Scan.startsNumber, hnext, Scan.isNameStart, Scan.symbol, Scan.symbol?,
    Text.isLetter, Text.isDigit, Scan.token]

theorem Written.star : Written endsAny "*" [.star] :=
  .token (c := '*') rfl (fun _ _ => rfl) rfl nofun nofun

theorem Written.comma : Written endsAny ", " [.comma] :=
  ⟨fun _ _ _ hlex => .token (n := 0) rfl rfl hlex.blank, .singleton nofun nofun⟩

/-! ### Lists -/

theorem joinWith_cons (sep part : String) (parts : List String) :
    Text.joinWith sep (part :: parts) = part ++ String.join (parts.map (sep ++ ·)) := by
  induction parts generalizing part with
  | nil => simp [Text.joinWith]
  | cons next parts ih =>
    have h := ih next
    simp only [Text.joinWith] at h ⊢
    rw [String.intercalate_cons_cons, h]
    simp [String.append_assoc]

section

variable {α : Type} {text : α → String} {words : α → List TokenKind}

/-- Texts one after the other, each of which may follow the one before. -/
theorem Written.join {ends : Char → Bool} {xs : List α}
    (h : ∀ x ∈ xs, Written ends (text x) (words x) ∧ Opens ends (text x)) :
    Written ends (String.join (xs.map text)) (xs.flatMap words) ∧
      Opens ends (String.join (xs.map text)) := by
  induction xs with
  | nil => exact ⟨.empty ends, .empty ends⟩
  | cons x xs ih =>
    obtain ⟨hx, hxs⟩ := List.forall_mem_cons.mp h
    obtain ⟨hrest, hopen⟩ := ih hxs
    simp only [List.map_cons, String.join_cons, List.flatMap_cons]
    exact ⟨hx.1.append_opens hrest hopen, hx.2.append hopen⟩

/-- A list with commas and blanks, or new lines, between its items. -/
theorem Written.joinWith {ends : Char → Bool} {sep : String} (hsep : Written endsAny sep [.comma])
    (hbegins : Begins ends sep) {xs : List α} (h : ∀ x ∈ xs, Written ends (text x) (words x)) :
    Written ends (Text.joinWith sep (xs.map text)) (commaWords (xs.map words)) := by
  cases xs with
  | nil => exact .empty ends
  | cons x xs =>
    obtain ⟨hx, hxs⟩ := List.forall_mem_cons.mp h
    have hjoin : Written ends (String.join (xs.map fun x => sep ++ text x))
          (xs.flatMap fun x => .comma :: words x) ∧
        Opens ends (String.join (xs.map fun x => sep ++ text x)) :=
      Written.join fun x hmem => ⟨hsep.append_any (hxs x hmem), (hbegins.append _).opens⟩
    obtain ⟨hrest, hopen⟩ := hjoin
    rw [List.map_cons, joinWith_cons, List.map_map, List.map_cons, commaWords, List.flatMap_map]
    exact hx.append_opens hrest hopen

theorem Written.commaList {ends : Char → Bool} (hcomma : ends ',' = true) {xs : List α}
    (h : ∀ x ∈ xs, Written ends (text x) (words x)) :
    Written ends (commaList (xs.map text)) (commaWords (xs.map words)) :=
  .joinWith .comma ⟨',', rfl, hcomma⟩ h

/-- A list in brackets. -/
theorem Written.bracketList {xs : List α} (h : ∀ x ∈ xs, Written endsExpr (text x) (words x)) :
    Written endsAny (bracketList (xs.map text)) (SqlAnalysis.enclosed (commaWords (xs.map words))) :=
  (Written.commaList rfl h).enclosed

end

end SqlAnalysis
