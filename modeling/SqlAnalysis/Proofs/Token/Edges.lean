import SqlAnalysis.Proofs.Source.Ranges
import SqlAnalysis.Proofs.Token.Tiling

/-!
# The edges of tokens

The tokens of a text and the characters that are skipped meet at its edges. What the lexer
complains about is a token or a skipped character, be it that a scan has a problem or that a
parenthesis has no partner, so all its complaints run from edge to edge.
-/
namespace SqlAnalysis

theorem Scan.Result.extra_of_none {c : Char} {s : Scan} (h : Scan.Result c s)
    (hkind : s.kind = none) : s.extra = 0 := by
  cases h with
  | token => simp at hkind
  | skipped => rfl

/-- Whether a token is a parenthesis. -/
def TokenKind.isParen : TokenKind → Bool
  | .leftParen | .rightParen => true
  | _ => false

/-- The one character that a parenthesis or a point is. -/
def TokenKind.mark? : TokenKind → Option Char
  | .leftParen => some '('
  | .rightParen => some ')'
  | .dot => some '.'
  | _ => none

theorem TokenKind.exists_mark {kind : TokenKind} (h : kind.isParen = true) :
    ∃ mark, kind.mark? = some mark ∧ (mark = '(' ∨ mark = ')') := by
  unfold isParen at h
  split at h
  · exact ⟨'(', rfl, .inl rfl⟩
  · exact ⟨')', rfl, .inr rfl⟩
  · cases h

namespace Scan

theorem mark?_textKind (cs : List Char) : (textKind cs).mark? = none := by
  unfold textKind
  split <;> rfl

theorem mark?_numberKind (cs : List Char) : (numberKind cs).mark? = none := by
  unfold numberKind
  split <;> rfl

theorem mark?_wordKind (cs : List Char) : (wordKind cs).mark? = none := by
  unfold wordKind
  dsimp only
  split <;> rfl

/-- A parenthesis or a point is just its character. -/
def IsLoneMark (c : Char) (s : Scan) : Prop :=
  ∀ mark, s.kind.bind TokenKind.mark? = some mark → c = mark ∧ s.extra = 0

theorem IsLoneMark.of_some {c : Char} {kind : TokenKind} {extra : Nat} {problem : Option String}
    (h : kind.mark? = none) : IsLoneMark c ⟨some kind, extra, problem⟩ := by
  intro mark hmark
  rw [Option.bind_some, h] at hmark
  cases hmark

theorem symbol_isLoneMark (c : Char) (cs : List Char) : IsLoneMark c (symbol c cs) := by
  unfold symbol
  cases hsymbol : symbol? c cs.head? with
  | none => exact fun _ => nofun
  | some found =>
    unfold symbol? at hsymbol
    split at hsymbol <;> cases hsymbol
    all_goals first | exact .of_some rfl | exact fun _ hmark => ⟨Option.some.inj hmark, rfl⟩

theorem scan_isLoneMark (c : Char) (cs : List Char) : IsLoneMark c (scan c cs) := by
  unfold scan
  dsimp only
  split_ifs
  · exact .of_some rfl
  · exact .of_some rfl
  · exact .of_some rfl
  · exact .of_some rfl
  · exact .of_some rfl
  · exact .of_some (mark?_textKind _)
  · exact .of_some rfl
  · exact .of_some rfl
  · exact .of_some (mark?_numberKind _)
  · exact .of_some (mark?_wordKind _)
  · exact symbol_isLoneMark c cs

end Scan

/-- The fault that is found is about one of the parentheses. -/
theorem BracketFault.find_place {P : Position → Prop} (opened : List Position)
    (stray : Option Position) (ts : List Token) (hopened : ∀ p ∈ opened, P p)
    (hstray : ∀ p ∈ stray, P p) (hts : ∀ t ∈ ts, t.kind.isParen = true → P t.start) :
    ∀ fault ∈ find opened stray ts, P fault.place := by
  fun_induction find opened stray ts with
  | case1 opened p => simpa [BracketFault.place] using hstray p rfl
  | case2 opened =>
    cases opened with
    | nil => simp
    | cons p ps => simpa [BracketFault.place] using hopened p List.mem_cons_self
  | case3 opened stray t ts hleft ih =>
    obtain ⟨ht, hts⟩ := List.forall_mem_cons.mp hts
    exact ih (List.forall_mem_cons.mpr ⟨ht (by rw [hleft]; rfl), hopened⟩) hstray hts
  | case4 stray t ts hleft hright p opened ih =>
    exact ih (List.forall_mem_cons.mp hopened).2 hstray (List.forall_mem_cons.mp hts).2
  | case5 stray t ts hleft hright ih =>
    obtain ⟨ht, hts⟩ := List.forall_mem_cons.mp hts
    refine ih hopened (fun p hp => ?_) hts
    cases stray with
    | none => exact Option.some.inj hp ▸ ht (by rw [hright]; rfl)
    | some q => exact hstray p hp
  | case6 opened stray t ts hleft hright ih =>
    exact ih hopened hstray (List.forall_mem_cons.mp hts).2

namespace Lexed

variable {source : String} {span : Span}

/-- Whether a character of the text stands under a span and under no token. -/
structure IsSkipped (source : String) (span : Span) : Prop where
  character : ∃ before c after, source.toList = before ++ c :: after ∧
    span = ⟨Text.byteLength before, Text.byteLength before + c.utf8Size⟩
  apart : ∀ t ∈ (ofText source).tokens, span.Apart t.span

/-- Whether a token or a skipped character stands under a span. -/
def IsTile (source : String) (span : Span) : Prop :=
  (∃ t ∈ (ofText source).tokens, t.span = span) ∨ IsSkipped source span

/-- Whether a token or a skipped character begins or ends at an offset. -/
def IsEdge (source : String) (offset : Nat) : Prop :=
  ∃ span, IsTile source span ∧ (offset = span.start ∨ offset = span.stop)

/-- Whether a range is that of a piece of the text between two of its edges. -/
def RunsBetweenEdges (source : String) (range : Range) : Prop :=
  ∃ a b, a ≤ b ∧ b ≤ Text.byteSize source ∧ IsEdge source a ∧ IsEdge source b ∧
    range = ⟨(LineIndex.ofText source).position a, (LineIndex.ofText source).position b⟩

/-! ### Tokens -/

theorem tiles_ofText (source : String) :
    ∃ skips, Tiles source 0 (ofText source).tokens skips := by
  obtain ⟨skips, htiles, -⟩ := lexFrom_tiles 0 ⟨0, 0⟩ none source.toList [] rfl rfl rfl
  exact ⟨skips, htiles⟩

theorem Tiles.start_le_stop {offset : Nat} {ts : List Token} {skips : List (Span × Diagnostic)}
    (h : Tiles source offset ts skips) : ∀ t ∈ ts, t.span.start ≤ t.span.stop := by
  induction h with
  | done _ span => simp [span]
  | token _ nonempty _ _ ih => exact List.forall_mem_cons.mpr ⟨Nat.le_of_lt nonempty, ih⟩
  | skip _ _ _ ih => exact ih

theorem Placed.stop_le {range : Range} (h : Placed source span range) :
    span.stop ≤ Text.byteSize source := by
  obtain ⟨before, rest, hsource, hstop⟩ := h.stop
  rw [← hstop, Text.byteSize, hsource, Text.byteLength_append]
  exact Nat.le_add_right _ _

theorem IsTile.runsBetweenEdges {range : Range} (h : IsTile source span)
    (hplaced : Placed source span range) (hle : span.start ≤ span.stop) :
    RunsBetweenEdges source range :=
  ⟨span.start, span.stop, hle, hplaced.stop_le, ⟨span, h, .inl rfl⟩, ⟨span, h, .inr rfl⟩,
    hplaced.range_eq⟩

theorem runsBetweenEdges_of_token {t : Token} (ht : t ∈ (ofText source).tokens) :
    RunsBetweenEdges source t.range := by
  obtain ⟨skips, htiles⟩ := tiles_ofText source
  exact IsTile.runsBetweenEdges (.inl ⟨t, ht, rfl⟩) (htiles.placed t ht)
    (htiles.start_le_stop t ht)

/-- From the first of two tokens to the second. -/
theorem runsBetweenEdges_of_tokens {t u : Token} (ht : t ∈ (ofText source).tokens)
    (hu : u ∈ (ofText source).tokens) (hle : t.span.start ≤ u.span.stop) :
    RunsBetweenEdges source ((LineIndex.ofText source).range ⟨t.span.start, u.span.stop⟩) := by
  obtain ⟨skips, htiles⟩ := tiles_ofText source
  exact ⟨t.span.start, u.span.stop, hle, (htiles.placed u hu).stop_le,
    ⟨t.span, .inl ⟨t, ht, rfl⟩, .inl rfl⟩, ⟨u.span, .inl ⟨u, hu, rfl⟩, .inr rfl⟩, rfl⟩

/-! ### Complaints about scans -/

theorem le_start_lexFrom {source : String} (before : List Char) {rest : List Char}
    (pending : Option Span) (h : source.toList = before ++ rest) :
    ∀ t ∈ (lexFrom (Text.byteLength before) (Position.after ⟨0, 0⟩ before) pending rest).1,
      Text.byteLength before ≤ t.span.start := by
  obtain ⟨skips, htiles, -⟩ := lexFrom_tiles _ _ pending rest before h rfl rfl
  exact htiles.le_start

/-- What is complained about in the rest of a text is a token of it, or a character on which
none of its tokens stands. -/
theorem lexFrom_errors {source : String} (offset : Nat) (here : Position)
    (pending : Option Span) (rest : List Char) : ∀ before, source.toList = before ++ rest →
      offset = Text.byteLength before → here = Position.after ⟨0, 0⟩ before →
      ∀ d ∈ (lexFrom offset here pending rest).2, ∃ span, Placed source span d.range ∧
        offset ≤ span.start ∧ span.start ≤ span.stop ∧
        ((∃ t ∈ (lexFrom offset here pending rest).1, t.span = span) ∨
          (∃ front c back, source.toList = front ++ c :: back ∧
            span = ⟨Text.byteLength front, Text.byteLength front + c.utf8Size⟩) ∧
          ∀ t ∈ (lexFrom offset here pending rest).1, span.Apart t.span) := by
  fun_induction lexFrom offset here pending rest with
  | case1 offset here pending => simp
  | case2 offset here pending c cs s taken stop there problems hkind tokens errors hrest ih =>
    rintro before hsource rfl rfl
    have hcut : source.toList = before ++ (taken ++ cs.drop s.extra) := by
      simp [hsource, taken]
    have hlater := ih (before ++ taken) (by simpa using hcut)
      (Text.byteLength_append _ _).symm (Position.after_append _ _ _).symm
    have hstart := le_start_lexFrom (before ++ taken) pending (by simpa using hcut)
    rw [Text.byteLength_append, Position.after_append] at hstart
    rw [hrest] at hlater hstart
    have hlt : Text.byteLength before < stop := lt_stop _ _ _
    intro d hd
    rcases List.mem_append.mp hd with hd | hd
    · obtain ⟨message, -, rfl⟩ := List.mem_map.mp hd
      have hextra : s.extra = 0 := (Scan.scan_result c cs).extra_of_none hkind
      have htaken : taken = [c] := by simp [taken, hextra]
      have hspan : stop = Text.byteLength before + c.utf8Size := by
        simp [stop, htaken]
      refine ⟨⟨Text.byteLength before, stop⟩, placed_taken hcut, Nat.le_refl _,
        Nat.le_of_lt hlt, .inr ⟨⟨before, c, cs, hsource, by rw [hspan]⟩, fun t ht => ?_⟩⟩
      exact .inl (hstart t ht)
    · obtain ⟨span, hplaced, hoffset, hle, htile⟩ := hlater d hd
      exact ⟨span, hplaced, Nat.le_trans (Nat.le_of_lt hlt) hoffset, hle, htile⟩
  | case3 offset here pending c cs s taken stop there problems kind hkind comment t tokens errors
      hrest ih =>
    rintro before hsource rfl rfl
    have hcut : source.toList = before ++ (taken ++ cs.drop s.extra) := by
      simp [hsource, taken]
    have hlater := ih (before ++ taken) (by simpa using hcut)
      (Text.byteLength_append _ _).symm (Position.after_append _ _ _).symm
    rw [hrest] at hlater
    have hplaced := placed_taken hcut
    have hlt : Text.byteLength before < stop := lt_stop _ _ _
    intro d hd
    rcases List.mem_append.mp hd with hd | hd
    · obtain ⟨message, -, rfl⟩ := List.mem_map.mp hd
      exact ⟨t.span, hplaced, Nat.le_refl _, Nat.le_of_lt hlt,
        .inl ⟨t, List.mem_cons_self, rfl⟩⟩
    · obtain ⟨span, hspan, hoffset, hle, htile⟩ := hlater d hd
      refine ⟨span, hspan, Nat.le_trans (Nat.le_of_lt hlt) hoffset, hle, ?_⟩
      rcases htile with ⟨u, hu, rfl⟩ | ⟨hchar, hapart⟩
      · exact .inl ⟨u, List.mem_cons_of_mem t hu, rfl⟩
      · exact .inr ⟨hchar, List.forall_mem_cons.mpr ⟨.inr hoffset, hapart⟩⟩

theorem runsBetweenEdges_of_lexFrom (source : String) :
    ∀ d ∈ (lexFrom 0 ⟨0, 0⟩ none source.toList).2, RunsBetweenEdges source d.range := by
  intro d hd
  obtain ⟨span, hplaced, -, hle, htile⟩ := lexFrom_errors 0 ⟨0, 0⟩ none _ [] rfl rfl rfl d hd
  exact IsTile.runsBetweenEdges (htile.imp_right fun h => ⟨h.1, h.2⟩) hplaced hle

/-! ### Complaints about parentheses -/

theorem stop_of_isParen (offset : Nat) (here : Position) (pending : Option Span)
    (rest : List Char) : ∀ t ∈ (lexFrom offset here pending rest).1, t.kind.isParen = true →
      t.stop = ⟨t.start.line, t.start.column + 1⟩ := by
  fun_induction lexFrom offset here pending rest with
  | case1 offset here pending => simp [TokenKind.isParen]
  | case2 offset here pending c cs s taken stop there problems hkind tokens errors hrest ih =>
    rwa [hrest] at ih
  | case3 offset here pending c cs s taken stop there problems kind hkind comment t tokens errors
      hrest ih =>
    rw [hrest] at ih
    refine List.forall_mem_cons.mpr ⟨fun hparen => ?_, ih⟩
    obtain ⟨mark, hmark, hparens⟩ := TokenKind.exists_mark hparen
    have hfound : s.kind.bind TokenKind.mark? = some mark := by rw [hkind]; exact hmark
    obtain ⟨rfl, hextra⟩ := Scan.scan_isLoneMark c cs mark hfound
    have htaken : taken = [c] := by
      have hzero : s.extra = 0 := hextra
      simp [taken, hzero]
    have hthere : there = here.after [c] := by rw [← htaken]
    rw [show t.stop = there from rfl, hthere]
    rcases hparens with rfl | rfl <;> rfl

/-- Whatever the lexer complains about is a piece of the text between two edges. -/
theorem errors_runBetweenEdges (source : String) :
    ∀ d ∈ (ofText source).errors, RunsBetweenEdges source d.range := by
  intro d hd
  rcases List.mem_append.mp hd with hd | hd
  · exact runsBetweenEdges_of_lexFrom source d hd
  · obtain ⟨fault, hfault, rfl⟩ := List.mem_map.mp hd
    have hplace : ∃ t ∈ (ofText source).tokens, t.range = fault.diagnostic.range := by
      refine BracketFault.find_place (P := fun p => ∃ t ∈ (ofText source).tokens,
        t.range = ⟨p, ⟨p.line, p.column + 1⟩⟩) [] none _ nofun nofun (fun t ht hparen => ?_) fault
        (Option.mem_toList.mp hfault)
      exact ⟨t, ht, congrArg (Range.mk t.start) (stop_of_isParen _ _ _ _ t ht hparen)⟩
    obtain ⟨t, ht, hrange⟩ := hplace
    exact hrange ▸ runsBetweenEdges_of_token ht

end Lexed
end SqlAnalysis
