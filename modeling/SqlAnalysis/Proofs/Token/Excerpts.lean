import Mathlib.Data.List.Forall2
import SqlAnalysis.Proofs.Grammar.Partition
import SqlAnalysis.Proofs.Syntax.Shifting
import SqlAnalysis.Proofs.Token.Slices

/-!
# Tokens of an excerpt

The text from the beginning of one token to the end of another has the tokens between
them, each shifted to the left. Only a point that stands right behind a run of digits may
not be the last, since with the text behind it cut off it belongs to the number before it.
-/
namespace SqlAnalysis

open Scan Text

/-- Whether a token stands `n` bytes further on than another of its kind. -/
structure Token.Shifts (n : Nat) (t t' : Token) : Prop where
  kind : t.kind = t'.kind
  span : t.span = t'.span.shift n

namespace Scan

/-! A single character at the end of a text, or where only it is taken. -/

theorem scan_point {cut : List Char} (h : cut = [] ∨ (scan '.' cut).extra = 0) :
    (scan '.' cut).kind = some .dot := by
  have hscan : scan '.' cut =
      if startsNumber '.' cut.head? then number ('.' :: cut) else token .dot 0 := rfl
  rw [hscan] at h ⊢
  split
  · next hstart =>
    obtain ⟨d, cs, rfl, hd⟩ : ∃ d cs, cut = d :: cs ∧ isDigit d = true := by
      cases cut with
      | nil => cases hstart
      | cons d cs => exact ⟨d, cs, rfl, hstart⟩
    have hpos := extra_number_point cs hd
    simp only [hstart, if_true, reduceCtorEq, false_or] at h
    omega
  · rfl

theorem extra_return {cut : List Char} (h : cut.head? = some '\n') :
    (scan '\r' cut).extra = 1 := by
  simp [scan, h, token]

end Scan

theorem Text.eq_nil_of_byteLength {cs : List Char} (h : byteLength cs = 0) : cs = [] := by
  cases cs with
  | nil => rfl
  | cons c cs =>
    have := c.utf8Size_pos
    rw [byteLength_cons] at h
    omega

theorem Span.slice_append {source : String} {front keep back : List Char}
    (h : source.toList = front ++ (keep ++ back)) :
    Span.slice ⟨byteLength front, byteLength front + byteLength keep⟩ source =
      String.ofList keep := by
  simp [Span.slice, sliceBytes?, h, dropBytes?_append, takeBytes?_append]

theorem Span.slice_self (text : String) : Span.slice ⟨0, byteSize text⟩ text = text := by
  have hchars : text.toList = [] ++ (text.toList ++ []) := by simp
  simpa [byteSize] using Span.slice_append hchars

namespace Lexed

/-- Whether some characters from an offset on give some tokens. Only the kinds of the tokens
and their spans are looked at. -/
inductive Scanned : Nat → List Char → List Token → Prop
  | done {offset : Nat} {t : Token} : t.kind = .eof → t.span = ⟨offset, offset⟩ →
      Scanned offset [] [t]
  | tile {offset stop : Nat} {c : Char} {cs : List Char} {first rest : List Token} :
      stop = offset + byteLength (c :: cs.take (scan c cs).extra) →
      (first.map fun t => (t.kind, t.span)) =
        ((scan c cs).kind.toList.map fun kind => (kind, ⟨offset, stop⟩)) →
      Scanned stop (cs.drop (scan c cs).extra) rest → Scanned offset (c :: cs) (first ++ rest)

theorem scanned_lexFrom (offset : Nat) (here : Position) (pending : Option Span)
    (cs : List Char) : Scanned offset cs (lexFrom offset here pending cs).1 := by
  fun_induction lexFrom offset here pending cs with
  | case1 => exact .done rfl rfl
  | case2 offset here pending c cs s taken stop there problems hkind tokens errors hrest ih =>
    rw [hrest] at ih
    have hnone : ([].map fun t : Token => (t.kind, t.span)) =
        (s.kind.toList.map fun kind => (kind, ⟨offset, stop⟩)) := by rw [hkind]; rfl
    exact .tile rfl hnone ih
  | case3 offset here pending c cs s taken stop there problems kind hkind comment t tokens errors
      hrest ih =>
    rw [hrest] at ih
    have hone : ([t].map fun t : Token => (t.kind, t.span)) =
        (s.kind.toList.map fun kind => (kind, ⟨offset, stop⟩)) := by rw [hkind]; rfl
    exact .tile rfl hone ih

/-- Of the tokens of a text none is a run of digits that stands right before a point at the
end of the text. -/
def NoLoosePoint (offset : Nat) (text : List Char) (ts : List Token) : Prop :=
  ∀ t ∈ ts, ∀ front digits, text = front ++ (digits ++ ['.']) →
    t.span = ⟨offset + byteLength front, offset + byteLength front + byteLength digits⟩ →
    ∃ d ∈ digits, isDigit d = false

theorem NoLoosePoint.rest {offset : Nat} {taken text : List Char} {first rest : List Token}
    (h : NoLoosePoint offset (taken ++ text) (first ++ rest)) :
    NoLoosePoint (offset + byteLength taken) text rest := by
  intro t ht front digits htext hspan
  refine h t (List.mem_append_right first ht) (taken ++ front) digits ?_ ?_
  · rw [htext, List.append_assoc]
  · rw [hspan, byteLength_append, Nat.add_assoc offset]

namespace Scanned

variable {n offset stop : Nat} {c : Char} {cs : List Char} {ts first first' rest : List Token}
  {s : Scan} {t : Token}

theorem mem_first (h : (first.map fun t => (t.kind, t.span)) =
    (s.kind.toList.map fun kind => (kind, ⟨offset, stop⟩))) (ht : t ∈ first) :
    s.kind = some t.kind ∧ t.span = ⟨offset, stop⟩ := by
  have hmem := List.mem_map_of_mem (f := fun t => (t.kind, t.span)) ht
  rw [h] at hmem
  obtain ⟨kind, hkind, heq⟩ := List.mem_map.mp hmem
  obtain ⟨rfl, hspan⟩ := Prod.mk.inj heq
  exact ⟨Option.mem_toList.mp hkind, hspan.symm⟩

theorem le_start (h : Scanned offset cs ts) : ∀ t ∈ ts, offset ≤ t.span.start := by
  induction h with
  | done _ hspan => simp [hspan]
  | tile hstop hfirst _ ih =>
    intro t ht
    rcases List.mem_append.mp ht with ht | ht
    · rw [(mem_first hfirst ht).2]
    · have := ih t ht
      omega

/-- Only at the end of a text a token is empty. -/
theorem nonempty (h : Scanned offset cs ts) :
    ∀ t ∈ ts, t.kind ≠ .eof → t.span.start < t.span.stop := by
  induction h with
  | done hkind _ => simp [hkind]
  | tile hstop hfirst _ ih =>
    intro t ht
    rcases List.mem_append.mp ht with ht | ht
    · intro _
      rw [(mem_first hfirst ht).2, hstop]
      exact lt_stop _ _ _
    · exact ih t ht

/-- A text is read from the beginning of any of its tokens as from its own. -/
theorem exists_from (h : Scanned offset cs ts) (ht : t ∈ ts) :
    ∃ before behind passed left, cs = before ++ behind ∧
      t.span.start = offset + byteLength before ∧ ts = passed ++ left ∧
      Scanned t.span.start behind left ∧ ∀ u ∈ passed, u.span.start < t.span.start := by
  induction h with
  | @done offset u hkind hspan =>
    obtain rfl := List.mem_singleton.mp ht
    rw [hspan]
    exact ⟨[], [], [], [t], rfl, rfl, rfl, .done hkind hspan, by simp⟩
  | @tile offset stop c cs first rest hstop hfirst hrest ih =>
    rcases List.mem_append.mp ht with hmem | hmem
    · rw [(mem_first hfirst hmem).2]
      exact ⟨[], c :: cs, [], first ++ rest, rfl, rfl, rfl, .tile hstop hfirst hrest, by simp⟩
    · obtain ⟨before, behind, passed, left, hcs, hstart, rfl, hleft, hpassed⟩ := ih hmem
      refine ⟨c :: cs.take (scan c cs).extra ++ before, behind, first ++ passed, left, ?_, ?_,
        by simp, hleft, ?_⟩
      · rw [List.cons_append, List.cons_append, List.append_assoc, ← hcs, List.take_append_drop]
      · rw [hstart, hstop, byteLength_append, Nat.add_assoc]
      · intro u hu
        rcases List.mem_append.mp hu with hu | hu
        · rw [(mem_first hfirst hu).2]
          have := lt_stop offset c (cs.take (scan c cs).extra)
          dsimp only
          omega
        · exact hpassed u hu

theorem exists_stop (h : Scanned offset cs ts) (ht : t ∈ ts) :
    ∃ before behind, cs = before ++ behind ∧ t.span.stop = offset + byteLength before := by
  induction h with
  | @done offset u _ hspan =>
    obtain rfl := List.mem_singleton.mp ht
    exact ⟨[], [], rfl, by rw [hspan]; rfl⟩
  | @tile offset stop c cs first rest hstop hfirst hrest ih =>
    rcases List.mem_append.mp ht with hmem | hmem
    · refine ⟨c :: cs.take (scan c cs).extra, cs.drop (scan c cs).extra, ?_, ?_⟩
      · rw [List.cons_append, List.take_append_drop]
      · rw [(mem_first hfirst hmem).2, hstop]
    · obtain ⟨before, behind, hcs, hend⟩ := ih hmem
      refine ⟨c :: cs.take (scan c cs).extra ++ before, behind, ?_, ?_⟩
      · rw [List.cons_append, List.cons_append, List.append_assoc, ← hcs, List.take_append_drop]
      · rw [hend, hstop, byteLength_append, Nat.add_assoc]

/-- A token that ends with the first character is what begins there. -/
theorem kind_of_stop {d : Char} {cut : List Char} (h : Scanned offset (d :: cut) ts) (ht : t ∈ ts)
    (hkind : t.kind ≠ .eof) (hstop : t.span.stop = offset + d.utf8Size) :
    (scan d cut).kind = some t.kind ∧ (cut = [] ∨ (scan d cut).extra = 0) := by
  have hlt := h.nonempty t ht hkind
  cases h with
  | @tile _ stop _ _ first rest hend hfirst hrest =>
    rw [byteLength_cons] at hend
    rcases List.mem_append.mp ht with ht | ht
    · obtain ⟨hscan, hspan⟩ := mem_first hfirst ht
      refine ⟨hscan, ?_⟩
      rw [hspan] at hstop
      dsimp only at hstop
      cases cut with
      | nil => exact .inl rfl
      | cons e cut =>
        refine .inr (Nat.eq_zero_of_not_pos fun hpos => ?_)
        obtain ⟨extra, hextra⟩ := Nat.exists_eq_succ_of_ne_zero (Nat.ne_of_gt hpos)
        have := e.utf8Size_pos
        rw [hextra, List.take_succ_cons, byteLength_cons] at hend
        omega
    · have := hrest.le_start t ht
      omega

/-- What begins at the front of a text goes no further than to the end of any token. -/
theorem extra_le {keep cut : List Char} (h : Scanned offset (c :: (keep ++ cut)) ts) (ht : t ∈ ts)
    (hkind : t.kind ≠ .eof) (hstop : t.span.stop = offset + byteLength (c :: keep))
    (hcut : cut ≠ []) : (scan c (keep ++ cut)).extra ≤ keep.length := by
  have hlt := h.nonempty t ht hkind
  cases h with
  | @tile _ stop _ _ first rest hend hfirst hrest =>
    have hle : stop ≤ t.span.stop := by
      rcases List.mem_append.mp ht with ht | ht
      · rw [(mem_first hfirst ht).2]
      · have := hrest.le_start t ht
        omega
    by_contra hextra
    obtain ⟨d, ds, rfl⟩ := List.exists_cons_of_ne_nil hcut
    obtain ⟨more, hmore⟩ := Nat.exists_eq_add_of_lt (Nat.not_le.mp hextra)
    have := d.utf8Size_pos
    rw [hmore, Nat.add_assoc, List.take_length_add_append, List.take_succ_cons] at hend
    simp only [byteLength_cons, byteLength_append] at hend hstop
    omega

/-- If only one character is left behind what begins at the front, then it is the token that
ends there. -/
theorem scan_last {keep cut : List Char} {d : Char} (h : Scanned offset (c :: (keep ++ cut)) ts)
    (ht : t ∈ ts) (hkind : t.kind ≠ .eof) (hstop : t.span.stop = offset + byteLength (c :: keep))
    (hextra : (scan c (keep ++ cut)).extra ≤ keep.length)
    (hd : keep.drop (scan c (keep ++ cut)).extra = [d]) :
    (scan d cut).kind = some t.kind ∧ (cut = [] ∨ (scan d cut).extra = 0) := by
  cases h with
  | @tile _ stop _ _ first rest hend hfirst hrest =>
    have hkeep : byteLength keep =
        byteLength (keep.take (scan c (keep ++ cut)).extra) + d.utf8Size := by
      conv_lhs => rw [← List.take_append_drop (scan c (keep ++ cut)).extra keep, hd]
      simp
    rw [List.drop_append_of_le_length hextra, hd] at hrest
    rw [List.take_append_of_le_length hextra, byteLength_cons] at hend
    rw [byteLength_cons, hkeep] at hstop
    refine hrest.kind_of_stop ?_ hkind (by omega)
    refine (List.mem_append.mp ht).resolve_left fun ht => ?_
    have hspan := congrArg Span.stop (mem_first hfirst ht).2
    have := d.utf8Size_pos
    dsimp only at hspan
    omega

/-- What is left of the text by a scan is no point that the scan would have taken. -/
theorem exists_not_digit {keep cut : List Char} (h : Scanned offset (c :: (keep ++ cut)) ts)
    (hloose : NoLoosePoint offset (c :: keep) ts)
    (hextra : (scan c (keep ++ cut)).extra ≤ keep.length)
    (hpoint : keep.drop (scan c (keep ++ cut)).extra = ['.']) :
    ∃ d ∈ c :: keep.take (scan c (keep ++ cut)).extra, isDigit d = false := by
  by_cases hc : isDigit c = true
  · cases h with
    | @tile _ stop _ _ first rest hstop hfirst hrest =>
      rw [List.take_append_of_le_length hextra] at hstop
      have htext : c :: keep =
          [] ++ ((c :: keep.take (scan c (keep ++ cut)).extra) ++ ['.']) := by
        rw [← hpoint, List.nil_append, List.cons_append, List.take_append_drop]
      obtain ⟨kind, hkind⟩ : ∃ kind, (scan c (keep ++ cut)).kind = some kind := by
        rw [scan_of_isDigit hc]
        exact ⟨_, rfl⟩
      rw [hkind] at hfirst
      obtain ⟨t, rfl, ht⟩ := List.map_eq_singleton_iff.mp hfirst
      exact hloose t (by simp) _ _ htext (by simpa [hstop] using congrArg Prod.snd ht)
  · exact ⟨c, List.mem_cons_self, Bool.eq_false_iff.mpr hc⟩

/-- What begins at the front of a text does not see where it is cut off behind a token. -/
theorem scan_eq {keep cut : List Char} (h : Scanned offset (c :: (keep ++ cut)) ts) (ht : t ∈ ts)
    (hkind : t.kind ≠ .eof) (hstop : t.span.stop = offset + byteLength (c :: keep))
    (hloose : NoLoosePoint offset (c :: keep) ts) :
    scan c keep = scan c (keep ++ cut) ∧
      (keep ++ cut).take (scan c keep).extra = keep.take (scan c keep).extra ∧
      (keep ++ cut).drop (scan c keep).extra = keep.drop (scan c keep).extra ++ cut := by
  by_cases hcut : cut = []
  · simp [hcut]
  have hextra := h.extra_le ht hkind hstop hcut
  have hscan : scan c keep = scan c (keep ++ cut) := by
    refine scan_slice hextra (h.exists_not_digit hloose hextra) fun hreturn hnext => ?_
    -- Both characters of a line break belong to one token.
    obtain ⟨-, hnone⟩ := h.scan_last ht hkind hstop hextra hreturn
    rw [extra_return hnext] at hnone
    exact hnone.elim hcut Nat.one_ne_zero
  rw [hscan]
  exact ⟨rfl, List.take_append_of_le_length hextra, List.drop_append_of_le_length hextra⟩

theorem shifts_first {offset' stop' : Nat} (h : (first.map fun t => (t.kind, t.span)) =
      (s.kind.toList.map fun kind => (kind, ⟨offset, stop⟩)))
    (h' : (first'.map fun t => (t.kind, t.span)) =
      (s.kind.toList.map fun kind => (kind, ⟨offset', stop'⟩)))
    (hoffset : offset = offset' + n) (hstop : stop = stop' + n) :
    List.Forall₂ (Token.Shifts n) first first' := by
  have hpairs : List.Forall₂ (fun p p' : TokenKind × Span => p.1 = p'.1 ∧ p.2 = p'.2.shift n)
      (first.map fun t => (t.kind, t.span)) (first'.map fun t => (t.kind, t.span)) := by
    rw [h, h', List.forall₂_map_left_iff, List.forall₂_map_right_iff, List.forall₂_same]
    exact fun kind _ => ⟨rfl, by rw [Span.shift, hoffset, hstop]⟩
  rw [List.forall₂_map_left_iff, List.forall₂_map_right_iff] at hpairs
  exact hpairs.imp fun _ _ ht => ⟨ht.1, ht.2⟩

theorem slice (size : Nat) : ∀ (keep cut : List Char) (offset offset' : Nat) (ts ts' : List Token),
    keep.length < size → offset = offset' + n → Scanned offset (keep ++ cut) ts →
    Scanned offset' keep ts' →
    (keep = [] ∨ ∃ t ∈ ts, t.kind ≠ .eof ∧ t.span.stop = offset + byteLength keep) →
    NoLoosePoint offset keep ts →
    ∃ kept left kept' last, ts = kept ++ left ∧ ts' = kept' ++ [last] ∧ last.kind = .eof ∧
      List.Forall₂ (Token.Shifts n) kept kept' ∧
      (∀ t ∈ kept, t.span.start < offset + byteLength keep) ∧
      ∀ t ∈ left, offset + byteLength keep ≤ t.span.start := by
  induction size with
  | zero =>
    intro _ _ _ _ _ _ hsize
    omega
  | succ size ih =>
    intro keep cut offset offset' ts ts' hsize hn h h' hends hloose
    cases h' with
    | @done _ last hkind _ =>
      exact ⟨[], ts, [], last, rfl, rfl, hkind, .nil, by simp, h.le_start⟩
    | @tile _ stop' c keep first' rest' hstop' hfirst' hrest' =>
      rw [List.cons_append] at h
      cases h with
      | @tile _ stop _ _ first rest hstop hfirst hrest =>
        obtain ⟨t, ht, htkind, htstop⟩ := hends.resolve_left (List.cons_ne_nil _ _)
        have hwhole : Scanned offset (c :: (keep ++ cut)) (first ++ rest) :=
          .tile hstop hfirst hrest
        obtain ⟨hscan, htake, hdrop⟩ := hwhole.scan_eq ht htkind htstop hloose
        rw [← hscan] at hfirst hstop hrest
        rw [htake] at hstop
        rw [hdrop] at hrest
        have hkeep : byteLength keep = byteLength (keep.take (scan c keep).extra) +
            byteLength (keep.drop (scan c keep).extra) := by
          conv_lhs => rw [← List.take_append_drop (scan c keep).extra keep]
          exact byteLength_append _ _
        rw [byteLength_cons] at hstop hstop' htstop ⊢
        have hshift : stop = stop' + n := by omega
        have hrests : keep.drop (scan c keep).extra = [] ∨ ∃ t ∈ rest, t.kind ≠ .eof ∧
            t.span.stop = stop + byteLength (keep.drop (scan c keep).extra) := by
          rcases List.mem_append.mp ht with ht | ht
          · rw [(mem_first hfirst ht).2] at htstop
            dsimp only at htstop
            exact .inl (eq_nil_of_byteLength (by omega))
          · exact .inr ⟨t, ht, htkind, by omega⟩
        have hlooseRest : NoLoosePoint stop (keep.drop (scan c keep).extra) rest := by
          rw [← List.take_append_drop (scan c keep).extra keep, ← List.cons_append] at hloose
          rw [hstop, ← byteLength_cons]
          exact hloose.rest
        obtain ⟨kept, left, kept', last, rfl, rfl, hlast, hshifts, hbefore, hbehind⟩ :=
          ih _ cut stop stop' rest rest' (by simp at hsize ⊢; omega) hshift hrest hrest' hrests
            hlooseRest
        refine ⟨first ++ kept, left, first' ++ kept', last, by simp, by simp, hlast,
          List.rel_append (shifts_first hfirst hfirst' hn hshift) hshifts, ?_, ?_⟩
        · refine List.forall_mem_append.mpr ⟨fun u hu => ?_, fun u hu => ?_⟩
          · rw [(mem_first hfirst hu).2]
            have := c.utf8Size_pos
            dsimp only
            omega
          · have := hbefore u hu
            omega
        · intro u hu
          have := hbehind u hu
          omega

end Scanned

/-- Whether a token begins within a span. -/
def startsIn (span : Span) (t : Token) : Bool :=
  span.start ≤ t.span.start && t.span.start < span.stop

theorem filter_startsIn {span : Span} {before piece behind : List Token}
    (hbefore : ∀ t ∈ before, t.span.start < span.start)
    (hpiece : ∀ t ∈ piece, span.start ≤ t.span.start ∧ t.span.start < span.stop)
    (hbehind : ∀ t ∈ behind, span.stop ≤ t.span.start) :
    (before ++ piece ++ behind).filter (startsIn span) = piece := by
  rw [List.filter_append, List.filter_append, List.filter_eq_nil_iff.mpr fun t ht => ?_,
    List.filter_eq_self.mpr fun t ht => ?_, List.filter_eq_nil_iff.mpr fun t ht => ?_]
  · simp
  · simp [startsIn, hbehind t ht]
  · simp [startsIn, hpiece t ht]
  · simp [startsIn, hbefore t ht]

/-- The tokens of a piece are those that begin in the span it covers. -/
theorem filter_startsIn_piece {span : Span} {before piece behind : List Token}
    (horder : InOrder (before ++ piece ++ behind))
    (hlt : ∀ t ∈ before ++ piece, t.span.start < t.span.stop) (hcovers : span.Covers piece) :
    (before ++ piece ++ behind).filter (startsIn span) = piece := by
  refine filter_startsIn (fun t ht => ?_) (fun t ht => ?_) fun t ht => ?_
  · obtain ⟨first, hfirst, hstart⟩ := hcovers.exists_start
    have hle := horder.left.stop_le_start ht hfirst
    have := hlt t (List.mem_append_left _ ht)
    omega
  · have hle := hcovers.le_stop horder.left.right ht
    have := hlt t (List.mem_append_right _ ht)
    exact ⟨hcovers.start_le horder.left.right ht, by omega⟩
  · obtain ⟨last, hlast, hstop⟩ := hcovers.exists_stop
    rw [hstop]
    exact horder.stop_le_start (List.mem_append_right _ hlast) ht

theorem piece_eq_filter {source : String} {span : Span} {before piece behind : List Token}
    (hwords : words source = before ++ piece ++ behind) (hcovers : span.Covers piece) :
    (words source).filter (startsIn span) = piece := by
  have hlt : ∀ t ∈ before ++ piece, t.span.start < t.span.stop := by
    intro t ht
    have ht : t ∈ words source := hwords ▸ List.mem_append_left behind ht
    rw [words_eq_filter, List.mem_filter] at ht
    exact (kind_ne_eof_iff ht.1).mp (by simpa using (Bool.and_eq_true_iff.mp ht.2).2)
  rw [hwords]
  exact filter_startsIn_piece (hwords ▸ inOrder_words source) hlt hcovers

/-- The text from one token to another, and the tokens from the first of them on. -/
theorem exists_chars {source : String} {first last : Token}
    (hfirst : first ∈ (ofText source).tokens) (hlast : last ∈ (ofText source).tokens)
    (hle : first.span.start ≤ last.span.start) :
    ∃ front keep back passed left, source.toList = front ++ (keep ++ back) ∧
      first.span.start = byteLength front ∧
      last.span.stop = byteLength front + byteLength keep ∧
      (ofText source).tokens = passed ++ left ∧ Scanned (byteLength front) (keep ++ back) left ∧
      last ∈ left ∧ ∀ t ∈ passed, t.span.start < byteLength front := by
  have hscanned : Scanned 0 source.toList (ofText source).tokens := scanned_lexFrom 0 ⟨0, 0⟩ none _
  obtain ⟨front, chars, passed, left, hchars, hstart, htokens, hleft, hpassed⟩ :=
    hscanned.exists_from hfirst
  rw [Nat.zero_add] at hstart
  rw [htokens] at hlast
  have hmem : last ∈ left :=
    (List.mem_append.mp hlast).resolve_left fun h => Nat.not_lt.mpr hle (hpassed last h)
  obtain ⟨keep, back, rfl, hstop⟩ := hleft.exists_stop hmem
  rw [hstart] at hstop hleft hpassed
  exact ⟨front, keep, back, passed, left, hchars, hstart, hstop, htokens, hleft, hmem, hpassed⟩

/-- A token that ends with a point right behind another is that point. -/
theorem point_of_stop {offset : Nat} {before cut : List Char} {ts : List Token} {t last : Token}
    (h : Scanned offset (before ++ '.' :: cut) ts) (horder : InOrder ts) (ht : t ∈ ts)
    (htstop : t.span.stop = offset + byteLength before) (hlast : last ∈ ts)
    (hkind : last.kind ≠ .eof) (hstop : last.span.stop = offset + byteLength before + 1) :
    last.kind = .dot ∧ t.span.stop = last.span.start := by
  have hlt := h.nonempty last hlast hkind
  have hbehind : t.span.stop = last.span.start := by
    obtain ⟨passed, rest, rfl⟩ := List.append_of_mem ht
    have hle := horder.each t ht
    rcases List.mem_append.mp hlast with hbefore | hafter
    · have := horder.stop_le_start hbefore List.mem_cons_self
      omega
    · rcases List.mem_cons.mp hafter with rfl | hafter
      · omega
      · have := (List.pairwise_cons.mp horder.right.pairwise).1 last hafter
        omega
  refine ⟨?_, hbehind⟩
  obtain ⟨front, behind, passed, left, hchars, hstart, rfl, hleft, hpassed⟩ := h.exists_from hlast
  have hrest : behind = '.' :: cut := by
    have hdrop := dropBytes?_append front behind
    rw [← hchars, show byteLength front = byteLength before by omega, dropBytes?_append] at hdrop
    exact (Option.some.inj hdrop).symm
  have hmem : last ∈ left :=
    (List.mem_append.mp hlast).resolve_left fun hin => Nat.lt_irrefl _ (hpassed last hin)
  rw [hrest] at hleft
  have hsize : '.'.utf8Size = 1 := rfl
  obtain ⟨hscan, hnone⟩ := hleft.kind_of_stop hmem hkind (by rw [hsize]; omega)
  rw [scan_point hnone] at hscan
  exact (Option.some.inj hscan).symm

/-- Whether a token that ends a piece of a text is a point, and the one right before it in
the piece is written with digits only. The number then takes the point if the text ends here. -/
def EndsInPoint (source : String) (first last : Token) : Prop :=
  last.kind = .dot ∧ ∃ t ∈ (ofText source).tokens, first.span.start ≤ t.span.start ∧
    t.span.stop = last.span.start ∧ (t.span.slice source).toList.all isDigit = true

theorem noLoosePoint {source : String} {first last : Token} {front keep back : List Char}
    {passed left : List Token} (hchars : source.toList = front ++ (keep ++ back))
    (htokens : (ofText source).tokens = passed ++ left)
    (hleft : Scanned (byteLength front) (keep ++ back) left)
    (hstart : first.span.start = byteLength front) (hlast : last ∈ left) (hkind : last.kind ≠ .eof)
    (hstop : last.span.stop = byteLength front + byteLength keep)
    (hpoint : ¬EndsInPoint source first last) : NoLoosePoint (byteLength front) keep left := by
  have horder : InOrder left := (htokens ▸ inOrder_ofText source).right
  intro t ht before digits hkeep hspan
  by_contra hdigits
  have hslice : t.span.slice source = String.ofList digits := by
    have hcut : source.toList = (front ++ before) ++ (digits ++ '.' :: back) := by
      rw [hchars, hkeep]
      simp
    rw [hspan, ← byteLength_append, Span.slice_append hcut]
  have hleft' : Scanned (byteLength front) ((before ++ digits) ++ '.' :: back) left := by
    rw [hkeep] at hleft
    simpa using hleft
  obtain ⟨hdot, hbehind⟩ := point_of_stop hleft' horder ht (by simp [hspan, Nat.add_assoc]) hlast
    hkind (by simp [hstop, hkeep, Nat.add_assoc]; rfl)
  refine hpoint ⟨hdot, t, ?_, ?_, hbehind, ?_⟩
  · rw [htokens]
    exact List.mem_append_right passed ht
  · rw [hstart]
    exact hleft.le_start t ht
  · rw [hslice, String.toList_ofList, List.all_eq_true]
    exact fun d hd => by_contra fun hno => hdigits ⟨d, hd, Bool.eq_false_iff.mpr hno⟩

/-- The text from one token to another has the tokens that begin there. -/
theorem exists_shifts {source : String} {first last : Token}
    (hfirst : first ∈ (ofText source).tokens) (hlast : last ∈ (ofText source).tokens)
    (hle : first.span.start ≤ last.span.start) (hkind : last.kind ≠ .eof)
    (hpoint : ¬EndsInPoint source first last) :
    let span : Span := ⟨first.span.start, last.span.stop⟩
    span.stop = span.start + byteSize (span.slice source) ∧
      ∃ kept final, (ofText (span.slice source)).tokens = kept ++ [final] ∧ final.kind = .eof ∧
        List.Forall₂ (Token.Shifts span.start) ((ofText source).tokens.filter (startsIn span))
          kept := by
  intro span
  obtain ⟨front, keep, back, passed, left, hchars, hstart, hstop, htokens, hleft, hlastLeft,
    hpassed⟩ := exists_chars hfirst hlast hle
  obtain ⟨kept, rest, kept', final, rfl, hfinal, heof, hshifts, hbefore, hbehind⟩ :=
    Scanned.slice _ keep back (byteLength front) 0 left _ (Nat.lt_succ_self _) (Nat.zero_add _).symm
      hleft (scanned_lexFrom 0 ⟨0, 0⟩ none keep) (.inr ⟨last, hlastLeft, hkind, hstop⟩)
      (noLoosePoint hchars htokens hleft hstart hlastLeft hkind hstop hpoint)
  have hspan : span = ⟨byteLength front, byteLength front + byteLength keep⟩ := by
    rw [← hstop, ← hstart]
  have hkept : (ofText source).tokens.filter (startsIn span) = kept := by
    rw [htokens, ← List.append_assoc, hspan]
    refine filter_startsIn hpassed (fun t ht => ⟨?_, hbefore t ht⟩) hbehind
    exact hleft.le_start t (List.mem_append_left rest ht)
  rw [hkept, hspan, Span.slice_append hchars, byteSize, String.toList_ofList]
  refine ⟨rfl, kept', final, ?_, heof, hshifts⟩
  rw [← hfinal, ofText, String.toList_ofList]

/-- The text from the first token of a piece to its last gives that piece again, if no point
stands at its end. -/
theorem words_slice {source : String} {span : Span} {before piece behind : List Token}
    (hwords : words source = before ++ piece ++ behind) (hcovers : span.Covers piece)
    (hpoint : ∀ t ∈ piece.getLast?, t.kind ≠ .dot) :
    span.stop = span.start + byteSize (span.slice source) ∧
      List.Forall₂ (Token.Shifts span.start) piece (words (span.slice source)) := by
  have hpiece := piece_eq_filter hwords hcovers
  have horder : InOrder piece := (inOrder_words source).sublist
    (hwords ▸ (List.sublist_append_right before piece).trans (List.sublist_append_left _ _))
  have hmem : ∀ t ∈ piece, t ∈ (ofText source).tokens ∧ t.kind ≠ .eof := by
    intro t ht
    have ht : t ∈ words source := by simp [hwords, ht]
    rw [words_eq_filter, List.mem_filter] at ht
    exact ⟨ht.1, by simpa using (Bool.and_eq_true_iff.mp ht.2).2⟩
  have hstarts := fun t (ht : t ∈ piece) => hcovers.start_le horder ht
  obtain ⟨first, hfirst, last, hlast, rfl⟩ := hcovers
  have hlastMem := List.mem_of_mem_getLast? hlast
  obtain ⟨hstop, kept, final, htokens, heof, hshifts⟩ :=
    exists_shifts (hmem first (List.mem_of_mem_head? hfirst)).1 (hmem last hlastMem).1
      (hstarts last hlastMem) (hmem last hlastMem).2 fun h => hpoint last hlast h.1
  refine ⟨hstop, ?_⟩
  have htext : words (Span.slice ⟨first.span.start, last.span.stop⟩ source) =
      kept.filter fun t => !t.kind.isTrivia && t.kind ≠ .eof := by
    rw [words_eq_filter, htokens, List.filter_append]
    simp [heof]
  rw [htext, ← hpiece, words_eq_filter, List.filter_comm]
  exact List.rel_filter (fun t t' ht => by simp only [ht.kind]) hshifts

end Lexed
end SqlAnalysis
