import Mathlib.Data.List.Induction
import SqlAnalysis.Proofs.Token.Edges
import SqlAnalysis.Proofs.Token.Excerpts

/-!
# Tokens of an excerpt, exactly

Every token is what its own text is scanned as, whatever follows, but for one case: a point
before a letter is no part of a number, and without the letter it is. So a piece of the
tokens of a text can be read alone exactly if it does not end in a point behind a run of
digits. The tokens that it is read as are the same but for comments that stand before it.
-/
namespace SqlAnalysis

open Scan Text

/-- A token of an excerpt that begins `n` bytes into a text, beside the token of the text. -/
structure Token.Excerpts (n : Nat) (t t' : Token) : Prop extends t.Shifts n t' where
  comment : t'.leadingComment.map (Span.shift n) =
    t.leadingComment.filter fun span => n ≤ span.start

namespace Scan

/-- A number takes a point at the end of a text. -/
theorem extra_digits_point {c : Char} {ds : List Char} (h : (c :: ds).all isDigit = true) :
    (scan c (ds ++ ['.'])).extra = ds.length + 1 := by
  have hc : isDigit c = true := (Bool.and_eq_true_iff.mp (List.all_cons ▸ h)).1
  have hwhole : ((c :: ds) ++ ['.']).takeWhile isDigit = c :: ds :=
    takeWhile_append_of_follows h (follows_cons.mpr rfl)
  rw [scan_of_isDigit hc, ← List.cons_append, number, hwhole]
  simp [token, fractionLength, exponentLength]

/-- If only a point is left by a scan, then not behind a run of digits. -/
theorem not_digits_of_drop {c : Char} {rest : List Char}
    (h : rest.drop (scan c rest).extra = ['.']) :
    (c :: rest.take (scan c rest).extra).all isDigit = false := by
  have hrest : rest = rest.take (scan c rest).extra ++ ['.'] := by
    conv_lhs => rw [← List.take_append_drop (scan c rest).extra rest, h]
  have hlength := congrArg List.length h
  rw [List.length_drop, List.length_singleton] at hlength
  rw [Bool.eq_false_iff]
  intro hdigits
  have hextra := extra_digits_point hdigits
  rw [← hrest, List.length_take] at hextra
  omega

end Scan

namespace Lexed

/-! ### Numbers with a point at the end -/

/-- A token is what is scanned where it begins. -/
theorem Scanned.exists_scan {offset : Nat} {cs : List Char} {ts : List Token} {t : Token}
    (h : Scanned offset cs ts) (ht : t ∈ ts) (hkind : t.kind ≠ .eof) :
    ∃ before c rest, cs = before ++ c :: rest ∧ (scan c rest).kind = some t.kind ∧
      t.span = ⟨offset + byteLength before,
        offset + byteLength before + byteLength (c :: rest.take (scan c rest).extra)⟩ := by
  induction h with
  | done heof =>
    obtain rfl := List.mem_singleton.mp ht
    exact absurd heof hkind
  | @tile offset stop c cs first rest hstop hfirst _ ih =>
    rcases List.mem_append.mp ht with ht | ht
    · obtain ⟨hscan, hspan⟩ := mem_first hfirst ht
      exact ⟨[], c, cs, rfl, hscan, by rw [hspan, hstop]; rfl⟩
    · obtain ⟨before, d, behind, hcs, hscan, hspan⟩ := ih ht
      refine ⟨c :: cs.take (scan c cs).extra ++ before, d, behind, ?_, hscan, ?_⟩
      · rw [List.append_assoc, ← hcs, List.cons_append, List.take_append_drop]
      · rw [hspan, hstop, byteLength_append]
        simp only [Nat.add_assoc]

/-- A run of digits right before a point at the end of a text is no token. -/
theorem Scanned.not_digits {text : List Char} {ts : List Token} {t point : Token}
    (h : Scanned 0 text ts) (ht : t ∈ ts) (hkind : t.kind ≠ .eof) (hpoint : point ∈ ts)
    (hdot : point.kind = .dot) (hstart : t.span.stop = point.span.start)
    (hstop : point.span.stop = byteLength text) :
    ∃ before taken, text = before ++ (taken ++ ['.']) ∧
      t.span = ⟨byteLength before, byteLength (before ++ taken)⟩ ∧ taken.all isDigit = false := by
  obtain ⟨before, c, rest, htext, -, hspan⟩ := h.exists_scan ht hkind
  obtain ⟨before', c', rest', htext', hscan, hspan'⟩ := h.exists_scan hpoint (by simp [hdot])
  have hmark : (scan c' rest').kind.bind TokenKind.mark? = some '.' := by
    rw [hscan, hdot]
    rfl
  obtain ⟨rfl, hextra⟩ := scan_isLoneMark c' rest' '.' hmark
  simp only [Nat.zero_add, ← byteLength_append] at hspan hspan'
  -- The point is the last character, and it comes right behind the scan of the other token.
  obtain rfl : rest' = [] := by
    refine eq_nil_of_byteLength ?_
    rw [hspan', htext', hextra] at hstop
    simpa using hstop
  have hlast : rest.drop (scan c rest).extra = ['.'] := by
    have hdrop := dropBytes?_append (before ++ c :: rest.take (scan c rest).extra)
      (rest.drop (scan c rest).extra)
    rw [List.append_assoc, List.cons_append, List.take_append_drop, ← htext, htext'] at hdrop
    rw [hspan, hspan'] at hstart
    rw [show byteLength (before ++ c :: rest.take (scan c rest).extra) =
      byteLength before' from hstart, dropBytes?_append] at hdrop
    exact (Option.some.inj hdrop).symm
  refine ⟨before, c :: rest.take (scan c rest).extra, ?_, hspan, not_digits_of_drop hlast⟩
  rw [htext, ← hlast, List.cons_append, List.take_append_drop]

/-! ### Comments that wait -/

/-- The comments that tokens take if one waits before them. -/
def comments (pending : Option Span) : List Token → List (Option Span)
  | [] => []
  | t :: ts => (if t.kind.isTrivia ∨ t.kind = .eof then none else pending) ::
    comments (pendingAfter pending t) ts

theorem map_leadingComment (offset : Nat) (here : Position) (pending : Option Span)
    (cs : List Char) : (lexFrom offset here pending cs).1.map Token.leadingComment =
      comments pending (lexFrom offset here pending cs).1 := by
  fun_induction lexFrom offset here pending cs with
  | case1 => rfl
  | case2 offset here pending c cs s taken stop there problems hkind tokens errors hrest ih =>
    rwa [hrest] at ih
  | case3 offset here pending c cs s taken stop there problems kind hkind comment t tokens errors
      hrest ih =>
    rw [hrest] at ih
    have hne : kind ≠ .eof := fun heq => (scan_result c cs).kind_ne_eof (heq ▸ hkind)
    simp [comments, ih, t, comment, hne]

theorem length_comments (pending : Option Span) (ts : List Token) :
    (comments pending ts).length = ts.length := by
  induction ts generalizing pending with
  | nil => rfl
  | cons t ts ih => rw [comments, List.length_cons, List.length_cons, ih]

theorem comments_append (pending : Option Span) (ts us : List Token) :
    comments pending (ts ++ us) =
      comments pending ts ++ comments (ts.foldl pendingAfter pending) us := by
  induction ts generalizing pending with
  | nil => rfl
  | cons t ts ih => rw [List.cons_append, comments, comments, ih]; rfl

/-- A comment that waits behind some tokens is one of them. -/
theorem exists_of_pending {ts : List Token} {span : Span}
    (h : ts.foldl pendingAfter none = some span) : ∃ t ∈ ts, t.span = span := by
  induction ts using List.reverseRecOn with
  | nil => cases h
  | append_singleton ts t ih =>
    rw [List.foldl_append, List.foldl_cons, List.foldl_nil, pendingAfter] at h
    split_ifs at h
    · exact ⟨t, List.mem_concat_self, Option.some.inj h⟩
    · obtain ⟨u, hu, hspan⟩ := ih h
      exact ⟨u, List.mem_append_left _ hu, hspan⟩

/-- Comments are taken alike if those that wait are alike. -/
theorem excerpts_of_shifts {n : Nat} {ts ts' : List Token}
    (h : List.Forall₂ (Token.Shifts n) ts ts') (hstarts : ∀ t ∈ ts, n ≤ t.span.start) :
    ∀ pending pending' : Option Span,
      pending'.map (Span.shift n) = (pending.filter fun span => n ≤ span.start) →
      ts.map Token.leadingComment = comments pending ts →
      ts'.map Token.leadingComment = comments pending' ts' →
      List.Forall₂ (Token.Excerpts n) ts ts' := by
  induction h with
  | nil => exact fun _ _ _ _ _ => .nil
  | @cons t t' ts ts' ht hrest ih =>
    intro pending pending' hpending hcomments hcomments'
    obtain ⟨hn, hstarts⟩ := List.forall_mem_cons.mp hstarts
    obtain ⟨hcomment, hcomments⟩ := List.cons.inj hcomments
    obtain ⟨hcomment', hcomments'⟩ := List.cons.inj hcomments'
    refine .cons ⟨ht, ?_⟩ (ih hstarts _ _ ?_ hcomments hcomments')
    · rw [hcomment, hcomment', ht.kind]
      split
      · rfl
      · exact hpending
    · rw [pendingAfter, pendingAfter, ht.kind]
      split_ifs
      · rw [Option.map_some, ← ht.span, Option.filter_some, if_pos (decide_eq_true hn)]
      · exact hpending
      · rfl

/-- Tokens in a row that have taken the comments before them. -/
theorem comments_of_append {pending : Option Span} {ts us : List Token}
    (h : (ts ++ us).map Token.leadingComment = comments pending (ts ++ us)) :
    ts.map Token.leadingComment = comments pending ts ∧
      us.map Token.leadingComment = comments (ts.foldl pendingAfter pending) us := by
  rw [List.map_append, comments_append] at h
  exact List.append_inj h (by rw [List.length_map, length_comments])

/-! ### Pieces of a text -/

variable {source : String} {before piece behind : List Token} {first last : Token}

/-- Only the last token of a text is its end. -/
theorem ne_eof_of_append (h : (ofText source).tokens = before ++ behind) (hbehind : behind ≠ [])
    {t : Token} (ht : t ∈ before) : t.kind ≠ .eof := by
  obtain ⟨body, final, -, htokens, -, hbody, -⟩ := ofText_tiles source
  rw [htokens, ← List.dropLast_concat_getLast hbehind, ← List.append_assoc] at h
  obtain ⟨rfl, -⟩ := List.append_inj' h rfl
  exact (hbody t (List.mem_append_left _ ht)).1

theorem behind_ne_nil (h : (ofText source).tokens = before ++ piece ++ behind)
    (hlast : last ∈ piece.getLast?) (hkind : last.kind ≠ .eof) : behind ≠ [] := by
  rintro rfl
  obtain ⟨body, final, -, htokens, ⟨hfinal, -⟩, -⟩ := ofText_tiles source
  obtain ⟨piece, rfl⟩ := List.getLast?_eq_some_iff.mp hlast
  rw [htokens, List.append_nil, ← List.append_assoc] at h
  obtain ⟨-, hend⟩ := List.append_inj' h rfl
  exact hkind (List.singleton_inj.mp hend ▸ hfinal)

/-- Whether a text is cut into the tokens of a piece that begins `n` bytes into another. -/
def HasTokens (text : String) (n : Nat) (piece : List Token) : Prop :=
  ∃ tokens final, (ofText text).tokens = tokens ++ [final] ∧ final.kind = .eof ∧
    List.Forall₂ (Token.Excerpts n) piece tokens

/-- A piece that is read alone does not end in a point behind a run of digits. -/
theorem not_endsInPoint (hfirst : first ∈ (ofText source).tokens)
    (hlast : last ∈ (ofText source).tokens) (hle : first.span.start ≤ last.span.start)
    (h : HasTokens (Span.slice ⟨first.span.start, last.span.stop⟩ source) first.span.start
      ((ofText source).tokens.filter (startsIn ⟨first.span.start, last.span.stop⟩))) :
    ¬EndsInPoint source first last := by
  rintro ⟨hdot, t, ht, hstart, hstop, hdigits⟩
  obtain ⟨tokens, final, htext, -, hexcerpts⟩ := h
  obtain ⟨front, keep, back, -, -, hchars, hn, hend, -⟩ := exists_chars hfirst hlast hle
  have hkind : last.kind ≠ .eof := by simp [hdot]
  have hlastLt := (kind_ne_eof_iff hlast).mp hkind
  have htLe := (inOrder_ofText source).each t ht
  have hmem : ∀ u ∈ (ofText source).tokens, first.span.start ≤ u.span.start →
      u.span.start ≤ last.span.start → ∃ u' ∈ tokens, u.Excerpts first.span.start u' := by
    intro u hu hfrom hto
    refine exists_of_mem_left hexcerpts (List.mem_filter.mpr ⟨hu, ?_⟩)
    simp only [startsIn, Bool.and_eq_true, decide_eq_true_eq]
    omega
  obtain ⟨t', ht', hexcerpt⟩ := hmem t ht hstart (by omega)
  obtain ⟨last', hlast', hpoint⟩ := hmem last hlast hle (Nat.le_refl _)
  have hkind' : t'.kind ≠ .eof := ne_eof_of_append htext (List.cons_ne_nil _ _) ht'
  have hscanned : Scanned 0 keep (tokens ++ [final]) := by
    rw [hn, hend, Span.slice_append hchars] at htext
    rw [← htext, ofText, String.toList_ofList]
    exact scanned_lexFrom 0 ⟨0, 0⟩ none keep
  have htspan := hexcerpt.span
  have hspan := hpoint.span
  rw [hn, Span.shift] at htspan hspan
  rw [htspan, hspan] at hstop
  rw [hspan] at hend
  obtain ⟨before, taken, hkeep, hexcerptSpan, hno⟩ :=
    hscanned.not_digits (List.mem_append_left _ ht') hkind' (List.mem_append_left _ hlast')
      (hpoint.kind ▸ hdot) (Nat.add_right_cancel hstop) (by dsimp only at hend; omega)
  have hcut : source.toList = (front ++ before) ++ (taken ++ '.' :: back) := by
    rw [hchars, hkeep]
    simp
  have hdigitsSpan : t.span = ⟨byteLength (front ++ before),
      byteLength (front ++ before) + byteLength taken⟩ := by
    rw [htspan, hexcerptSpan]
    simp only [byteLength_append, Nat.add_comm (byteLength front), Nat.add_right_comm]
  rw [hdigitsSpan, Span.slice_append hcut, String.toList_ofList, hno] at hdigits
  cases hdigits

/-- A piece that keeps its tokens in an excerpt keeps its comments there. -/
theorem excerpts_piece {text : String} {n : Nat} {kept : List Token} {final : Token}
    (htokens : (ofText source).tokens = before ++ piece ++ behind)
    (hbefore : ∀ t ∈ before, t.span.start < n) (hpiece : ∀ t ∈ piece, n ≤ t.span.start)
    (htext : (ofText text).tokens = kept ++ [final])
    (hshifts : List.Forall₂ (Token.Shifts n) piece kept) :
    List.Forall₂ (Token.Excerpts n) piece kept := by
  have hsource := map_leadingComment 0 ⟨0, 0⟩ none source.toList
  have hexcerpt := map_leadingComment 0 ⟨0, 0⟩ none text.toList
  change (ofText source).tokens.map _ = comments none (ofText source).tokens at hsource
  change (ofText text).tokens.map _ = comments none (ofText text).tokens at hexcerpt
  rw [htokens, List.append_assoc] at hsource
  rw [htext] at hexcerpt
  refine excerpts_of_shifts hshifts hpiece (before.foldl pendingAfter none) none ?_
    (comments_of_append (comments_of_append hsource).2).1 (comments_of_append hexcerpt).1
  cases hpending : before.foldl pendingAfter none with
  | none => rfl
  | some span =>
    obtain ⟨t, ht, rfl⟩ := exists_of_pending hpending
    have hlt := hbefore t ht
    rw [Option.map_none, Option.filter_some, if_neg (by simpa using hlt)]

/-- The text from one token of a source to another has just the tokens from the one to the
other, unless the last is a point behind a token that is a run of digits. -/
theorem hasTokens_slice_iff (htokens : (ofText source).tokens = before ++ piece ++ behind)
    (hfirst : first ∈ piece.head?) (hlast : last ∈ piece.getLast?) (hkind : last.kind ≠ .eof) :
    HasTokens (Span.slice ⟨first.span.start, last.span.stop⟩ source) first.span.start piece ↔
      ¬EndsInPoint source first last := by
  have horder : InOrder (before ++ piece ++ behind) := htokens ▸ inOrder_ofText source
  have hbehind := behind_ne_nil htokens hlast hkind
  have hlt : ∀ t ∈ before ++ piece, t.span.start < t.span.stop := fun t ht =>
    (kind_ne_eof_iff (htokens ▸ List.mem_append_left behind ht)).mp
      (ne_eof_of_append htokens hbehind ht)
  have hcovers : Span.Covers ⟨first.span.start, last.span.stop⟩ piece :=
    ⟨first, hfirst, last, hlast, rfl⟩
  have hfilter : (ofText source).tokens.filter
      (startsIn ⟨first.span.start, last.span.stop⟩) = piece :=
    htokens ▸ filter_startsIn_piece horder hlt hcovers
  have hmem : ∀ t ∈ piece, t ∈ (ofText source).tokens := fun t ht => by simp [htokens, ht]
  have hfirstMem := List.mem_of_mem_head? hfirst
  have hlastMem := List.mem_of_mem_getLast? hlast
  have hstarts := fun t (ht : t ∈ piece) => hcovers.start_le horder.left.right ht
  constructor
  · intro h
    rw [← hfilter] at h
    exact not_endsInPoint (hmem first hfirstMem) (hmem last hlastMem) (hstarts last hlastMem) h
  · intro hpoint
    obtain ⟨-, kept, final, htext, heof, hshifts⟩ := exists_shifts (hmem first hfirstMem)
      (hmem last hlastMem) (hstarts last hlastMem) hkind hpoint
    rw [hfilter] at hshifts
    refine ⟨kept, final, htext, heof,
      excerpts_piece htokens (fun t ht => ?_) hstarts htext hshifts⟩
    have := horder.left.stop_le_start ht hfirstMem
    have := hlt t (List.mem_append_left _ ht)
    omega

/-- Behind a number a point and a name are read alone, although the point is no part of the
number only because of the name. -/
theorem hasTokens_point_name :
    HasTokens ".a" 1 [⟨.dot, ⟨1, 2⟩, ⟨0, 1⟩, ⟨0, 2⟩, none⟩,
      ⟨.name "a", ⟨2, 3⟩, ⟨0, 2⟩, ⟨0, 3⟩, none⟩] := by
  have htokens : (ofText "1.a").tokens = [⟨.integer 1, ⟨0, 1⟩, ⟨0, 0⟩, ⟨0, 1⟩, none⟩] ++
      [⟨.dot, ⟨1, 2⟩, ⟨0, 1⟩, ⟨0, 2⟩, none⟩, ⟨.name "a", ⟨2, 3⟩, ⟨0, 2⟩, ⟨0, 3⟩, none⟩] ++
      [⟨.eof, ⟨3, 3⟩, ⟨0, 3⟩, ⟨0, 3⟩, none⟩] := by decide +kernel
  have htext : Span.slice ⟨1, 3⟩ "1.a" = ".a" := by decide +kernel
  rw [← htext]
  exact (hasTokens_slice_iff htokens rfl rfl nofun).mpr nofun

/-- Not every piece is read alone: without the name the point belongs to the number. -/
theorem not_forall_hasTokens_slice :
    ¬∀ (source : String) (before piece behind : List Token) (first last : Token),
      (ofText source).tokens = before ++ piece ++ behind → first ∈ piece.head? →
        last ∈ piece.getLast? → last.kind ≠ .eof →
          HasTokens (Span.slice ⟨first.span.start, last.span.stop⟩ source) first.span.start
            piece := by
  intro h
  have htokens : (ofText "1.a").tokens = [] ++
      [⟨.integer 1, ⟨0, 1⟩, ⟨0, 0⟩, ⟨0, 1⟩, none⟩, ⟨.dot, ⟨1, 2⟩, ⟨0, 1⟩, ⟨0, 2⟩, none⟩] ++
      [⟨.name "a", ⟨2, 3⟩, ⟨0, 2⟩, ⟨0, 3⟩, none⟩, ⟨.eof, ⟨3, 3⟩, ⟨0, 3⟩, ⟨0, 3⟩, none⟩] := by
    decide +kernel
  obtain ⟨tokens, final, htext, -, hexcerpts⟩ := h _ _ _ _ _ _ htokens rfl rfl nofun
  have hone : (ofText (Span.slice ⟨0, 2⟩ "1.a")).tokens.length = 2 := by decide +kernel
  change (ofText (Span.slice ⟨0, 2⟩ "1.a")).tokens = tokens ++ [final] at htext
  rw [htext, List.length_append, ← hexcerpts.length_eq] at hone
  cases hone

end Lexed
end SqlAnalysis
