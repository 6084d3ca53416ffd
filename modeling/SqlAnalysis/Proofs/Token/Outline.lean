import SqlAnalysis.Proofs.Pointwise
import SqlAnalysis.Token.Basic

/-!
# Outlines over tokens

The outline of a tree keeps its spans and how they contain each other, and nothing else.
An outline fills a list of tokens if its span runs from the first of them to the last
and its parts fill pieces of the list that do not meet. That alone makes the spans nest
and keeps those side by side apart, wherever tokens follow each other in a text.
-/
namespace SqlAnalysis

/-- Whether a span lies within another. -/
def Span.Encloses (outer inner : Span) : Prop :=
  outer.start ≤ inner.start ∧ inner.stop ≤ outer.stop

/-- Whether no byte lies under both of two spans, of which one ends before the other begins. -/
def Span.Apart (a b : Span) : Prop :=
  a.stop ≤ b.start ∨ b.stop ≤ a.start

theorem Span.Encloses.trans {a b c : Span} (h : a.Encloses b) (h' : b.Encloses c) :
    a.Encloses c :=
  ⟨Nat.le_trans h.1 h'.1, Nat.le_trans h'.2 h.2⟩

theorem Span.Apart.symm {a b : Span} (h : a.Apart b) : b.Apart a :=
  Or.symm h

/-- Whether tokens follow each other in a text. -/
structure InOrder (ts : List Token) : Prop where
  each : ∀ t ∈ ts, t.span.start ≤ t.span.stop
  pairwise : ts.Pairwise fun t u => t.span.stop ≤ u.span.start

namespace InOrder

variable {ts us : List Token}

theorem sublist (h : InOrder ts) (hus : us.Sublist ts) : InOrder us :=
  ⟨fun t ht => h.each t (hus.subset ht), h.pairwise.sublist hus⟩

theorem left (h : InOrder (ts ++ us)) : InOrder ts :=
  h.sublist (List.sublist_append_left ts us)

theorem right (h : InOrder (ts ++ us)) : InOrder us :=
  h.sublist (List.sublist_append_right ts us)

theorem stop_le_start (h : InOrder (ts ++ us)) {t u : Token} (ht : t ∈ ts) (hu : u ∈ us) :
    t.span.stop ≤ u.span.start :=
  (List.pairwise_append.mp h.pairwise).2.2 t ht u hu

end InOrder

/-- Whether a span runs from the first of some tokens to the last. -/
def Span.Covers (span : Span) (ts : List Token) : Prop :=
  ∃ first ∈ ts.head?, ∃ last ∈ ts.getLast?, span = ⟨first.span.start, last.span.stop⟩

namespace Span.Covers

variable {a b : Span} {ts us ws : List Token}

theorem singleton (t : Token) : t.span.Covers [t] :=
  ⟨t, rfl, t, rfl, rfl⟩

theorem exists_start (h : a.Covers ts) : ∃ t ∈ ts, a.start = t.span.start := by
  obtain ⟨first, hfirst, last, -, rfl⟩ := h
  exact ⟨first, List.mem_of_mem_head? hfirst, rfl⟩

theorem exists_stop (h : a.Covers ts) : ∃ t ∈ ts, a.stop = t.span.stop := by
  obtain ⟨first, -, last, hlast, rfl⟩ := h
  exact ⟨last, List.mem_of_mem_getLast? hlast, rfl⟩

theorem start_le (h : a.Covers ts) (hts : InOrder ts) {t : Token} (ht : t ∈ ts) :
    a.start ≤ t.span.start := by
  obtain ⟨first, hfirst, last, -, rfl⟩ := h
  obtain ⟨ts, rfl⟩ := List.head?_eq_some_iff.mp hfirst
  rcases List.mem_cons.mp ht with rfl | ht
  · exact Nat.le_refl _
  · exact Nat.le_trans (hts.each first List.mem_cons_self)
      ((List.pairwise_cons.mp hts.pairwise).1 t ht)

theorem le_stop (h : a.Covers ts) (hts : InOrder ts) {t : Token} (ht : t ∈ ts) :
    t.span.stop ≤ a.stop := by
  obtain ⟨first, -, last, hlast, rfl⟩ := h
  obtain ⟨ts, rfl⟩ := List.getLast?_eq_some_iff.mp hlast
  rcases List.mem_append.mp ht with ht | ht
  · exact Nat.le_trans (hts.stop_le_start ht (List.mem_singleton_self last))
      (hts.each last List.mem_concat_self)
  · obtain rfl := List.mem_singleton.mp ht
    exact Nat.le_refl _

theorem start_le_stop (h : a.Covers ts) (hts : InOrder ts) : a.start ≤ a.stop := by
  obtain ⟨t, ht, hstart⟩ := h.exists_start
  rw [hstart]
  exact Nat.le_trans (hts.each t ht) (h.le_stop hts ht)

theorem encloses (h : a.Covers ts) (hts : InOrder ts) (h' : b.Covers us)
    (hus : us.Sublist ts) : a.Encloses b := by
  obtain ⟨t, ht, hstart⟩ := h'.exists_start
  obtain ⟨u, hu, hstop⟩ := h'.exists_stop
  exact ⟨hstart ▸ h.start_le hts (hus.subset ht), hstop ▸ h.le_stop hts (hus.subset hu)⟩

theorem stop_le_start (h : a.Covers ts) (h' : b.Covers us) (horder : InOrder (ts ++ us)) :
    a.stop ≤ b.start := by
  obtain ⟨t, ht, hstop⟩ := h.exists_stop
  obtain ⟨u, hu, hstart⟩ := h'.exists_start
  rw [hstop, hstart]
  exact horder.stop_le_start ht hu

/-- Two spans are merged over all tokens from the first of the one to the last of the other. -/
theorem merge (h : a.Covers ts) (h' : b.Covers us) (horder : InOrder (ts ++ ws ++ us)) :
    (a.merge b).Covers (ts ++ ws ++ us) := by
  have hts : InOrder ts := horder.left.left
  have hus : InOrder us := horder.right
  have hle : a.stop ≤ b.start := by
    refine h.stop_le_start h' (horder.sublist ?_)
    exact (List.sublist_append_left ts ws).append_right us
  have hstart : a.start ≤ b.start := Nat.le_trans (h.start_le_stop hts) hle
  have hstop : a.stop ≤ b.stop := Nat.le_trans hle (h'.start_le_stop hus)
  have hmerge : a.merge b = ⟨a.start, b.stop⟩ := by
    rw [Span.merge, Nat.min_eq_left hstart, Nat.max_eq_right hstop]
  rw [hmerge]
  obtain ⟨first, hfirst, -, -, rfl⟩ := h
  obtain ⟨-, -, last, hlast, rfl⟩ := h'
  refine ⟨first, ?_, last, ?_, rfl⟩
  · obtain ⟨ts, rfl⟩ := List.head?_eq_some_iff.mp hfirst
    rfl
  · rw [List.getLast?_append, hlast]
    rfl

end Span.Covers

/-- Whether a span runs over all of some tokens, if they follow each other in a text. -/
def Span.Runs (span : Span) (ts : List Token) : Prop :=
  InOrder ts → span.Covers ts

namespace Span.Runs

variable {a b : Span} {ts us : List Token}

theorem singleton (t : Token) : t.span.Runs [t] :=
  fun _ => .singleton t

theorem merge (h : a.Runs ts) (h' : b.Runs us) (ws : List Token) :
    (a.merge b).Runs (ts ++ ws ++ us) :=
  fun horder => (h horder.left.left).merge (h' horder.right) horder

/-- A span that is widened over a token before it. -/
theorem signed (h : a.Runs ts) (sign : Token) : (sign.span.merge a).Runs (sign :: ts) := by
  simpa using (singleton sign).merge h []

end Span.Runs

/-- A span with the outlines of what it is made of. -/
inductive Outline where
  | node (span : Span) (parts : List Outline)

namespace Outline

def span : Outline → Span
  | .node span _ => span

def parts : Outline → List Outline
  | .node _ parts => parts

theorem eta (o : Outline) : node o.span o.parts = o := by
  cases o
  rfl

mutual

/-- The outline and all those inside it. -/
def all : Outline → List Outline
  | .node s os => .node s os :: allOfList os

def allOfList : List Outline → List Outline
  | [] => []
  | o :: os => o.all ++ allOfList os

end

theorem mem_allOfList {x : Outline} {os : List Outline} :
    x ∈ allOfList os ↔ ∃ o ∈ os, x ∈ o.all := by
  induction os with
  | nil => simp [allOfList]
  | cons o os ih => simp [allOfList, ih]

theorem self_mem_all (o : Outline) : o ∈ o.all := by
  cases o
  exact List.mem_cons_self

/-- Whether an outline runs over all of some tokens, and its parts over pieces that
follow each other, in some order. -/
inductive Fills : Outline → List Token → Prop
  | mk {s : Span} {os arranged : List Outline} {ts : List Token} {pieces : List (List Token)} :
      (InOrder ts → s.Covers ts) → arranged.Perm os → List.Forall₂ Fills arranged pieces →
      pieces.flatten.Sublist ts → Fills (.node s os) ts

end Outline

open Outline

/-- Whether outlines fill pieces of some tokens that follow each other, in some order. -/
def Laid (os : List Outline) (ts : List Token) : Prop :=
  ∃ (arranged : List Outline) (pieces : List (List Token)),
    arranged.Perm os ∧ List.Forall₂ Fills arranged pieces ∧ pieces.flatten.Sublist ts

namespace Laid

variable {os ps : List Outline} {ts us : List Token} {o : Outline}

theorem nil (ts : List Token) : Laid [] ts :=
  ⟨[], [], .nil, .nil, List.nil_sublist ts⟩

theorem of_fills (h : o.Fills ts) : Laid [o] ts :=
  ⟨[o], [ts], .refl _, .cons h .nil, by simp⟩

theorem mono (h : Laid os ts) (hts : ts.Sublist us) : Laid os us := by
  obtain ⟨arranged, pieces, hperm, hpieces, hsub⟩ := h
  exact ⟨arranged, pieces, hperm, hpieces, hsub.trans hts⟩

theorem perm (h : Laid os ts) (hos : os.Perm ps) : Laid ps ts := by
  obtain ⟨arranged, pieces, hperm, hpieces, hsub⟩ := h
  exact ⟨arranged, pieces, hperm.trans hos, hpieces, hsub⟩

theorem append (h : Laid os ts) (h' : Laid ps us) : Laid (os ++ ps) (ts ++ us) := by
  obtain ⟨arranged, pieces, hperm, hpieces, hsub⟩ := h
  obtain ⟨arranged', pieces', hperm', hpieces', hsub'⟩ := h'
  refine ⟨arranged ++ arranged', pieces ++ pieces', hperm.append hperm', ?_, ?_⟩
  · exact List.rel_append hpieces hpieces'
  · rw [List.flatten_append]
    exact hsub.append hsub'

theorem cons (h : o.Fills ts) (h' : Laid os us) : Laid (o :: os) (ts ++ us) :=
  (of_fills h).append h'

/-- Tokens in front that belong to no outline. -/
theorem after (h : Laid os us) (ts : List Token) : Laid os (ts ++ us) :=
  h.mono (List.sublist_append_right ts us)

/-- Tokens behind that belong to no outline. -/
theorem before (h : Laid os ts) (us : List Token) : Laid os (ts ++ us) :=
  h.mono (List.sublist_append_left ts us)

end Laid

namespace Outline

variable {o : Outline} {s : Span} {os : List Outline} {ts : List Token}

theorem Fills.of_laid (hspan : InOrder ts → s.Covers ts) (h : Laid os ts) :
    (node s os).Fills ts := by
  obtain ⟨arranged, pieces, hperm, hpieces, hsub⟩ := h
  exact .mk hspan hperm hpieces hsub

theorem Fills.laid : o.Fills ts → Laid o.parts ts
  | .mk _ hperm hpieces hsub => ⟨_, _, hperm, hpieces, hsub⟩

theorem Fills.covers : o.Fills ts → InOrder ts → o.span.Covers ts
  | .mk hspan _ _ _ => hspan

/-- An outline without parts. -/
theorem Fills.leaf (t : Token) : (node t.span []).Fills [t] :=
  .of_laid (fun _ => .singleton t) (.nil _)

/-- Every outline inside one that fills some tokens fills a piece of them. -/
theorem Fills.exists_piece : ∀ (o : Outline) {ts : List Token}, o.Fills ts →
    ∀ node ∈ o.all, ∃ us, us.Sublist ts ∧ node.Fills us
  | .node s os, ts, h, x, hx => by
    rcases List.mem_cons.mp hx with rfl | hx
    · exact ⟨ts, .refl ts, h⟩
    obtain ⟨o, ho, hx⟩ := mem_allOfList.mp hx
    obtain ⟨arranged, pieces, hperm, hpieces, hsub⟩ := h.laid
    obtain ⟨piece, hpiece, hfills⟩ := exists_of_mem_left hpieces (hperm.mem_iff.mpr ho)
    obtain ⟨us, hus, hx⟩ := Fills.exists_piece o hfills x hx
    exact ⟨us, hus.trans ((List.sublist_flatten_of_mem hpiece).trans hsub), hx⟩

/-- Outlines that fill pieces of a text one after the other are apart. -/
theorem pairwise_apart {os : List Outline} {pieces : List (List Token)}
    (h : List.Forall₂ Fills os pieces) (horder : InOrder pieces.flatten) :
    os.Pairwise fun a b => a.span.Apart b.span := by
  induction h with
  | nil => exact .nil
  | @cons o piece os pieces ho hos ih =>
    rw [List.flatten_cons] at horder
    refine .cons (fun b hb => .inl ?_) (ih horder.right)
    obtain ⟨us, hus, hfills⟩ := exists_of_mem_left hos hb
    have hsub : (piece ++ us).Sublist (piece ++ pieces.flatten) :=
      (List.Sublist.refl piece).append (List.sublist_flatten_of_mem hus)
    have hboth := horder.sublist hsub
    exact (ho.covers hboth.left).stop_le_start (hfills.covers hboth.right) hboth

/-- Whether a span begins where a token begins and ends where one ends, encloses all
spans inside it and keeps those side by side apart. -/
structure IsPlaced (ts : List Token) (o : Outline) : Prop where
  ordered : o.span.start ≤ o.span.stop
  starts : ∃ t ∈ ts, o.span.start = t.span.start
  stops : ∃ t ∈ ts, o.span.stop = t.span.stop
  encloses : ∀ inner ∈ o.all, o.span.Encloses inner.span
  apart : o.parts.Pairwise fun a b => a.span.Apart b.span

theorem IsPlaced.mono {us : List Token} (h : o.IsPlaced us) (hsub : us ⊆ ts) : o.IsPlaced ts where
  ordered := h.ordered
  starts := h.starts.imp fun _ ht => ⟨hsub ht.1, ht.2⟩
  stops := h.stops.imp fun _ ht => ⟨hsub ht.1, ht.2⟩
  encloses := h.encloses
  apart := h.apart

theorem Fills.isPlaced (h : o.Fills ts) (hts : InOrder ts) : o.IsPlaced ts where
  ordered := (h.covers hts).start_le_stop hts
  starts := (h.covers hts).exists_start
  stops := (h.covers hts).exists_stop
  encloses := by
    intro inner hinner
    obtain ⟨us, hus, hfills⟩ := Fills.exists_piece o h inner hinner
    exact (h.covers hts).encloses hts (hfills.covers (hts.sublist hus)) hus
  apart := by
    obtain ⟨arranged, pieces, hperm, hpieces, hsub⟩ := h.laid
    exact (pairwise_apart hpieces (hts.sublist hsub)).perm hperm Span.Apart.symm

theorem Fills.all_isPlaced (h : o.Fills ts) (hts : InOrder ts) : ∀ x ∈ o.all, x.IsPlaced ts := by
  intro x hx
  obtain ⟨us, hus, hfills⟩ := Fills.exists_piece o h x hx
  exact (hfills.isPlaced (hts.sublist hus)).mono hus.subset

end Outline
end SqlAnalysis
