import SqlAnalysis.Proofs.Grammar.Spelling
import SqlAnalysis.Proofs.Syntax.Marks

/-!
# Where marks stand

Of all marks that touch a byte of a name the one for the name is the shortest. Whatever
is read around a name takes a token more, and what stands before it is kept off by a token
that belongs to neither, such as a comma or an operator.
-/
namespace SqlAnalysis

/-- Whether tokens follow each other in a text and none of them is empty. -/
structure Solid (ts : List Token) : Prop extends InOrder ts where
  solid : ∀ t ∈ ts, t.span.start < t.span.stop

namespace Solid

variable {ts us : List Token}

theorem sublist (h : Solid ts) (hus : us.Sublist ts) : Solid us :=
  ⟨h.toInOrder.sublist hus, fun t ht => h.solid t (hus.subset ht)⟩

theorem left (h : Solid (ts ++ us)) : Solid ts :=
  h.sublist (List.sublist_append_left ts us)

theorem right (h : Solid (ts ++ us)) : Solid us :=
  h.sublist (List.sublist_append_right ts us)

theorem tail {t : Token} (h : Solid (t :: ts)) : Solid ts :=
  h.sublist (List.sublist_cons_self t ts)

theorem stop_le_start (h : Solid (ts ++ us)) {t u : Token} (ht : t ∈ ts) (hu : u ∈ us) :
    t.span.stop ≤ u.span.start :=
  h.toInOrder.stop_le_start ht hu

end Solid

namespace Mark

/-- Whether another mark is longer wherever it touches the subject of this one. -/
def Outranks (m other : Mark) : Prop :=
  ∀ s ∈ m.subject, ∀ o, s.start ≤ o → o < s.stop →
    other.place.start ≤ o → o ≤ other.place.stop → m.place.length < other.place.length

/-- Whether a mark runs from one of some tokens to one of them. -/
structure StandsIn (m : Mark) (ts : List Token) : Prop where
  starts : ∃ t ∈ ts, m.place.start = t.span.start
  stops : ∃ t ∈ ts, m.place.stop = t.span.stop
  subject : ∀ s ∈ m.subject, m.place.Encloses s ∧ s.start < s.stop

namespace StandsIn

variable {m : Mark} {ts us : List Token}

theorem mono (h : m.StandsIn ts) (hus : ts ⊆ us) : m.StandsIn us where
  starts := h.starts.imp fun _ ht => ⟨hus ht.1, ht.2⟩
  stops := h.stops.imp fun _ ht => ⟨hus ht.1, ht.2⟩
  subject := h.subject

theorem stop_le (h : m.StandsIn ts) (hs : Solid (ts ++ us)) {u : Token} (hu : u ∈ us) :
    m.place.stop ≤ u.span.start := by
  obtain ⟨t, ht, hstop⟩ := h.stops
  exact hstop ▸ hs.stop_le_start ht hu

theorem le_start (h : m.StandsIn us) (hs : Solid (ts ++ us)) {t : Token} (ht : t ∈ ts) :
    t.span.stop ≤ m.place.start := by
  obtain ⟨u, hu, hstart⟩ := h.starts
  exact hstart ▸ hs.stop_le_start ht hu

/-- A span over a token more is longer. -/
theorem length_lt_of_left {span : Span} (h : m.StandsIn us) (hs : Solid (ts ++ us))
    (hspan : span.Covers (ts ++ us)) (hts : ts ≠ []) : m.place.length < span.length := by
  obtain ⟨x, hx⟩ := List.exists_mem_of_ne_nil ts hts
  obtain ⟨t, ht, hstart⟩ := h.starts
  obtain ⟨u, hu, hstop⟩ := h.stops
  have hbegin := hspan.start_le hs.toInOrder (List.mem_append_left us hx)
  have hend := hspan.le_stop hs.toInOrder (List.mem_append_right ts hu)
  have hend' := hspan.le_stop hs.toInOrder (List.mem_append_right ts ht)
  have hle := hs.stop_le_start hx ht
  have hx := hs.left.solid x hx
  have ht := hs.right.solid t ht
  simp only [Span.length]
  omega

theorem length_lt_of_right {span : Span} (h : m.StandsIn ts) (hs : Solid (ts ++ us))
    (hspan : span.Covers (ts ++ us)) (hus : us ≠ []) : m.place.length < span.length := by
  obtain ⟨x, hx⟩ := List.exists_mem_of_ne_nil us hus
  obtain ⟨t, ht, hstart⟩ := h.starts
  obtain ⟨u, hu, hstop⟩ := h.stops
  have hbegin := hspan.start_le hs.toInOrder (List.mem_append_left us ht)
  have hbegin' := hspan.start_le hs.toInOrder (List.mem_append_left us hu)
  have hend := hspan.le_stop hs.toInOrder (List.mem_append_right ts hx)
  have hle := hs.stop_le_start hu hx
  have hx := hs.right.solid x hx
  have hu := hs.left.solid u hu
  simp only [Span.length]
  omega

end StandsIn
end Mark

/-- Whether marks stand over some tokens, each the shortest at its own subject. -/
structure Seated (ms : List Mark) (ts : List Token) : Prop where
  standsIn : Solid ts → ∀ m ∈ ms, m.StandsIn ts
  outranks : Solid ts → ms.Pairwise fun m n => m.Outranks n ∧ n.Outranks m

/-- Whether besides a token stands before each subject. -/
structure Sheltered (ms : List Mark) (ts : List Token) : Prop extends Seated ms ts where
  sheltered : Solid ts → ∀ m ∈ ms, ∀ s ∈ m.subject, ∃ t ∈ ts, t.span.stop ≤ s.start

section

variable {ms ns : List Mark} {ts us : List Token}

namespace Seated

theorem nil (ts : List Token) : Seated [] ts :=
  ⟨by simp, by simp⟩

theorem before (h : Seated ms ts) (us : List Token) : Seated ms (ts ++ us) where
  standsIn hs m hm := (h.standsIn hs.left m hm).mono (List.subset_append_left ts us)
  outranks hs := h.outranks hs.left

theorem after (h : Seated ms us) (ts : List Token) : Seated ms (ts ++ us) where
  standsIn hs m hm := (h.standsIn hs.right m hm).mono (List.subset_append_right ts us)
  outranks hs := h.outranks hs.right

/-- A token that is read before shelters all subjects. -/
theorem sheltered (h : Seated ms us) (hts : ts ≠ []) : Sheltered ms (ts ++ us) where
  toSeated := h.after ts
  sheltered hs m hm s hsub := by
    obtain ⟨t, ht⟩ := List.exists_mem_of_ne_nil ts hts
    have hm := h.standsIn hs.right m hm
    exact ⟨t, List.mem_append_left us ht, Nat.le_trans (hm.le_start hs ht) (hm.subject s hsub).1.1⟩

theorem append (h : Seated ms ts) (h' : Sheltered ns us) : Seated (ms ++ ns) (ts ++ us) where
  standsIn hs := List.forall_mem_append.mpr
    ⟨(h.before us).standsIn hs, (h'.toSeated.after ts).standsIn hs⟩
  outranks hs := by
    refine List.pairwise_append.mpr ⟨h.outranks hs.left, h'.outranks hs.right, ?_⟩
    intro m hm n hn
    have hm := h.standsIn hs.left m hm
    have hn' := h'.standsIn hs.right n hn
    constructor
    · intro s hsub o _ hstop hstart _
      -- What stands behind begins after the subject.
      obtain ⟨u, hu, hbegin⟩ := hn'.starts
      have hle := hm.stop_le hs hu
      have hin := (hm.subject s hsub).1.2
      omega
    · intro s hsub o hstart _ _ hstop
      -- What stands before ends where the sheltering token begins.
      obtain ⟨u, hu, hshelter⟩ := h'.sheltered hs.right n hn s hsub
      have hle := hm.stop_le hs hu
      have hsolid := hs.right.solid u hu
      omega

/-- A mark over more tokens than those inside it, with a subject they do not reach. -/
theorem cons {m : Mark} (h : Seated ms ts) (hm : Solid ts → m.StandsIn ts)
    (hlong : Solid ts → ∀ n ∈ ms, n.place.length < m.place.length)
    (hbeside : Solid ts → ∀ n ∈ ms, ∀ s ∈ m.subject, n.place.stop < s.start) :
    Seated (m :: ms) ts where
  standsIn hs := List.forall_mem_cons.mpr ⟨hm hs, h.standsIn hs⟩
  outranks hs := by
    refine .cons (fun n hn => ⟨?_, ?_⟩) (h.outranks hs)
    · intro s hsub o hstart _ _ hstop
      have hlt := hbeside hs n hn s hsub
      omega
    · intro s _ o _ _ _ _
      exact hlong hs n hn

theorem perm (h : Seated ms ts) (hperm : ms.Perm ns) : Seated ns ts where
  standsIn hs n hn := h.standsIn hs n (hperm.mem_iff.mpr hn)
  outranks hs := (h.outranks hs).perm hperm And.symm

/-- Marks with a token before them are shorter than all of it. -/
theorem length_lt_of_left {span : Span} (h : Seated ms us) (hspan : span.Runs (ts ++ us))
    (hts : ts ≠ []) (hs : Solid (ts ++ us)) : ∀ m ∈ ms, m.place.length < span.length :=
  fun m hm => (h.standsIn hs.right m hm).length_lt_of_left hs (hspan hs.toInOrder) hts

theorem length_lt_of_right {span : Span} (h : Seated ms ts) (hspan : span.Runs (ts ++ us))
    (hus : us ≠ []) (hs : Solid (ts ++ us)) : ∀ m ∈ ms, m.place.length < span.length :=
  fun m hm => (h.standsIn hs.left m hm).length_lt_of_right hs (hspan hs.toInOrder) hus

/-- Without subjects nothing has to be kept off. -/
theorem sheltered_of_none (h : Seated ms ts) (hms : ∀ m ∈ ms, m.subject = none) :
    Sheltered ms ts :=
  ⟨h, fun _ m hm s hsub => by simp [hms m hm] at hsub⟩

end Seated

namespace Sheltered

theorem nil (ts : List Token) : Sheltered [] ts :=
  ⟨.nil ts, by simp⟩

theorem before (h : Sheltered ms ts) (us : List Token) : Sheltered ms (ts ++ us) where
  toSeated := h.toSeated.before us
  sheltered hs m hm s hsub := by
    obtain ⟨t, ht, hstop⟩ := h.sheltered hs.left m hm s hsub
    exact ⟨t, List.mem_append_left us ht, hstop⟩

theorem after (h : Sheltered ms us) (ts : List Token) : Sheltered ms (ts ++ us) where
  toSeated := h.toSeated.after ts
  sheltered hs m hm s hsub := by
    obtain ⟨t, ht, hstop⟩ := h.sheltered hs.right m hm s hsub
    exact ⟨t, List.mem_append_right ts ht, hstop⟩

theorem append (h : Sheltered ms ts) (h' : Sheltered ns us) : Sheltered (ms ++ ns) (ts ++ us) where
  toSeated := h.toSeated.append h'
  sheltered hs := List.forall_mem_append.mpr
    ⟨(h.before us).sheltered hs, (h'.after ts).sheltered hs⟩

theorem perm (h : Sheltered ms ts) (hperm : ms.Perm ns) : Sheltered ns ts where
  toSeated := h.toSeated.perm hperm
  sheltered hs n hn := h.sheltered hs n (hperm.mem_iff.mpr hn)

end Sheltered

/-! ### Pieces of a token list -/

variable {α : Type} {R : α → List Token → Prop} {f : α → List Mark}

theorem Optional.sheltered {g : Option α → List Mark} (hnone : g Option.none = [])
    (h : ∀ a ts, R a ts → Sheltered (g (Option.some a)) ts) {o : Option α} :
    Optional R o ts → Sheltered (g o) ts
  | .none => hnone ▸ .nil []
  | .some ha => h _ _ ha

/-- A word in front shelters what follows it. -/
theorem Preceded.sheltered (h : ∀ a ts, R a ts → Seated (f a) ts) {kind : TokenKind} (a : α)
    (ts : List Token) : Preceded kind R a ts → Sheltered (f a) ts
  | .mk _ ha => (h _ _ ha).sheltered (List.cons_ne_nil _ [])

theorem Sequence.sheltered (h : ∀ a ts, R a ts → Sheltered (f a) ts) {as : List α}
    (hseq : Sequence R as ts) : Sheltered (as.flatMap f) ts := by
  induction hseq with
  | nil => exact .nil _
  | cons ha _ ih =>
    rw [List.flatMap_cons]
    exact (h _ _ ha).append ih

theorem CommaList.seated (h : ∀ a ts, R a ts → Seated (f a) ts) {as : List α} :
    CommaList R as ts → Seated (as.flatMap f) ts
  | .mk ha hrest => by
    rw [List.flatMap_cons]
    exact (h _ _ ha).append (hrest.sheltered (Preceded.sheltered h))

theorem CommaList.sheltered (h : ∀ a ts, R a ts → Sheltered (f a) ts) {as : List α} :
    CommaList R as ts → Sheltered (as.flatMap f) ts
  | .mk ha hrest => by
    rw [List.flatMap_cons]
    exact (h _ _ ha).append
      (hrest.sheltered (Preceded.sheltered fun b us hb => (h b us hb).toSeated))

theorem Listed.seated (h : ∀ a ts, R a ts → Seated (f a) ts) {as : List α} :
    Listed R as ts → Seated (as.flatMap f) ts
  | .empty => .nil _
  | .items hitems => hitems.seated h

theorem Bracketed.sheltered {a : α} (h : ∀ ts, R a ts → Seated ms ts) :
    Bracketed R a ts → Sheltered ms ts
  | .mk _ ha _ => ((h _ ha).before [_]).sheltered (List.cons_ne_nil _ [])

theorem Bracketed.length_lt {a : α} {span : Span} (h : ∀ ts, R a ts → Seated ms ts)
    (us : List Token) (hspan : span.Runs (us ++ ts)) (hs : Solid (us ++ ts)) :
    Bracketed R a ts → ∀ m ∈ ms, m.place.length < span.length
  | .mk _ ha _ => by
    rw [List.append_cons] at hspan hs
    exact ((h _ ha).before [_]).length_lt_of_left hspan (List.append_ne_nil_of_right_ne_nil _
      (List.cons_ne_nil _ [])) hs

end

end SqlAnalysis
