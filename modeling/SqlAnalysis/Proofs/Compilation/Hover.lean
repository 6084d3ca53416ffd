import Mathlib.Data.List.Pairwise
import SqlAnalysis.Proofs.Compilation.Scopes
import SqlAnalysis.Proofs.Grammar.Partition
import SqlAnalysis.Proofs.Grammar.SeatedStatements
import SqlAnalysis.Proofs.Resolution.Annotation
import SqlAnalysis.Proofs.Token.Edges

/-!
# What a cursor on a name shows

A position in a name leads back to its offset, the statement of the name is the first one
that touches it, and of the targets around it that of the name is the shortest. So the
cursor shows what the name is bound to.
-/
namespace SqlAnalysis

/-! ### The shortest target -/

namespace Target

theorem shortest?_concat (targets : List Target) (t : Target) :
    shortest? (targets ++ [t]) = match shortest? targets with
      | some b => if t.1.length < b.1.length then some t else some b
      | none => some t := by
  rw [shortest?, List.foldl_append]
  rfl

/-- Some target is found, and none is shorter. -/
theorem exists_shortest? {targets : List Target} (hne : targets ≠ []) :
    ∃ b ∈ targets, shortest? targets = some b ∧ ∀ t ∈ targets, b.1.length ≤ t.1.length := by
  induction targets using List.reverseRecOn with
  | nil => exact absurd rfl hne
  | append_singleton targets t ih =>
    rw [shortest?_concat]
    rcases List.eq_nil_or_concat targets with rfl | hcons
    · exact ⟨t, by simp, rfl, by simp⟩
    obtain ⟨b, hb, hfound, hle⟩ := ih (by rintro rfl; simp at hcons)
    rw [hfound]
    by_cases hlt : t.1.length < b.1.length
    · refine ⟨t, List.mem_concat_self, if_pos hlt, List.forall_mem_append.mpr ⟨?_, by simp⟩⟩
      exact fun u hu => Nat.le_trans (Nat.le_of_lt hlt) (hle u hu)
    · refine ⟨b, List.mem_append_left _ hb, if_neg hlt, List.forall_mem_append.mpr ⟨hle, ?_⟩⟩
      simpa using hlt

/-- A target that is shorter than all others is found, wherever it stands. -/
theorem shortest?_eq {targets : List Target} {t : Target} (ht : t ∈ targets)
    (h : ∀ u ∈ targets, u = t ∨ t.1.length < u.1.length) : shortest? targets = some t := by
  obtain ⟨b, hb, hfound, hle⟩ := exists_shortest? (List.ne_nil_of_mem ht)
  rcases h b hb with rfl | hlt
  · exact hfound
  · exact absurd (hle t ht) (Nat.not_le.mpr hlt)

end Target

namespace Mark

theorem mem_targets {m : Mark} {t : Target} :
    t ∈ m.targets ↔ t.1 = m.place ∧ m.binding = some t.2 := by
  obtain ⟨place, b⟩ := t
  simp only [targets, Target.ofBinding, List.mem_map, Option.mem_toList,
    Prod.mk.injEq]
  constructor
  · rintro ⟨_, hb, rfl, rfl⟩
    exact ⟨rfl, hb⟩
  · rintro ⟨rfl, hb⟩
    exact ⟨b, hb, rfl, rfl⟩

/-- Each mark is the shortest one at its own subject. -/
def Apart (ms : List Mark) : Prop :=
  ms.Pairwise fun m n => m.Outranks n ∧ n.Outranks m

/-- Bindings have no part in it. -/
theorem apart_map_unbound {ms : List Mark} : Apart (ms.map unbound) ↔ Apart ms :=
  List.pairwise_map

end Mark

/-- At a byte of its subject a bound mark is what is found. -/
theorem Target.bindingAt?_eq {s : Statement} {m : Mark} {b : Binding} {place : Span} {o : Nat}
    (hm : m ∈ s.body.marks) (hapart : Mark.Apart s.body.marks) (hbinding : m.binding = some b)
    (hsubject : m.subject = some place) (hencloses : m.place.Encloses place)
    (hstart : place.start ≤ o) (hstop : o < place.stop) : bindingAt? s o = some b := by
  have hmem : ∀ t, t ∈ ofStatement s ↔ ∃ n ∈ s.body.marks, t.1 = n.place ∧ n.binding = some t.2 := by
    intro t
    simp only [ofStatement_eq, List.mem_flatMap, Mark.mem_targets]
  have hsymm : Std.Symm fun m n : Mark => m.Outranks n ∧ n.Outranks m := ⟨fun _ _ h => h.symm⟩
  have hfound : shortest? ((ofStatement s).filter fun t => t.1.start ≤ o && o ≤ t.1.stop) =
      some (m.place, b) := by
    refine shortest?_eq (List.mem_filter.mpr ⟨(hmem _).mpr ⟨m, hm, rfl, hbinding⟩, ?_⟩)
      fun t ht => ?_
    · have hle := hencloses.1
      have hge := hencloses.2
      simp only [Bool.and_eq_true, decide_eq_true_eq]
      omega
    · obtain ⟨ht, htouches⟩ := List.mem_filter.mp ht
      obtain ⟨n, hn, hplace, hbound⟩ := (hmem t).mp ht
      simp only [Bool.and_eq_true, decide_eq_true_eq, hplace] at htouches
      rcases eq_or_ne m n with rfl | hne
      · exact .inl (Prod.ext hplace (Option.some.inj (hbound.symm.trans hbinding)))
      · right
        rw [hplace]
        exact (hapart.forall hm hn hne).1 place hsubject o hstart hstop htouches.1 htouches.2
  rw [bindingAt?, hfound]
  rfl

/-! ### The statement of a name -/

theorem Lexed.solid_words (source : String) : Solid (Lexed.words source) where
  toInOrder := Lexed.inOrder_words source
  solid t ht := by
    have hmem : t ∈ (Lexed.ofText source).tokens :=
      (ParserState.tokens_start_sublist _).subset ht
    rw [Lexed.words_eq_filter, List.mem_filter] at ht
    refine (Lexed.kind_ne_eof_iff hmem).mp fun heof => ?_
    simp [heof] at ht

theorem Lexed.stop_le_of_words {source : String} {t : Token} (ht : t ∈ Lexed.words source) :
    t.span.stop ≤ Text.byteSize source := by
  obtain ⟨skips, htiles⟩ := Lexed.tiles_ofText source
  exact (htiles.placed t ((ParserState.tokens_start_sublist _).subset ht)).stop_le

/-- Whether the subjects of all marks of a statement lie in it behind its first byte, each in
the place of its mark, and no other mark is as short there. -/
structure Statement.Shows (s : Statement) (size : Nat) : Prop where
  stop_le : s.span.stop ≤ size
  apart : Mark.Apart s.body.marks
  encloses : ∀ m ∈ s.body.marks, ∀ place ∈ m.subject, m.place.Encloses place
  within : ∀ m ∈ s.body.marks, ∀ place ∈ m.subject,
    s.span.start < place.start ∧ place.stop ≤ s.span.stop

/-- The marks of every statement of a text are seated in it. -/
theorem Script.shows (source : String) :
    ∀ s ∈ (ofTokens (Lexed.ofText source).tokens).statements, s.Shows (Text.byteSize source) := by
  intro s hs
  obtain ⟨before, piece, behind, hwords, hread⟩ := exists_read source hs
  have hsolid : Solid piece := (hwords ▸ Lexed.solid_words source).left.right
  have hcovers : s.span.Covers piece := hread.fills.covers hsolid.toInOrder
  have hmarks := hread.sheltered
  have hstands := hmarks.standsIn hsolid
  refine ⟨?_, hmarks.outranks hsolid, fun m hm place hplace =>
    ((hstands m hm).subject place hplace).1, fun m hm place hplace => ⟨?_, ?_⟩⟩
  · obtain ⟨t, ht, hstop⟩ := hcovers.exists_stop
    rw [hstop]
    exact Lexed.stop_le_of_words (by simp [hwords, ht])
  · obtain ⟨t, ht, hbefore⟩ := hmarks.sheltered hsolid m hm place hplace
    have hle := hcovers.start_le hsolid.toInOrder ht
    have hlt := hsolid.solid t ht
    omega
  · obtain ⟨t, ht, hstop⟩ := (hstands m hm).stops
    have hle := hcovers.le_stop hsolid.toInOrder ht
    have hin := ((hstands m hm).subject place hplace).1.2
    omega

/-- Resolution fills in what a name stands for and leaves its place. -/
theorem Statement.Shows.of_cleared {s s' : Statement} {size : Nat} (h : s.Shows size)
    (hcleared : s'.cleared = s.cleared) : s'.Shows size := by
  have hspan : s'.span = s.span := by
    simpa only [Statement.cleared] using congrArg Statement.span hcleared
  have hmarks : s'.body.marks.map Mark.unbound = s.body.marks.map Mark.unbound := by
    rw [← StatementBody.marks_cleared, ← StatementBody.marks_cleared]
    exact congrArg (fun s => s.body.marks) hcleared
  have hmem : ∀ m ∈ s'.body.marks,
      ∃ n ∈ s.body.marks, n.place = m.place ∧ n.subject = m.subject := by
    intro m hm
    have hm := List.mem_map_of_mem (f := Mark.unbound) hm
    rw [hmarks] at hm
    obtain ⟨n, hn, heq⟩ := List.mem_map.mp hm
    obtain ⟨hplace, hsubject, -⟩ := Mark.mk.inj heq
    exact ⟨n, hn, hplace, hsubject⟩
  refine ⟨hspan ▸ h.stop_le, ?_, fun m hm place hplace => ?_, fun m hm place hplace => ?_⟩
  · rw [← Mark.apart_map_unbound, hmarks, Mark.apart_map_unbound]
    exact h.apart
  · obtain ⟨n, hn, hwhere, hsubject⟩ := hmem m hm
    exact hwhere ▸ h.encloses n hn place (hsubject ▸ hplace)
  · obtain ⟨n, hn, -, hsubject⟩ := hmem m hm
    exact hspan ▸ h.within n hn place (hsubject ▸ hplace)

namespace Compilation

/-- Behind the first byte of a statement no earlier one is touched. -/
theorem statementAt?_eq {c : Compilation} {s : Statement} {o : Nat} (hs : s ∈ c.statements)
    (horder : c.statements.Pairwise fun a b => a.span.stop ≤ b.span.start)
    (hstart : s.span.start < o) (hstop : o ≤ s.span.stop) (hsize : o ≤ c.index.length) :
    c.statementAt? (c.index.position o) = some s := by
  obtain ⟨before, behind, hstatements⟩ := List.append_of_mem hs
  rw [hstatements, List.pairwise_append] at horder
  rw [statementAt?, List.find?_eq_some_iff_append]
  refine ⟨(Range.touches_iff _ _).mpr ⟨?_, ?_⟩, before, behind, hstatements, fun a ha => ?_⟩
  · exact c.index.position_mono (Nat.le_of_lt hstart)
  · exact c.index.position_mono hstop
  · have hle := horder.2.2 a ha s List.mem_cons_self
    have hlt := c.index.position_lt (Nat.lt_of_le_of_lt hle hstart) hsize
    rw [Bool.not_eq_true', ← Bool.not_eq_true, Range.touches_iff]
    exact fun htouches => Position.not_le.mpr hlt htouches.2

variable {options : CompileOptions} (source : String) (schema : List TableDescriptor)

theorem statements_ofText_resolved (h : options.resolve = true) :
    (ofText source (some schema) options).statements =
      (Resolution.ofStatements (LineIndex.ofText source) (Catalog.ofDescriptors schema)
        (Script.ofTokens (Lexed.ofText source).tokens).statements).statements := by
  simp only [ofText, h, if_true]

theorem statements_shows (h : options.resolve = true) :
    ∀ s ∈ (ofText source (some schema) options).statements, s.Shows (Text.byteSize source) := by
  intro s hs
  rw [statements_ofText_resolved source schema h] at hs
  have hpairs := Resolver.statements_yield (Script.ofTokens (Lexed.ofText source).tokens).statements
    (.start (LineIndex.ofText source) (Catalog.ofDescriptors schema))
  obtain ⟨s₀, hs₀, hcleared, -⟩ := exists_of_mem_right hpairs hs
  exact (Script.shows source s₀ hs₀).of_cleared hcleared

theorem statements_inOrder (h : options.resolve = true) :
    (ofText source (some schema) options).statements.Pairwise fun a b =>
      a.span.stop ≤ b.span.start := by
  have hspans := Resolver.statements_span (Script.ofTokens (Lexed.ofText source).tokens).statements
    (.start (LineIndex.ofText source) (Catalog.ofDescriptors schema))
  have horder : ((Script.ofTokens (Lexed.ofText source).tokens).statements.map
      Statement.span).Pairwise fun a b => a.stop ≤ b.start :=
    List.pairwise_map.mpr (Script.statements_inOrder source)
  rw [← hspans] at horder
  rw [statements_ofText_resolved source schema h]
  exact List.pairwise_map.mp horder

theorem bindingAt?_mark (h : options.resolve = true) {s : Statement}
    (hs : s ∈ (ofText source (some schema) options).statements) {m : Mark}
    (hm : m ∈ s.body.marks) {b : Binding} (hbinding : m.binding = some b) {place : Span}
    (hplace : m.subject = some place) {o : Nat} (hstart : place.start ≤ o)
    (hstop : o < place.stop) :
    (ofText source (some schema) options).bindingAt?
      ((ofText source (some schema) options).index.position o) = some b := by
  have hshows := statements_shows source schema h s hs
  obtain ⟨hbegin, hend⟩ := hshows.within m hm place hplace
  have hsize : o ≤ (ofText source (some schema) options).index.length := by
    have hle := hshows.stop_le
    have hlength : (ofText source (some schema) options).index.length = Text.byteSize source := rfl
    omega
  have hoffset := (ofText source (some schema) options).index.offset?_position hsize
  have hstatement := statementAt?_eq hs (statements_inOrder source schema h)
    (Nat.lt_of_lt_of_le hbegin hstart) (by omega) hsize
  have hbound := Target.bindingAt?_eq hm hshows.apart hbinding hplace
    (hshows.encloses m hm place hplace) hstart hstop
  simp only [bindingAt?, hoffset, hstatement, hbound, Option.bind_eq_bind, Option.bind_some]

theorem hoverAt?_eq {c : Compilation} {catalog : Catalog} (hcatalog : c.catalog? = some catalog)
    {p : Position} {b : Binding} (hbound : c.bindingAt? p = some b) :
    c.hoverAt? p = some (catalog.hover b) := by
  simp only [hoverAt?, hcatalog, hbound, Option.bind_eq_bind, Option.bind_some]
  rfl

/-- A cursor on any byte of a name in an expression finds what the name is bound to and shows
it, be it a column or the table before a point, and on any byte right of a point what the
qualified name is bound to. -/
theorem hoverAt?_bound (h : options.resolve = true) :
    let c := ofText source (some schema) options
    ∃ catalog, c.catalog? = some catalog ∧ ∀ statement ∈ c.statements,
      (∀ note ident b, .name note ident ∈ statement.body.allNodes → note.binding = some b →
        ∀ o, note.span.start ≤ o → o < note.span.stop →
          c.bindingAt? (c.index.position o) = some b ∧
            c.hoverAt? (c.index.position o) = some (catalog.hover b)) ∧
      ∀ note left right b, .dot note left right ∈ statement.body.allNodes →
        note.binding = some b → ∀ o, right.span.start ≤ o → o < right.span.stop →
          c.bindingAt? (c.index.position o) = some b ∧
            c.hoverAt? (c.index.position o) = some (catalog.hover b) := by
  intro c
  have hcatalog := congrArg (Option.map Resolution.catalog) (resolution_ofText source schema h)
  refine ⟨_, hcatalog, fun s hs => ⟨?_, ?_⟩⟩
  · intro note ident b hnode hbinding o hstart hstop
    have hbound := bindingAt?_mark source schema h hs (StatementBody.mark_mem_marks hnode) hbinding
      rfl hstart hstop
    exact ⟨hbound, hoverAt?_eq hcatalog hbound⟩
  · intro note left right b hnode hbinding o hstart hstop
    have hbound := bindingAt?_mark source schema h hs (StatementBody.mark_mem_marks hnode) hbinding
      rfl hstart hstop
    exact ⟨hbound, hoverAt?_eq hcatalog hbound⟩

/-- In the second of the lines `SELECT 1;` and `SELECT t.a FROM t` the cursor stands on `a`,
and right before it the name of the table and its point. -/
theorem hoverAt?_bound_dot :
    let schema : List TableDescriptor :=
      [⟨"t", none, [⟨"a", "integer", true, none, false⟩], [], none⟩]
    let c := ofText "SELECT 1;\nSELECT t.a FROM t" (some schema) {}
    ∃ statement ∈ c.statements, ∃ e ∈ statement.body.allNodes,
      e.subject = some ⟨19, 20⟩ ∧ e.binding = some (.column ⟨0⟩) ∧
        c.index.position 19 = ⟨1, 9⟩ ∧
        c.bindingAt? (c.index.position 19) = some (.column ⟨0⟩) ∧
        c.hoverAt? (c.index.position 19) = some "column t.a: integer NOT NULL" := by
  intro schema c
  have hresolve : ({} : CompileOptions).resolve = true := rfl
  obtain ⟨catalog, hcatalog, hshown⟩ :=
    hoverAt?_bound "SELECT 1;\nSELECT t.a FROM t" schema hresolve
  have hhover : c.catalog?.map (fun catalog => catalog.hover (.column ⟨0⟩)) =
      some "column t.a: integer NOT NULL" := by decide +kernel
  rw [hcatalog, Option.map_some] at hhover
  obtain ⟨statement, hs, e, he, hsubject, hbinding⟩ : ∃ statement ∈ c.statements,
      ∃ e ∈ statement.body.allNodes, e.subject = some ⟨19, 20⟩ ∧
        e.binding = some (.column ⟨0⟩) := by decide +kernel
  refine ⟨statement, hs, e, he, hsubject, hbinding, by decide +kernel, ?_⟩
  rw [← hhover]
  cases e with
  | name note ident =>
    obtain hspan : note.span = ⟨19, 20⟩ := Option.some.inj hsubject
    exact (hshown statement hs).1 note ident _ he hbinding 19 (by simp [hspan]) (by simp [hspan])
  | dot note left right =>
    obtain hspan : right.span = ⟨19, 20⟩ := Option.some.inj hsubject
    exact (hshown statement hs).2 note left right _ he hbinding 19 (by simp [hspan])
      (by simp [hspan])
  | _ => cases hsubject

end Compilation
end SqlAnalysis
