import SqlAnalysis.Proofs.Grammar.Queries
import SqlAnalysis.Proofs.Grammar.Seating

/-!
# Where the marks of expressions and queries stand

The rules of the grammar seat all marks: the marks inside an expression are shorter than
it is, those left of a point end before the name right of it, and between two expressions
of a list, an operation or a query there is always a token.
-/
namespace SqlAnalysis

/-! ### The marks of lists -/

theorem exprMarks_eq (es : List Expr) : exprMarks es = es.flatMap Expr.marks := by
  induction es with
  | nil => rfl
  | cons e es ih => rw [exprMarks, ih, List.flatMap_cons]

/-- The marks of one result column. -/
def ResultColumn.marks (column : ResultColumn) : List Mark :=
  columnMarks [column]

theorem columnMarks_eq (columns : List ResultColumn) :
    columnMarks columns = columns.flatMap ResultColumn.marks := by
  induction columns with
  | nil => rfl
  | cons column columns ih => cases column <;> simp [columnMarks, ResultColumn.marks, ih]

def Join.marks (join : Join) : List Mark :=
  join.source.marks ++ optionMarks join.on

theorem joinMarks_eq (joins : List Join) : joinMarks joins = joins.flatMap Join.marks := by
  induction joins with
  | nil => rfl
  | cons join joins ih =>
    cases join
    simp [joinMarks, Join.marks, ih]

theorem termMarks_eq (terms : List OrderingTerm) :
    termMarks terms = terms.flatMap fun term => term.expr.marks := by
  induction terms with
  | nil => rfl
  | cons term terms ih =>
    cases term
    simp [termMarks, ih]

theorem Expr.marks_eq (e : Expr) : e.marks = e.mark :: e.marks.tail := by
  cases e <;> rfl

/-! ### Expressions -/

theorem Span.Runs.ne_nil {span : Span} {ts : List Token} (h : span.Runs ts) : ts ≠ [] := by
  rintro rfl
  obtain ⟨_, hfirst, _⟩ := h ⟨by simp, .nil⟩
  cases hfirst

theorem Span.Covers.start_lt_stop {span : Span} {ts : List Token} (h : span.Covers ts)
    (hs : Solid ts) : span.start < span.stop := by
  obtain ⟨t, ht, hstart⟩ := h.exists_start
  have hsolid := hs.solid t ht
  have hle := h.le_stop hs.toInOrder ht
  omega

/-- Whether an expression runs over some tokens, is longer than all marks inside it and has
its subject behind them. -/
structure Expr.IsSeated (e : Expr) (ts : List Token) : Prop where
  runs : e.span.Runs ts
  inner : Seated e.marks.tail ts
  length_lt : Solid ts → ∀ m ∈ e.marks.tail, m.place.length < e.span.length
  subject : Solid ts → ∀ s ∈ e.subject, e.span.Encloses s ∧ s.start < s.stop
  beside : Solid ts → ∀ m ∈ e.marks.tail, ∀ s ∈ e.subject, m.place.stop < s.start

namespace Expr.IsSeated

variable {e : Expr} {ts : List Token}

/-- Most expressions have no bytes of their own. -/
theorem of_none (hsubject : e.subject = none) (hruns : e.span.Runs ts)
    (hinner : Seated e.marks.tail ts)
    (hlength : Solid ts → ∀ m ∈ e.marks.tail, m.place.length < e.span.length) :
    e.IsSeated ts :=
  ⟨hruns, hinner, hlength, fun _ s hs => by simp [hsubject] at hs,
    fun _ m _ s hs => by simp [hsubject] at hs⟩

theorem marks (h : e.IsSeated ts) : Seated e.marks ts := by
  rw [e.marks_eq]
  refine h.inner.cons (fun hs => ?_) h.length_lt h.beside
  have hcovers := h.runs hs.toInOrder
  exact ⟨hcovers.exists_start, hcovers.exists_stop, h.subject hs⟩

theorem sheltered (h : e.IsSeated ts) (before : Token) : Sheltered e.marks (before :: ts) :=
  h.marks.sheltered (List.cons_ne_nil before [])

/-- All of a name is its subject. -/
theorem name {note : Note} {ident : Ident} (hruns : note.span.Runs ts) :
    (Expr.name note ident).IsSeated ts where
  runs := hruns
  inner := .nil ts
  length_lt := by simp [Expr.marks]
  subject hs s hsub := by
    obtain rfl : note.span = s := Option.some.inj hsub
    exact ⟨⟨Nat.le_refl _, Nat.le_refl _⟩, (hruns hs.toInOrder).start_lt_stop hs⟩
  beside := by simp [Expr.marks]

theorem dot {note : Note} {left : Expr} {right : Ident} {point : Token} {us : List Token}
    (h : left.IsSeated ts) (hright : right.Spelled us)
    (hruns : note.span.Runs (ts ++ point :: us)) :
    (Expr.dot note left right).IsSeated (ts ++ point :: us) where
  runs := hruns
  inner := h.marks.before _
  length_lt hs := h.marks.length_lt_of_right hruns (List.cons_ne_nil point us) hs
  subject hs s hsub := by
    obtain ⟨t, rfl, ht⟩ := hright.exists_span
    obtain rfl : right.span = s := Option.some.inj hsub
    have hcovers := hruns hs.toInOrder
    have hmem : t ∈ ts ++ [point, t] := by simp
    rw [ht]
    exact ⟨⟨hcovers.start_le hs.toInOrder hmem, hcovers.le_stop hs.toInOrder hmem⟩,
      hs.solid t hmem⟩
  beside hs m hm s hsub := by
    obtain ⟨t, rfl, ht⟩ := hright.exists_span
    obtain rfl : right.span = s := Option.some.inj hsub
    -- The point stands between the two.
    have hbefore := (h.marks.standsIn hs.left m hm).stop_le hs List.mem_cons_self
    have hpoint := hs.right.solid point List.mem_cons_self
    have hbehind : point.span.stop ≤ t.span.start :=
      (List.pairwise_cons.mp hs.right.pairwise).1 t (List.mem_singleton_self t)
    rw [ht]
    omega

theorem binary {note : Note} {left right : Expr} {op : BinaryOperator} {words us : List Token}
    (hleft : left.IsSeated ts) (hwords : words ≠ []) (hright : right.IsSeated us)
    (hruns : note.span.Runs (ts ++ words ++ us)) :
    (Expr.binary note left op right).IsSeated (ts ++ words ++ us) := by
  refine .of_none rfl hruns ?_ fun hs m hm => ?_
  · rw [List.append_assoc]
    exact hleft.marks.append (hright.marks.sheltered hwords)
  · rcases List.mem_append.mp hm with hm | hm
    · rw [List.append_assoc] at hruns hs
      exact hleft.marks.length_lt_of_right hruns (by simp [hwords]) hs m hm
    · exact hright.marks.length_lt_of_left hruns (by simp [hwords]) hs m hm

theorem unary {note : Note} {op : UnaryOperator} {operand : Expr} {sign : Token}
    (h : operand.IsSeated ts) (hruns : note.span.Runs (sign :: ts)) :
    (Expr.unary note op operand).IsSeated (sign :: ts) := by
  exact .of_none rfl hruns (h.sheltered sign).toSeated
    (h.marks.length_lt_of_left hruns (List.cons_ne_nil sign []))

/-- A name grows with its span, and what is left of a point stays there. -/
theorem plus {note : Note} {sign : Token} (h : e.IsSeated ts)
    (hruns : note.span.Runs (sign :: ts)) : (e.withNote note).IsSeated (sign :: ts) := by
  have htail : (e.withNote note).marks.tail = e.marks.tail := by cases e <;> rfl
  have hspan : (e.withNote note).span = note.span := by simp [Expr.span]
  have hinner : Seated (e.withNote note).marks.tail (sign :: ts) :=
    htail ▸ h.inner.after [sign]
  have hlength : Solid (sign :: ts) → ∀ m ∈ (e.withNote note).marks.tail,
      m.place.length < (e.withNote note).span.length := by
    intro hs m hm
    rw [hspan]
    exact h.inner.length_lt_of_left hruns (List.cons_ne_nil sign []) hs m
      (htail ▸ hm)
  have hruns' : (e.withNote note).span.Runs (sign :: ts) := hspan ▸ hruns
  cases e with
  | name => exact name hruns
  | dot _ left right =>
    refine ⟨hruns', hinner, hlength, fun hs s hsub => ?_, fun hs => h.beside hs.tail⟩
    have hcovers := h.runs hs.tail.toInOrder
    obtain ⟨hencloses, hlt⟩ := h.subject hs.tail s hsub
    refine ⟨Span.Encloses.trans ?_ hencloses, hlt⟩
    exact (hruns hs.toInOrder).encloses hs.toInOrder hcovers (List.sublist_cons_self sign ts)
  | _ => exact .of_none rfl hruns' hinner hlength

end Expr.IsSeated

/-! ### Clauses -/

/-- Whether the marks of a query stand over some tokens, behind its first word. -/
def Select.IsSeated (s : Select) (ts : List Token) : Prop :=
  Sheltered s.marks ts

section

variable {ts : List Token}

theorem exprs_seated {es : List Expr} (h : CommaList Expr.IsSeated es ts) :
    Seated (exprMarks es) ts := by
  rw [exprMarks_eq]
  exact h.seated fun _ _ he => he.marks

theorem listed_seated {es : List Expr} (h : Listed Expr.IsSeated es ts) :
    Seated (exprMarks es) ts := by
  rw [exprMarks_eq]
  exact h.seated fun _ _ he => he.marks

theorem option_sheltered {o : Option Expr} {kind : TokenKind}
    (h : Optional (Preceded kind Expr.IsSeated) o ts) : Sheltered (optionMarks o) ts :=
  h.sheltered rfl (Preceded.sheltered fun _ _ he => he.marks)

theorem Ident.Spelled.sheltered {name : Ident} (h : name.Spelled ts) (binding : Option Binding) :
    Sheltered [.plain name.span binding] ts := by
  have hmark : ∀ m ∈ [Mark.plain name.span binding], m.subject = none := by simp [Mark.plain]
  refine Seated.sheltered_of_none ⟨fun hs m hm => ?_, by simp⟩ hmark
  obtain rfl := List.mem_singleton.mp hm
  have hcovers := h.runs hs.toInOrder
  exact ⟨hcovers.exists_start, hcovers.exists_stop, fun s hsub => by cases hsub⟩

theorem resultColumn_seated {column : ResultColumn}
    (h : column.SpelledWith Expr.IsSeated ts) : Seated column.marks ts := by
  cases h with
  | star _ => exact .nil _
  | tableStar _ _ _ => exact .nil _
  | expr hvalue _ =>
    rw [ResultColumn.marks, columnMarks, columnMarks, List.append_nil]
    exact hvalue.marks.before _

/-- An alias of a table is a mark, that of a query is none. -/
theorem source_sheltered {source : Source} (h : source.SpelledWith Select.IsSeated ts) :
    Sheltered source.marks ts := by
  cases h with
  | table hname hlabel =>
    have hname := hname.sheltered none
    cases hlabel with
    | none => exact hname.before _
    | plain _ hlabel => exact hname.append (hlabel.sheltered none)
    | marked _ hlabel => exact hname.append ((hlabel.sheltered none).after [_])
  | subquery hselect _ =>
    exact (hselect.sheltered fun _ hs => hs.toSeated).before _

theorem join_sheltered {join : Join} (h : join.SpelledWith Expr.IsSeated Select.IsSeated ts) :
    Sheltered join.marks ts := by
  obtain ⟨_, _, hsource, hon⟩ := h
  exact ((source_sheltered hsource).after _).append (option_sheltered hon)

theorem fromClause_sheltered {clause : FromClause}
    (h : clause.SpelledWith Expr.IsSeated Select.IsSeated ts) :
    Sheltered (sourceMarks (some clause)) ts := by
  obtain ⟨hsource, hjoins⟩ := h
  rw [sourceMarks, joinMarks_eq]
  exact (source_sheltered hsource).append (hjoins.sheltered fun _ _ h => join_sheltered h)

theorem groupBy_sheltered {clause : GroupBy} (h : clause.SpelledWith Expr.IsSeated ts) :
    Sheltered (groupMarks (some clause)) ts := by
  obtain ⟨_, _, hexprs, hhaving⟩ := h
  exact (((exprs_seated hexprs).append (option_sheltered hhaving)).sheltered
    (List.cons_ne_nil _ [_]))

theorem orderBy_sheltered {clause : OrderBy} (h : clause.SpelledWith Expr.IsSeated ts) :
    Sheltered (orderMarks (some clause)) ts := by
  obtain ⟨_, _, hterms⟩ := h
  rw [orderMarks, termMarks_eq]
  refine (hterms.seated fun term us hterm => ?_).sheltered (List.cons_ne_nil _ [_])
  obtain ⟨hexpr, _, _⟩ := hterm
  exact (hexpr.marks.before _).before _

/-- With a comma the offset is read first. -/
theorem limit_sheltered {clause : Limit} (h : clause.SpelledWith Expr.IsSeated ts) :
    Sheltered (limitMarks (some clause)) ts := by
  cases h with
  | plain _ hcount =>
    rw [limitMarks, optionMarks, List.append_nil]
    exact hcount.sheltered _
  | offset _ hcount _ hskipped =>
    exact (hcount.marks.append (hskipped.sheltered _)).sheltered (List.cons_ne_nil _ [])
  | comma _ hskipped _ hcount =>
    refine Seated.sheltered (.perm ?_ List.perm_append_comm) (List.cons_ne_nil _ [])
    exact hskipped.marks.append (hcount.sheltered _)

theorem select_sheltered {select : Select}
    (h : select.SpelledWith Expr.IsSeated Select.IsSeated ts) : select.IsSeated ts := by
  obtain @⟨_, _, _, _, _, _, _, _, word, qs, _, _, _, _, _, _, _, _, hcolumns, hsource,
    hcondition, hgroupBy, horderBy, hlimit⟩ := h
  have hcolumns := hcolumns.seated fun _ _ h => resultColumn_seated h
  rw [← columnMarks_eq] at hcolumns
  have hsource := hsource.sheltered (g := sourceMarks) rfl
    (Preceded.sheltered (f := fun clause => sourceMarks (some clause)) fun _ _ hclause =>
      (fromClause_sheltered hclause).toSeated)
  have hgroupBy := hgroupBy.sheltered (g := groupMarks) rfl fun _ _ => groupBy_sheltered
  have horderBy := horderBy.sheltered (g := orderMarks) rfl fun _ _ => orderBy_sheltered
  have hlimit := hlimit.sheltered (g := limitMarks) rfl fun _ _ => limit_sheltered
  have hresult := hcolumns.sheltered (List.cons_ne_nil word qs)
  exact ((((hresult.append hsource).append (option_sheltered hcondition)).append hgroupBy).append
    horderBy).append hlimit

end

theorem seated_rules : Rules Expr.IsSeated Select.IsSeated where
  constant _ hruns := .of_none rfl hruns (.nil _) (by simp [Expr.marks])
  name _ hruns := .name hruns
  dot hleft _ hright hruns := hleft.dot hright hruns
  binary {_ _ op _ words _ _} hleft hwords hright _ hruns := by
    have hlen := op.length_words_pos
    rw [← hwords, List.length_map] at hlen
    exact hleft.binary (List.ne_nil_of_length_pos hlen) hright hruns
  unary _ hoperand _ hruns := hoperand.unary hruns
  plus _ he _ hruns := he.plus hruns
  call _ hargs hruns :=
    .of_none rfl hruns ((hargs.sheltered fun _ => listed_seated).after _).toSeated
      fun hs => hargs.length_lt (fun _ => listed_seated) _ hruns hs
  callStar _ _ _ _ hruns := .of_none rfl hruns (.nil _) (by simp [Expr.marks])
  brackets hinner hruns :=
    .of_none rfl hruns (hinner.sheltered fun _ he => he.marks).toSeated
      fun hs => hinner.length_lt (fun _ he => he.marks) [] hruns hs
  list hitems hruns :=
    .of_none rfl hruns (hitems.sheltered fun _ => listed_seated).toSeated
      fun hs => hitems.length_lt (fun _ => listed_seated) [] hruns hs
  subquery hselect hruns :=
    .of_none rfl hruns (hselect.sheltered fun _ hs => hs.toSeated).toSeated
      fun hs => hselect.length_lt (fun _ hs => hs.toSeated) [] hruns hs
  select := select_sheltered

end SqlAnalysis
