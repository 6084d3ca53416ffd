import SqlAnalysis.Proofs.Grammar.CleanDefinitions
import SqlAnalysis.Proofs.Grammar.Verbatim

/-!
# Canonical texts written again

The canonical text of a table or of an insertion is read as a statement of the same kind. Its
canonical text is the same again as long as each default is a literal, and none a truth value
among texts. A default that is no literal gets another pair of brackets each time it is
written, and the number of a truth value gets quotes the second time.
-/
namespace SqlAnalysis

/-! ### Texts that grow -/

/-- Whether a text stays as it is if something is settled, and gets longer if not. -/
structure GrowsUnless (settled : Prop) (text text' : String) : Prop where
  same : settled → text' = text
  longer : ¬ settled → text.length < text'.length

namespace GrowsUnless

variable {p q : Prop} {s s' t t' : String}

theorem of_eq (hp : p) (h : s' = s) : GrowsUnless p s s' :=
  ⟨fun _ => h, absurd hp⟩

theorem of_lt (hp : ¬ p) (h : s.length < s'.length) : GrowsUnless p s s' :=
  ⟨fun hp' => absurd hp' hp, fun _ => h⟩

theorem congr (h : GrowsUnless p s s') (hpq : p ↔ q) : GrowsUnless q s s' :=
  propext hpq ▸ h

theorem eq_iff (h : GrowsUnless p s s') : s' = s ↔ p := by
  refine ⟨fun heq => ?_, h.same⟩
  by_contra hp
  have hlonger := h.longer hp
  rw [heq] at hlonger
  exact lt_irrefl _ hlonger

theorem length_le (h : GrowsUnless p s s') : s.length ≤ s'.length := by
  by_cases hp : p
  · rw [h.same hp]
  · exact (h.longer hp).le

theorem append (h : GrowsUnless p s s') (h' : GrowsUnless q t t') :
    GrowsUnless (p ∧ q) (s ++ t) (s' ++ t') := by
  refine ⟨fun ⟨hp, hq⟩ => by rw [h.same hp, h'.same hq], fun hpq => ?_⟩
  have hs := h.length_le
  have ht := h'.length_le
  rw [String.length_append, String.length_append]
  by_cases hp : p
  · have hlonger := h'.longer fun hq => hpq ⟨hp, hq⟩
    omega
  · have hlonger := h.longer hp
    omega

theorem prepend (h : GrowsUnless p s s') (before : String) :
    GrowsUnless p (before ++ s) (before ++ s') :=
  ((of_eq trivial rfl : GrowsUnless True before before).append h).congr (by rw [true_and])

theorem between (h : GrowsUnless p s s') (before behind : String) :
    GrowsUnless p (before ++ s ++ behind) (before ++ s' ++ behind) :=
  ((h.prepend before).append (of_eq trivial rfl : GrowsUnless True behind behind)).congr
    (by rw [and_true])

theorem join {α β : Type} {settled : α → Prop} {f : α → String} {g : β → String} {as : List α}
    {bs : List β} (h : List.Forall₂ (fun a b => GrowsUnless (settled a) (f a) (g b)) as bs) :
    GrowsUnless (∀ a ∈ as, settled a) (String.join (as.map f)) (String.join (bs.map g)) := by
  induction h with
  | nil => exact of_eq nofun rfl
  | cons hab _ ih =>
    rw [List.map_cons, List.map_cons, String.join_cons, String.join_cons]
    exact (hab.append ih).congr List.forall_mem_cons.symm

theorem joinWith {α β : Type} {settled : α → Prop} {f : α → String} {g : β → String} {as : List α}
    {bs : List β} (sep : String)
    (h : List.Forall₂ (fun a b => GrowsUnless (settled a) (f a) (g b)) as bs) :
    GrowsUnless (∀ a ∈ as, settled a) (Text.joinWith sep (as.map f))
      (Text.joinWith sep (bs.map g)) := by
  cases h with
  | nil => exact of_eq nofun rfl
  | @cons a b as bs hab hrest =>
    have hbehind : List.Forall₂ (fun a b => GrowsUnless (settled a) (sep ++ f a) (sep ++ g b)) as bs :=
      hrest.imp fun _ _ h => h.prepend sep
    rw [List.map_cons, List.map_cons, joinWith_cons, joinWith_cons, List.map_map, List.map_map]
    exact (hab.append (join hbehind)).congr List.forall_mem_cons.symm

end GrowsUnless

/-! ### Settled definitions -/

/-- Whether a default stays as it is written once it is canonical: it is a literal, and no
truth value that becomes a number among texts. -/
def Expr.isSettled (type : Option SqlType) (value : Expr) : Bool :=
  value.literal?.any fun literal =>
    !(literal.isBoolean && type.any fun t => t.kind.quotesNumbers)

def ColumnRule.isSettled (type : Option SqlType) : ColumnRule → Bool
  | .default value => value.isSettled type
  | _ => true

def ColumnDef.isSettled (d : ColumnDef) : Bool :=
  d.constraints.all fun c => c.rule.isSettled d.knownType?

def CreateTable.isSettled (s : CreateTable) : Bool :=
  s.columns.all ColumnDef.isSettled

/-- Whether no default of the statement changes each time it is written. -/
def StatementBody.isSettled : StatementBody → Bool
  | .createTable s => s.isSettled
  | _ => true

theorem Expr.readDefault_of_none {value : Expr} (h : value.literal? = none) :
    value.readDefault = .brackets { span := Span.zero } value := by
  simp [readDefault, h]

theorem Expr.readDefault_of_some {value : Expr} {literal : Literal}
    (h : value.literal? = some literal) : value.readDefault = value := by
  simp [readDefault, h]

/-- A default that is no literal gets brackets each time that it is written. A literal is read
as the one that was written. -/
theorem Expr.stored_grows {type : Option SqlType} {value value' : Expr}
    (hsigned : value.DefaultOf Expr.WritesSigned)
    (h : (value.stored type).readDefault.Kept value') :
    GrowsUnless (value.isSettled type) (ColumnRule.default (value.stored type)).render
      (ColumnRule.default (value'.stored type)).render := by
  cases hliteral : value.literal? with
  | none =>
    rw [stored_of_none hliteral, readDefault_of_none hliteral] at h
    have hliteral' : value'.literal? = none := h.literal?.trans hliteral
    have htext : value'.render = "(" ++ value.render ++ ")" := h.text
    refine .of_lt (by simp [isSettled, hliteral]) ?_
    rw [stored_of_none hliteral, stored_of_none hliteral', ColumnRule.render_default_of_none hliteral,
      ColumnRule.render_default_of_none hliteral', htext]
    simp only [String.length_append]
    have hbracket : "(".length = 1 := rfl
    omega
  | some literal =>
    cases type with
    | none =>
      rw [stored_untyped, readDefault_of_some hliteral] at h
      have hliteral' : value'.literal? = some literal := h.literal?.trans hliteral
      refine .of_eq (by simp [isSettled, hliteral]) ?_
      rw [stored_untyped, stored_untyped, ColumnRule.render_default_of_some hliteral,
        ColumnRule.render_default_of_some hliteral', h.text]
    | some t =>
      have hvalue := hsigned.signed hliteral
      have hstored : (value.stored (some t)).literal? = some (t.kind.stored literal) := by
        rw [stored_of_some hliteral]
        exact (TypeKind.stored_signed t.kind hvalue).literal?_asDefault
      rw [readDefault_of_some hstored] at h
      have hsettled : value.isSettled (some t) = !(literal.isBoolean && t.kind.quotesNumbers) := by
        simp [isSettled, hliteral]
      rw [ColumnRule.render_stored_of_some hliteral,
        ColumnRule.render_stored_of_some (h.literal?.trans hstored), hsettled]
      cases hquoted : literal.isBoolean && t.kind.quotesNumbers with
      | false => exact .of_eq rfl (by rw [TypeKind.stored_stored hvalue hquoted])
      | true =>
        obtain ⟨hboolean, hquotes⟩ := Bool.and_eq_true_iff.mp hquoted
        refine .of_lt nofun ?_
        rw [String.length_append, String.length_append]
        exact Nat.add_lt_add_left (TypeKind.length_stored_lt hquotes hboolean) _

/-! ### Rules written again -/

namespace ColumnRule

variable {rule rule' : ColumnRule} {type : Option SqlType}

theorem rank_clean (type : Option SqlType) (rule : ColumnRule) : (rule.clean type).rank = rule.rank := by
  cases rule <;> rfl

theorem Kept.rank (h : rule.Kept rule') : rule'.rank = rule.rank := by
  cases h <;> rfl

/-- Checks come last. -/
theorem isCheck_iff : rule.isCheck = true ↔ 6 ≤ rule.rank := by
  cases rule <;> simp [isCheck, rank]

theorem rank_le (rule : ColumnRule) : rule.rank ≤ 6 := by
  cases rule <;> simp [rank]

/-- Only a default can be read as a rule that is written otherwise. -/
theorem Kept.grows (hsigned : rule.BuiltOf Expr.WritesSigned) (h : (rule.clean type).Kept rule') :
    GrowsUnless (rule.isSettled type) (rule.clean type).render (rule'.clean type).render := by
  cases rule with
  | default value =>
    cases h with
    | default hvalue => exact Expr.stored_grows hsigned hvalue
  | references clause =>
    cases h with
    | references hclause => exact .of_eq rfl hclause.text
  | collate collation =>
    cases h with
    | collate hcollation => exact .of_eq rfl (congrArg ("COLLATE " ++ ·) hcollation.text)
  | check condition =>
    cases h with
    | check hcondition =>
      exact .of_eq rfl (congrArg (fun text => "CHECK (" ++ text ++ ")") hcondition.text)
  | _ =>
    cases h
    exact .of_eq rfl rfl

end ColumnRule

theorem ColumnConstraint.Kept.grows {c c' : ColumnConstraint} {type : Option SqlType}
    (hsigned : c.BuiltOf Expr.WritesSigned) (h : (c.clean type).Kept c') :
    GrowsUnless (c.rule.isSettled type) (ColumnDef.canonicalConstraint type c)
      (ColumnDef.canonicalConstraint type c') := by
  have hname : renderConstraintName c'.name = renderConstraintName c.name :=
    renderConstraintName_kept h.name
  have hgrows := (h.rule.grows hsigned.rule).prepend (renderConstraintName c.name)
  rw [← render_clean, ← render_clean, render, render]
  show GrowsUnless _ (renderConstraintName c.name ++ _) (renderConstraintName c'.name ++ _)
  rwa [hname]

/-! ### Columns written again -/

namespace ColumnDef

variable {d d' : ColumnDef}

/-- The order of the rules of a column. -/
def InOrder (cs : List ColumnConstraint) : Prop :=
  cs.Pairwise fun a b => a.rule.rank ≤ b.rule.rank

/-- Checks may stand behind all other rules, in any order. -/
theorem InOrder.append_checks {cs checks : List ColumnConstraint} (h : InOrder cs)
    (hchecks : ∀ c ∈ checks, c.rule.isCheck = true) : InOrder (cs ++ checks) := by
  have hlast (c : ColumnConstraint) : ∀ c' ∈ checks, c.rule.rank ≤ c'.rule.rank := fun c' hc' =>
    c.rule.rank_le.trans (ColumnRule.isCheck_iff.mp (hchecks c' hc'))
  exact List.pairwise_append.mpr ⟨h, List.pairwise_of_forall_mem_list fun c _ => hlast c,
    fun c _ => hlast c⟩

theorem InOrder.filter_append {cs : List ColumnConstraint} (h : InOrder cs) :
    cs.filter (not ∘ fun c => c.rule.isCheck) ++ cs.filter (fun c => c.rule.isCheck) = cs := by
  induction cs with
  | nil => rfl
  | cons c cs ih =>
    obtain ⟨hc, hcs⟩ := List.pairwise_cons.mp h
    cases hcheck : c.rule.isCheck with
    | false => simpa [hcheck] using ih hcs
    | true =>
      have hlast : ∀ b ∈ cs, b.rule.isCheck = true := fun b hb =>
        ColumnRule.isCheck_iff.mpr ((ColumnRule.isCheck_iff.mp hcheck).trans (hc b hb))
      have hrules : cs.filter (not ∘ fun c => c.rule.isCheck) = [] :=
        List.filter_eq_nil_iff.mpr fun b hb => by simp [hlast b hb]
      rw [List.filter_cons_of_neg (by simp [hcheck]), hrules, List.nil_append,
        List.filter_eq_self.mpr (by simpa [hcheck] using hlast)]

theorem ordered_eq (d : ColumnDef) : d.orderedConstraints =
    d.sortedConstraints.filter (not ∘ fun c => c.rule.isCheck) ++
      d.impliedExpr?.toList.map (fun e => ⟨none, .check e, Span.zero⟩) ++
        d.sortedConstraints.filter fun c => c.rule.isCheck := by
  rw [orderedConstraints, List.partition_eq_filter_filter]

theorem inOrder_ordered (d : ColumnDef) : InOrder d.orderedConstraints := by
  have hsorted : InOrder d.sortedConstraints :=
    (List.pairwise_mergeSort (by simpa using fun a b c => le_trans)
      (by simpa using fun a b => le_total _ _) d.constraints).imp fun h => of_decide_eq_true h
  have hrules : InOrder (d.sortedConstraints.filter (not ∘ fun c => c.rule.isCheck)) :=
    hsorted.sublist List.filter_sublist
  rw [ordered_eq]
  refine (hrules.append_checks ?_).append_checks ?_
  · simp [ColumnRule.isCheck]
  · exact fun c hc => (List.mem_filter.mp hc).2

/-- Rules that stand in their order stay there, if no check is missing. -/
theorem ordered_of_inOrder (horder : InOrder d.constraints) (himplied : d.impliedCheck? = none) :
    d.orderedConstraints = d.constraints := by
  have hsorted : d.sortedConstraints = d.constraints :=
    List.mergeSort_of_pairwise (horder.imp fun h => decide_eq_true h)
  rw [impliedCheck?_eq, Option.map_eq_none_iff] at himplied
  rw [ordered_eq, hsorted, himplied, Option.toList_none, List.map_nil, List.append_nil]
  exact horder.filter_append

theorem Kept.canonicalType (htype : d.type = none) (h : d.clean.Kept d') :
    d'.canonicalType = d.canonicalType := by
  have hknown : d'.knownType? = d.knownType? := h.knownType?.trans (knownType?_clean htype)
  unfold ColumnDef.canonicalType
  rw [hknown]
  cases ht : d.knownType? with
  | some t => rfl
  | none =>
    have hwritten : Option.Rel TypeName.Kept d.typeName d'.typeName := by
      simpa only [clean, ht, Option.elim_none] using h.typeName
    generalize d.typeName = o, d'.typeName = o' at hwritten ⊢
    cases hwritten with
    | none => rfl
    | some hname => exact congrArg (" " ++ ·) hname.text

theorem isSettled_iff : d.isSettled = true ↔
    ∀ c ∈ d.orderedConstraints, c.rule.isSettled d.knownType? = true := by
  rw [isSettled, List.all_eq_true]
  refine ⟨fun h c hc => ?_, fun h c hc => h c (mem_orderedConstraints.mpr (.inl hc))⟩
  rcases mem_orderedConstraints.mp hc with hc | ⟨e, -, rfl⟩
  · exact h c hc
  · rfl

/-- What is read from the canonical text of a column has its rules in their order and misses
no check, so that only defaults can be written otherwise. -/
theorem Kept.grows (htype : d.type = none) (hsigned : d.BuiltOf Expr.WritesSigned)
    (h : d.clean.Kept d') : GrowsUnless (d.isSettled = true) d.canonical d'.canonical := by
  have hkept : List.Forall₂ (fun c c' => (c.clean d.knownType?).Kept c') d.orderedConstraints
      d'.constraints := List.forall₂_map_left_iff.mp h.constraints
  have hranks : d'.constraints.map (fun c => c.rule.rank) =
      d.orderedConstraints.map fun c => c.rule.rank :=
    map_eq_of_forall₂ (hkept.imp fun c _ hc => hc.rule.rank.trans (c.rule.rank_clean _))
  have horder : InOrder d'.constraints := by
    have hordered := List.pairwise_map.mpr d.inOrder_ordered
    rw [← hranks] at hordered
    exact List.pairwise_map.mp hordered
  have hknown : d'.knownType? = d.knownType? := h.knownType?.trans (knownType?_clean htype)
  have hconstraints := GrowsUnless.join (((List.forall₂_and_left _ _).mpr
    ⟨hsigned.ordered writesSigned_builds, hkept⟩).imp fun c c' hc => (hc.2.grows hc.1).prepend " ")
  have hname : d'.name.render = d.name.render := h.name.text
  rw [d.canonical_eq, d'.canonical_eq, ordered_of_inOrder horder (h.impliedCheck? htype), hknown,
    hname, h.canonicalType htype]
  exact (hconstraints.prepend (d.name.render ++ d.canonicalType)).congr isSettled_iff.symm

end ColumnDef

/-! ### Tables written again -/

namespace CreateTable

variable {s s' : CreateTable}

theorem Kept.grows (hsigned : s.BuiltOf Expr.WritesSigned) (h : s.clean.Kept s') :
    GrowsUnless (s.isSettled = true) s.canonical s'.canonical := by
  have hcolumns : List.Forall₂ (fun d d' => GrowsUnless (d.isSettled = true) d.canonical d'.canonical)
      s.columns s'.columns :=
    ((List.forall₂_and_left _ _).mpr ⟨hsigned.columns, List.forall₂_map_left_iff.mp h.columns⟩).imp
      fun d d' hd => hd.2.grows hd.1.type hd.1
  have hconstraints : List.Forall₂ (fun c c' => GrowsUnless True c.render c'.render)
      s.constraints s'.constraints := h.constraints.imp fun c c' hc => .of_eq trivial hc.text
  have hitems : List.Forall₂ (fun item item' =>
      GrowsUnless (item.elim (fun d => d.isSettled = true) fun _ => True)
        (item.elim ColumnDef.canonical TableConstraint.render)
        (item'.elim ColumnDef.canonical TableConstraint.render)) s.items s'.items :=
    List.rel_append (List.forall₂_map_left_iff.mpr (List.forall₂_map_right_iff.mpr hcolumns))
      (List.forall₂_map_left_iff.mpr (List.forall₂_map_right_iff.mpr hconstraints))
  have hne : s'.items ≠ [] := by
    have hlength := hitems.length_eq
    have hpos := List.length_pos_iff.mpr hsigned.items
    exact List.length_pos_iff.mp (by omega)
  have hsettled : s.isSettled = true ↔
      ∀ item ∈ s.items, item.elim (fun d => d.isSettled = true) fun _ => True := by
    simp [isSettled, items, or_imp, forall_and]
  have hname : s'.name.render = s.name.render := h.name.text
  have hgiven : s'.ifNotExists = s.ifNotExists := h.ifNotExists
  rw [canonical_eq hsigned.items, canonical_eq hne, hname, hgiven]
  refine GrowsUnless.congr ?_ hsettled.symm
  have hlines := (GrowsUnless.joinWith ",\n  " hitems).between "\n  " "\n"
  simpa only [String.append_assoc] using hlines.between ("CREATE TABLE " ++
    (if s.ifNotExists then "IF NOT EXISTS " else "") ++ s.name.render ++ " (") ")"

end CreateTable

/-! ### Statements -/

theorem Expr.canonical_none (e : Expr) : e.canonical none = e.render := by
  unfold canonical
  cases e.literal? <;> rfl

/-- The values of an insertion into columns that are not known stay as they are. -/
theorem Insert.canonical_none (s : Insert) : s.canonical none = s.render := by
  have hrow : ValueRow.canonical [] = ValueRow.render := funext fun row => by
    have hvalues := congrArg (List.map Expr.render) (List.zipIdx_map_fst 0 row.values)
    rw [List.map_map] at hvalues
    simpa [ValueRow.canonical, ValueRow.render, Expr.canonical_none, Function.comp_def]
      using congrArg bracketList hvalues
  rw [canonical, render, hrow]

theorem StatementBody.exists_insert {body : StatementBody} {insert : Insert}
    (h : body.skeleton = .insert insert) : ∃ insert', body = .insert insert' := by
  cases body with
  | insert insert' => exact ⟨insert', rfl⟩
  | _ => cases h

namespace Statement

theorem canonical_insert {s : Statement} {insert : Insert} (h : s.body = .insert insert)
    (source : String) : s.canonical source none = s.render := by
  rw [canonical, h, render, h]
  exact insert.canonical_none

/-- The canonical text of a table or of an insertion is read without a complaint, as one
statement of the same kind. It is the canonical text of that statement exactly if all defaults
are settled. -/
theorem canonical_stable_iff {source : String} {s : Statement}
    (hshowable : ∀ t ∈ (Lexed.ofText source).tokens, t.kind.isShowable = true)
    (hs : s ∈ (Script.ofTokens (Lexed.ofText source).tokens).statements)
    (hbody : s.body.isVerbatim = false) :
    let text := s.canonical source none
    (Lexed.ofText text).errors = [] ∧ (Script.ofTokens (Lexed.ofText text).tokens).errors = [] ∧
      ∃ s', (Script.ofTokens (Lexed.ofText text).tokens).statements = [s'] ∧
        s'.body.keyword = s.body.keyword ∧
          (s'.canonical text none = text ↔ s.body.isSettled = true) := by
  have hplain := Lexed.ofText_plain hshowable
  cases hkind : s.body with
  | createTable table =>
    have htext : s.canonical source none = table.canonical := by rw [canonical, hkind]
    rw [htext]
    obtain ⟨hlexical, s', hstatements, hsyntactic, table', hbody', hkept⟩ :=
      CreateTable.canonical_keeps hshowable hs hkind
    have hsigned := Script.ofTokens_built writesSigned_builds hplain s hs
    rw [hkind] at hsigned
    refine ⟨hlexical, hsyntactic, s', hstatements, by rw [hbody']; rfl, ?_⟩
    have htext' : s'.canonical table.canonical none = table'.canonical := by rw [canonical, hbody']
    rw [htext']
    exact (hkept.grows hsigned).eq_iff
  | insert body =>
    rw [canonical_insert hkind]
    obtain ⟨hlexical, hsyntactic, s', hstatements, hbare, hrender⟩ :=
      render_reads_back hshowable hs (by rw [hkind]; rfl)
    have hskeleton : s'.body.skeleton = s.body.skeleton := congrArg Statement.body hbare
    rw [hkind] at hskeleton
    obtain ⟨body', hbody'⟩ := StatementBody.exists_insert hskeleton
    refine ⟨hlexical, hsyntactic, s', hstatements, by rw [hbody']; rfl, ?_⟩
    rw [canonical_insert hbody', hrender]
    exact iff_of_true rfl rfl
  | _ =>
    rw [hkind] at hbody
    cases hbody

/-- A number and a truth value as defaults of a text column. -/
theorem canonical_stable_iff_defaults :
    let source := "create table t (a text default 1); create table t (a text default true)"
    let script := Script.ofTokens (Lexed.ofText source).tokens
    (∃ s ∈ script.statements, let text := s.canonical source none
      (Lexed.ofText text).errors = [] ∧ (Script.ofTokens (Lexed.ofText text).tokens).errors = [] ∧
        ∃ s', (Script.ofTokens (Lexed.ofText text).tokens).statements = [s'] ∧
          s'.body.keyword = "CREATE TABLE" ∧ s'.canonical text none = text) ∧
      ∃ s ∈ script.statements, let text := s.canonical source none
        ∃ s', (Script.ofTokens (Lexed.ofText text).tokens).statements = [s'] ∧
          s'.canonical text none ≠ text := by
  intro source script
  have hshowable : ∀ t ∈ (Lexed.ofText source).tokens, t.kind.isShowable = true := by decide +kernel
  have hkinds : script.statements.map (fun s => (s.body.keyword, s.body.isVerbatim, s.body.isSettled)) =
      [("CREATE TABLE", false, true), ("CREATE TABLE", false, false)] := by decide +kernel
  obtain ⟨s, hs, hkind⟩ := List.mem_map.mp (hkinds ▸ List.mem_cons_self)
  obtain ⟨u, hu, hkind'⟩ := List.mem_map.mp (hkinds ▸ List.mem_cons_of_mem _ List.mem_cons_self)
  simp only [Prod.mk.injEq] at hkind hkind'
  obtain ⟨hkeyword, hbody, hsettled⟩ := hkind
  obtain ⟨-, hbody', hunsettled⟩ := hkind'
  obtain ⟨hlexical, hsyntactic, s', hstatements, hkeyword', hstable⟩ :=
    canonical_stable_iff hshowable hs hbody
  obtain ⟨-, -, u', hstatements', -, hstable'⟩ := canonical_stable_iff hshowable hu hbody'
  refine ⟨⟨s, hs, hlexical, hsyntactic, s', hstatements, hkeyword'.trans hkeyword,
    hstable.mpr hsettled⟩, u, hu, u', hstatements', fun htext => ?_⟩
  rw [hstable'.mp htext] at hunsettled
  cases hunsettled

end Statement
end SqlAnalysis
