import SqlAnalysis.Compilation.Basic

/-!
# Shadowing

The list of visible names gives each name the meaning it has in the innermost scope that
binds it. A search for columns is different: it walks past scopes where the name stands for
tables only.
-/
namespace SqlAnalysis

namespace Scope

/-! ### Names bound once -/

/-- Whether no name has two entries. -/
def Keyed (symbols : List (String × Symbol)) : Prop :=
  (symbols.map Prod.fst).Nodup

variable {symbols seen more : List (String × Symbol)} {name : String} {symbol : Symbol}

theorem Keyed.mem_iff (h : Keyed symbols) :
    (name, symbol) ∈ symbols ↔ symbols.lookup name = some symbol := by
  rw [List.lookup_eq_some_iff]
  constructor
  · intro hmem
    obtain ⟨before, behind, rfl⟩ := List.append_of_mem hmem
    refine ⟨before, behind, rfl, fun entry hentry => bne_iff_ne.mpr ?_⟩
    rintro rfl
    rw [Keyed, List.map_append, List.nodup_append] at h
    exact h.2.2 _ (List.mem_map_of_mem hentry) _ List.mem_cons_self rfl
  · rintro ⟨before, behind, rfl, -⟩
    simp

theorem keys_update (key : String) (f : Symbol → Symbol) (symbols : List (String × Symbol)) :
    (update key f symbols).map Prod.fst =
      if key ∈ symbols.map Prod.fst then symbols.map Prod.fst
      else symbols.map Prod.fst ++ [key] := by
  induction symbols with
  | nil => rfl
  | cons entry rest ih =>
    obtain ⟨other, first⟩ := entry
    by_cases hkey : other = key
    · simp [update, hkey]
    · rw [update, if_neg hkey, List.map_cons, ih]
      simp only [List.map_cons, List.mem_cons, Ne.symm hkey, false_or]
      split <;> rfl

theorem Keyed.update (h : Keyed symbols) (key : String) (f : Symbol → Symbol) :
    Keyed (update key f symbols) := by
  unfold Keyed at h ⊢
  rw [keys_update]
  split
  · exact h
  · next hfresh =>
    refine List.nodup_append.mpr ⟨h, List.pairwise_singleton _ key, ?_⟩
    rintro other hother _ hadded rfl
    exact hfresh (List.mem_singleton.mp hadded ▸ hother)

theorem Keyed.addHidden (hseen : Keyed seen) (hmore : Keyed more) :
    Keyed (addHidden seen more) := by
  unfold Keyed Scope.addHidden
  rw [List.map_append]
  refine List.nodup_append.mpr ⟨hseen, hmore.sublist (List.filter_sublist.map _), ?_⟩
  rintro _ hkey _ hadded rfl
  obtain ⟨entry, hentry, hname⟩ := List.mem_map.mp hadded
  obtain ⟨other, hother, rfl⟩ := List.mem_map.mp hkey
  have hhidden := (List.mem_filter.mp hentry).2
  simp only [Bool.not_eq_true', List.any_eq_false, beq_iff_eq] at hhidden
  exact hhidden other hother hname.symm

/-! ### The innermost meaning -/

/-- The names that are there already hide those that are added. -/
theorem lookup_addHidden (seen more : List (String × Symbol)) (name : String) :
    (addHidden seen more).lookup name = (seen.lookup name).or (more.lookup name) := by
  rw [addHidden, List.lookup_append]
  cases hseen : seen.lookup name with
  | some symbol => rfl
  | none =>
    rw [Option.none_or, Option.none_or]
    rw [List.lookup_eq_none_iff] at hseen
    induction more with
    | nil => rfl
    | cons entry more ih =>
      rw [List.filter_cons]
      split
      · rw [List.lookup_cons, List.lookup_cons, ih]
      · next hhidden =>
        -- A hidden entry has another name than the one that is looked up.
        have hname : (name == entry.1) = false := by
          simp only [Bool.not_eq_true, Bool.not_eq_false', List.any_eq_true, beq_iff_eq] at hhidden
          obtain ⟨other, hother, hsame⟩ := hhidden
          rw [← hsame]
          exact Bool.not_eq_true' _ ▸ hseen other hother
        rw [ih, List.lookup_cons, hname]

/-- What a name stands for in the innermost scope that binds it. -/
theorem lookup_foldl_addHidden {scopes : List Scope} (hname : Text.foldCase name = name) :
    ∀ seen, (scopes.foldl (fun seen s => addHidden seen s.symbols) seen).lookup name =
      (seen.lookup name).or (lookup scopes name fun _ => true) := by
  induction scopes with
  | nil => exact fun seen => (Option.or_none).symm
  | cons s scopes ih =>
    intro seen
    have hfirst : s.symbols.lookup name = s.symbol? name := by rw [symbol?, hname]
    rw [List.foldl_cons, ih, lookup_addHidden, hfirst, Option.or_assoc]
    congr 1
    unfold lookup
    cases hsymbol : s.symbol? name with
    | none => simp [hsymbol]
    | some symbol => simp [hsymbol]

theorem keyed_foldl_addHidden {scopes : List Scope} (h : ∀ s ∈ scopes, Keyed s.symbols) :
    ∀ {seen}, Keyed seen → Keyed (scopes.foldl (fun seen s => addHidden seen s.symbols) seen) := by
  induction scopes with
  | nil => exact id
  | cons s scopes ih =>
    obtain ⟨hfirst, hrest⟩ := List.forall_mem_cons.mp h
    exact fun hseen => ih hrest (hseen.addHidden hfirst)

theorem mem_visible_iff {scopes : List Scope} (h : ∀ s ∈ scopes, Keyed s.symbols)
    (hname : Text.foldCase name = name) :
    (name, symbol) ∈ visible scopes ↔ lookup scopes name (fun _ => true) = some symbol := by
  have hnil : Keyed [] := List.nodup_nil
  rw [visible, sorted, (List.mergeSort_perm _ _).mem_iff, (keyed_foldl_addHidden h hnil).mem_iff,
    lookup_foldl_addHidden hname, List.lookup_nil, Option.none_or]

/-- The visible names whose meaning has a property are those whose innermost meaning has it. -/
theorem mem_filter_visible_iff {scopes : List Scope} (h : ∀ s ∈ scopes, Keyed s.symbols)
    (hname : Text.foldCase name = name) (wanted : Symbol → Bool) :
    name ∈ ((visible scopes).filter fun entry => wanted entry.2).map Prod.fst ↔
      ∃ symbol, lookup scopes name (fun _ => true) = some symbol ∧ wanted symbol = true := by
  simp only [← mem_visible_iff h hname, List.mem_map, List.mem_filter]
  constructor
  · rintro ⟨⟨_, symbol⟩, ⟨hvisible, hwanted⟩, rfl⟩
    exact ⟨symbol, hvisible, hwanted⟩
  · rintro ⟨symbol, hvisible, hwanted⟩
    exact ⟨(name, symbol), ⟨hvisible, hwanted⟩, rfl⟩

/-- A search ends at the innermost meaning if that is wanted, and only then. -/
theorem lookup_eq_innermost_iff {scopes : List Scope} {wanted : Symbol → Bool}
    (h : lookup scopes name (fun _ => true) = some symbol) :
    lookup scopes name wanted = some symbol ↔ wanted symbol = true := by
  refine ⟨fun hfound => List.find?_some hfound, fun hwanted => ?_⟩
  unfold lookup at h ⊢
  generalize (scopes.filterMap fun s => s.symbol? name) = meanings at h ⊢
  cases meanings with
  | nil => cases h
  | cons first rest =>
    obtain rfl : first = symbol := Option.some.inj h
    exact List.find?_cons_of_pos hwanted

end Scope

/-! ### Trees that are built step by step -/

namespace ScopeTree

/-- The trees that begin as one scope and grow by new scopes and by names bound in them. -/
inductive Built : ScopeTree → Prop
  | leaf (range : Range) : Built (.leaf range)
  | push {t : ScopeTree} (path : Path) (range : Range) : Built t → Built (t.push path range).2
  | bindTable {t : ScopeTree} (path : Path) (name : String) (id : TableId) :
      Built t → Built (t.modifyScope path fun s => s.bindTable name id)
  | bindColumn {t : ScopeTree} (path : Path) (name : String) (id : ColumnId) :
      Built t → Built (t.modifyScope path fun s => s.bindColumn name id)

/-- Whether no scope of a tree has two entries for a name. -/
inductive Keyed : ScopeTree → Prop
  | node {scope : Scope} {children : List ScopeTree} :
      Scope.Keyed scope.symbols → (∀ t ∈ children, Keyed t) → Keyed (.node scope children)

variable {t : ScopeTree} {f : ScopeTree → ScopeTree} {name : String}

theorem Keyed.scope : t.Keyed → Scope.Keyed t.scope.symbols
  | .node hscope _ => hscope

theorem Keyed.child : t.Keyed → ∀ child ∈ t.children, child.Keyed
  | .node _ hchildren => hchildren

theorem Keyed.modify (hf : ∀ {u : ScopeTree}, u.Keyed → (f u).Keyed) (path : Path) :
    t.Keyed → (t.modify f path).Keyed := by
  induction path generalizing t with
  | nil => exact hf
  | cons i path ih =>
    rintro ⟨hscope, hchildren⟩
    refine .node hscope fun child hchild => ?_
    obtain ⟨k, hk, rfl⟩ := List.getElem_of_mem hchild
    rw [List.getElem_modify]
    split
    · exact ih (hchildren _ (List.getElem_mem _))
    · exact hchildren _ (List.getElem_mem _)

theorem Keyed.modifyScope {g : Scope → Scope}
    (hg : ∀ s, Scope.Keyed s.symbols → Scope.Keyed (g s).symbols) (path : Path) (h : t.Keyed) :
    (t.modifyScope path g).Keyed :=
  h.modify (fun | .node hscope hchildren => .node (hg _ hscope) hchildren) path

theorem Built.keyed (h : t.Built) : t.Keyed := by
  induction h with
  | leaf range => exact .node List.nodup_nil (by simp)
  | push path range _ ih =>
    refine ih.modify (fun hkeyed => ?_) path
    obtain ⟨hscope, hchildren⟩ := hkeyed
    refine .node hscope (List.forall_mem_append.mpr ⟨hchildren, ?_⟩)
    exact List.forall_mem_singleton.mpr (.node List.nodup_nil (by simp))
  | bindTable path name id _ ih => exact ih.modifyScope (fun _ hs => hs.update _ _) path
  | bindColumn path name id _ ih => exact ih.modifyScope (fun _ hs => hs.update _ _) path

theorem Keyed.chainFrom (path : Path) (h : t.Keyed) : ∀ {outer : List Scope},
    (∀ s ∈ outer, Scope.Keyed s.symbols) →
      ∀ s ∈ chainFrom outer path t, Scope.Keyed s.symbols := by
  induction path generalizing t with
  | nil =>
    intro outer houter
    exact List.forall_mem_cons.mpr ⟨h.scope, houter⟩
  | cons i path ih =>
    intro outer houter
    have hhere : ∀ s ∈ t.scope :: outer, Scope.Keyed s.symbols :=
      List.forall_mem_cons.mpr ⟨h.scope, houter⟩
    rw [ScopeTree.chainFrom]
    split
    · next child hchild => exact ih (h.child child (List.mem_of_getElem? hchild)) hhere
    · exact hhere

theorem Keyed.chain (h : t.Keyed) (path : Path) : ∀ s ∈ t.chain path, Scope.Keyed s.symbols :=
  h.chainFrom path (List.forall_mem_nil _)

end ScopeTree

namespace Compilation

variable (catalog : Catalog)

/-- What is offered where all columns are suggested, in any scope of a tree that is built
step by step: the names for which the search for columns finds the innermost meaning. A
name that a nearer scope binds to tables only is found by the search and is not offered. -/
theorem mem_suggestedColumns_all_iff {t : ScopeTree} (h : t.Built) (path : ScopeTree.Path)
    {name : String} (hname : Text.foldCase name = name) :
    name ∈ suggestedColumns catalog (t.chain path) .all ↔
      ∃ symbol, Scope.lookup (t.chain path) name Symbol.hasColumns = some symbol ∧
        Scope.lookup (t.chain path) name (fun _ => true) = some symbol := by
  rw [suggestedColumns, Scope.mem_filter_visible_iff (h.keyed.chain path) hname]
  refine exists_congr fun symbol => ?_
  rw [and_comm]
  exact and_congr_left fun hinnermost => (Scope.lookup_eq_innermost_iff hinnermost).symm

/-- A column whose name no nearer scope binds is offered. -/
theorem suggests_outer_column :
    let outer := (ScopeTree.leaf ⟨⟨0, 0⟩, ⟨0, 44⟩⟩).modifyScope [] fun s => s.bindColumn "x" ⟨0⟩
    let t := outer.push [] ⟨⟨0, 26⟩, ⟨0, 43⟩⟩
    t.2.Built ∧ Text.foldCase "x" = "x" ∧
      "x" ∈ suggestedColumns (.ofDescriptors []) (t.2.chain t.1) .all := by
  intro outer t
  have hbuilt : t.2.Built := .push _ _ (.bindColumn _ _ _ (.leaf _))
  have hname : Text.foldCase "x" = "x" := by decide
  exact ⟨hbuilt, hname,
    (mem_suggestedColumns_all_iff _ hbuilt t.1 hname).mpr ⟨⟨[], [⟨0⟩]⟩, by decide, by decide⟩⟩

/-- Where there is a hint and names are bound, the columns are those that the hint suggests in
the scopes around the cursor. -/
theorem exists_completionAt? {c : Compilation} {catalog : Catalog} {p : Position} {hint : Hint}
    (hhint : c.hints.at? p = some hint) (hcatalog : c.catalog? = some catalog) :
    ∃ offered, c.completionAt? p = some offered ∧
      offered.columns = suggestedColumns catalog (c.scopesAt p) hint.columns := by
  simp only [completionAt?, hhint, hcatalog, Option.bind_eq_bind, Option.bind_some]
  exact ⟨_, rfl, rfl⟩

/-- In `SELECT (SELECT x FROM x) FROM t` the inner `x` stands for the column of `t`. A cursor on
it is offered the columns that can be seen, and that one is not among them: the table `x` of
the inner query hides its name before the tables are left out. -/
theorem table_hides_outer_column :
    let schema : List TableDescriptor :=
      [⟨"t", none, [⟨"x", "integer", false, none, false⟩], [], none⟩,
        ⟨"x", none, [⟨"y", "integer", false, none, false⟩], [], none⟩]
    let c := ofText "SELECT (SELECT x FROM x) FROM t" (some schema) {}
    let cursor : Position := ⟨0, 15⟩
    let text : Range := ⟨⟨0, 0⟩, ⟨0, 31⟩⟩
    let query := (((ScopeTree.leaf text).push [] text).2.push [0] text).2
    let outer := (query.modifyScope [0, 0] fun s => s.bindTable "t" ⟨0⟩).modifyScope [0, 0]
      fun s => s.bindColumn "x" ⟨0⟩
    let inner := (outer.push [0, 0] ⟨⟨0, 8⟩, ⟨0, 23⟩⟩).2
    let t := (inner.modifyScope [0, 0, 0] fun s => s.bindTable "x" ⟨1⟩).modifyScope [0, 0, 0]
      fun s => s.bindColumn "y" ⟨1⟩
    t.Built ∧ c.scopesAt cursor = t.chain [0, 0, 0] ∧ Text.foldCase "x" = "x" ∧
      (c.hints.at? cursor).map Hint.columns = some .all ∧
      c.bindingAt? cursor = some (.column ⟨0⟩) ∧
      Scope.lookup (t.chain [0, 0, 0]) "x" Symbol.hasColumns = some ⟨[], [⟨0⟩]⟩ ∧
      ∃ offered, c.completionAt? cursor = some offered ∧ "x" ∉ offered.columns := by
  intro schema c cursor text query outer inner t
  have hquery : query.Built := .push _ _ (.push _ _ (.leaf _))
  have houter : outer.Built := .bindColumn _ _ _ (.bindTable _ _ _ hquery)
  have hbuilt : t.Built := .bindColumn _ _ _ (.bindTable _ _ _ (.push _ _ houter))
  have hscopes : c.scopesAt cursor = t.chain [0, 0, 0] := by decide +kernel
  have hname : Text.foldCase "x" = "x" := by decide
  have hhint : (c.hints.at? cursor).map Hint.columns = some .all := by decide +kernel
  have hbound : c.bindingAt? cursor = some (.column ⟨0⟩) := by decide +kernel
  refine ⟨hbuilt, hscopes, hname, hhint, hbound, by decide, ?_⟩
  obtain ⟨hint, hat, hall⟩ := Option.map_eq_some_iff.mp hhint
  obtain ⟨catalog, hcatalog⟩ : ∃ catalog, c.catalog? = some catalog := ⟨_, rfl⟩
  obtain ⟨offered, hoffered, hcolumns⟩ := exists_completionAt? hat hcatalog
  refine ⟨offered, hoffered, ?_⟩
  have hinnermost : Scope.lookup (t.chain [0, 0, 0]) "x" (fun _ => true) = some ⟨[⟨1⟩], []⟩ := by
    decide
  rw [hcolumns, hall, hscopes, suggestedColumns,
    Scope.mem_filter_visible_iff (hbuilt.keyed.chain [0, 0, 0]) hname, hinnermost]
  decide

end Compilation
end SqlAnalysis
