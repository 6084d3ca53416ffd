import SqlAnalysis.Proofs.Grammar.ImpliedChecks
import SqlAnalysis.Proofs.Resolution.NewTables
import SqlAnalysis.Proofs.Syntax.Clearing

/-!
# Types of checks that types imply

Where a name stands for a column of a type, the check that the type implies for the column
is a truth value, and nothing is said about it. That holds of every expression with the
skeleton of the check, wherever its parts stand and whatever brackets are around them.
-/
namespace SqlAnalysis

namespace ResolverState

variable {s : ResolverState} {name : String} {type : SqlType}

/-- A search from the innermost scope outwards finds that a name stands for one column, and
the column has the type. -/
def Sees (name : String) (type : SqlType) (s : ResolverState) : Prop :=
  ∃ id symbol, Scope.lookup s.scopes name Symbol.hasColumns = some symbol ∧
    symbol.columns = [id] ∧ (s.catalog.column id).type = some type

/-- A scope that was just opened hides nothing. -/
theorem Means.sees_enter (h : s.Means name type) (span : Span) :
    (s.enter span).Sees name type := by
  obtain ⟨id, hid, -, htype⟩ := h.column
  obtain ⟨outer, hscopes⟩ := scopes_eq s
  obtain ⟨symbol, hlookup, hcolumns⟩ := Scope.exists_lookup outer (hid ▸ List.mem_singleton_self id)
  refine ⟨id, symbol, ?_, hcolumns.trans hid, htype⟩
  rw [← hlookup, ← hscopes]
  rfl

end ResolverState

namespace Resolver

open ResolverState

/-- Wherever something holds, resolving an expression changes nothing, and the expression
has some type, or none. -/
def Types (P : ResolverState → Prop) (e : Expr) (type : Option SqlType) : Prop :=
  ∀ s, P s → ∃ e', (term e).run s = (e', s) ∧ e'.type = type

namespace Types

variable {P : ResolverState → Prop} {note : Note} {e left right : Expr} {items : List Expr}
  {type : Option SqlType} {l r t : SqlType}

theorem constant (value : Literal) : Types P (.constant note value) value.sqlType? :=
  fun _ _ => ⟨_, rfl, rfl⟩

theorem brackets (h : Types P e type) : Types P (.brackets note e) type := by
  intro s hs
  obtain ⟨e', hrun, htype⟩ := h s hs
  refine ⟨.brackets { note with type := e'.type } e', ?_, htype⟩
  rw [term, run_bind, hrun]
  rfl

theorem name (ident : Ident) : Types (Sees ident.name t) (.name note ident) (some t) := by
  rintro s ⟨id, symbol, hlookup, hcolumns, htype⟩
  have hfound : (scopeColumn? ident).run s = (some id, s) := by
    unfold scopeColumn?
    rw [run_bind, show (get : Resolver ResolverState).run s = (s, s) from rfl]
    dsimp only
    rw [hlookup]
    dsimp only
    rw [hcolumns]
    rfl
  refine ⟨.name { note with type := some t, binding := some (.column id) } ident, ?_, rfl⟩
  rw [term, run_bind, hfound, ← htype]
  rfl

theorem terms_run {types : List (Option SqlType)} (h : List.Forall₂ (Types P) items types)
    {s : ResolverState} (hs : P s) :
    ∃ items', (terms items).run s = (items', s) ∧ items'.map Expr.type = types := by
  induction h with
  | nil => exact ⟨[], rfl, rfl⟩
  | cons hfirst _ ih =>
    obtain ⟨e', hrun, htype⟩ := hfirst s hs
    obtain ⟨items', hruns, htypes⟩ := ih
    refine ⟨e' :: items', ?_, by rw [List.map_cons, htype, htypes]⟩
    rw [terms, run_bind, hrun, run_bind, hruns]
    rfl

theorem call {function : Ident} {types : List (Option SqlType)} {aggregate : Bool}
    (h : List.Forall₂ (Types P) items types)
    (hresolve : Signature.resolve function.name types false = .resolved type aggregate) :
    Types P (.call note function items) type := by
  intro s hs
  obtain ⟨items', hruns, htypes⟩ := terms_run h hs
  refine ⟨.call { note with type := type } function items', ?_, rfl⟩
  rw [term, run_bind, hruns, run_bind, htypes, callType, hresolve]
  rfl

/-- An operation that is defined on its operands. -/
theorem binary {op : BinaryOperator} (hop : op.isMembership = false)
    (hleft : Types P left (some l)) (hright : Types P right (some r))
    (hoperate : SqlType.operate? op l r = some t) :
    Types P (.binary note left op right) (some t) := by
  intro s hs
  obtain ⟨left', hrunLeft, hl⟩ := hleft s hs
  obtain ⟨right', hrunRight, hr⟩ := hright s hs
  refine ⟨.binary { note with type := some t } left' op right', ?_, rfl⟩
  rw [term, run_bind, hrunLeft]
  dsimp only
  rw [hop, if_neg Bool.false_ne_true, run_bind, hrunRight, run_bind, hl, hr, binaryType]
  dsimp only
  rw [hoperate]
  rfl

theorem list {types : List (Option SqlType)} (h : List.Forall₂ (Types P) items types) :
    Types P (.list note items) note.type := by
  intro s hs
  obtain ⟨items', hruns, -⟩ := terms_run h hs
  refine ⟨.list note items', ?_, rfl⟩
  rw [term, run_bind, hruns]
  rfl

/-! What is looked for goes with what it is looked for among. -/

theorem requireMember_run {element : Option SqlType} (h : ∀ u ∈ element, u.canCastTo l = true)
    (op : BinaryOperator) (span : Span) (s : ResolverState) :
    (requireMember (some l) element op span).run s = ((), s) := by
  cases element with
  | none => rfl
  | some u =>
    unfold requireMember
    dsimp only
    rw [h u rfl]
    rfl

theorem memberTerms_run (op : BinaryOperator)
    (h : ∀ e ∈ items, ∃ type, Types P e type ∧ ∀ u ∈ type, u.canCastTo l = true)
    {s : ResolverState} (hs : P s) : ∃ items', (memberTerms (some l) op items).run s = (items', s) := by
  induction items with
  | nil => exact ⟨[], rfl⟩
  | cons e items ih =>
    obtain ⟨⟨type, htyped, hcast⟩, hrest⟩ := List.forall_mem_cons.mp h
    obtain ⟨e', hrun, rfl⟩ := htyped s hs
    obtain ⟨items', hruns⟩ := ih hrest
    refine ⟨e' :: items', ?_⟩
    rw [memberTerms, run_bind, hrun, run_bind, requireMember_run hcast, run_bind, hruns]
    rfl

theorem members {op : BinaryOperator} (hop : op.isMembership = true) {rightNote : Note}
    (hleft : Types P left (some l))
    (h : ∀ e ∈ items, ∃ type, Types P e type ∧ ∀ u ∈ type, u.canCastTo l = true) :
    Types P (.binary note left op (.list rightNote items)) (some (SqlType.plain .boolean)) := by
  intro s hs
  obtain ⟨left', hrunLeft, hl⟩ := hleft s hs
  obtain ⟨items', hruns⟩ := memberTerms_run op h hs
  refine ⟨.binary { note with type := some (SqlType.plain .boolean) } left' op
    (.list rightNote items'), ?_, rfl⟩
  rw [term, run_bind, hrunLeft]
  dsimp only
  rw [hop, if_pos rfl, run_bind, hl, hruns]
  rfl

/-- A list in brackets is no list of members any more. -/
theorem membersInBrackets {op : BinaryOperator} (hop : op.isMembership = true) {rightNote : Note}
    (hleft : Types P left (some l)) (hright : Types P right none) :
    Types P (.binary note left op (.brackets rightNote right)) (some (SqlType.plain .boolean)) := by
  intro s hs
  obtain ⟨left', hrunLeft, hl⟩ := hleft s hs
  have hbracketed : Types P (.brackets rightNote right) none := hright.brackets
  obtain ⟨right', hrunRight, hr⟩ := hbracketed s hs
  refine ⟨.binary { note with type := some (SqlType.plain .boolean) } left' op right', ?_, rfl⟩
  rw [term, run_bind, hrunLeft]
  dsimp only
  rw [hop, if_pos rfl, run_bind, hrunRight, run_bind, hl, hr,
    requireMember_run fun u hu => absurd hu (Option.not_mem_none u)]
  rfl

end Types

/-! ### Expressions with one skeleton -/

/-- What brackets make no difference to need only be looked at where there are none. -/
theorem Types.of_bare {P : ResolverState → Prop} {Q : Expr → Prop} {type : Option SqlType}
    (hbrackets : ∀ note inner, Q (.brackets note inner) → Q inner)
    (h : ∀ e : Expr, (∀ note inner, e ≠ .brackets note inner) → e.cleared = e → Q e →
      Types P e type) : ∀ e : Expr, e.cleared = e → Q e → Types P e type
  | .brackets note inner, hcleared, he =>
    (of_bare hbrackets h inner (Expr.brackets.inj hcleared).2 (hbrackets note inner he)).brackets
  | .constant _ _, hcleared, he => h _ nofun hcleared he
  | .name _ _, hcleared, he => h _ nofun hcleared he
  | .dot _ _ _, hcleared, he => h _ nofun hcleared he
  | .binary _ _ _ _, hcleared, he => h _ nofun hcleared he
  | .unary _ _ _, hcleared, he => h _ nofun hcleared he
  | .call _ _ _, hcleared, he => h _ nofun hcleared he
  | .callStar _ _ _, hcleared, he => h _ nofun hcleared he
  | .list _ _, hcleared, he => h _ nofun hcleared he
  | .subquery _ _, hcleared, he => h _ nofun hcleared he

/-- Whatever has the skeleton of an expression has a type, if it was not resolved before. -/
def Settles (P : ResolverState → Prop) (model : Expr) (type : Option SqlType) : Prop :=
  ∀ e : Expr, e.cleared = e → e.skeleton = model.skeleton → Types P e type

namespace Settles

variable {P : ResolverState → Prop} {model left right : Expr} {models items : List Expr}
  {ident : Ident} {note : Note} {type : Option SqlType} {types : List (Option SqlType)}
  {l r t : SqlType}

theorem ofNat (n : Nat) : Settles P (.ofNat n) (some (SqlType.plain .integer)) := by
  refine Types.of_bare (fun _ _ => id) fun e hbare _ hmodel => ?_
  cases e with
  | constant note value =>
    obtain ⟨-, rfl⟩ := Expr.constant.inj hmodel
    exact .constant _
  | brackets note inner => exact absurd rfl (hbare note inner)
  | _ => cases hmodel

theorem ofIdent (ident : Ident) : Settles (Sees ident.name t) (.ofIdent ident) (some t) := by
  refine Types.of_bare (fun _ _ => id) fun e hbare _ hmodel => ?_
  cases e with
  | name note ident' =>
    obtain ⟨-, hident⟩ := Expr.name.inj hmodel
    have hname : ident'.skeleton.name = ident.skeleton.name := congrArg Ident.name hident
    exact (show ident'.name = ident.name from hname) ▸ .name ident'
  | brackets note inner => exact absurd rfl (hbare note inner)
  | _ => cases hmodel

/-- Each of several expressions is settled by its own model. -/
theorem forall₂ (h : List.Forall₂ (Settles P) models types) :
    ∀ items : List Expr, clearedExprs items = items → skeletonExprs items = skeletonExprs models →
      List.Forall₂ (Types P) items types := by
  induction h with
  | nil =>
    intro items _ hmodels
    cases items with
    | nil => exact .nil
    | cons => cases hmodels
  | cons hfirst _ ih =>
    intro items hcleared hmodels
    cases items with
    | nil => cases hmodels
    | cons item items =>
      obtain ⟨hcleared, hrest⟩ := List.cons.inj hcleared
      obtain ⟨hmodel, hmodels⟩ := List.cons.inj hmodels
      exact .cons (hfirst item hcleared hmodel) (ih items hrest hmodels)

theorem callOn {function : String} {aggregate : Bool}
    (hresolve : Signature.resolve function [some t] false = .resolved type aggregate) :
    Settles (Sees ident.name t) (.callOn function ident) type := by
  refine Types.of_bare (fun _ _ => id) fun e hbare hcleared hmodel => ?_
  cases e with
  | call note function' args =>
    obtain ⟨-, hfunction, hargs⟩ := Expr.call.inj hmodel
    have hname : function'.skeleton.name = function := congrArg Ident.name hfunction
    have hargument : List.Forall₂ (Settles (Sees ident.name t)) [.ofIdent ident] [some t] :=
      .cons (ofIdent ident) .nil
    exact .call (forall₂ hargument args (Expr.call.inj hcleared).2.2 hargs) (hname ▸ hresolve)
  | brackets note inner => exact absurd rfl (hbare note inner)
  | _ => cases hmodel

theorem binaryOf {op : BinaryOperator} (hop : op.isMembership = false)
    (hleft : Settles P left (some l)) (hright : Settles P right (some r))
    (hoperate : SqlType.operate? op l r = some t) :
    Settles P (left.binaryOf op right) (some t) := by
  refine Types.of_bare (fun _ _ => id) fun e hbare hcleared hmodel => ?_
  cases e with
  | binary note left' op' right' =>
    obtain ⟨-, hcleared, -, hcleared'⟩ := Expr.binary.inj hcleared
    obtain ⟨-, hleft', rfl, hright'⟩ := Expr.binary.inj hmodel
    have hmember (e : Expr) : e.unwrapMember op' = e := if_neg (by simp [hop])
    rw [hmember, hmember] at hright'
    exact .binary hop (hleft left' hcleared hleft') (hright right' hcleared' hright') hoperate
  | brackets note inner => exact absurd rfl (hbare note inner)
  | _ => cases hmodel

/-! The skeleton does not show whether what is on the right of `IN` is the one member of
another list. -/

section

variable (hmodels : List.Forall₂ (Settles P) models types)

include hmodels

theorem list : Settles P (.list note models) none := by
  refine Types.of_bare (fun _ _ => id) fun e hbare hcleared hmodel => ?_
  cases e with
  | list note' items =>
    obtain ⟨hnote, hitems⟩ := Expr.list.inj hcleared
    have htype : note'.type = none := (congrArg Note.type hnote).symm
    exact htype ▸ Types.list (forall₂ hmodels items hitems (Expr.list.inj hmodel).2)
  | brackets note inner => exact absurd rfl (hbare note inner)
  | _ => cases hmodel

theorem items_of_unwrapOne {note' : Note} (hcleared : clearedExprs items = items)
    (hmodel : (Expr.list note' items).skeleton.unwrapOne = (Expr.list note models).skeleton) :
    ∃ types', List.Forall₂ (Types P) items types' ∧
      ∀ type ∈ types', type = none ∨ type ∈ types := by
  match items with
  | [item] =>
    have hitem := list hmodels item (List.cons.inj hcleared).1 hmodel
    exact ⟨[none], .cons hitem .nil, by simp⟩
  | [] => exact ⟨types, forall₂ hmodels [] hcleared (Expr.list.inj hmodel).2, fun _ => .inr⟩
  | first :: second :: items =>
    exact ⟨types, forall₂ hmodels _ hcleared (Expr.list.inj hmodel).2, fun _ => .inr⟩

theorem of_unwrapOne : ∀ e : Expr, e.cleared = e →
    e.skeleton.unwrapOne = (Expr.list note models).skeleton → Types P e none := by
  refine Types.of_bare (fun _ _ => id) fun e hbare hcleared hmodel => ?_
  cases e with
  | list note' items =>
    obtain ⟨hnote, hitems⟩ := Expr.list.inj hcleared
    have htype : note'.type = none := (congrArg Note.type hnote).symm
    obtain ⟨types', htypes, -⟩ := items_of_unwrapOne hmodels hitems hmodel
    exact htype ▸ Types.list htypes
  | brackets note inner => exact absurd rfl (hbare note inner)
  | _ => cases hmodel

theorem members {op : BinaryOperator} (hop : op.isMembership = true)
    (hlength : models.length ≠ 1) (hleft : Settles P left (some l))
    (hcast : ∀ type ∈ types, ∀ u ∈ type, u.canCastTo l = true) :
    Settles P (left.binaryOf op (.list note models)) (some (SqlType.plain .boolean)) := by
  have hmodel : (Expr.list note models).skeleton.unwrapOne = (Expr.list note models).skeleton := by
    match models with
    | [_] => exact absurd rfl hlength
    | [] | _ :: _ :: _ => rfl
  refine Types.of_bare (fun _ _ => id) fun e hbare hcleared he => ?_
  cases e with
  | binary note' left' op' right =>
    obtain ⟨-, hcleared, -, hcleared'⟩ := Expr.binary.inj hcleared
    obtain ⟨-, hleft', rfl, hright⟩ := Expr.binary.inj he
    rw [Expr.unwrapMember, Expr.unwrapMember, if_pos hop, if_pos hop, hmodel] at hright
    have hsettled := hleft left' hcleared hleft'
    cases right with
    | list rightNote items =>
      obtain ⟨types', htypes, hfrom⟩ :=
        items_of_unwrapOne hmodels (Expr.list.inj hcleared').2 hright
      refine .members hop hsettled fun e he => ?_
      obtain ⟨type, hmem, htype⟩ := exists_of_mem_left htypes he
      refine ⟨type, htype, fun u hu => ?_⟩
      rcases hfrom type hmem with rfl | hmem
      · cases hu
      · exact hcast type hmem u hu
    | brackets rightNote inner =>
      have hinner := of_unwrapOne hmodels inner (Expr.brackets.inj hcleared').2 hright
      exact .membersInBrackets hop hsettled hinner
    | _ => cases hright
  | brackets note inner => exact absurd rfl (hbare note inner)
  | _ => cases he

end

/-! ### Checks -/

/-- A function that takes one argument and is not overloaded. -/
theorem resolve_one {name : String} {param : ParamType} {kind : TypeKind}
    (hoverloads : Signature.overloads name =
      [{ name := name, params := [param], result := .fixed kind }])
    (haccepts : param.accepts (some t) = true) :
    Signature.resolve name [some t] false = .resolved (some (SqlType.plain kind)) false := by
  rw [Signature.resolve, hoverloads]
  simp [Signature.fitsShape, Signature.fitsTypes, Signature.resultType, haccepts]

/-- What is read from the check that a type implies is a truth value, wherever the name of the
column stands for one of this type. -/
theorem check (check : Expr) (h : t.check? ident = some check) :
    Settles (Sees ident.name t) check (some (SqlType.plain .boolean)) := by
  have hlength : Signature.overloads "length" =
      [{ name := "length", params := [.strings], result := .fixed .integer }] := by decide +kernel
  have hdate : Signature.overloads "date" =
      [{ name := "date", params := [.times], result := .fixed .date }] := by decide +kernel
  have hdatetime : Signature.overloads "datetime" =
      [{ name := "datetime", params := [.times], result := .fixed .datetime }] := by decide +kernel
  obtain ⟨kind, params⟩ := t
  cases kind with
  | varchar | char =>
    obtain ⟨n, -, rfl⟩ := Option.map_eq_some_iff.mp h
    exact binaryOf rfl (callOn (resolve_one hlength rfl)) (ofNat n) rfl
  | boolean =>
    cases h
    have hbits : List.Forall₂ (Settles (Sees ident.name ⟨.boolean, params⟩)) [.ofNat 0, .ofNat 1]
        [some (SqlType.plain .integer), some (SqlType.plain .integer)] :=
      .cons (ofNat 0) (.cons (ofNat 1) .nil)
    exact members hbits rfl (by simp) (ofIdent ident) (by simp [SqlType.canCastTo]; rfl)
  | date =>
    cases h
    exact binaryOf rfl (ofIdent ident) (callOn (resolve_one hdate rfl)) rfl
  | datetime =>
    cases h
    exact binaryOf rfl (ofIdent ident) (callOn (resolve_one hdatetime rfl)) rfl
  | _ => cases h

end Settles

end Resolver
end SqlAnalysis
