import Mathlib.Data.List.Induction
import Mathlib.Order.Bounds.Basic
import Mathlib.Order.Lattice
import SqlAnalysis.Proofs.SqlType.Parameters

/-!
# Arithmetic in any order and grouping

The table of operations has a closed form, in which no operator tells its operands apart. On
number types arithmetic gives the wider of the two kinds, and of decimals the larger of each
parameter, so number types form a semilattice. The type of a calculation is the join of the
types in it, however it is written.
-/
namespace SqlAnalysis

/-! ### The table of operations -/

namespace TypeKind

/-- The place of a number type in the order in which arithmetic widens. -/
def numberRank? : TypeKind → Option Nat
  | .integer => some 0
  | .decimal => some 1
  | .real => some 2
  | .numeric => some 3
  | _ => none

/-- The wider of two number types. -/
def widen? (a b : TypeKind) : Option TypeKind :=
  match a.numberRank?, b.numberRank? with
  | some i, some j => some (if i ≤ j then b else a)
  | _, _ => none

/-- Whether `||` takes the kind as a number to be spelled out. -/
def isSpelledOut : TypeKind → Bool
  | .integer | .real => true
  | _ => false

/-- The kind of a concatenation. One operand at least is a text. -/
def concatenate? (a b : TypeKind) : Option TypeKind :=
  if (a.isText && (b.isText || b.isSpelledOut)) || (b.isText && a.isSpelledOut) then
    some (if a = .text ∨ b = .text then .text else .varchar)
  else
    none

/-- Whether values of the two kinds have an order. Texts stand for dates too. -/
def ordered (a b : TypeKind) : Bool :=
  (a.isNumber && b.isNumber) ||
    ((a.isText || a.isTemporal) && (b.isText || b.isTemporal))

/-- Whether values of the two kinds can be told apart without an order. -/
def equated : TypeKind → TypeKind → Bool
  | .boolean, .boolean | .boolean, .integer | .integer, .boolean | .blob, .blob => true
  | _, _ => false

/-- The table of operations, operator by operator. -/
def resultKind? (op : BinaryOperator) (a b : TypeKind) : Option TypeKind :=
  match op with
  | .add => if a = .varchar ∧ b = .varchar then some .varchar else widen? a b
  | .subtract | .multiply | .divide | .modulo => widen? a b
  | .concat => concatenate? a b
  | .lt | .le | .gt | .ge => if ordered a b then some .boolean else none
  | .eq | .notEq => if ordered a b || equated a b then some .boolean else none
  | .like | .notLike => if a.isText && b.isText then some .boolean else none
  | .and | .or => if a = .boolean ∧ b = .boolean then some .boolean else none
  | .member | .notMember => none

end TypeKind

namespace Operation

open TypeKind

variable {op : BinaryOperator} {a b : TypeKind} {entries : List Operation}

theorem lookup?_append (entries entries' : List Operation) :
    lookup? (entries ++ entries') op a b =
      (lookup? entries' op a b).or (lookup? entries op a b) := by
  unfold lookup?
  induction entries' using List.reverseRecOn with
  | nil => rw [List.append_nil]; rfl
  | append_singleton entries' o ih =>
    rw [← List.append_assoc, List.foldl_append, ih, List.foldl_append]
    simp only [List.foldl_cons, List.foldl_nil]
    split <;> rfl

/-- Where all entries have one result, it does not matter which of them is found. -/
theorem lookup?_eq_ite {result : TypeKind} (h : ∀ o ∈ entries, o.result = result) :
    lookup? entries op a b = if ∃ o ∈ entries, o.Covers op a b then some result else none := by
  unfold lookup?
  induction entries using List.reverseRecOn with
  | nil => simp
  | append_singleton entries o ih =>
    obtain ⟨hrest, ho⟩ := List.forall_mem_append.mp h
    rw [List.foldl_append, ih hrest, List.foldl_cons, List.foldl_nil,
      ho o (List.mem_singleton_self o)]
    by_cases hcovers : o.Covers op a b <;> simp [hcovers]

theorem exists_pairwise_iff {operators : List BinaryOperator} {lefts rights : List TypeKind}
    {result : TypeKind} {commutative : Bool} :
    (∃ o ∈ pairwise operators lefts rights result commutative, o.Covers op a b) ↔
      op ∈ operators ∧
        (a ∈ lefts ∧ b ∈ rights ∨ commutative = true ∧ a ∈ rights ∧ b ∈ lefts) := by
  simp only [pairwise, Covers, List.mem_flatMap, List.mem_map]
  constructor
  · rintro ⟨_, ⟨left, hleft, right, hright, rfl⟩, hop, h⟩
    rcases h with ⟨rfl, rfl⟩ | ⟨hswap, rfl, rfl⟩
    · exact ⟨hop, .inl ⟨hleft, hright⟩⟩
    · exact ⟨hop, .inr ⟨hswap, hright, hleft⟩⟩
  · rintro ⟨hop, ⟨hleft, hright⟩ | ⟨hswap, hright, hleft⟩⟩
    · exact ⟨_, ⟨a, hleft, b, hright, rfl⟩, hop, .inl ⟨rfl, rfl⟩⟩
    · exact ⟨_, ⟨b, hleft, a, hright, rfl⟩, hop, .inr ⟨hswap, rfl, rfl⟩⟩

theorem mem_numberKinds : a ∈ numberKinds ↔ a.isNumber = true := by
  cases a <;> decide

theorem mem_textKinds : a ∈ textKinds ↔ a.isText = true := by
  cases a <;> decide

theorem mem_temporalKinds : a ∈ temporalKinds ↔ a.isTemporal = true := by
  cases a <;> decide

/-! Each part of the table says the same for all its operators, so what is left are the kinds. -/

theorem lookup?_arithmetic : lookup? arithmetic op a b =
    if op ∈ arithmeticOperators then widen? a b else none := by
  by_cases hop : op ∈ arithmeticOperators
  · simp only [lookup?, arithmetic, Covers, hop, List.foldl_cons, List.foldl_nil, true_and, if_true]
    cases a <;> cases b <;> rfl
  · simp [lookup?, arithmetic, Covers, hop]

theorem lookup?_concatenation : lookup? concatenation op a b =
    if op = .concat then concatenate? a b
    else if op = .add ∧ a = .varchar ∧ b = .varchar then some .varchar else none := by
  by_cases hop : op = .concat
  · subst hop
    rw [if_pos rfl]
    cases a <;> cases b <;> rfl
  · simp [lookup?, concatenation, pairwise, textKinds, Covers, hop]

theorem lookup?_ordering : lookup? ordering op a b =
    if op ∈ orderingOperators ∧ ordered a b = true then some .boolean else none := by
  have hresult : ∀ o ∈ ordering, o.result = .boolean := by decide +kernel
  rw [lookup?_eq_ite hresult]
  refine if_congr ?_ rfl rfl
  simp only [ordering, List.mem_append, or_and_right, exists_or, exists_pairwise_iff,
    mem_numberKinds, mem_textKinds, mem_temporalKinds, ordered, Bool.or_eq_true, Bool.and_eq_true]
  grind

theorem lookup?_patterns : lookup? patterns op a b =
    if op ∈ [.like, .notLike] ∧ a.isText = true ∧ b.isText = true then some .boolean else none := by
  have hresult : ∀ o ∈ patterns, o.result = .boolean := by decide +kernel
  rw [lookup?_eq_ite hresult]
  refine if_congr ?_ rfl rfl
  rw [patterns, exists_pairwise_iff, mem_textKinds, mem_textKinds]
  simp

theorem lookup?_equality : lookup? equality op a b =
    if op ∈ [.eq, .notEq] ∧ equated a b = true then some .boolean else none := by
  by_cases hop : op ∈ [BinaryOperator.eq, .notEq]
  · simp only [lookup?, equality, Covers, hop, List.foldl_cons, List.foldl_nil, true_and]
    cases a <;> cases b <;> rfl
  · simp only [lookup?, equality, Covers, hop, List.foldl_cons, List.foldl_nil, false_and, if_false]

theorem lookup?_logic : lookup? logic op a b =
    if op ∈ [.and, .or] ∧ a = .boolean ∧ b = .boolean then some .boolean else none := by
  simp only [lookup?, logic, Covers, List.foldl_cons, List.foldl_nil, Bool.false_eq_true, false_and,
    or_false]

theorem lookup?_table : lookup? table op a b = resultKind? op a b := by
  rw [table, lookup?_append, lookup?_append, lookup?_append, lookup?_append, lookup?_append,
    lookup?_arithmetic, lookup?_concatenation, lookup?_ordering, lookup?_patterns,
    lookup?_equality, lookup?_logic]
  cases op <;> simp [arithmeticOperators, orderingOperators, resultKind?]
  case eq | notEq => cases ordered a b <;> cases equated a b <;> rfl
  case add => split <;> rfl

end Operation

/-! ### Operands in either order -/

namespace TypeKind

variable (a b : TypeKind)

theorem numberRank?_inj {a b : TypeKind} {n : Nat} (ha : a.numberRank? = some n)
    (hb : b.numberRank? = some n) : a = b := by
  cases a <;> cases b <;> simp_all [numberRank?] <;> omega

theorem widen?_comm : widen? a b = widen? b a := by
  unfold widen?
  cases ha : a.numberRank? with
  | none => cases b.numberRank? <;> rfl
  | some i =>
    cases hb : b.numberRank? with
    | none => rfl
    | some j =>
      rcases Nat.lt_trichotomy i j with hlt | rfl | hlt
      · simp [Nat.le_of_lt hlt, Nat.not_le.mpr hlt]
      · simp [numberRank?_inj ha hb]
      · simp [Nat.le_of_lt hlt, Nat.not_le.mpr hlt]

theorem operate?_of_isArithmetic {a : TypeKind} {op : BinaryOperator} {i : Nat}
    (hop : op.isArithmetic = true) (ha : a.numberRank? = some i) (b : TypeKind) :
    operate? op a b = widen? a b := by
  rw [operate?, Operation.lookup?_table]
  cases op <;> simp [BinaryOperator.isArithmetic] at hop <;> simp only [resultKind?]
  refine if_neg fun h => ?_
  rw [h.1] at ha
  cases ha

theorem concatenate?_comm : concatenate? a b = concatenate? b a := by
  have htext : ((a.isText && (b.isText || b.isSpelledOut)) || (b.isText && a.isSpelledOut)) =
      ((b.isText && (a.isText || a.isSpelledOut)) || (a.isText && b.isSpelledOut)) := by
    grind
  simp only [concatenate?, htext, or_comm]

theorem ordered_comm : ordered a b = ordered b a := by
  unfold ordered
  rw [Bool.and_comm, Bool.and_comm (a.isText || a.isTemporal)]

theorem equated_comm : equated a b = equated b a := by
  cases a <;> cases b <;> rfl

/-- Of two number types the one further on in the order is taken. -/
theorem widen?_of_rank {a b : TypeKind} {i j : Nat} (ha : a.numberRank? = some i)
    (hb : b.numberRank? = some j) :
    ∃ kind, widen? a b = some kind ∧ kind.numberRank? = some (max i j) := by
  unfold widen?
  rw [ha, hb]
  refine ⟨_, rfl, ?_⟩
  split
  · next hle => rw [hb, Nat.max_eq_right hle]
  · next hle => rw [ha, Nat.max_eq_left (by omega)]

theorem operate?_comm (op : BinaryOperator) : operate? op a b = operate? op b a := by
  rw [operate?, operate?, Operation.lookup?_table, Operation.lookup?_table]
  cases op <;> simp only [resultKind?]
  case add => simp only [widen?_comm a b, and_comm]
  case subtract | multiply | divide | modulo => rw [widen?_comm]
  case concat => rw [concatenate?_comm]
  case lt | le | gt | ge => rw [ordered_comm]
  case eq | notEq => rw [ordered_comm, equated_comm]
  case like | notLike => rw [Bool.and_comm]
  case and | or => simp only [and_comm]

end TypeKind

namespace SqlType

theorem maxParams_comm (xs ys : List Nat) : maxParams xs ys = maxParams ys xs := by
  induction xs, ys using maxParams.induct with
  | case1 ys => cases ys <;> rfl
  | case2 xs _ => cases xs <;> rfl
  | case3 x xs y ys ih => rw [maxParams, maxParams, Nat.max_comm, ih]

theorem maxParams_assoc (xs ys zs : List Nat) :
    maxParams (maxParams xs ys) zs = maxParams xs (maxParams ys zs) := by
  induction xs generalizing ys zs with
  | nil => rfl
  | cons x xs ih =>
    cases ys with
    | nil => rfl
    | cons y ys =>
      cases zs with
      | nil => rfl
      | cons z zs => simp only [maxParams, Nat.max_assoc, ih]

theorem maxParams_self (xs : List Nat) : maxParams xs xs = xs := by
  induction xs with
  | nil => rfl
  | cons x xs ih => rw [maxParams, Nat.max_self, ih]

theorem joinedLength_comm (a b : SqlType) : joinedLength a b = joinedLength b a := by
  unfold joinedLength
  split
  · next m n ha hb => rw [ha, hb, Nat.add_comm]
  · next hnone =>
    split
    · next m n hb ha => exact absurd hb (hnone n m ha)
    · rfl

theorem operate?_comm (op : BinaryOperator) (a b : SqlType) :
    operate? op a b = operate? op b a := by
  unfold operate?
  rw [TypeKind.operate?_comm, joinedLength_comm, maxParams_comm]

/-! ### Number types -/

/-- A number type in the order of widening. It has no parameters unless it is a decimal. -/
structure HasRank (t : SqlType) (rank : Nat) : Prop where
  kind : t.kind.numberRank? = some rank
  params : rank ≠ 1 → t.params = []

variable {a b c t : SqlType} {i j k : Nat} {op : BinaryOperator}

theorem HasRank.ext (ha : a.HasRank i) (hb : b.HasRank i) (hparams : a.params = b.params) :
    a = b := by
  obtain ⟨kind, params⟩ := a
  obtain rfl : kind = b.kind := TypeKind.numberRank?_inj ha.kind hb.kind
  exact congrArg (SqlType.mk b.kind) hparams

theorem numberRank?_eq_one {kind : TypeKind} : kind.numberRank? = some 1 ↔ kind = .decimal := by
  cases kind <;> simp [TypeKind.numberRank?]

theorem HasRank.decimalParams (h : t.HasRank i) : t.decimalParams = t.params := by
  unfold SqlType.decimalParams
  split
  · rfl
  · next hkind =>
    refine (h.params ?_).symm
    rintro rfl
    exact hkind (numberRank?_eq_one.mp h.kind)

theorem exists_hasRank (hkind : t.kind.isNumber = true) (h : t.Admitted) :
    ∃ rank, t.HasRank rank := by
  have hcount := h.count
  cases ht : t.kind <;> simp [ht, TypeKind.isNumber, TypeKind.parameters] at hkind hcount
  · exact ⟨0, by simp [ht, TypeKind.numberRank?], fun _ => hcount⟩
  · exact ⟨2, by simp [ht, TypeKind.numberRank?], fun _ => hcount⟩
  · exact ⟨3, by simp [ht, TypeKind.numberRank?], fun _ => hcount⟩
  · exact ⟨1, by simp [ht, TypeKind.numberRank?], fun hne => absurd rfl hne⟩

theorem HasRank.isNumber (h : t.HasRank i) : t.kind.isNumber = true := by
  have hkind := h.kind
  cases ht : t.kind <;> simp [ht, TypeKind.numberRank?, TypeKind.isNumber] at hkind ⊢

/-- Arithmetic takes the larger rank, and each larger parameter if that is a decimal. -/
theorem operate?_of_hasRank (hop : op.isArithmetic = true) (ha : a.HasRank i) (hb : b.HasRank j) :
    ∃ t, operate? op a b = some t ∧ t.HasRank (max i j) ∧
      t.params = if max i j = 1 then maxParams a.params b.params else [] := by
  obtain ⟨kind, hwiden, hrank⟩ := TypeKind.widen?_of_rank ha.kind hb.kind
  rw [operate?, TypeKind.operate?_of_isArithmetic hop ha.kind, hwiden, Option.map_some,
    ha.decimalParams, hb.decimalParams]
  refine ⟨_, rfl, ?_⟩
  split
  · cases hrank
  · have hone : max i j = 1 := by simpa [TypeKind.numberRank?, eq_comm] using hrank
    exact ⟨⟨hrank, fun hne => absurd hone hne⟩, (if_pos hone).symm⟩
  · next hdecimal =>
    have hne : max i j ≠ 1 := fun hone => hdecimal (numberRank?_eq_one.mp (hone ▸ hrank))
    exact ⟨⟨hrank, fun _ => rfl⟩, (if_neg hne).symm⟩

theorem operate?_self (hop : op.isArithmetic = true) (ha : a.HasRank i) :
    operate? op a a = some a := by
  obtain ⟨t, hrun, ht, hparams⟩ := operate?_of_hasRank hop ha ha
  rw [Nat.max_self] at ht hparams
  rw [hrun, ht.ext ha]
  rw [hparams, maxParams_self]
  split
  · rfl
  · next hne => exact (ha.params hne).symm

/-- Integers have no parameters to add. -/
theorem maxParams_of_le (ha : a.HasRank i) (hb : b.HasRank j) (hle : max i j ≤ 1) :
    (if max i j = 1 then maxParams a.params b.params else []) = maxParams a.params b.params := by
  split
  · rfl
  · next hne => rw [ha.params (by omega), hb.params (by omega), maxParams]

/-- Parameters count only if all operands are decimals or integers, and then grouping does not
matter. -/
theorem operate?_assoc (hop : op.isArithmetic = true) (ha : a.HasRank i) (hb : b.HasRank j)
    (hc : c.HasRank k) :
    ((operate? op a b).bind fun t => operate? op t c) =
      (operate? op b c).bind fun t => operate? op a t := by
  obtain ⟨ab, hab, hrank, hparams⟩ := operate?_of_hasRank hop ha hb
  obtain ⟨bc, hbc, hrank', hparams'⟩ := operate?_of_hasRank hop hb hc
  obtain ⟨left, hleft, hleftRank, hleftParams⟩ := operate?_of_hasRank hop hrank hc
  obtain ⟨right, hright, hrightRank, hrightParams⟩ := operate?_of_hasRank hop ha hrank'
  rw [hab, hbc, Option.bind_some, Option.bind_some, hleft, hright]
  rw [Nat.max_assoc] at hleftRank hleftParams
  refine congrArg some (hleftRank.ext hrightRank ?_)
  rw [hleftParams, hrightParams, hparams, hparams']
  split
  · rw [maxParams_of_le ha hb (by omega), maxParams_of_le hb hc (by omega), maxParams_assoc]
  · rfl

end SqlType

/-- A number type that can be declared. -/
structure NumberType where
  type : SqlType
  isNumber : type.kind.isNumber = true
  admitted : type.Admitted

namespace NumberType

open SqlType

theorem ext {a b : NumberType} (h : a.type = b.type) : a = b := by
  cases a
  cases b
  cases h
  rfl

theorem exists_hasRank (a : NumberType) : ∃ rank, a.type.HasRank rank :=
  SqlType.exists_hasRank a.isNumber a.admitted

/-- Arithmetic is defined on number types and gives one again. -/
theorem exists_operate? {op : BinaryOperator} (hop : op.isArithmetic = true) (a b : NumberType) :
    ∃ t : NumberType, operate? op a.type b.type = some t.type := by
  obtain ⟨i, ha⟩ := a.exists_hasRank
  obtain ⟨j, hb⟩ := b.exists_hasRank
  obtain ⟨t, hrun, ht, -⟩ := operate?_of_hasRank hop ha hb
  exact ⟨⟨t, ht.isNumber, operate?_admitted a.admitted b.admitted hrun⟩, hrun⟩

/-- The type of a sum. -/
noncomputable instance : Max NumberType where
  max a b := (exists_operate? (rfl : BinaryOperator.add.isArithmetic = true) a b).choose

/-- It is the type of a difference, a product, a quotient and a remainder as well. -/
theorem operate?_eq_max {op : BinaryOperator} (hop : op.isArithmetic = true) (a b : NumberType) :
    operate? op a.type b.type = some (a ⊔ b).type := by
  obtain ⟨i, ha⟩ := a.exists_hasRank
  rw [operate?, TypeKind.operate?_of_isArithmetic hop ha.kind,
    ← TypeKind.operate?_of_isArithmetic (rfl : BinaryOperator.add.isArithmetic = true) ha.kind]
  exact (exists_operate? rfl a b).choose_spec

theorem max_eq_of_operate? {a b t : NumberType}
    (h : operate? .add a.type b.type = some t.type) : a ⊔ b = t :=
  ext (Option.some.inj ((operate?_eq_max rfl a b).symm.trans h))

theorem max_comm (a b : NumberType) : a ⊔ b = b ⊔ a :=
  max_eq_of_operate? ((SqlType.operate?_comm _ _ _).trans (operate?_eq_max rfl b a))

theorem max_assoc (a b c : NumberType) : a ⊔ b ⊔ c = a ⊔ (b ⊔ c) := by
  obtain ⟨i, ha⟩ := a.exists_hasRank
  obtain ⟨j, hb⟩ := b.exists_hasRank
  obtain ⟨k, hc⟩ := c.exists_hasRank
  have hassoc := operate?_assoc (rfl : BinaryOperator.add.isArithmetic = true) ha hb hc
  rw [operate?_eq_max rfl a b, operate?_eq_max rfl b c, Option.bind_some, Option.bind_some,
    operate?_eq_max rfl a (b ⊔ c)] at hassoc
  exact max_eq_of_operate? hassoc

theorem max_self (a : NumberType) : a ⊔ a = a := by
  obtain ⟨i, ha⟩ := a.exists_hasRank
  exact max_eq_of_operate? (operate?_self rfl ha)

/-- Ordered by widening, number types are a semilattice. -/
noncomputable instance : SemilatticeSup NumberType :=
  SemilatticeSup.mk' max_comm max_assoc max_self

end NumberType

/-! ### Calculations -/

/-- Operations on operands of number types, in some grouping. -/
inductive Calculation where
  | operand (t : NumberType)
  | operation (op : BinaryOperator) (arithmetic : op.isArithmetic = true) (left right : Calculation)

namespace Calculation

/-- The type of the result, if every operation is defined. -/
def type? : Calculation → Option SqlType
  | operand t => some t.type
  | operation op _ left right => do SqlType.operate? op (← left.type?) (← right.type?)

/-- The types of the operands from left to right. -/
def operands : Calculation → List NumberType
  | operand t => [t]
  | operation _ _ left right => left.operands ++ right.operands

/-- The type of a calculation is the least that all its operands can be widened to. -/
theorem exists_isLUB (x : Calculation) :
    ∃ t : NumberType, x.type? = some t.type ∧ IsLUB {a | a ∈ x.operands} t := by
  induction x with
  | operand t => exact ⟨t, rfl, by simp [operands]⟩
  | operation op hop left right ihl ihr =>
    obtain ⟨l, hl, hleft⟩ := ihl
    obtain ⟨r, hr, hright⟩ := ihr
    refine ⟨l ⊔ r, ?_, ?_⟩
    · rw [type?, hl, hr]
      exact NumberType.operate?_eq_max hop l r
    · have hunion : {a | a ∈ (operation op hop left right).operands} =
          {a | a ∈ left.operands} ∪ {a | a ∈ right.operands} := by
        ext a
        exact List.mem_append
      rw [hunion]
      exact hleft.union hright

theorem type?_eq_of_mem_iff {x y : Calculation} (h : ∀ a, a ∈ x.operands ↔ a ∈ y.operands) :
    ∃ t : NumberType, x.type? = some t.type ∧ y.type? = some t.type := by
  obtain ⟨t, hx, htype⟩ := x.exists_isLUB
  obtain ⟨u, hy, hutype⟩ := y.exists_isLUB
  have hset : {a | a ∈ x.operands} = {a | a ∈ y.operands} := Set.ext h
  rw [hset] at htype
  exact ⟨t, hx, by rw [hy, htype.unique hutype]⟩

/-- No operator tells its operands apart. Arithmetic on number types is defined, gives the type
of two equal operands, and can be grouped in any way. So calculations with the same operands
have the same type, whatever their order, their grouping and the operators are. -/
theorem operate?_symmetric_associative :
    (∀ (op : BinaryOperator) (a b : SqlType), SqlType.operate? op a b = SqlType.operate? op b a) ∧
      (∀ op : BinaryOperator, op.isArithmetic = true → ∀ a b c : NumberType,
        (∃ t : NumberType, SqlType.operate? op a.type b.type = some t.type) ∧
          SqlType.operate? op a.type a.type = some a.type ∧
          ((SqlType.operate? op a.type b.type).bind fun t => SqlType.operate? op t c.type) =
            (SqlType.operate? op b.type c.type).bind fun t => SqlType.operate? op a.type t) ∧
      ∀ x y : Calculation, x.operands.Perm y.operands →
        ∃ t : NumberType, x.type? = some t.type ∧ y.type? = some t.type := by
  refine ⟨SqlType.operate?_comm, fun op hop a b c => ⟨a.exists_operate? hop b, ?_, ?_⟩, ?_⟩
  · obtain ⟨i, ha⟩ := a.exists_hasRank
    exact SqlType.operate?_self hop ha
  · obtain ⟨i, ha⟩ := a.exists_hasRank
    obtain ⟨j, hb⟩ := b.exists_hasRank
    obtain ⟨k, hc⟩ := c.exists_hasRank
    exact SqlType.operate?_assoc hop ha hb hc
  · exact fun x y h => type?_eq_of_mem_iff fun a => h.mem_iff

/-- A product and a sum of decimals and an integer, and the same operands in another order and
grouping. -/
theorem operate?_symmetric_associative_decimals :
    let wide : NumberType := ⟨⟨.decimal, [10, 2]⟩, rfl, by decide, by decide⟩
    let long : NumberType := ⟨⟨.decimal, [12]⟩, rfl, by decide, by decide⟩
    let whole : NumberType := ⟨SqlType.plain .integer, rfl, SqlType.admitted_plain _⟩
    let x : Calculation := .operation .multiply rfl
      (.operation .add rfl (.operand wide) (.operand long)) (.operand whole)
    let y : Calculation := .operation .multiply rfl (.operand whole)
      (.operation .add rfl (.operand long) (.operand wide))
    BinaryOperator.add.isArithmetic = true ∧ x.operands.Perm y.operands ∧
      x.type? = some ⟨.decimal, [12, 2]⟩ ∧
      (∃ t : NumberType, SqlType.operate? .add wide.type long.type = some t.type) ∧
      ∃ t : NumberType, x.type? = some t.type ∧ y.type? = some t.type := by
  intro wide long whole x y
  obtain ⟨-, harithmetic, hgrouping⟩ := operate?_symmetric_associative
  have hperm : x.operands.Perm y.operands := by
    show [wide, long, whole].Perm [whole, long, wide]
    exact (List.reverse_perm [wide, long, whole]).symm
  exact ⟨rfl, hperm, rfl, (harithmetic .add rfl wide long whole).1, hgrouping x y hperm⟩

end Calculation
end SqlAnalysis
