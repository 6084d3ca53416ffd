import SqlAnalysis.Resolution.Resolver

/-!
# Resolving expressions and queries

Every name is bound to a table or column and every expression gets its type. A
query gets a table in the catalog that holds the columns of its result.
-/
namespace SqlAnalysis.Resolver

/-- Complains about a condition that is known not to be a truth value. -/
def requireBoolean (clause : String) (e : Expr) : Resolver Unit := do
  if let some t := e.type then
    if t.kind ≠ .boolean then
      error s!"{clause} clause must be boolean, found {t.render}" e.span

/-- A condition in a scope of its own. -/
def condition (clause : String) (span : Span) (resolved : Resolver Expr) : Resolver Expr :=
  within span do
    let e ← resolved
    requireBoolean clause e
    return e

/-- Complains about a limit or offset that is known not to be an integer. -/
def requireInteger (e : Expr) : Resolver Unit := do
  if let some t := e.type then
    if !t.kind.canCastTo .integer then
      error s!"LIMIT must be an integer, found {t.render}" e.span

/-- Complains about a member whose type does not go with what is looked for. -/
def requireMember (left element : Option SqlType) (op : BinaryOperator) (span : Span) :
    Resolver Unit := do
  if let (some left, some element) := (left, element) then
    if !element.canCastTo left then
      let words := s!"{op.spelling} element of type {element.render}"
      error s!"{words} is not compatible with {left.render}" span

/-- The type of an operation on two operands. -/
def binaryType (op : BinaryOperator) (left right : Option SqlType) (span : Span) :
    Resolver (Option SqlType) := do
  match left, right with
  | some l, some r =>
    let result := SqlType.operate? op l r
    if result.isNone then
      error s!"operator {op.spelling} is not defined for {l.render} and {r.render}" span
    return result
  | _, _ => return none

/-- The type of an operation on one operand. -/
def unaryType (op : UnaryOperator) (operand : Option SqlType) (span : Span) :
    Resolver (Option SqlType) := do
  match operand with
  | some t =>
    let result := t.operateUnary? op
    if result.isNone then
      error s!"operator {op.spelling} is not defined for {t.render}" span
    return result
  | none => return none

/-- The type of a call. -/
def callType (function : Ident) (args : List (Option SqlType)) (star : Bool) (span : Span) :
    Resolver (Option SqlType) := do
  match Signature.resolve function.name args star with
  | .resolved t _ => return t
  | .unknownFunction =>
    errorWithFix s!"unknown method {function.name}" function.span
      (Suggestion.fix? function.name Signature.names)
    return none
  | .wrongArity expected =>
    let given := if star then "*" else toString args.length
    let known := Text.joinWith " or " expected
    error s!"wrong number of arguments to {function.name} ({given}); expected {known}" span
    return none
  | .noMatchingSignature expected =>
    let given := commaList (args.map fun t => (t.map SqlType.render).getD "?")
    let known := Text.joinWith " or " expected
    error s!"no matching method {function.name}({given}); expected {known}" span
    return none

/-- A qualified name. What stands before the point must be a visible table. -/
def dot (note : Note) (left : Expr) (right : Ident) : Resolver Expr := do
  match left with
  | .name leftNote table =>
    match ← scopeTable? table with
    | some id =>
      let column ← tableColumn? id right
      let type ← columnType column
      let left := Expr.name { leftNote with binding := some (.table id) } table
      return .dot { note with type := type, binding := column.map .column } left right
    | none => return .dot note left right
  | _ =>
    error "expected a table name before '.'" left.span
    return .dot note left right

/-- The type of the only column of a table. -/
def onlyColumnType (table : TableId) (wrongCount : Nat → Resolver Unit) :
    Resolver (Option SqlType) := do
  let c ← catalog
  match (c.table table).columns with
  | [only] => return (c.column only).type
  | columns =>
    wrongCount columns.length
    return none

/-- The name of a result column that has no alias. -/
def columnName : Expr → String
  | .name _ ident => ident.name
  | .dot _ _ right => right.name
  | e => e.render

/-- Adds the column of an expression to a result. Gives its alias, if it has one. -/
def addResultColumn (result : TableId) (value : Expr) (label : Option Ident) :
    Resolver (Option (String × ColumnId)) := do
  let name := match label with
    | some label => label.name
    | none => columnName value
  let id ← addColumn result (Column.plain name value.type result)
  return label.map fun label => (label.name, id)

/-- Adds the columns of all sources to a result. -/
def addStar (result : TableId) (hasSource : Bool) (joined : List (String × TableId))
    (span : Span) : Resolver Unit := do
  if !hasSource then
    error "'*' requires a FROM clause" span
  modifyCatalog fun c => joined.foldl (fun c entry => c.copyColumns entry.2 result) c

/-- Adds the columns of the first source with a name to a result. -/
def addTableStar (result : TableId) (joined : List (String × TableId)) (name : Ident) :
    Resolver Unit := do
  match joined.find? fun entry => name.isNamed entry.1 with
  | some (_, table) => modifyCatalog fun c => c.copyColumns table result
  | none =>
    errorWithFix s!"unknown table {name.name}" name.span
      (Suggestion.fix? name.name (joined.map Prod.fst))

/-- A table as a source. If it is unknown, so is what its scope has to offer. -/
def tableSource (name : Ident) (label : Option Ident) :
    Resolver (Source × Option (String × TableId)) := do
  match ← catalogTable? name with
  | some table =>
    let visible := (label.getD name).name
    modify fun s => s.bindTable visible table
    return (.table name label (some table), some (visible, table))
  | none =>
    modify fun s => s.modifyFrame fun f => { f with opaqueSource := true }
    return (.table name label none, none)

/-- The name under which a query is a source. -/
def subqueryName (label : Option Ident) : String :=
  match label with
  | some label => label.name
  | none => "subquery"

/-- Binds the result of a query as a source. Without an alias its columns can
still be named. -/
def bindSubquery (label : Option Ident) (table : TableId) : Resolver Unit :=
  match label with
  | some label => modify fun s => s.bindTable label.name table
  | none => modify fun s => s.bindColumns table

mutual

/-- An expression with its type and bindings. -/
def term : Expr → Resolver Expr
  | .constant note value => return .constant { note with type := value.sqlType? } value
  | .name note ident => do
    let column ← scopeColumn? ident
    let type ← columnType column
    return .name { note with type := type, binding := column.map .column } ident
  | .dot note left right => dot note left right
  | .binary note left op right => do
    let left ← term left
    let ordinary := term right
    if op.isMembership then
      let boolean := { note with type := some (SqlType.plain .boolean) }
      match right with
      | .subquery rightNote select =>
        let (select, table) ← query "subquery" select
        let type ← onlyColumnType table fun count =>
          error s!"subquery in {op.spelling} must return exactly one column, found {count}"
            rightNote.span
        requireMember left.type type op rightNote.span
        return .binary boolean left op (.subquery { rightNote with type := type } select)
      | .list rightNote items =>
        let items ← memberTerms left.type op items
        return .binary boolean left op (.list rightNote items)
      | _ =>
        let right ← ordinary
        requireMember left.type right.type op right.span
        return .binary boolean left op right
    else
      let right ← ordinary
      let type ← binaryType op left.type right.type note.span
      return .binary { note with type := type } left op right
  | .unary note op operand => do
    let operand ← term operand
    let type ← unaryType op operand.type note.span
    return .unary { note with type := type } op operand
  | .call note function args => do
    let args ← terms args
    let type ← callType function (args.map Expr.type) false note.span
    return .call { note with type := type } function args
  | .callStar note function star => do
    let type ← callType function [] true note.span
    return .callStar { note with type := type } function star
  | .brackets note inner => do
    let inner ← term inner
    return .brackets { note with type := inner.type } inner
  | .list note items => return .list note (← terms items)
  | .subquery note select => do
    let (select, table) ← query "subquery" select
    let type ← onlyColumnType table fun count =>
      error s!"subquery must return exactly one column, found {count}" note.span
    return .subquery { note with type := type } select

def terms : List Expr → Resolver (List Expr)
  | [] => return []
  | e :: es => do
    let e ← term e
    return e :: (← terms es)

/-- The members of a list in which something of a type is looked for. -/
def memberTerms (left : Option SqlType) (op : BinaryOperator) : List Expr → Resolver (List Expr)
  | [] => return []
  | e :: es => do
    let e ← term e
    requireMember left e.type op e.span
    return e :: (← memberTerms left op es)

/-- One source of rows, bound in the innermost scope. -/
def source : Source → Resolver (Source × Option (String × TableId))
  | .table name label _ => tableSource name label
  | .subquery select label span => do
    let (select, table) ← query (subqueryName label) select
    bindSubquery label table
    return (.subquery select label span, some (subqueryName label, table))

/-- Further sources, each with its condition. -/
def joins : List Join → Resolver (List Join × List (String × TableId))
  | [] => return ([], [])
  | ⟨natural, op, table, none, span⟩ :: rest => do
    let (table, entry) ← source table
    let (rest, entries) ← joins rest
    return (⟨natural, op, table, none, span⟩ :: rest, entry.toList ++ entries)
  | ⟨natural, op, table, some on, span⟩ :: rest => do
    let (table, entry) ← source table
    let on ← condition "ON" on.span (term on)
    let (rest, entries) ← joins rest
    return (⟨natural, op, table, some on, span⟩ :: rest, entry.toList ++ entries)

/-- The columns of a result, with the aliases among them. -/
def resultColumns (result : TableId) (hasSource : Bool) (joined : List (String × TableId)) :
    List ResultColumn → Resolver (List ResultColumn × List (String × ColumnId))
  | [] => return ([], [])
  | .star span :: rest => do
    addStar result hasSource joined span
    let (rest, aliases) ← resultColumns result hasSource joined rest
    return (.star span :: rest, aliases)
  | .tableStar table :: rest => do
    addTableStar result joined table
    let (rest, aliases) ← resultColumns result hasSource joined rest
    return (.tableStar table :: rest, aliases)
  | .expr value label :: rest => do
    let value ← term value
    let entry ← addResultColumn result value label
    let (rest, aliases) ← resultColumns result hasSource joined rest
    return (.expr value label :: rest, entry.toList ++ aliases)

def orderingTerms : List OrderingTerm → Resolver (List OrderingTerm)
  | [] => return []
  | ⟨expr, direction, nulls⟩ :: rest => do
    let expr ← term expr
    return ⟨expr, direction, nulls⟩ :: (← orderingTerms rest)

/-- The sources of a query with the names they have there. -/
def sources : Option FromClause → Resolver (Option FromClause × List (String × TableId))
  | none => return (none, [])
  | some ⟨first, others⟩ => do
    let (first, entry) ← source first
    let (others, entries) ← joins others
    return (some ⟨first, others⟩, entry.toList ++ entries)

/-- The condition of a query or of a statement about one table. -/
def rowCondition : Option Expr → Resolver (Option Expr)
  | some e => some <$> condition "WHERE" e.span (term e)
  | none => return none

def groups : Option GroupBy → Resolver (Option GroupBy)
  | none => return none
  | some ⟨exprs, none, span⟩ => do
    let exprs ← terms exprs
    return some ⟨exprs, none, span⟩
  | some ⟨exprs, some having, span⟩ => do
    let exprs ← terms exprs
    let having ← condition "HAVING" having.span (term having)
    return some ⟨exprs, some having, span⟩

/-- The order of the rows, in a scope that knows the aliases of the result. -/
def order (aliases : List (String × ColumnId)) : Option OrderBy → Resolver (Option OrderBy)
  | none => return none
  | some ⟨items, span⟩ => within span do
    modify fun s => aliases.foldl (fun s entry => s.bindColumn entry.1 entry.2) s
    let items ← orderingTerms items
    return some ⟨items, span⟩

def limits : Option Limit → Resolver (Option Limit)
  | none => return none
  | some ⟨count, none, span⟩ => do
    let count ← term count
    requireInteger count
    return some ⟨count, none, span⟩
  | some ⟨count, some offset, span⟩ => do
    let count ← term count
    requireInteger count
    let offset ← term offset
    requireInteger offset
    return some ⟨count, some offset, span⟩

/-- A query in a scope of its own, and the table of its result, which gets the
name given. -/
def query (name : String) : Select → Resolver (Select × TableId)
  | ⟨distinct, columns, clause, test, groupBy, orderBy, limit, span, _⟩ => within span do
    let (clause, joined) ← sources clause
    let result ← addTable name .derived
    let (columns, aliases) ← resultColumns result clause.isSome joined columns
    let test ← rowCondition test
    let groupBy ← groups groupBy
    let orderBy ← order aliases orderBy
    let limit ← limits limit
    return (⟨distinct, columns, clause, test, groupBy, orderBy, limit, span, some result⟩, result)

end

end SqlAnalysis.Resolver
