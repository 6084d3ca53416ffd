import SqlAnalysis.SqlType.Basic

/-!
# Built-in functions

A function name stands for one or more signatures. A call is typed by the first
signature that takes its number of arguments and, argument by argument, one of
the kinds to which the argument converts. An unknown type fits everywhere.
-/
namespace SqlAnalysis

/-- What a parameter takes. -/
inductive ParamType where
  | any
  /-- Arguments that convert to one of these at least. -/
  | oneOf (kinds : List TypeKind)
deriving DecidableEq, Inhabited

namespace ParamType

def numbers : ParamType := .oneOf [.integer, .real, .numeric, .decimal]
def strings : ParamType := .oneOf [.varchar, .char, .text]
def times : ParamType := .oneOf [.varchar, .char, .text, .date, .datetime]
def integers : ParamType := .oneOf [.integer]

def accepts : ParamType → Option SqlType → Bool
  | .oneOf kinds, some t => kinds.any t.kind.canCastTo
  | _, _ => true

@[simp] theorem accepts_none (p : ParamType) : p.accepts none = true := by
  cases p <;> rfl

def render : ParamType → String
  | .any => "any"
  | .oneOf kinds => Text.joinWith "|" (kinds.map TypeKind.name)

end ParamType

/-- How the type of a call follows from its arguments. -/
inductive ResultRule where
  | fixed (kind : TypeKind)
  /-- The type of the first argument. -/
  | first
deriving DecidableEq, Inhabited

/-- One way to call a function. -/
structure Signature where
  name : String
  params : List ParamType
  result : ResultRule
  /-- The last parameter may be repeated. -/
  variadic : Bool := false
  aggregate : Bool := false
  /-- The call has a lone star in the place of arguments. -/
  star : Bool := false
deriving DecidableEq, Inhabited

namespace Signature

/-- Whether a call with so many arguments, or with a star, has this shape. -/
def fitsShape (s : Signature) (count : Nat) (star : Bool) : Bool :=
  if star then s.star
  else !s.star && (if s.variadic then s.params.length ≤ count else count == s.params.length)

/-- Whether every argument is taken by its parameter; arguments beyond the last
parameter are taken as the last one is. -/
def fitsTypes : List ParamType → List (Option SqlType) → Bool
  | _, [] => true
  | [], _ => true
  | [p], args => args.all p.accepts
  | p :: ps, arg :: args => p.accepts arg && fitsTypes ps args

def render (s : Signature) : String :=
  if s.star then
    s.name ++ "(*)"
  else
    let params := Text.joinWith ", " (s.params.map ParamType.render)
    let dots := if s.variadic then ", ..." else ""
    s!"{s.name}({params}{dots})"

/-- The type of a call with these arguments. -/
def resultType (s : Signature) (args : List (Option SqlType)) : Option SqlType :=
  match s.result with
  | .fixed kind => some (SqlType.plain kind)
  | .first => args.head?.join

open ParamType in
/-- Every signature there is, in order of preference. -/
def all : List Signature :=
  [{ name := "abs", params := [numbers], result := .first },
    { name := "round", params := [numbers], result := .fixed .real },
    { name := "round", params := [numbers, integers], result := .fixed .real },
    { name := "length", params := [strings], result := .fixed .integer },
    { name := "lower", params := [strings], result := .first },
    { name := "upper", params := [strings], result := .first },
    { name := "trim", params := [strings], result := .first },
    { name := "trim", params := [strings, strings], result := .first },
    { name := "substr", params := [strings, integers], result := .fixed .text },
    { name := "substr", params := [strings, integers, integers], result := .fixed .text },
    { name := "replace", params := [strings, strings, strings], result := .fixed .text },
    { name := "ifnull", params := [any, any], result := .first },
    { name := "date", params := [times], result := .fixed .date },
    { name := "datetime", params := [times], result := .fixed .datetime },
    { name := "strftime", params := [strings, times], result := .fixed .text },
    { name := "typeof", params := [any], result := .fixed .text },
    { name := "random", params := [], result := .fixed .integer },
    { name := "coalesce", params := [any, any], result := .first, variadic := true },
    { name := "count", params := [], result := .fixed .integer, aggregate := true,
      star := true },
    { name := "count", params := [any], result := .fixed .integer, aggregate := true },
    { name := "sum", params := [numbers], result := .first, aggregate := true },
    { name := "avg", params := [numbers], result := .fixed .real, aggregate := true },
    { name := "min", params := [any], result := .first, aggregate := true },
    { name := "max", params := [any], result := .first, aggregate := true }]

/-- The signatures of a function. -/
def overloads (name : String) : List Signature :=
  all.filter fun s => s.name == Text.foldCase name

/-- Every function name once, in alphabetical order. -/
def names : List String :=
  ((all.map Signature.name).eraseDups).mergeSort fun a b => decide (a ≤ b)

/-- What a call turns out to be. -/
inductive Match where
  /-- Of unknown type where the result follows an argument of unknown type. -/
  | resolved (type : Option SqlType) (aggregate : Bool)
  | unknownFunction
  /-- No signature takes so many arguments. -/
  | wrongArity (expected : List String)
  | noMatchingSignature (expected : List String)
deriving DecidableEq, Inhabited

/-- Types the call of a function. -/
def resolve (name : String) (args : List (Option SqlType)) (star : Bool) : Match :=
  match overloads name with
  | [] => .unknownFunction
  | candidates =>
    match candidates.filter fun s => s.fitsShape args.length star with
    | [] => .wrongArity (candidates.map Signature.render)
    | fitting =>
      match fitting.find? fun s => fitsTypes s.params args with
      | some s => .resolved (s.resultType args) s.aggregate
      | none => .noMatchingSignature (candidates.map Signature.render)

end Signature
end SqlAnalysis
