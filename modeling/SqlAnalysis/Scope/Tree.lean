import SqlAnalysis.Scope.Basic

/-!
# Scope trees

The scopes of a source text nested in each other. A scope in a tree is found by
its path: the numbers of the children to enter, from the root on.
-/
namespace SqlAnalysis

inductive ScopeTree where
  | node (scope : Scope) (children : List ScopeTree)

namespace ScopeTree

/-- The way from the root to a scope. -/
abbrev Path := List Nat

def scope : ScopeTree → Scope
  | .node scope _ => scope

def children : ScopeTree → List ScopeTree
  | .node _ children => children

instance : Inhabited ScopeTree := ⟨.node default []⟩

/-- A tree of one scope. -/
def leaf (range : Range) : ScopeTree := .node { range := range } []

mutual

/-- The number of scopes. -/
def size : ScopeTree → Nat
  | .node _ children => sizeOfList children + 1

def sizeOfList : List ScopeTree → Nat
  | [] => 0
  | t :: ts => t.size + sizeOfList ts

end

/-- The scopes on a path, from the inside out. A path that leads nowhere ends
with the last scope it reaches. -/
def chainFrom (outer : List Scope) : Path → ScopeTree → List Scope
  | [], t => t.scope :: outer
  | i :: path, t =>
    match t.children[i]? with
    | some child => chainFrom (t.scope :: outer) path child
    | none => t.scope :: outer

def chain (t : ScopeTree) (path : Path) : List Scope :=
  chainFrom [] path t

/-- The subtree at a path. -/
def get? : Path → ScopeTree → Option ScopeTree
  | [], t => some t
  | i :: path, t => t.children[i]?.bind (get? path)

/-- Changes the subtree at a path. -/
def modify (f : ScopeTree → ScopeTree) : Path → ScopeTree → ScopeTree
  | [], t => f t
  | i :: path, .node scope children => .node scope (children.modify i (modify f path))

def modifyScope (t : ScopeTree) (path : Path) (f : Scope → Scope) : ScopeTree :=
  t.modify (fun | .node scope children => .node (f scope) children) path

/-- Puts a new scope inside the one at a path, cut to fit, and gives its path. -/
def push (t : ScopeTree) (path : Path) (range : Range) : Path × ScopeTree :=
  let number := match t.get? path with
    | some outer => outer.children.length
    | none => 0
  let inside := fun
    | ScopeTree.node scope children => .node scope (children ++ [leaf (scope.clip range)])
  (path ++ [number], t.modify inside path)

/-- Whether one region is entered rather than another: it starts later, or with
it and ends earlier. -/
def isCloser (a b : Range) : Bool :=
  decide (b.start < a.start) || (decide (a.start = b.start) && decide (a.stop < b.stop))

/-- The child to enter among those given with their numbers and paths, the first
one of equals. -/
def closest? (candidates : List (Range × Path)) : Option (Range × Path) :=
  candidates.foldl (fun best c =>
    match best with
    | some b => if isCloser c.1 b.1 then some c else some b
    | none => some c) none

mutual

/-- The path to the innermost scope around a position. The end of a range counts
as inside, so that a cursor after a query still sees the query's names. -/
def pathAt (p : Position) : ScopeTree → Path
  | .node _ children =>
    match closest? (candidatesAt p 0 children) with
    | some (_, path) => path
    | none => []

/-- The children, numbered from `i` on, that touch a position, each with the path
into it. -/
def candidatesAt (p : Position) (i : Nat) : List ScopeTree → List (Range × Path)
  | [] => []
  | t :: ts =>
    if t.scope.range.touches p then
      (t.scope.range, i :: pathAt p t) :: candidatesAt p (i + 1) ts
    else
      candidatesAt p (i + 1) ts

end

/-- The scopes around a position, from the inside out. -/
def chainAt (t : ScopeTree) (p : Position) : List Scope :=
  t.chain (t.pathAt p)

end ScopeTree
end SqlAnalysis
