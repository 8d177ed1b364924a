import LetLang.Tree.Basic

/-!
# Subtrees and names

The nodes of a tree, and the names that stand in it: those of its identifiers, those that
it declares and those that it assigns to. A name that is declared or assigned to in any
part of the tree counts, whether that part is evaluated or not.
-/

namespace LetLang
namespace Node

mutual

/-- The node and all nodes below it. -/
def subtrees : Node → List Node
  | n@(program _ body) => n :: subtreesAll body
  | n@(declaration _ _ _ _ none) => [n]
  | n@(declaration _ _ _ _ (some value)) => n :: subtrees value
  | n@(conditional _ _ condition block) => n :: (subtrees condition ++ subtreesAll block)
  | n@(identifier _ _) => [n]
  | n@(number _ _) => [n]
  | n@(string _ _) => [n]
  | n@(operation _ _ _ _ left right) => n :: (subtrees left ++ subtrees right)
  | n@(unary _ _ operand) => n :: subtrees operand
  | n@(assignment _ target value) => n :: (subtrees target ++ subtrees value)
  | n@(unknown _ _) => [n]

/-- The nodes and all nodes below them. -/
def subtreesAll : List Node → List Node
  | [] => []
  | n :: ns => subtrees n ++ subtreesAll ns

end

theorem mem_subtreesAll
    {m n : Node} {ns : List Node}
    (hn : n ∈ ns)
    (hm : m ∈ n.subtrees) :
    m ∈ subtreesAll ns := by
  induction ns with
  | nil => cases hn
  | cons first ns ih =>
      rw [subtreesAll]
      rcases List.mem_cons.mp hn with rfl | hn
      · exact List.mem_append_left _ hm
      · exact List.mem_append_right _ (ih hn)

theorem mem_subtrees_self
    (n : Node) :
    n ∈ n.subtrees := by
  cases n with
  | declaration _ _ _ _ value => cases value <;> simp [subtrees]
  | _ => simp [subtrees]

/-- The name that the node is. -/
def identifierName? : Node → Option String
  | identifier _ name => some name
  | _ => none

/-- The name that the node declares. -/
def declaredName? : Node → Option String
  | declaration _ name _ _ _ => some name
  | _ => none

/-- The name that the node assigns to. -/
def assignedName? : Node → Option String
  | assignment _ (identifier _ name) _ => some name
  | _ => none

/-- The names that stand in the tree as identifiers. -/
def identifiers (n : Node) : List String :=
  n.subtrees.filterMap identifierName?

/-- The names that are declared in the tree. -/
def declaredNames (n : Node) : List String :=
  n.subtrees.filterMap declaredName?

/-- The names that are assigned to in the tree. -/
def assignedNames (n : Node) : List String :=
  n.subtrees.filterMap assignedName?

/-- The names that are declared or assigned to in the tree. -/
def changedNames (n : Node) : List String :=
  n.declaredNames ++ n.assignedNames

/-- All names that stand in the tree. -/
def names (n : Node) : List String :=
  n.identifiers ++ n.changedNames

theorem mem_names_of_mem_identifiers
    {n : Node} {name : String}
    (h : name ∈ n.identifiers) :
    name ∈ n.names := by
  exact List.mem_append_left _ h

theorem mem_names_of_mem_changedNames
    {n : Node} {name : String}
    (h : name ∈ n.changedNames) :
    name ∈ n.names := by
  exact List.mem_append_right _ h

end Node
end LetLang
