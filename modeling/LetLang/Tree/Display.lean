import LetLang.Number.Decimal
import LetLang.Text.Quoted
import LetLang.Tree.Basic
import LetLang.Value.Basic

/-!
# Trees as text

Two written forms of a tree, neither of which shows positions. `Node.display` puts each
node on a line of its own, indented by its depth: the name of its kind, then its own
attributes and its child nodes. `Node.summary` writes the same tree on one line, with every
field under its name.
-/

namespace LetLang
namespace Node

/-- A field under its name. -/
def field (name value : String) : String :=
  name ++ "=" ++ value

/-- Four spaces for each level of depth. -/
def indent (depth : Nat) : String :=
  String.ofList (List.replicate (4 * depth) ' ')

/-- A node at that depth, with its attributes and the displays of its children. -/
def block (depth : Nat) (kindName : String) (attributes children : List String) : String :=
  let separator := if attributes.isEmpty || children.isEmpty then "" else ", "
  let nested :=
    if children.isEmpty then ""
    else "nodes=[" ++ ",".intercalate (children.map ("\n" ++ ·)) ++
      "\n" ++ indent depth ++ "]"
  indent depth ++ kindName ++ "(" ++ ", ".intercalate attributes ++
    separator ++ nested ++ ")"

mutual

/-- The tree in lines, its root at that depth. -/
def display (depth : Nat) (node : Node) : String :=
  match node with
  | program _ body => block depth node.kindName [] (displayAll (depth + 1) body)
  | declaration _ name _ constant none =>
    block depth node.kindName
      [field "identifier" (Text.quoted name), field "constant" (Value.flag constant),
        field "value" "None"] []
  | declaration _ name _ constant (some value) =>
    block depth node.kindName
      [field "identifier" (Text.quoted name),
        field "constant" (Value.flag constant)] [display (depth + 1) value]
  | conditional _ branch condition body =>
    block depth node.kindName [field "block_name" branch.label]
      (display (depth + 1) condition :: displayAll (depth + 1) body)
  | identifier _ name => block depth node.kindName [field "symbol" (Text.quoted name)] []
  | number _ x => block depth node.kindName [field "value" (Decimal.numeral x)] []
  | string _ text => block depth node.kindName [field "value" (Text.quoted text)] []
  | operation _ _ operator _ left right =>
    block depth node.kindName [field "operator" (Text.quoted operator)]
      [display (depth + 1) left, display (depth + 1) right]
  | unary _ operator operand =>
    block depth node.kindName [field "operator" (Text.quoted operator)]
      [display (depth + 1) operand]
  | assignment _ target value =>
    block depth node.kindName [] [display (depth + 1) target, display (depth + 1) value]
  | unknown _ _ => block depth node.kindName [] []

/-- The displays of several trees. -/
def displayAll (depth : Nat) : List Node → List String
  | [] => []
  | n :: ns => display depth n :: displayAll depth ns

end

/-- Several items in parentheses, a single one with a comma after it. -/
def tuple : List String → String
  | [item] => "(" ++ item ++ ",)"
  | items => "(" ++ ", ".intercalate items ++ ")"

/-- The name of a kind with the fields of a node. -/
def record (kindName : String) (fields : List String) : String :=
  kindName ++ "(" ++ ", ".intercalate fields ++ ")"

mutual

/-- The tree on one line. -/
def summary (node : Node) : String :=
  match node with
  | program _ body => record node.kindName [field "body" (tuple (summaryAll body))]
  | declaration _ name _ constant none =>
    record node.kindName
      [field "identifier" (Text.quoted name), field "constant" (Value.flag constant),
        field "value" "None"]
  | declaration _ name _ constant (some value) =>
    record node.kindName
      [field "identifier" (Text.quoted name), field "constant" (Value.flag constant),
        field "value" (summary value)]
  | conditional _ branch condition body =>
    record node.kindName
      [field "block_name" ("<BlockName." ++ branch.label ++ ": " ++
        Text.quoted branch.keyword ++ ">"), field "condition" (summary condition),
        field "block" (tuple (summaryAll body))]
  | identifier _ name => record node.kindName [field "symbol" (Text.quoted name)]
  | number _ x => record node.kindName [field "value" (Decimal.numeral x)]
  | string _ text => record node.kindName [field "value" (Text.quoted text)]
  | operation _ _ operator _ left right =>
    record node.kindName
      [field "operator" (Text.quoted operator), field "left" (summary left),
        field "right" (summary right)]
  | unary _ operator operand =>
    record node.kindName [field "operator" (Text.quoted operator),
      field "operand" (summary operand)]
  | assignment _ target value =>
    record node.kindName [field "assignee" (summary target), field "value" (summary value)]
  | unknown _ _ => record node.kindName []

/-- The one-line forms of several trees. -/
def summaryAll : List Node → List String
  | [] => []
  | n :: ns => summary n :: summaryAll ns

end

end Node
end LetLang
