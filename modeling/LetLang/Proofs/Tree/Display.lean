import LetLang.Proofs.Number.Distinction
import LetLang.Proofs.Text.Quoted
import LetLang.Proofs.Tree.Subtrees
import LetLang.Proofs.Tree.WellFormed
import LetLang.Tree.Display

/-!
# The display determines the tree

A display can be read from its beginning: the name of the kind ends at the first
parenthesis, it tells which attributes follow, quoted texts delimit themselves, and
numerals, labels and truth values end before a comma or a parenthesis. After a child comes
a comma if there is another one, and a new line otherwise. So trees with the same display
are the same tree up to positions.
-/

namespace LetLang
namespace Node

/-- The node is of a kind of the language, and no literal that is not a number. -/
def IsOrdinary : Node → Prop
  | number _ x => x.isNaN = false
  | unknown _ _ => False
  | _ => True

/-- All nodes of the tree are ordinary. -/
def Ordinary (n : Node) : Prop :=
  ∀ m ∈ n.subtrees, m.IsOrdinary

/-- Two nodes of one kind. -/
inductive Alike : Node → Node → Prop
  | program
      (p p' : Pos) (body body' : List Node) :
      Alike (.program p body) (.program p' body')
  | declaration
      (p p' : Pos) (name name' : String) (q q' : Pos) (constant constant' : Bool)
      (value value' : Option Node) :
      Alike (.declaration p name q constant value)
        (.declaration p' name' q' constant' value')
  | conditional
      (p p' : Pos) (branch branch' : Branch) (condition condition' : Node)
      (block block' : List Node) :
      Alike (.conditional p branch condition block)
        (.conditional p' branch' condition' block')
  | identifier
      (p p' : Pos) (name name' : String) :
      Alike (.identifier p name) (.identifier p' name')
  | number
      (p p' : Pos) (x x' : Float) :
      Alike (.number p x) (.number p' x')
  | string
      (p p' : Pos) (text text' : String) :
      Alike (.string p text) (.string p' text')
  | operation
      (family : Family) (p p' : Pos) (operator operator' : String) (q q' : Pos)
      (left left' right right' : Node) :
      Alike (.operation family p operator q left right)
        (.operation family p' operator' q' left' right')
  | unary
      (p p' : Pos) (operator operator' : String) (operand operand' : Node) :
      Alike (.unary p operator operand) (.unary p' operator' operand')
  | assignment
      (p p' : Pos) (target target' value value' : Node) :
      Alike (.assignment p target value) (.assignment p' target' value')

theorem familyOf_kindName
    {f g : Family}
    (h : f.kindName = g.kindName) :
    f = g := by
  revert h
  cases f <;> cases g <;> decide

/-- The name of its kind tells what an ordinary node consists of. -/
theorem alike_of_kindName
    {s t : Node}
    (hs : s.IsOrdinary)
    (ht : t.IsOrdinary)
    (h : s.kindName = t.kindName) :
    Alike s t := by
  cases s with
  | unknown => cases hs
  | operation f p o q l r =>
      cases t with
      | unknown => cases ht
      | operation g p' o' q' l' r' =>
          obtain rfl := familyOf_kindName h
          exact .operation f p p' o o' q q' l l' r r'
      | _ => cases f <;> simp [kindName, Family.kindName] at h
  | _ =>
      cases t with
      | unknown => cases ht
      | operation g => cases g <;> simp [kindName, Family.kindName] at h
      | _ => first | constructor | simp [kindName] at h

theorem not_mem_kindName
    {n : Node}
    (h : n.IsOrdinary) :
    '(' ∉ n.kindName.toList := by
  cases n with
  | unknown => cases h
  | operation f => cases f <;> simp [kindName, Family.kindName]
  | _ => simp [kindName]

section Blocks

/-- The children of a node after the first one, and the end of the list of children. -/
def following (depth : Nat) : List String → List Char
  | [] => '\n' :: ((indent depth).toList ++ [']'])
  | c :: cs => ',' :: '\n' :: (c.toList ++ following depth cs)

/-- The children of a node. -/
def listing (depth : Nat) : List String → List Char
  | [] => []
  | c :: cs =>
      ['n', 'o', 'd', 'e', 's', '=', '['] ++ '\n' :: (c.toList ++ following depth cs)

theorem toList_siblings
    (depth : Nat) (c : String) (cs : List String) :
    (",".intercalate ((c :: cs).map ("\n" ++ ·)) ++ "\n" ++ indent depth ++ "]").toList =
      '\n' :: (c.toList ++ following depth cs) := by
  have hcomma : ",".toList = [','] := rfl
  have hnewline : "\n".toList = ['\n'] := rfl
  have hclose : "]".toList = [']'] := rfl
  induction cs generalizing c with
  | nil =>
      simp only [List.map_cons, List.map_nil, String.intercalate_singleton, following,
        String.toList_append, List.append_assoc, hnewline, hclose]
      rfl
  | cons d ds ih =>
      have hnext := ih d
      simp only [List.map_cons, String.intercalate_cons_cons, String.toList_append,
        List.append_assoc] at hnext ⊢
      rw [hnext, hcomma, hnewline, following]
      rfl

/-- What stands between the parentheses of a node. -/
def contents (depth : Nat) (attributes children : List String) : List Char :=
  (", ".intercalate attributes).toList ++
    ((if attributes.isEmpty || children.isEmpty then ""
      else ", ").toList ++ listing depth children)

theorem toList_block
    (depth : Nat) (kindName : String) (attributes children : List String) :
    (block depth kindName attributes children).toList =
      (indent depth).toList ++
        (kindName.toList ++ '(' :: (contents depth attributes children ++ [')'])) := by
  have hopen : "(".toList = ['('] := rfl
  have hclose : ")".toList = [')'] := rfl
  have hnodes : "nodes=[".toList = ['n', 'o', 'd', 'e', 's', '=', '['] := rfl
  cases children with
  | nil =>
      simp only [block, contents, listing, List.isEmpty_nil, Bool.or_true, if_true,
        String.toList_append, String.toList_empty, List.append_nil, List.append_assoc,
        hopen, hclose, List.cons_append, List.nil_append]
  | cons c cs =>
      have hsiblings := toList_siblings depth c cs
      rw [String.toList_append, String.toList_append, String.toList_append] at hsiblings
      rw [block, contents, listing, ← hsiblings]
      simp only [List.isEmpty_cons, Bool.or_false, Bool.false_eq_true, if_false,
        String.toList_append, List.append_assoc, hopen, hclose, hnodes, List.cons_append,
        List.nil_append]

theorem contents_of_ne_nil
    (depth : Nat) {attributes children : List String}
    (hattributes : attributes ≠ [])
    (hchildren : children ≠ []) :
    contents depth attributes children = (", ".intercalate attributes).toList ++
      ',' :: ' ' :: listing depth children := by
  have hcomma : ", ".toList = [',', ' '] := rfl
  rw [contents, List.isEmpty_eq_false_iff.mpr hattributes,
    List.isEmpty_eq_false_iff.mpr hchildren, Bool.or_false,
    if_neg Bool.false_ne_true, hcomma]
  rfl

theorem contents_nil_left
    (depth : Nat) (children : List String) :
    contents depth [] children = listing depth children := by
  rw [contents, String.intercalate_nil, List.isEmpty_nil, Bool.true_or, if_pos rfl,
    String.toList_empty]
  rfl

theorem contents_nil_right
    (depth : Nat) (attributes : List String) :
    contents depth attributes [] = (", ".intercalate attributes).toList := by
  rw [contents, List.isEmpty_nil, Bool.or_true, if_pos rfl, String.toList_empty, listing,
    List.append_nil, List.append_nil]

theorem toList_field
    (name value : String) :
    (field name value).toList = name.toList ++ '=' :: value.toList := by
  have hequals : "=".toList = ['='] := rfl
  rw [field, String.toList_append, String.toList_append, hequals, List.append_assoc]
  rfl

/-- The only attribute of a node without children. -/
theorem attribute_of_contents_eq
    {depth : Nat} {name u v : String} {rest rest' : List Char}
    (h : contents depth [field name u] [] ++ rest =
      contents depth [field name v] [] ++ rest') :
    u.toList ++ rest = v.toList ++ rest' := by
  simpa only [contents_nil_right, String.intercalate_singleton, toList_field,
    List.append_assoc, List.append_cancel_left_eq, List.cons_append, List.cons.injEq,
    true_and] using h

/-- The only attribute of a node with children. -/
theorem attribute_of_contents_cons_eq
    {depth : Nat} {name u v c d : String} {cs ds : List String} {rest rest' : List Char}
    (h : contents depth [field name u] (c :: cs) ++ rest =
      contents depth [field name v] (d :: ds) ++ rest') :
    u.toList ++ ',' :: ' ' :: (listing depth (c :: cs) ++ rest) =
      v.toList ++ ',' :: ' ' :: (listing depth (d :: ds) ++ rest') := by
  rw [contents_of_ne_nil _ (by simp) (by simp),
    contents_of_ne_nil _ (by simp) (by simp)] at h
  simpa only [String.intercalate_singleton, toList_field, List.append_assoc,
    List.append_cancel_left_eq, List.cons_append, List.cons.injEq, true_and] using h

end Blocks

/-- The attributes of a node. -/
def attributes : Node → List String
  | program _ _ => []
  | declaration _ name _ constant none =>
    [field "identifier" (Text.quoted name), field "constant" (Value.flag constant),
      field "value" "None"]
  | declaration _ name _ constant (some _) =>
    [field "identifier" (Text.quoted name), field "constant" (Value.flag constant)]
  | conditional _ branch _ _ => [field "block_name" branch.label]
  | identifier _ name => [field "symbol" (Text.quoted name)]
  | number _ x => [field "value" (Decimal.numeral x)]
  | string _ text => [field "value" (Text.quoted text)]
  | operation _ _ operator _ _ _ => [field "operator" (Text.quoted operator)]
  | unary _ operator _ => [field "operator" (Text.quoted operator)]
  | assignment _ _ _ => []
  | unknown _ _ => []

/-- The children of a node. -/
def children : Node → List Node
  | program _ body => body
  | declaration _ _ _ _ value => value.toList
  | conditional _ _ condition body => condition :: body
  | identifier _ _ => []
  | number _ _ => []
  | string _ _ => []
  | operation _ _ _ _ left right => [left, right]
  | unary _ _ operand => [operand]
  | assignment _ target value => [target, value]
  | unknown _ _ => []

theorem display_eq_block
    (depth : Nat) (n : Node) :
    n.display depth = block depth n.kindName n.attributes
      (displayAll (depth + 1) n.children) := by
  cases n with
  | declaration _ _ _ _ value =>
      cases value <;> simp only [display, attributes, children, displayAll,
        Option.toList_none, Option.toList_some]
  | _ => simp only [display, attributes, children, displayAll]

/-- The display shows the name of the kind, then what stands between the parentheses. -/
theorem contents_eq_of_display_eq
    {s t : Node} {depth : Nat} {rest rest' : List Char}
    (hs : s.IsOrdinary)
    (ht : t.IsOrdinary)
    (h : (s.display depth).toList ++ rest = (t.display depth).toList ++ rest') :
    s.kindName = t.kindName ∧
      contents depth s.attributes (displayAll (depth + 1) s.children) ++ ')' :: rest =
        contents depth t.attributes
          (displayAll (depth + 1) t.children) ++ ')' :: rest' := by
  rw [display_eq_block, display_eq_block, toList_block, toList_block] at h
  simp only [List.append_assoc, List.append_cancel_left_eq, List.cons_append,
    List.nil_append] at h
  obtain ⟨hkind, hcontents⟩ :=
    Text.eq_of_append_cons_eq (not_mem_kindName hs) (not_mem_kindName ht) h
  exact ⟨String.toList_inj.mp hkind, hcontents⟩

/-- The display of the tree can be read from any text that begins with it. -/
def IsReadable (s : Node) : Prop :=
  ∀ (t : Node) (depth : Nat) (rest rest' : List Char), t.Ordinary →
    (s.display depth).toList ++ rest = (t.display depth).toList ++ rest' →
      s.same t = true ∧ rest = rest'

section Children

variable {depth inner : Nat} {ns ms : List Node} {rest rest' : List Char}

theorem following_append_inj
    (hns : ∀ n ∈ ns, IsReadable n)
    (hms : ∀ m ∈ ms, m.Ordinary)
    (h : following depth (displayAll inner ns) ++ rest =
      following depth (displayAll inner ms) ++ rest') :
    sameAll ns ms = true ∧ rest = rest' := by
  induction ns generalizing ms with
  | nil =>
      cases ms with
      | nil => exact ⟨by rw [sameAll], List.append_cancel_left h⟩
      | cons m ms =>
          rw [displayAll, displayAll, following, following] at h
          cases (List.cons.inj h).1
  | cons n ns ih =>
      cases ms with
      | nil =>
          rw [displayAll, displayAll, following, following] at h
          cases (List.cons.inj h).1
      | cons m ms =>
          rw [displayAll, displayAll, following, following] at h
          simp only [List.cons_append, List.append_assoc, List.cons.injEq, true_and] at h
          obtain ⟨hsame, hnext⟩ :=
            hns n List.mem_cons_self m inner _ _ (hms m List.mem_cons_self) h
          obtain ⟨hall, hrest⟩ := ih (fun k hk => hns k (List.mem_cons_of_mem n hk))
            (fun k hk => hms k (List.mem_cons_of_mem m hk)) hnext
          exact ⟨by rw [sameAll, hsame, hall, Bool.and_self], hrest⟩

theorem listing_append_inj
    (hns : ∀ n ∈ ns, IsReadable n)
    (hms : ∀ m ∈ ms, m.Ordinary)
    (h : listing depth (displayAll inner ns) ++ ')' :: rest =
      listing depth (displayAll inner ms) ++ ')' :: rest') :
    sameAll ns ms = true ∧ rest = rest' := by
  cases ns with
  | nil =>
      cases ms with
      | nil => exact ⟨by rw [sameAll], (List.cons.inj h).2⟩
      | cons m ms =>
          rw [displayAll, displayAll, listing, listing] at h
          cases (List.cons.inj h).1
  | cons n ns =>
      cases ms with
      | nil =>
          rw [displayAll, displayAll, listing, listing] at h
          cases (List.cons.inj h).1
      | cons m ms =>
          rw [displayAll, displayAll, listing, listing] at h
          simp only [List.cons_append, List.append_assoc, List.cons.injEq, true_and,
            List.nil_append] at h
          obtain ⟨hsame, hnext⟩ :=
            hns n List.mem_cons_self m inner _ _ (hms m List.mem_cons_self) h
          obtain ⟨hall, hrest⟩ :=
            following_append_inj (fun k hk => hns k (List.mem_cons_of_mem n hk))
            (fun k hk => hms k (List.mem_cons_of_mem m hk)) hnext
          exact ⟨by rw [sameAll, hsame, hall, Bool.and_self], (List.cons.inj hrest).2⟩

end Children

section Attributes

theorem selfDelimiting_flag :
    Text.SelfDelimiting fun b : Bool => (Value.flag b).toList := by
  have htrue : (Value.flag true).toList = ['T', 'r', 'u', 'e'] := rfl
  have hfalse : (Value.flag false).toList = ['F', 'a', 'l', 's', 'e'] := rfl
  intro a b rest rest' h
  cases a <;> cases b <;> simp_all

theorem label_append_inj
    {branch branch' : Branch} {rest rest' : List Char}
    (h : branch.label.toList ++ ',' :: rest = branch'.label.toList ++ ',' :: rest') :
    branch = branch' ∧ rest = rest' := by
  have hcomma : ∀ b : Branch, ',' ∉ b.label.toList := by
    intro b
    cases b <;> simp [Branch.label]
  obtain ⟨hlabel, hrest⟩ := Text.eq_of_append_cons_eq (hcomma branch) (hcomma branch') h
  refine ⟨?_, hrest⟩
  have hinj : ∀ b b' : Branch, b.label = b'.label → b = b' := by
    intro b b'
    cases b <;> cases b' <;> decide
  exact hinj _ _ (String.toList_inj.mp hlabel)

theorem numeral_append_inj
    {x y : Float} {rest rest' : List Char}
    (hx : x.isNaN = false)
    (hy : y.isNaN = false)
    (h : (Decimal.numeral x).toList ++ ')' :: rest =
      (Decimal.numeral y).toList ++ ')' :: rest') :
    x = y ∧ rest = rest' := by
  have hparen : ∀ z : Float, ')' ∉ (Decimal.numeral z).toList := by
    intro z hmem
    rcases Decimal.isNumeralText_numeral z _ hmem with halnum | hsign
    · cases halnum
    · simp at hsign
  obtain ⟨hnumeral, hrest⟩ := Text.eq_of_append_cons_eq (hparen x) (hparen y) h
  exact ⟨Decimal.numeral_inj hx hy (String.toList_inj.mp hnumeral), hrest⟩

/-- The first two attributes of a declaration can be read. -/
theorem declared_append_inj
    {name name' : String} {constant constant' : Bool} {rest rest' : List Char}
    (h : (", ".intercalate [field "identifier" (Text.quoted name),
      field "constant" (Value.flag constant)]).toList ++ rest =
      (", ".intercalate [field "identifier" (Text.quoted name'),
        field "constant" (Value.flag constant')]).toList ++ rest') :
    name = name' ∧ constant = constant' ∧ rest = rest' := by
  simp only [String.intercalate_cons_cons, String.intercalate_singleton,
    String.toList_append, toList_field, List.append_assoc, List.append_cancel_left_eq,
    List.cons_append, List.cons.injEq, true_and] at h
  obtain ⟨hname, hnext⟩ := Text.selfDelimiting_quoted h
  simp only [List.append_cancel_left_eq, List.cons.injEq, true_and] at hnext
  obtain ⟨hconstant, hrest⟩ := selfDelimiting_flag hnext
  exact ⟨hname, hconstant, hrest⟩

end Attributes

theorem mem_subtrees_of_mem_children
    {m n s : Node}
    (hn : n ∈ s.children)
    (hm : m ∈ n.subtrees) :
    m ∈ s.subtrees := by
  cases s with
  | program _ body =>
      rw [subtrees]
      exact List.mem_cons_of_mem _ (mem_subtreesAll hn hm)
  | declaration _ _ _ _ value =>
      cases value with
      | none => cases hn
      | some value =>
          obtain rfl := List.mem_singleton.mp hn
          rw [subtrees]
          exact List.mem_cons_of_mem _ hm
  | conditional _ _ condition body =>
      rw [subtrees]
      rcases List.mem_cons.mp hn with rfl | hn
      · exact List.mem_cons_of_mem _ (List.mem_append_left _ hm)
      · exact List.mem_cons_of_mem _ (List.mem_append_right _ (mem_subtreesAll hn hm))
  | operation _ _ _ _ left right =>
      rw [subtrees]
      rcases List.mem_pair.mp hn with rfl | rfl
      · exact List.mem_cons_of_mem _ (List.mem_append_left _ hm)
      · exact List.mem_cons_of_mem _ (List.mem_append_right _ hm)
  | unary _ _ operand =>
      obtain rfl := List.mem_singleton.mp hn
      rw [subtrees]
      exact List.mem_cons_of_mem _ hm
  | assignment _ target value =>
      rw [subtrees]
      rcases List.mem_pair.mp hn with rfl | rfl
      · exact List.mem_cons_of_mem _ (List.mem_append_left _ hm)
      · exact List.mem_cons_of_mem _ (List.mem_append_right _ hm)
  | _ => cases hn

theorem sizeOf_lt_of_mem_children
    {n s : Node}
    (hn : n ∈ s.children) :
    sizeOf n < sizeOf s := by
  cases s with
  | program _ body =>
      have hlt : sizeOf n < sizeOf body := List.sizeOf_lt_of_mem hn
      simp only [program.sizeOf_spec]
      omega
  | declaration _ _ _ _ value =>
      cases value with
      | none => cases hn
      | some value =>
          obtain rfl := List.mem_singleton.mp hn
          simp only [declaration.sizeOf_spec, Option.some.sizeOf_spec]
          omega
  | conditional _ _ condition body =>
      simp only [conditional.sizeOf_spec]
      rcases List.mem_cons.mp hn with rfl | hn
      · omega
      · have hlt := List.sizeOf_lt_of_mem hn
        omega
  | operation _ _ _ _ left right =>
      simp only [operation.sizeOf_spec]
      rcases List.mem_pair.mp hn with rfl | rfl <;> omega
  | unary _ _ operand =>
      obtain rfl := List.mem_singleton.mp hn
      simp only [unary.sizeOf_spec]
      omega
  | assignment _ target value =>
      simp only [assignment.sizeOf_spec]
      rcases List.mem_pair.mp hn with rfl | rfl <;> omega
  | _ => cases hn

/-- A node can be read if its children can. -/
theorem isReadable_of_children
    {s : Node}
    (hs : s.IsOrdinary)
    (hchildren : ∀ n ∈ s.children, IsReadable n) :
    IsReadable s := by
  intro t depth rest rest' ht h
  have htchildren : ∀ m ∈ t.children, m.Ordinary :=
    fun m hm k hk => ht k (mem_subtrees_of_mem_children hm hk)
  have htself : t.IsOrdinary := ht t t.mem_subtrees_self
  obtain ⟨hkind, hcontents⟩ := contents_eq_of_display_eq hs htself h
  have halike := alike_of_kindName hs htself hkind
  cases halike with
  | program p p' body body' =>
      rw [attributes, attributes, contents_nil_left, contents_nil_left] at hcontents
      obtain ⟨hsame, hrest⟩ := listing_append_inj hchildren htchildren hcontents
      rw [same]
      exact ⟨hsame, hrest⟩
  | declaration p p' name name' q q' constant constant' value value' =>
      have hnone : ∀ (name : String) (constant : Bool) (rest : List Char),
          contents depth [field "identifier" (Text.quoted name),
            field "constant" (Value.flag constant),
            field "value" "None"] [] ++ ')' :: rest =
          (", ".intercalate [field "identifier" (Text.quoted name),
            field "constant" (Value.flag constant)]).toList ++
            ',' :: ' ' :: 'v' :: 'a' :: 'l' :: 'u' :: 'e' :: '=' :: 'N' :: 'o' ::
              'n' :: 'e' :: ')' :: rest := by
        intro name constant rest
        have hcomma : ", ".toList = [',', ' '] := rfl
        have hvalue : (field "value" "None").toList =
            ['v', 'a', 'l', 'u', 'e', '=', 'N', 'o', 'n', 'e'] := rfl
        rw [contents_nil_right]
        simp only [String.intercalate_cons_cons, String.intercalate_singleton,
          String.toList_append, hcomma, hvalue, List.append_assoc, List.cons_append,
          List.nil_append]
      cases value with
      | none =>
          cases value' with
          | none =>
              rw [attributes, attributes, children, children, Option.toList_none,
                displayAll, hnone, hnone] at hcontents
              obtain ⟨rfl, rfl, hrest⟩ := declared_append_inj hcontents
              simp only [List.cons.injEq, true_and] at hrest
              exact ⟨by simp [same], hrest⟩
          | some v' =>
              rw [attributes, attributes, children, children, Option.toList_none,
                Option.toList_some, displayAll, displayAll, displayAll, hnone,
                contents_of_ne_nil _ (by simp) (by simp), List.append_assoc] at hcontents
              obtain ⟨_, _, hrest⟩ := declared_append_inj hcontents
              simp [listing] at hrest
      | some v =>
          cases value' with
          | none =>
              rw [attributes, attributes, children, children, Option.toList_none,
                Option.toList_some, displayAll, displayAll, displayAll, hnone,
                contents_of_ne_nil _ (by simp) (by simp), List.append_assoc] at hcontents
              obtain ⟨_, _, hrest⟩ := declared_append_inj hcontents
              simp [listing] at hrest
          | some v' =>
              rw [attributes, attributes,
                contents_of_ne_nil _ (by simp) (by simp [children, displayAll]),
                contents_of_ne_nil _ (by simp) (by simp [children, displayAll]),
                List.append_assoc, List.append_assoc] at hcontents
              obtain ⟨rfl, rfl, hnext⟩ := declared_append_inj hcontents
              obtain ⟨hsame, hrest⟩ :=
                listing_append_inj hchildren htchildren
                  (List.cons.inj (List.cons.inj hnext).2).2
              simp only [children, Option.toList_some, sameAll, Bool.and_eq_true] at hsame
              exact ⟨by simp [same, hsame], hrest⟩
  | conditional p p' branch branch' condition condition' block block' =>
      obtain ⟨rfl, hnext⟩ := label_append_inj (attribute_of_contents_cons_eq hcontents)
      obtain ⟨hsame, hrest⟩ :=
        listing_append_inj hchildren htchildren (List.cons.inj hnext).2
      simp only [children, sameAll, Bool.and_eq_true] at hsame
      exact ⟨by simp [same, hsame], hrest⟩
  | identifier p p' name name' =>
      obtain ⟨rfl, hrest⟩ :=
        Text.selfDelimiting_quoted (attribute_of_contents_eq hcontents)
      exact ⟨by simp [same], (List.cons.inj hrest).2⟩
  | number p p' x x' =>
      obtain ⟨rfl, hrest⟩ :=
        numeral_append_inj hs htself (attribute_of_contents_eq hcontents)
      rw [same]
      exact ⟨Binary64.beq_self_iff.mpr hs, hrest⟩
  | string p p' text text' =>
      obtain ⟨rfl, hrest⟩ :=
        Text.selfDelimiting_quoted (attribute_of_contents_eq hcontents)
      exact ⟨by simp [same], (List.cons.inj hrest).2⟩
  | operation family p p' operator operator' q q' left left' right right' =>
      obtain ⟨rfl, hnext⟩ :=
        Text.selfDelimiting_quoted (attribute_of_contents_cons_eq hcontents)
      obtain ⟨hsame, hrest⟩ :=
        listing_append_inj hchildren htchildren (List.cons.inj (List.cons.inj hnext).2).2
      simp only [children, sameAll, Bool.and_eq_true] at hsame
      exact ⟨by simp [same, hsame], hrest⟩
  | unary p p' operator operator' operand operand' =>
      obtain ⟨rfl, hnext⟩ :=
        Text.selfDelimiting_quoted (attribute_of_contents_cons_eq hcontents)
      obtain ⟨hsame, hrest⟩ :=
        listing_append_inj hchildren htchildren (List.cons.inj (List.cons.inj hnext).2).2
      simp only [children, sameAll, Bool.and_eq_true] at hsame
      exact ⟨by simp [same, hsame], hrest⟩
  | assignment p p' target target' value value' =>
      rw [attributes, attributes, contents_nil_left, contents_nil_left] at hcontents
      obtain ⟨hsame, hrest⟩ := listing_append_inj hchildren htchildren hcontents
      simp only [children, sameAll, Bool.and_eq_true] at hsame
      exact ⟨by simp [same, hsame], hrest⟩

/-- The display of an ordinary tree can be read. -/
theorem isReadable
    (s : Node)
    (hs : s.Ordinary) :
    IsReadable s := by
  refine isReadable_of_children (hs s s.mem_subtrees_self) fun n hn => ?_
  exact isReadable n fun m hm => hs m (mem_subtrees_of_mem_children hn hm)
termination_by sizeOf s
decreasing_by exact sizeOf_lt_of_mem_children hn

/-- The nodes of a well-formed expression are ordinary. -/
theorem IsExpression.ordinary :
    (n : Node) → n.IsExpression → n.Ordinary
  | .identifier _ _, _ => by
      rw [Ordinary, subtrees]
      exact List.forall_mem_singleton.mpr trivial
  | .number _ x, h => by
      obtain ⟨digits, _, rfl⟩ := h
      rw [Ordinary, subtrees]
      exact List.forall_mem_singleton.mpr
        (Binary64.beq_self_iff.mp (Decimal.beq_self_read digits))
  | .string _ _, _ => by
      rw [Ordinary, subtrees]
      exact List.forall_mem_singleton.mpr trivial
  | .operation _ _ _ _ left right, h => by
      rw [Ordinary, subtrees]
      refine List.forall_mem_cons.mpr ⟨trivial, List.forall_mem_append.mpr ⟨?_, ?_⟩⟩
      · exact IsExpression.ordinary left h.2.1
      · exact IsExpression.ordinary right h.2.2
  | .unary _ _ operand, h => by
      rw [Ordinary, subtrees]
      exact List.forall_mem_cons.mpr ⟨trivial, IsExpression.ordinary operand h.2⟩
  | .assignment _ target value, h => by
      rw [Ordinary, subtrees]
      refine List.forall_mem_cons.mpr ⟨trivial, List.forall_mem_append.mpr ⟨?_, ?_⟩⟩
      · exact IsExpression.ordinary target h.1
      · exact IsExpression.ordinary value h.2

theorem IsStatement.ordinary
    {n : Node}
    (h : n.IsStatement) :
    n.Ordinary := by
  cases n with
  | declaration _ _ _ _ value =>
      cases value with
      | none =>
          rw [Ordinary, subtrees]
          exact List.forall_mem_singleton.mpr trivial
      | some value =>
          rw [Ordinary, subtrees]
          exact List.forall_mem_cons.mpr ⟨trivial, IsExpression.ordinary value h.2⟩
  | _ => exact IsExpression.ordinary _ h

theorem ordinary_of_mem_subtreesAll
    {m : Node} {ns : List Node}
    (h : ∀ n ∈ ns, n.Ordinary)
    (hm : m ∈ subtreesAll ns) :
    m.IsOrdinary := by
  induction ns with
  | nil =>
      rw [subtreesAll] at hm
      cases hm
  | cons n ns ih =>
      rw [subtreesAll] at hm
      rcases List.mem_append.mp hm with hm | hm
      · exact h n List.mem_cons_self m hm
      · exact ih (fun k hk => h k (List.mem_cons_of_mem n hk)) hm

/-- Every program that is read is ordinary. -/
theorem ordinary_of_parse
    {source : String} {tree : Node}
    (h : parse source = .ok tree) :
    tree.Ordinary := by
  have hprogram := isProgram_of_parse h
  cases tree with
  | program pos body =>
      rw [Ordinary, subtrees]
      refine List.forall_mem_cons.mpr ⟨trivial, fun m hm => ?_⟩
      exact ordinary_of_mem_subtreesAll (fun n hn => (hprogram n hn).ordinary) hm
  | _ => cases hprogram

/-- Ordinary trees with the same display are the same up to positions, and all programs
that are read are ordinary. -/
theorem same_of_display_eq :
    (∀ s t : Node, s.Ordinary → t.Ordinary → s.display 0 = t.display 0 → s.same t = true) ∧
    ∀ (source : String) (tree : Node), parse source = .ok tree → tree.Ordinary := by
  constructor
  · intro s t hs ht h
    have htext : (s.display 0).toList ++ [] = (t.display 0).toList ++ [] := by rw [h]
    exact (isReadable s hs t 0 [] [] ht htext).1
  · intro source tree h
    exact ordinary_of_parse h

/-- A text with a quote and a line break, read in two places. -/
theorem same_of_display_eq_moved :
    (∀ m ∈ (Node.program .unknown [.string ⟨1, 1⟩ "it's\nhere"]).subtrees, m.IsOrdinary) ∧
    (∀ m ∈ (Node.program .unknown [.string ⟨7, 3⟩ "it's\nhere"]).subtrees, m.IsOrdinary) ∧
    (Node.program .unknown [.string ⟨1, 1⟩ "it's\nhere"]).same
      (.program .unknown [.string ⟨7, 3⟩ "it's\nhere"]) = true := by
  have hordinary : ∀ pos : Pos,
      ∀ m ∈ (Node.program .unknown [.string pos "it's\nhere"]).subtrees, m.IsOrdinary := by
    intro pos
    simp [subtrees, subtreesAll, IsOrdinary]
  have hdisplay : (Node.program .unknown [.string ⟨1, 1⟩ "it's\nhere"]).display 0 =
      (Node.program .unknown [.string ⟨7, 3⟩ "it's\nhere"]).display 0 := by
    simp only [display, displayAll, kindName]
  exact ⟨hordinary _, hordinary _,
    same_of_display_eq.1 _ _ (hordinary _) (hordinary _) hdisplay⟩

end Node
end LetLang
