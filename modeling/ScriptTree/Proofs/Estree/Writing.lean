import ScriptTree.Proofs.Precedence
import ScriptTree.Proofs.Rebuild.Targets

/-!
# Writing expressions

An expression of names and operators is written with every part of it in
parentheses.  How it is written does not depend on how operators bind.
-/

namespace ScriptTree

namespace Estree

/-! ## Expressions -/

def unaryOperators : List String :=
  ["!", "~", "+", "-", "typeof", "void", "delete"]

def updateOperators : List String :=
  ["++", "--"]

def binaryOperators : List String :=
  ["|", "^", "&", "==", "!=", "===", "!==", "<", ">", "<=", ">=", "<<", ">>", ">>>", "+", "-", "*",
    "/", "%", "**", "in", "instanceof"]

def logicalOperators : List String :=
  ["||", "&&", "??"]

def assignmentOperators : List String :=
  ["=", "+=", "-=", "*=", "/=", "%=", "**=", "<<=", ">>=", ">>>=", "&=", "|=", "^=", "&&=", "||=",
    "??="]

/-- Expressions of names, operators, accesses, calls, sequences and arrays. -/
inductive IsExpression (dialect : Dialect) : Node → Prop where
  | identifier {name : String} (isName : IsName dialect name.toList)
      (free : name ∉ Node.valueNames) : IsExpression dialect (.identifier name)
  | unary {operator : String} {argument : Node} (known : operator ∈ unaryOperators)
      (inner : IsExpression dialect argument) :
      IsExpression dialect (.unaryExpression operator true argument)
  | update {operator : String} {isPrefix : Bool} {argument : Node}
      (known : operator ∈ updateOperators) (target : argument.IsTarget)
      (inner : IsExpression dialect argument) :
      IsExpression dialect (.updateExpression operator isPrefix argument)
  | binary {left right : Node} {operator : String} (known : operator ∈ binaryOperators)
      (first : IsExpression dialect left) (second : IsExpression dialect right) :
      IsExpression dialect (.binaryExpression left operator right)
  | logical {left right : Node} {operator : String} (known : operator ∈ logicalOperators)
      (first : IsExpression dialect left) (second : IsExpression dialect right) :
      IsExpression dialect (.logicalExpression left operator right)
  | conditional {test consequent alternate : Node} (first : IsExpression dialect test)
      (second : IsExpression dialect consequent) (third : IsExpression dialect alternate) :
      IsExpression dialect (.conditionalExpression test consequent alternate)
  | assignment {operator : String} {left right : Node} (known : operator ∈ assignmentOperators)
      (target : left.IsTarget) (first : IsExpression dialect left)
      (second : IsExpression dialect right) :
      IsExpression dialect (.assignmentExpression operator left right)
  /-- Reserved words are names after a dot too. -/
  | member {object : Node} {name : String} (inner : IsExpression dialect object)
      (word : Text.isWord name.toList = true) :
      IsExpression dialect (.memberExpression object (.identifier name) false false)
  | computed {object key : Node} (first : IsExpression dialect object)
      (second : IsExpression dialect key) :
      IsExpression dialect (.memberExpression object key true false)
  | call {callee : Node} {arguments : List Node} (first : IsExpression dialect callee)
      (each : ∀ argument ∈ arguments, IsExpression dialect argument) :
      IsExpression dialect (.callExpression callee arguments false)
  | sequence {expressions : List Node} (several : 2 ≤ expressions.length)
      (each : ∀ expression ∈ expressions, IsExpression dialect expression) :
      IsExpression dialect (.sequenceExpression expressions)
  | array {elements : List (Option Node)}
      (each : ∀ element, some element ∈ elements → IsExpression dialect element) :
      IsExpression dialect (.arrayExpression elements)

/-! ## Words -/

def grouped (words : List Text) : List Text :=
  ['('] :: (words ++ [[')']])

def separated (phrases : List (List Text)) : List Text :=
  [[',']].intercalate phrases

/-- The elements of an array.  A comma follows every hole, and every element
but the last. -/
def slotted : List (Option (List Text)) → List Text
  | [] => []
  | [some phrase] => phrase
  | some phrase :: rest => phrase ++ [','] :: slotted rest
  | none :: rest => [','] :: slotted rest

namespace Node

mutual

/-- The words an expression is written with; each of its parts is in
parentheses. -/
def words : Node → List Text
  | .identifier name => [name.toList]
  | .unaryExpression operator _ argument => operator.toList :: grouped (words argument)
  | .updateExpression operator true argument => operator.toList :: grouped (words argument)
  | .updateExpression operator false argument => grouped (words argument) ++ [operator.toList]
  | .binaryExpression left operator right | .logicalExpression left operator right
  | .assignmentExpression operator left right =>
      grouped (words left) ++ operator.toList :: grouped (words right)
  | .conditionalExpression test consequent alternate =>
      grouped (words test) ++ ['?'] :: (grouped (words consequent) ++
        [':'] :: grouped (words alternate))
  | .memberExpression object key false _ => grouped (words object) ++ ['.'] :: words key
  | .memberExpression object key true _ =>
      grouped (words object) ++ ['['] :: (grouped (words key) ++ [[']']])
  | .callExpression callee arguments _ =>
      grouped (words callee) ++ ['('] :: (separated (phrases arguments) ++ [[')']])
  | .sequenceExpression expressions => separated (phrases expressions)
  | .arrayExpression elements => ['['] :: (slotted (slots elements) ++ [[']']])
  | _ => []

/-- The words of some expressions, each in parentheses. -/
def phrases : List Node → List (List Text)
  | [] => []
  | expression :: rest => grouped (words expression) :: phrases rest

/-- The words of the elements of an array, each in parentheses. -/
def slots : List (Option Node) → List (Option (List Text))
  | [] => []
  | none :: rest => none :: slots rest
  | some element :: rest => some (grouped (words element)) :: slots rest

end

/-- An expression as a text, with single spaces between its words. -/
def text (expression : Node) : Text :=
  [' '].intercalate expression.words

theorem slots_eq (elements : List (Option Node)) :
    slots elements = elements.map (Option.map fun element => grouped element.words) := by
  induction elements with
  | nil => rw [slots, List.map_nil]
  | cons element rest ih => cases element <;> rw [slots, ih, List.map_cons] <;> rfl

end Node

@[simp]
theorem grouped_length (words : List Text) : (grouped words).length = words.length + 2 := by
  simp [grouped]

theorem separated_cons (phrase : List Text) (phrases : List (List Text)) :
    separated (phrase :: phrases) = phrase ++ phrases.flatMap fun other => [','] :: other := by
  unfold separated
  induction phrases generalizing phrase with
  | nil => simp
  | cons second rest ih =>
      rw [List.intercalate_cons_cons, ih, List.append_assoc]
      rfl

theorem separated_phrases (first second : Node) (others : List Node) :
    separated (Node.phrases (first :: second :: others)) =
      grouped first.words ++ [','] :: separated (Node.phrases (second :: others)) := by
  rw [Node.phrases, Node.phrases, separated, List.intercalate_cons_cons, List.append_assoc]
  rfl

/-- A comma stands between an element and the next one. -/
theorem slotted_cons (phrase : List Text) {rest : List (Option (List Text))} (more : rest ≠ []) :
    slotted (some phrase :: rest) = phrase ++ [','] :: slotted rest := by
  rw [slotted]
  exact more

/-! ## How words are scanned -/

/-- Words that are scanned wherever they stand, if what follows them is. -/
def Anywhere (dialect : Dialect) (words : List Text) : Prop :=
  ∀ (patternAllowed : Bool) (rest : List Text),
    (∀ allowed, isPaced dialect allowed rest = true) →
      isPaced dialect patternAllowed (words ++ rest) = true

section

variable {dialect : Dialect} {words rest : List Text} {text : Text} {patternAllowed : Bool}

/-- The signs that stand around the parts of an expression. -/
def marks : List Text :=
  [['('], [')'], ['['], [']'], [','], ['.'], ['?'], [':']]

theorem isScannable_mark : ∀ mark ∈ marks, ∀ allowed, isScannable allowed mark = true := by
  decide +kernel

theorem isPaced_cons (scannable : isScannable patternAllowed text = true)
    (later : ∀ allowed, isPaced dialect allowed rest = true) :
    isPaced dialect patternAllowed (text :: rest) = true := by
  rw [isPaced, scannable, later]
  rfl

/-- No pattern starts behind a closing parenthesis. -/
theorem isPaced_grouped (anywhere : Anywhere dialect words)
    (behind : isPaced dialect false rest = true) :
    isPaced dialect patternAllowed (grouped words ++ rest) = true := by
  have opens := isScannable_mark ['('] (by decide)
  have closes := isScannable_mark [')'] (by decide)
  have inside : isPaced dialect true (words ++ ([')'] :: rest)) = true := by
    refine anywhere true _ fun allowed => ?_
    rw [isPaced, closes]
    exact behind
  rw [grouped, List.cons_append, List.append_assoc, isPaced, opens]
  exact inside

theorem Anywhere.phrases {expressions : List Node}
    (each : ∀ expression ∈ expressions, Anywhere dialect expression.words) :
    Anywhere dialect (separated (Node.phrases expressions)) := by
  have comma := isScannable_mark [','] (by decide)
  have more (rest : List Text) (later : ∀ allowed, isPaced dialect allowed rest = true)
      (others : List Node) (each : ∀ other ∈ others, Anywhere dialect other.words) :
      ∀ allowed, isPaced dialect allowed
        (((Node.phrases others).flatMap fun other => [','] :: other) ++ rest) = true := by
    induction others with
    | nil => simpa [Node.phrases] using later
    | cons other others ih =>
        intro allowed
        have front := each other List.mem_cons_self
        have behind := ih fun found isIn => each found (List.mem_cons_of_mem _ isIn)
        rw [Node.phrases, List.flatMap_cons, List.append_assoc]
        exact isPaced_cons (comma allowed) fun _ => isPaced_grouped front (behind false)
  intro allowed rest later
  cases expressions with
  | nil =>
      rw [Node.phrases]
      exact later allowed
  | cons first others =>
      rw [Node.phrases, separated_cons, List.append_assoc]
      exact isPaced_grouped (each first List.mem_cons_self)
        (more rest later others (fun other isIn => each other (List.mem_cons_of_mem _ isIn)) false)

theorem Anywhere.slots {elements : List (Option Node)}
    (each : ∀ element, some element ∈ elements → Anywhere dialect element.words) :
    Anywhere dialect (slotted (Node.slots elements)) := by
  have comma := isScannable_mark [','] (by decide)
  intro allowed rest later
  induction elements generalizing allowed with
  | nil => exact later allowed
  | cons element others ih =>
      have behind := ih fun found isIn => each found (List.mem_cons_of_mem _ isIn)
      cases element with
      | none =>
          rw [Node.slots, slotted, List.cons_append]
          exact isPaced_cons (comma allowed) behind
      | some element =>
          have front := each element List.mem_cons_self
          cases others with
          | nil =>
              rw [Node.slots, Node.slots, slotted]
              exact isPaced_grouped front (later false)
          | cons second others =>
              rw [Node.slots, slotted_cons _ (by cases second <;> simp [Node.slots]),
                List.append_assoc, List.cons_append]
              exact isPaced_grouped front (isPaced_cons (comma false) behind)

end

/-- No operator in front of an operand starts with a slash. -/
theorem isScannable_before :
    ∀ operator ∈ unaryOperators ++ updateOperators, ∀ allowed,
      isScannable allowed operator.toList = true := by
  decide +kernel

theorem isScannable_between :
    ∀ operator ∈ updateOperators ++ binaryOperators ++ logicalOperators ++ assignmentOperators,
      isScannable false operator.toList = true := by
  decide +kernel

theorem isScannable_word {text : Text} (isWord : text.isWord = true) (allowed : Bool) :
    isScannable allowed text = true := by
  rw [isScannable, isWord]
  rfl

theorem isPaced_between {dialect : Dialect} {left right rest : List Text} {operator : String}
    {allowed : Bool} (first : Anywhere dialect left) (second : Anywhere dialect right)
    (scannable : isScannable false operator.toList = true)
    (later : ∀ allowed, isPaced dialect allowed rest = true) :
    isPaced dialect allowed (grouped left ++ operator.toList :: grouped right ++ rest) = true := by
  rw [List.append_assoc, List.cons_append]
  exact isPaced_grouped first (isPaced_cons scannable fun _ => isPaced_grouped second (later false))

/-- Every expression can be scanned wherever it stands. -/
theorem IsExpression.anywhere {dialect : Dialect} {expression : Node}
    (isExpression : IsExpression dialect expression) : Anywhere dialect expression.words := by
  induction isExpression with
  | identifier isName free =>
      intro allowed rest later
      have isWord := Bool.and_eq_true_iff.mpr ⟨isName.starts, isName.parts⟩
      exact isPaced_cons (isScannable_word isWord allowed) later
  | unary known inner ih =>
      intro allowed rest later
      exact isPaced_cons (isScannable_before _ (List.mem_append_left _ known) allowed)
        fun _ => isPaced_grouped ih (later false)
  | @update operator isPrefix argument known target inner ih =>
      intro allowed rest later
      cases isPrefix with
      | true =>
          rw [Node.words]
          exact isPaced_cons (isScannable_before _ (List.mem_append_right _ known) allowed)
            fun _ => isPaced_grouped ih (later false)
      | false =>
          rw [Node.words, List.append_assoc]
          exact isPaced_grouped ih (isPaced_cons (isScannable_between _ (by simp [known])) later)
  | binary known first second firstIh secondIh =>
      intro allowed rest later
      exact isPaced_between firstIh secondIh (isScannable_between _ (by simp [known])) later
  | logical known first second firstIh secondIh =>
      intro allowed rest later
      exact isPaced_between firstIh secondIh (isScannable_between _ (by simp [known])) later
  | assignment known target first second firstIh secondIh =>
      intro allowed rest later
      exact isPaced_between firstIh secondIh (isScannable_between _ (by simp [known])) later
  | conditional first second third firstIh secondIh thirdIh =>
      intro allowed rest later
      rw [Node.words]
      simp only [List.append_assoc, List.cons_append]
      refine isPaced_grouped firstIh (isPaced_cons (isScannable_mark _ (by decide) _) fun _ => ?_)
      refine isPaced_grouped secondIh (isPaced_cons (isScannable_mark _ (by decide) _) fun _ => ?_)
      exact isPaced_grouped thirdIh (later false)
  | member inner word ih =>
      intro allowed rest later
      rw [Node.words, Node.words]
      simp only [List.append_assoc, List.cons_append]
      exact isPaced_grouped ih (isPaced_cons (isScannable_mark _ (by decide) _) fun allowed =>
        isPaced_cons (isScannable_word word allowed) later)
  | computed first second firstIh secondIh =>
      intro allowed rest later
      rw [Node.words]
      simp only [List.append_assoc, List.cons_append]
      refine isPaced_grouped firstIh (isPaced_cons (isScannable_mark _ (by decide) _) fun _ => ?_)
      exact isPaced_grouped secondIh (isPaced_cons (isScannable_mark _ (by decide) _) later)
  | call first each ih eachIh =>
      intro allowed rest later
      rw [Node.words]
      simp only [List.append_assoc, List.cons_append]
      refine isPaced_grouped ih (isPaced_cons (isScannable_mark _ (by decide) _) fun allowed => ?_)
      exact Anywhere.phrases eachIh allowed _ fun allowed =>
        isPaced_cons (isScannable_mark _ (by decide) _) later
  | sequence several each ih =>
      rw [Node.words]
      exact .phrases ih
  | array each ih =>
      intro allowed rest later
      rw [Node.words]
      simp only [List.append_assoc, List.cons_append]
      refine isPaced_cons (isScannable_mark _ (by decide) _) fun allowed => ?_
      exact Anywhere.slots ih allowed _ fun allowed =>
        isPaced_cons (isScannable_mark _ (by decide) _) later

/-! ## How expressions start -/

/-- What a written expression starts with, unless it is a name. -/
def heads : List Text :=
  [['('], ['[']] ++ (unaryOperators ++ updateOperators).map String.toList

theorem grouped_head (words rest : List Text) :
    ∃ first more, grouped words ++ rest = first :: more ∧ first ∈ heads :=
  ⟨['('], words ++ [')'] :: rest, by simp [grouped], by decide⟩

theorem IsExpression.head {dialect : Dialect} {expression : Node}
    (isExpression : IsExpression dialect expression) :
    (∃ name, expression = .identifier name ∧ IsName dialect name.toList) ∨
      ∃ first more, expression.words = first :: more ∧ first ∈ heads := by
  cases isExpression with
  | identifier isName free => exact .inl ⟨_, rfl, isName⟩
  | @unary operator argument known inner =>
      refine .inr ⟨operator.toList, _, by rw [Node.words], ?_⟩
      exact List.mem_append_right _ (List.mem_map_of_mem (List.mem_append_left _ known))
  | @update operator isPrefix argument known target inner =>
      cases isPrefix with
      | true =>
          refine .inr ⟨operator.toList, _, by rw [Node.words], ?_⟩
          exact List.mem_append_right _ (List.mem_map_of_mem (List.mem_append_right _ known))
      | false =>
          rw [Node.words]
          exact .inr (grouped_head _ _)
  | binary known first second | logical known first second | conditional first second third
  | assignment known target first second | member inner word | computed first second
  | call first each =>
      rw [Node.words]
      exact .inr (grouped_head _ _)
  | @sequence expressions several each =>
      cases expressions with
      | nil => simp at several
      | cons first others =>
          rw [Node.words, Node.phrases, separated_cons]
          exact .inr (grouped_head _ _)
  | array each => exact .inr ⟨['['], _, by rw [Node.words], by decide⟩

end Estree

end ScriptTree
