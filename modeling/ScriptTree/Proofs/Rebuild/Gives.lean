import ScriptTree.Rebuild.Function
import ScriptTree.Rebuild.Statement
import ScriptTree.Rebuild.Terminal

/-!
# Steps that give values

A step that succeeds has used up the first of its arguments.  The rules below
follow a step forwards and collect what was used, so that in the end the
arguments of a rule are known exactly.
-/

namespace ScriptTree

open Estree

/-- A token that may be missing. -/
def Fragment.flag (present : Bool) (text : String) : List Fragment :=
  if present then [.token text] else []

def Fragment.option (node : Option Node) : List Fragment :=
  node.toList.map .node

/-- A node that may be missing together with the token before it. -/
def Fragment.behind (text : String) : Option Node → List Fragment
  | none => []
  | some given => [.token text, .node given]

namespace Fragment

@[simp] theorem option_none : option none = [] := rfl

@[simp] theorem option_some (given : Node) : option (some given) = [.node given] := rfl

@[simp] theorem behind_none (text : String) : behind text none = [] := rfl

@[simp] theorem behind_some (text : String) (given : Node) :
    behind text (some given) = [.token text, .node given] := rfl

@[simp] theorem flag_true (text : String) : flag true text = [.token text] := rfl

@[simp] theorem flag_false (text : String) : flag false text = [] := rfl

end Fragment

namespace Take

variable {Value Other : Type}

/-- Whenever a step succeeds, what was used before it and what it used itself
relate to its value. -/
def Gives (before : List Fragment) (step : Take Value) (post : List Fragment → Value → Prop) :
    Prop :=
  ∀ arguments value after, step arguments = .ok (value, after) →
    ∃ used, arguments.rest = used ++ after.rest ∧ post (before ++ used) value

theorem bind_eq_ok {step : Take Other} {next : Other → Take Value} {arguments after : Arguments}
    {value : Value} (run : (step >>= next) arguments = .ok (value, after)) :
    ∃ first between, step arguments = .ok (first, between) ∧
      next first between = .ok (value, after) := by
  change (step arguments).bind (fun found => next found.1 found.2) = _ at run
  cases first : step arguments with
  | error error =>
      rw [first] at run
      cases run
  | ok found =>
      rw [first] at run
      exact ⟨found.1, found.2, rfl, run⟩

namespace Gives

variable {before : List Fragment} {post : List Fragment → Value → Prop}

theorem bind {step : Take Other} {next : Other → Take Value}
    (gives : Gives before step fun used value => Gives used (next value) post) :
    Gives before (step >>= next) post := by
  intro arguments value after run
  obtain ⟨first, between, firstRun, nextRun⟩ := bind_eq_ok run
  obtain ⟨used, split, later⟩ := gives _ _ _ firstRun
  obtain ⟨more, splitMore, holds⟩ := later _ _ _ nextRun
  refine ⟨used ++ more, ?_, ?_⟩
  · rw [split, splitMore, List.append_assoc]
  · rwa [← List.append_assoc]

theorem mono {step : Take Value} {stronger : List Fragment → Value → Prop}
    (gives : Gives before step stronger)
    (implies : ∀ used value, stronger used value → post used value) : Gives before step post := by
  intro arguments value after run
  obtain ⟨used, split, holds⟩ := gives _ _ _ run
  exact ⟨used, split, implies _ _ holds⟩

/-- What a step gives does not depend on what was used before it. -/
theorem behind {step : Take Value} (gives : Gives [] step post) :
    Gives before step fun used value => ∃ part, used = before ++ part ∧ post part value := by
  intro arguments value after run
  obtain ⟨used, split, holds⟩ := gives arguments value after run
  exact ⟨used, split, used, rfl, holds⟩

theorem returns {value : Value} (holds : post before value) : Gives before (pure value) post := by
  rintro arguments _ _ ⟨⟩
  exact ⟨[], rfl, by rwa [List.append_nil]⟩

theorem fails {mismatch : Mismatch} : Gives before (Take.mismatch mismatch) post := by
  rintro arguments _ _ ⟨⟩

theorem unmet {what : String} : Gives before (Take.unmet what) post := by
  rintro arguments _ _ ⟨⟩

theorem lifts {result : Except TransformError Other} {next : Other → Take Value}
    (leads : ∀ value, result = .ok value → Gives before (next value) post) :
    Gives before (liftM result >>= next) post := by
  cases result with
  | error error => rintro arguments _ _ ⟨⟩
  | ok value => exact leads value rfl

theorem get {next : Arguments → Take Value}
    (leads : ∀ arguments, Gives before (next arguments) post) :
    Gives before (get >>= next) post :=
  fun arguments value after run => leads arguments arguments value after run

/-- The next fragment is looked at before a step. -/
theorem peek {next : Option Fragment → Take Value}
    (leads : ∀ found, Gives before (next found) post) : Gives before (Take.peek >>= next) post :=
  fun arguments value after run => leads arguments.rest.head? arguments value after run

/-- The next fragment is taken before a step. -/
theorem next {next : Option Fragment → Take Value} (atEnd : Gives before (next none) post)
    (found : ∀ fragment, Gives (before ++ [fragment]) (next (some fragment)) post) :
    Gives before (Take.next >>= next) post := by
  refine bind ?_
  rintro ⟨rule, position, given⟩ value after run
  cases given with
  | nil =>
      cases run
      exact ⟨[], rfl, by rwa [List.append_nil]⟩
  | cons fragment rest =>
      cases run
      exact ⟨[fragment], rfl, found fragment⟩

theorem node {what : String} {next : Node → Take Value}
    (leads : ∀ given, Gives (before ++ [.node given]) (next given) post) :
    Gives before (Take.node what >>= next) post := by
  refine bind ?_
  rintro ⟨rule, position, rest⟩ value after run
  match rest, run with
  | .node given :: rest, run =>
      cases run
      exact ⟨[.node _], rfl, leads _⟩

theorem node?_ok {arguments after : Arguments} {found : Option Node}
    (run : Take.node? arguments = .ok (found, after)) :
    arguments.rest = Fragment.option found ++ after.rest := by
  obtain ⟨rule, position, rest⟩ := arguments
  match rest, run with
  | .node given :: rest, run =>
      cases run
      rfl
  | [], run | .token _ :: _, run | .list _ :: _, run | .loop _ :: _, run =>
      cases run
      rfl

theorem node? {next : Option Node → Take Value}
    (leads : ∀ found, Gives (before ++ Fragment.option found) (next found) post) :
    Gives before (Take.node? >>= next) post :=
  bind fun _ found _ run => ⟨Fragment.option found, node?_ok run, leads found⟩

theorem token {what : String} {next : String → Take Value}
    (leads : ∀ text, Gives (before ++ [.token text]) (next text) post) :
    Gives before (Take.token what >>= next) post := by
  refine bind ?_
  rintro ⟨rule, position, rest⟩ value after run
  match rest, run with
  | .token text :: rest, run =>
      cases run
      exact ⟨[.token _], rfl, leads _⟩

theorem list {what : String} {next : List Node → Take Value}
    (leads : ∀ nodes, Gives (before ++ [.list nodes]) (next nodes) post) :
    Gives before (Take.list what >>= next) post := by
  refine bind ?_
  rintro ⟨rule, position, rest⟩ value after run
  match rest, run with
  | .list nodes :: rest, run =>
      cases run
      exact ⟨[.list _], rfl, leads _⟩

theorem loopHead {next : LoopHead → Take Value}
    (leads : ∀ head, Gives (before ++ [.loop head]) (next head) post) :
    Gives before (Take.loopHead >>= next) post := by
  refine bind ?_
  rintro ⟨rule, position, rest⟩ value after run
  match rest, run with
  | .loop head :: rest, run =>
      cases run
      exact ⟨[.loop _], rfl, leads _⟩

theorem eat {spelling : String} {next : Bool → Take Value}
    (leads : ∀ found, Gives (before ++ Fragment.flag found spelling) (next found) post) :
    Gives before (Take.eat spelling >>= next) post := by
  refine bind ?_
  rintro ⟨rule, position, rest⟩ value after run
  match rest, run with
  | .token text :: rest, run =>
      change (if text = spelling then _ else _ : Take Bool) _ = _ at run
      split at run
      case isTrue same =>
        cases run
        exact ⟨[.token text], rfl, same ▸ leads true⟩
      case isFalse =>
        cases run
        exact ⟨[], rfl, leads false⟩
  | [], run | .node _ :: _, run | .list _ :: _, run | .loop _ :: _, run =>
      cases run
      exact ⟨[], rfl, leads false⟩

/-- A token decides how a step goes on. -/
theorem choice {spelling : String} {yes no : Take Value}
    (taken : Gives (before ++ [.token spelling]) yes post) (passed : Gives before no post) :
    Gives before (do if ← Take.eat spelling then yes else no) post := by
  refine eat fun found => ?_
  cases found with
  | true => exact taken
  | false => rwa [Fragment.flag_false, List.append_nil]

theorem expect {spelling : String} {next : Unit → Take Value}
    (leads : Gives (before ++ [.token spelling]) (next ()) post) :
    Gives before (Take.expect spelling >>= next) post :=
  bind (choice (returns leads) unmet)

/-! ## Loops -/

/-- What every round preserves holds of all fragments before the closing
token. -/
theorem rounds {closing : String} {round : Value → Take Value}
    {holds : List Fragment → Value → Prop}
    (step : ∀ used value, holds used value → Gives used (round value) holds)
    {fuel : Nat} {used : List Fragment} {value : Value} (start : holds used value) :
    Gives used (Take.roundsUntil closing round fuel value) fun all value =>
      ∃ items, all = items ++ [.token closing] ∧ holds items value := by
  induction fuel generalizing used value with
  | zero => exact expect (returns ⟨used, rfl, start⟩)
  | succ fuel ih =>
      exact choice (returns ⟨used, rfl, start⟩)
        (bind ((step used value start).mono fun _ _ later => ih later))

/-- The fragments up to a closing token are taken in rounds. -/
theorem untilToken {closing : String} {start : Other} {round : Other → Take Other}
    {next : Other → Take Value} (holds : List Fragment → Other → Prop) (initial : holds [] start)
    (step : ∀ used value, holds used value → Gives used (round value) holds)
    (leads : ∀ items value, holds items value →
      Gives (before ++ (items ++ [.token closing])) (next value) post) :
    Gives before (Take.untilToken closing start round >>= next) post := by
  refine bind (get fun _ => (rounds step initial).behind.mono ?_)
  rintro _ value ⟨_, rfl, items, rfl, held⟩
  exact leads items value held

end Gives

inductive Between (separator : String) : List Fragment → List Node → Prop
  | nil : Between separator [] []
  | separator {items : List Fragment} {nodes : List Node}
      (earlier : Between separator items nodes) :
      Between separator (items ++ [.token separator]) nodes
  | node {items : List Fragment} {nodes : List Node} (given : Node)
      (earlier : Between separator items nodes) :
      Between separator (items ++ [.node given]) (nodes ++ [given])

inductive Commas (Item : List Fragment → Node → Prop) : List Fragment → List Node → Prop
  | first {part : List Fragment} {node : Node} (item : Item part node) :
      Commas Item part [node]
  | comma {items part : List Fragment} {nodes : List Node} {node : Node}
      (earlier : Commas Item items nodes) (item : Item part node) :
      Commas Item (items ++ .token "," :: part) (nodes ++ [node])

namespace Gives

variable {before : List Fragment} {post : List Fragment → Value → Prop}

theorem nodesUntil {closing separator what : String} {next : List Node → Take Value}
    (leads : ∀ items nodes, Between separator items nodes →
      Gives (before ++ (items ++ [.token closing])) (next nodes) post) :
    Gives before (Take.nodesUntil closing separator what >>= next) post := by
  unfold Take.nodesUntil
  rw [bind_assoc]
  refine untilToken (fun items nodes => Between separator items nodes.toList) .nil ?_ ?_
  · intro used nodes earlier
    refine choice (returns earlier.separator) (node fun given => returns ?_)
    rw [Array.toList_push]
    exact earlier.node given
  · intro items nodes held
    rw [pure_bind]
    exact leads items nodes.toList held

theorem itemsAfter {item : Take Node} {Item : List Fragment → Node → Prop}
    (takes : Gives [] item Item) {fuel : Nat} {used : List Fragment} {nodes : Array Node}
    (start : Commas Item used nodes.toList) :
    Gives used (Take.itemsAfter item fuel nodes) (Commas Item) := by
  induction fuel generalizing used nodes with
  | zero => exact returns start
  | succ fuel ih =>
      refine choice (bind (takes.behind.mono ?_)) (returns start)
      rintro _ node ⟨part, rfl, isItem⟩
      apply ih
      rw [Array.toList_push, List.append_assoc]
      exact start.comma isItem

theorem separated {item : Take Node} (Item : List Fragment → Node → Prop)
    {next : List Node → Take Value} (takes : Gives [] item Item)
    (leads : ∀ items nodes, Commas Item items nodes → Gives (before ++ items) (next nodes) post) :
    Gives before (Take.separated item >>= next) post := by
  have all : Gives [] (Take.separated item) (Commas Item) :=
    bind (takes.mono fun _ _ isItem => get fun _ => itemsAfter takes (.first isItem))
  refine bind (all.behind.mono ?_)
  rintro _ nodes ⟨items, rfl, commas⟩
  exact leads items nodes commas

theorem nodesToEnd {what : String} {fuel : Nat} {used : List Fragment} (nodes : Array Node)
    (start : used = nodes.toList.map .node) :
    Gives used (Take.nodesToEnd what fuel nodes) fun used nodes => used = nodes.map .node := by
  induction fuel generalizing used nodes with
  | zero => exact returns start
  | succ fuel ih =>
      refine peek fun found => ?_
      split
      · refine node fun given => ih _ ?_
        rw [start, Array.toList_push, List.map_append]
        rfl
      · exact returns start

end Gives

end Take

end ScriptTree
