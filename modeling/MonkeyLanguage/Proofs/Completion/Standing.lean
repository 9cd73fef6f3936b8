-- SUMMARY: Programs whose conditionals with a return in a branch stand as statements.
import MonkeyLanguage.Proofs.Run.Placement

/-!
# Conditionals that stand as statements

A `return` gets into the middle of an expression only in a branch of a conditional. So programs in
which each such conditional is the whole of an expression statement have all returns in their
place. What they evaluate to, and what they bind on the way, is tidy: there are no signals inside,
and the code of all functions has its returns in place as well.
-/

namespace MonkeyLanguage

namespace Node

/-- Whether the node is a conditional with a `return` in a branch, other than in the body of a
function. -/
def branchReturns : Node → Bool
  | conditional _ _ consequence alternative => consequence.returns || alternative.returns
  | _ => false

mutual

/-- Whether every conditional with a `return` in a branch is the whole value of an expression
statement, below the node and in the functions in it. -/
def branchesStand : Node → Bool
  | program _ statements => allBranchesStand statements
  | letStatement _ _ value => !value.branchReturns && value.branchesStand
  | returnStatement _ value => !value.branchReturns && value.branchesStand
  | expressionStatement _ value => value.branchesStand
  | block _ statements => allBranchesStand statements
  | prefixed _ _ right => !right.branchReturns && right.branchesStand
  | binary _ _ left right =>
    !left.branchReturns && left.branchesStand && (!right.branchReturns && right.branchesStand)
  | conditional _ condition consequence alternative =>
    !condition.branchReturns && condition.branchesStand &&
      (!consequence.branchReturns && consequence.branchesStand &&
        (!alternative.branchReturns && alternative.branchesStand))
  | function _ parameters body =>
    allBranchesStand parameters && (!body.branchReturns && body.branchesStand)
  | call _ callee arguments =>
    !callee.branchReturns && callee.branchesStand && allBranchesStand arguments
  | array _ elements => allBranchesStand elements
  | hash _ pairs => pairsBranchesStand pairs
  | index _ target key =>
    !target.branchReturns && target.branchesStand && (!key.branchReturns && key.branchesStand)
  | _ => true

def allBranchesStand : List Node → Bool
  | [] => true
  | node :: rest => !node.branchReturns && node.branchesStand && allBranchesStand rest

def pairsBranchesStand : List (Node × Node) → Bool
  | [] => true
  | (key, value) :: rest =>
    !key.branchReturns && key.branchesStand && (!value.branchReturns && value.branchesStand) &&
      pairsBranchesStand rest

end

theorem allBranchesStand_iff {nodes : List Node} :
    allBranchesStand nodes = true ↔
      ∀ node ∈ nodes, node.branchReturns = false ∧ node.branchesStand = true := by
  induction nodes with
  | nil => simp [allBranchesStand]
  | cons node rest ih => simp [allBranchesStand, ih]

theorem pairsBranchesStand_iff {pairs : List (Node × Node)} :
    pairsBranchesStand pairs = true ↔ ∀ pair ∈ pairs,
      (pair.1.branchReturns = false ∧ pair.1.branchesStand = true) ∧
        pair.2.branchReturns = false ∧ pair.2.branchesStand = true := by
  induction pairs with
  | nil => simp [pairsBranchesStand]
  | cons pair rest ih =>
      obtain ⟨key, value⟩ := pair
      simp [pairsBranchesStand, ih, and_assoc]

theorem allInPlace_of_plain {nodes : List Node} (h : ∀ node ∈ nodes, node.Plain) :
    returnsAny nodes = false ∧ allInPlace nodes = true :=
  ⟨returnsAny_eq_false_iff.2 fun node hnode => (h node hnode).returns,
    allInPlace_iff.2 fun node hnode => (h node hnode).inPlace⟩

theorem pairsInPlace_of_plain {pairs : List (Node × Node)}
    (h : ∀ pair ∈ pairs, pair.1.Plain ∧ pair.2.Plain) :
    returnsAnyPair pairs = false ∧ pairsInPlace pairs = true := by
  induction pairs with
  | nil => exact ⟨rfl, rfl⟩
  | cons pair rest ih =>
      obtain ⟨⟨hkey, hvalue⟩, hrest⟩ := List.forall_mem_cons.1 h
      obtain ⟨hreturns, hplace⟩ := ih hrest
      simp [returnsAnyPair, pairsInPlace, hkey.inPlace, hkey.returns, hvalue.inPlace,
        hvalue.returns, hreturns, hplace]

end Node

/-! ## Well-formed phrases -/

/-- A phrase in which conditionals stand as asked has its returns in place. An expression that is
no such conditional itself has none at all. -/
def Phrase.Stands : Phrase → Prop
  | .expression node =>
    node.branchesStand = true →
      node.inPlace = true ∧ (node.branchReturns = false → node.returns = false)
  | .pair key value =>
    (key.branchReturns = false ∧ key.branchesStand = true) ∧
      value.branchReturns = false ∧ value.branchesStand = true → key.Plain ∧ value.Plain
  | .statement node => node.branchesStand = true → node.inPlace = true
  | .block node => node.branchesStand = true → node.inPlace = true
  | _ => True

theorem Phrase.Stands.plain {node : Node} (h : Phrase.Stands (.expression node))
    (hnode : node.branchReturns = false ∧ node.branchesStand = true) : node.Plain :=
  ⟨(h hnode.2).1, (h hnode.2).2 hnode.1⟩

theorem Node.plain_of_stands {nodes : List Node}
    (h : ∀ node ∈ nodes, Phrase.Stands (.expression node))
    (hnodes : Node.allBranchesStand nodes = true) : ∀ node ∈ nodes, node.Plain :=
  fun node hnode => (h node hnode).plain (Node.allBranchesStand_iff.1 hnodes node hnode)

theorem WellFormed.stands {limit : Numeral.DigitLimit} {phrase : Phrase}
    (h : WellFormed limit phrase) : phrase.Stands := by
  induction h with
  | prefixed _ _ ih =>
      intro hstands
      simp only [Node.branchesStand, Bool.and_eq_true, Bool.not_eq_true'] at hstands
      have hright := ih.plain hstands
      simp [Node.inPlace, Node.returns, hright.inPlace, hright.returns]
  | binary _ _ _ ihLeft ihRight =>
      intro hstands
      simp only [Node.branchesStand, Bool.and_eq_true, Bool.not_eq_true'] at hstands
      have hleft := ihLeft.plain hstands.1
      have hright := ihRight.plain hstands.2
      simp [Node.inPlace, Node.returns, hleft.inPlace, hleft.returns, hright.inPlace,
        hright.returns]
  | conditional _ _ ihCondition ihBlock =>
      intro hstands
      simp only [Node.branchesStand, Bool.and_eq_true, Bool.not_eq_true'] at hstands
      have hcondition := ihCondition.plain hstands.1
      have hblock := ihBlock hstands.2.1.2
      simp [Node.inPlace, Node.returns, Node.branchReturns, hcondition.inPlace,
        hcondition.returns, hblock]
  | choice _ _ _ ihCondition ihBlock ihOther =>
      intro hstands
      simp only [Node.branchesStand, Bool.and_eq_true, Bool.not_eq_true'] at hstands
      have hcondition := ihCondition.plain hstands.1
      have hblock := ihBlock hstands.2.1.2
      have hother := ihOther hstands.2.2.2
      simp [Node.inPlace, Node.returns, Node.branchReturns, hcondition.inPlace,
        hcondition.returns, hblock, hother]
  | function _ _ _ _ ihBody =>
      intro hstands
      simp only [Node.branchesStand, Bool.and_eq_true] at hstands
      exact ⟨ihBody hstands.2.2, fun _ => rfl⟩
  | call _ _ ihCallee ihArguments =>
      intro hstands
      simp only [Node.branchesStand, Bool.and_eq_true, Bool.not_eq_true'] at hstands
      have hcallee := ihCallee.plain hstands.1
      have harguments := Node.allInPlace_of_plain (Node.plain_of_stands ihArguments hstands.2)
      simp [Node.inPlace, Node.returns, hcallee.inPlace, hcallee.returns, harguments]
  | array _ ih =>
      intro hstands
      have helements := Node.allInPlace_of_plain (Node.plain_of_stands ih hstands)
      simp [Node.inPlace, Node.returns, helements]
  | hash _ ih =>
      intro hstands
      have hpairs := Node.pairsInPlace_of_plain fun pair hpair =>
        ih pair hpair (Node.pairsBranchesStand_iff.1 hstands pair hpair)
      simp [Node.inPlace, Node.returns, hpairs]
  | index _ _ ihTarget ihKey =>
      intro hstands
      simp only [Node.branchesStand, Bool.and_eq_true, Bool.not_eq_true'] at hstands
      have htarget := ihTarget.plain hstands.1
      have hkey := ihKey.plain hstands.2
      simp [Node.inPlace, Node.returns, htarget.inPlace, htarget.returns, hkey.inPlace,
        hkey.returns]
  | parameter => exact trivial
  | pair _ _ ihKey ihValue => exact fun hstands => ⟨ihKey.plain hstands.1, ihValue.plain hstands.2⟩
  | letStatement _ _ _ ih =>
      intro hstands
      simp only [Node.branchesStand, Bool.and_eq_true, Bool.not_eq_true'] at hstands
      have hvalue := ih.plain hstands
      simp [Node.inPlace, hvalue.inPlace, hvalue.returns]
  | returnStatement _ _ ih =>
      intro hstands
      simp only [Node.branchesStand, Bool.and_eq_true, Bool.not_eq_true'] at hstands
      have hvalue := ih.plain hstands
      simp [Node.inPlace, hvalue.inPlace, hvalue.returns]
  | expressionStatement _ ih => exact fun hstands => (ih hstands).1
  | block _ ih =>
      intro hstands
      exact Node.allInPlace_iff.2 fun statement hstatement =>
        ih statement hstatement (Node.allBranchesStand_iff.1 hstands statement hstatement).2
  | _ => exact fun _ => ⟨rfl, fun _ => rfl⟩

theorem WellFormedProgram.inPlace {limit : Numeral.DigitLimit} {program : Node}
    (h : WellFormedProgram limit program) (hstands : program.branchesStand = true) :
    program.inPlace = true := by
  cases program with
  | program token statements =>
      exact Node.allInPlace_iff.2 fun statement hstatement =>
        (h statement hstatement).stands
          (Node.allBranchesStand_iff.1 hstands statement hstatement).2
  | _ => exact h.elim

/-! ## Tidy values -/

/-- There are no signals inside the value, and the code of its functions has all returns in their
place. -/
abbrev Value.Tidy : Value → Prop :=
  Value.Clean False fun _ body => body.inPlace = true

/-- All values that are bound in the scopes of the machine are tidy. -/
abbrev Machine.Tidy (machine : Machine) : Prop :=
  machine.store.Holds Value.Tidy

/-- What comes out of code with its returns in place is an error, or tidy but for the `return`
that sends it. -/
abbrev Value.TidyAnswer : Value → Prop :=
  Value.Answer False fun _ body => body.inPlace = true

namespace Machine.Tidy

variable {host : Host} {depth : Nat} {scope : ScopeId} {machine final : Machine}

theorem of_evaluate {node : Node} {value : Value} (hmachine : machine.Tidy)
    (hnode : node.inPlace = true)
    (h : evaluate host (apply host depth) scope node machine = .ok value final) :
    final.Tidy ∧ value.TidyAnswer := by
  have harrives : Moment.Reaches host ⟨.evaluate scope node, [], depth, machine⟩
      ⟨.answer value, [], depth, final⟩ := Moment.arrives_of_ok h
  have hsettled : Moment.Settled ⟨.evaluate scope node, [], depth, machine⟩ :=
    ⟨trivial, hnode, nofun⟩
  obtain ⟨-, hholds⟩ := hsettled.reaches ⟨hmachine, nofun, trivial⟩ harrives
  exact ⟨hholds.store, hholds.control⟩

/-- Where a value is wanted, what comes out is tidy or an error. -/
theorem of_plain {node : Node} {value : Value} (hmachine : machine.Tidy) (hnode : node.Plain)
    (h : evaluate host (apply host depth) scope node machine = .ok value final) :
    final.Tidy ∧ (value.isError = false → value.Tidy) := by
  -- Any frame that wants a value will do.
  have harrives : Moment.Reaches host ⟨.evaluate scope node, [.operand "!"], depth, machine⟩
      ⟨.answer value, [.operand "!"], depth, final⟩ := Moment.arrives_of_ok h
  have hsettled : Moment.Settled ⟨.evaluate scope node, [.operand "!"], depth, machine⟩ :=
    ⟨⟨trivial, trivial⟩, hnode.fits _⟩
  obtain ⟨hlater, hholds⟩ := hsettled.reaches ⟨hmachine, by simp [Frame.values], trivial⟩ harrives
  refine ⟨hholds.store, fun herror => hholds.control.clean_of_returned herror fun hreturned => ?_⟩
  rw [hlater.control rfl] at hreturned
  cases hreturned

theorem of_evaluateSequence {statements : List Node} {value : Value} (hmachine : machine.Tidy)
    (hstatements : Node.allInPlace statements = true)
    (h : evaluateSequence host (apply host depth) scope .null statements machine =
      .ok value final) :
    final.Tidy ∧ value.TidyAnswer := by
  have hblock : (Node.block default statements).inPlace = true := hstatements
  exact hmachine.of_evaluate hblock h

theorem isReturned_of_program {token : Token} {statements : List Node} {value : Value}
    (hmachine : machine.Tidy) (hprogram : (Node.program token statements).inPlace = true)
    (h : evaluate host (apply host depth) scope (.program token statements) machine =
      .ok value final) :
    value.isReturned = false := by
  rw [evaluate] at h
  obtain ⟨inner, middle, hinner, hreceived⟩ := Eval.ok_of_bind h
  cases hreceived
  have hanswer := (hmachine.of_evaluateSequence hprogram hinner).2
  exact Bool.eq_false_iff.2 hanswer.of_isReturned_received

theorem of_evaluateAll {nodes : List Node} {values : List Value} (hmachine : machine.Tidy)
    (hnodes : ∀ node ∈ nodes, node.Plain)
    (h : evaluateAll host (apply host depth) scope nodes machine = .ok (.ok values) final) :
    final.Tidy ∧ ∀ value ∈ values, value.Tidy := by
  -- The values are the elements of what an array literal with these nodes comes to.
  have harray : (Node.array default nodes).Plain := by
    obtain ⟨hreturns, hplace⟩ := Node.allInPlace_of_plain hnodes
    exact ⟨by simp [Node.inPlace, hreturns, hplace], hreturns⟩
  have hevaluate : evaluate host (apply host depth) scope (.array default nodes) machine =
      .ok (.array values) final := by
    rw [evaluate]
    simp only [bind, EStateM.bind, h]
    rfl
  obtain ⟨hfinal, hvalue⟩ := hmachine.of_plain harray hevaluate
  cases hvalue rfl with
  | array helements => exact ⟨hfinal, helements⟩

end Machine.Tidy

end MonkeyLanguage
