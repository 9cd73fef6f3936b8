-- SUMMARY: The tokens of a phrase show how many calls and look-ups there are in it.
import MonkeyLanguage.Proofs.Canonical.Reparse

/-!
# Joints

A call or a look-up goes on with an expression before it. So in the tokens of a phrase there is a
joint for it: a token that an expression can end with, and behind it a bracket or a period. In no
other place is there such a pair of tokens. The next statement, if no semicolon is before it, does
not start with a bracket.
-/

namespace MonkeyLanguage

/-- The kinds that an expression can end with. -/
def Kind.enders : List Kind :=
  [.identifier, .integer, .string, .trueWord, .falseWord, .rightParen, .rightBracket, .rightBrace]

/-- The kinds that go on with an expression as a call or a look-up. -/
def Kind.joiners : List Kind := [.leftParen, .leftBracket, .period]

/-- How many joints there are in a row of kinds, when an expression may have ended before it. -/
def joints : (ended : Bool) → List Kind → Nat
  | _, [] => 0
  | ended, kind :: rest =>
    (if ended && Kind.joiners.contains kind then 1 else 0) + joints (Kind.enders.contains kind) rest

/-- Whether an expression may have ended after a row of kinds. -/
def endedAfter : (ended : Bool) → List Kind → Bool
  | ended, [] => ended
  | _, kind :: rest => endedAfter (Kind.enders.contains kind) rest

@[simp] theorem joints_nil (ended : Bool) : joints ended [] = 0 := rfl

@[simp] theorem endedAfter_nil (ended : Bool) : endedAfter ended [] = ended := rfl

@[simp] theorem joints_append (ended : Bool) (kinds others : List Kind) :
    joints ended (kinds ++ others) =
      joints ended kinds + joints (endedAfter ended kinds) others := by
  induction kinds generalizing ended with
  | nil => simp
  | cons kind kinds ih => simp [joints, endedAfter, ih, Nat.add_assoc]

@[simp] theorem endedAfter_append (ended : Bool) (kinds others : List Kind) :
    endedAfter ended (kinds ++ others) = endedAfter (endedAfter ended kinds) others := by
  induction kinds generalizing ended with
  | nil => rfl
  | cons kind kinds ih => exact ih _

/-! ## Calls and look-ups of trees -/

namespace Node

mutual

/-- How many calls and look-ups there are in a tree. -/
def joints : Node → Nat
  | program _ statements => jointsAll statements
  | letStatement _ _ value => value.joints
  | returnStatement _ value => value.joints
  | expressionStatement _ value => value.joints
  | block _ statements => jointsAll statements
  | prefixed _ _ right => right.joints
  | binary _ _ left right => left.joints + right.joints
  | conditional _ condition consequence alternative =>
    condition.joints + consequence.joints + alternative.joints
  | function _ _ body => body.joints
  | call _ callee arguments => callee.joints + 1 + jointsAll arguments
  | array _ elements => jointsAll elements
  | hash _ pairs => jointsPairs pairs
  | index _ target key => target.joints + 1 + key.joints
  | _ => 0

/-- How many calls and look-ups there are in several trees. -/
def jointsAll : List Node → Nat
  | [] => 0
  | node :: rest => node.joints + jointsAll rest

/-- How many calls and look-ups there are in pairs of trees. -/
def jointsPairs : List (Node × Node) → Nat
  | [] => 0
  | (key, value) :: rest => key.joints + value.joints + jointsPairs rest

end

section

attribute [local simp] erase joints jointsAll jointsPairs

mutual

theorem joints_erase (node : Node) : node.erase.joints = node.joints := by
  cases node with
  | program _ statements => simp [jointsAll_erase statements]
  | letStatement _ _ value => simp [joints_erase value]
  | returnStatement _ value => simp [joints_erase value]
  | expressionStatement _ value => simp [joints_erase value]
  | block _ statements => simp [jointsAll_erase statements]
  | prefixed _ _ right => simp [joints_erase right]
  | binary _ _ left right => simp [joints_erase left, joints_erase right]
  | conditional _ condition consequence alternative =>
      simp [joints_erase condition, joints_erase consequence, joints_erase alternative]
  | function _ _ body => simp [joints_erase body]
  | call _ callee arguments => simp [joints_erase callee, jointsAll_erase arguments]
  | array _ elements => simp [jointsAll_erase elements]
  | hash _ pairs => simp [jointsPairs_erase pairs]
  | index _ target key => simp [joints_erase target, joints_erase key]
  | _ => rfl
termination_by structural node

theorem jointsAll_erase (nodes : List Node) : jointsAll (nodes.map erase) = jointsAll nodes := by
  cases nodes with
  | nil => rfl
  | cons node rest => simp [joints_erase node, jointsAll_erase rest]
termination_by structural nodes

theorem jointsPairs_erase (pairs : List (Node × Node)) :
    jointsPairs (pairs.map fun pair => (pair.1.erase, pair.2.erase)) = jointsPairs pairs := by
  match pairs with
  | [] => rfl
  | (key, value) :: rest => simp [joints_erase key, joints_erase value, jointsPairs_erase rest]
termination_by structural pairs

end

end

end Node

/-! ## Derivations -/

/-- How many calls and look-ups there are in a phrase. -/
def Phrase.joints : Phrase → Nat
  | .expression node => node.joints
  | .parameter _ => 0
  | .pair key value => key.joints + value.joints
  | .list items => (items.map Phrase.joints).sum
  | .statement node => node.joints
  | .statements nodes => Node.jointsAll nodes
  | .block node => node.joints

/-- The kinds show how many calls and look-ups there are in the phrase. An expression may have ended
with what is a value or a block, and a block shows the same whatever is before it. -/
def Phrase.Shows (kinds : List Kind) : Phrase → Prop
  | .expression node => MonkeyLanguage.joints false kinds = node.joints ∧
      ∀ ended, endedAfter ended kinds = true
  | .block node => ∀ ended, MonkeyLanguage.joints ended kinds = node.joints ∧
      endedAfter ended kinds = true
  | phrase => MonkeyLanguage.joints false kinds = phrase.joints

theorem Phrase.Shows.joints_eq {kinds : List Kind} {phrase : Phrase} (h : phrase.Shows kinds) :
    MonkeyLanguage.joints false kinds = phrase.joints := by
  cases phrase with
  | expression node => simpa [Phrase.joints] using h.1
  | block node => simpa [Phrase.joints] using (h false).1
  | _ => exact h

section

attribute [local simp] Phrase.joints Node.jointsAll Node.jointsPairs

theorem Phrase.sum_joints_expressions (nodes : List Node) :
    (nodes.map (Phrase.joints ∘ Phrase.expression)).sum = Node.jointsAll nodes := by
  induction nodes with
  | nil => rfl
  | cons node nodes ih => simp [ih]

theorem Phrase.sum_joints_parameters (nodes : List Node) :
    (nodes.map (Phrase.joints ∘ Phrase.parameter)).sum = 0 := by
  induction nodes with
  | nil => rfl
  | cons node nodes ih => simp [ih]

theorem Phrase.sum_joints_pairs (pairs : List (Node × Node)) :
    (pairs.map (Phrase.joints ∘ fun pair => Phrase.pair pair.1 pair.2)).sum =
      Node.jointsPairs pairs := by
  induction pairs with
  | nil => rfl
  | cons pair pairs ih => simp [ih]

end

/-- What is behind semicolons is no joint with what is before them. -/
theorem joints_semicolons {semicolons : List Kind} (h : ∀ kind ∈ semicolons, kind = .semicolon)
    (ended : Bool) (kinds : List Kind) :
    joints ended (semicolons ++ kinds) =
      joints (if semicolons = [] then ended else false) kinds := by
  induction semicolons generalizing ended with
  | nil => rfl
  | cons kind rest ih =>
      obtain ⟨rfl, hrest⟩ := List.forall_mem_cons.1 h
      have hafter := ih hrest false
      rw [ite_self] at hafter
      simpa [joints, Kind.joiners, Kind.enders] using hafter

/-- A row that does not start with a bracket or a period is no joint with what is before it. -/
theorem joints_of_head {kinds : List Kind} (h : ∀ kind ∈ kinds.head?, kind ∉ Kind.joiners)
    (ended : Bool) : joints ended kinds = joints false kinds := by
  cases kinds with
  | nil => rfl
  | cons kind rest => simp [joints, h kind rfl]

theorem joints_false_le (ended : Bool) (kinds : List Kind) :
    joints false kinds ≤ joints ended kinds := by
  cases kinds with
  | nil => rfl
  | cons kind rest => simp [joints]

/-- A row with no joint more behind an expression does not start with a bracket or a period. -/
theorem head_not_joiner {kinds : List Kind} (h : joints true kinds ≤ joints false kinds) :
    ∀ kind ∈ kinds.head?, kind ∉ Kind.joiners := by
  rintro kind hkind hjoiner
  obtain ⟨rest, rfl⟩ := List.head?_eq_some_iff.1 hkind
  simp [joints, hjoiner] at h

/-- A phrase does not start with a period. -/
theorem Derives.head_ne_period {numeral : String → Int → Prop} {ts : List Token} {phrase : Phrase}
    (h : Derives numeral ts phrase) : ∀ token ∈ ts.head?, token.kind ≠ .period := by
  have hfirst {first : Token} {us : List Token} {kind : Kind} (hkind : first.kind = kind)
      (hne : kind ≠ .period) : ∀ token ∈ (first :: us).head?, token.kind ≠ .period := by
    rintro token htoken
    obtain rfl := Option.some.inj htoken
    rwa [hkind]
  have happend {us vs : List Token} (hus : ∀ token ∈ us.head?, token.kind ≠ .period)
      (hvs : ∀ token ∈ vs.head?, token.kind ≠ .period) :
      ∀ token ∈ (us ++ vs).head?, token.kind ≠ .period := by
    cases us with
    | nil => exact hvs
    | cons first us => exact hus
  have hoperator {operators : List Kind} {operator : Token} (hmem : operator.kind ∈ operators)
      (hperiod : .period ∉ operators) {us : List Token} :
      ∀ token ∈ (operator :: us).head?, token.kind ≠ .period :=
    hfirst rfl (ne_of_mem_of_not_mem hmem hperiod)
  induction h with
  | identifier hkind | integer hkind | string hkind | trueWord hkind | falseWord hkind
  | grouped hkind | conditional hkind | choice hkind | function hkind | array hkind | hash hkind
  | parameter hkind | letStatement hkind | returnStatement hkind | block hkind =>
      exact hfirst hkind (by decide)
  | prefixed hmem => exact hoperator hmem (by decide)
  | binary _ hmem _ ihLeft => exact happend ihLeft (hoperator hmem (by decide))
  | call _ hkind _ _ ihNode | index _ hkind _ _ ihNode | pair _ hkind _ ihNode
  | moreItems _ hkind _ ihNode =>
      exact happend ihNode (hfirst hkind (by decide))
  | property htarget _ _ ih =>
      obtain ⟨first, rest, rfl⟩ := List.exists_cons_of_ne_nil htarget.ne_nil
      exact ih
  | lastItem _ ih => exact ih
  | expressionStatement _ ih => exact ih
  | noItems | noStatements => nofun
  | moreStatements _ hall _ _ ihStatement ihStatements =>
      refine happend (happend ihStatement fun token htoken => ?_) ihStatements
      rw [hall token (List.mem_of_mem_head? htoken)]
      decide

attribute [local simp] Phrase.Shows Phrase.joints Node.joints Node.jointsAll MonkeyLanguage.joints
  endedAfter Kind.enders Kind.joiners in
theorem Derives.shows {numeral : String → Int → Prop} {ts : List Token} {phrase : Phrase}
    (h : Derives numeral ts phrase) : phrase.Shows (ts.map Token.kind) := by
  have hleading : ∀ kind ∈ Kind.prefixOperators, ∀ kinds,
      MonkeyLanguage.joints false (kind :: kinds) = joints false kinds := by
    simp [Kind.prefixOperators]
  have hbetween : ∀ kind ∈ Kind.infixOperators, ∀ ended kinds,
      MonkeyLanguage.joints ended (kind :: kinds) = joints false kinds := by
    simp [Kind.infixOperators]
  induction h with
  | identifier hkind => simp [hkind]
  | integer hkind => simp [hkind]
  | string hkind => simp [hkind]
  | trueWord hkind => simp [hkind]
  | falseWord hkind => simp [hkind]
  | prefixed hoperator _ ih =>
      obtain ⟨hright, hends⟩ := ih
      exact ⟨(hleading _ hoperator _).trans hright, fun _ => hends _⟩
  | grouped hopen _ hclose ih =>
      obtain ⟨hnode, -⟩ := ih
      simp [hopen, hclose, hnode]
  | conditional hword hopen _ hclose _ ihCondition ihBlock =>
      obtain ⟨hcondition, -⟩ := ihCondition
      simp [hword, hopen, hclose, hcondition, (ihBlock _).1, (ihBlock _).2]
  | choice hword hopen _ hclose _ hother _ ihCondition ihBlock ihOther =>
      obtain ⟨hcondition, -⟩ := ihCondition
      simp [hword, hopen, hclose, hother, hcondition, (ihBlock _).1, (ihOther _).1, (ihOther _).2,
        Nat.add_assoc]
  | function hword hopen _ hclose _ ihParameters ihBody =>
      have hparameters := ihParameters.joints_eq
      rw [Phrase.joints, List.map_map, Phrase.sum_joints_parameters] at hparameters
      simp [hword, hopen, hclose, hparameters, (ihBody _).1, (ihBody _).2]
  | array hopen _ hclose ih =>
      have helements := ih.joints_eq
      rw [Phrase.joints, List.map_map, Phrase.sum_joints_expressions] at helements
      simp [hopen, hclose, helements]
  | hash hopen _ hclose ih =>
      have hpairs := ih.joints_eq
      rw [Phrase.joints, List.map_map, Phrase.sum_joints_pairs] at hpairs
      simp [hopen, hclose, hpairs]
  | binary _ hoperator _ ihLeft ihRight =>
      obtain ⟨hleft, -⟩ := ihLeft
      obtain ⟨hright, hends⟩ := ihRight
      refine ⟨?_, by simp [hends]⟩
      rw [List.map_append, List.map_cons, joints_append, hbetween _ hoperator, hleft, hright]
      rfl
  | call _ hopen _ hclose ihCallee ihArguments =>
      obtain ⟨hcallee, hends⟩ := ihCallee
      have harguments := ihArguments.joints_eq
      rw [Phrase.joints, List.map_map, Phrase.sum_joints_expressions] at harguments
      simp [hopen, hclose, hcallee, hends, harguments, Nat.add_assoc]
  | index _ hopen _ hclose ihTarget ihKey =>
      obtain ⟨htarget, hends⟩ := ihTarget
      obtain ⟨hkey, -⟩ := ihKey
      simp [hopen, hclose, htarget, hends, hkey, Nat.add_assoc]
  | property _ hperiod hname ih =>
      obtain ⟨htarget, hends⟩ := ih
      simp [hperiod, hname, htarget, hends]
  | parameter hkind => simp [hkind]
  | pair _ hcolon _ ihKey ihValue =>
      obtain ⟨hkey, -⟩ := ihKey
      obtain ⟨hvalue, -⟩ := ihValue
      simp [hcolon, hkey, hvalue]
  | noItems => simp
  | lastItem _ ih => simpa using ih.joints_eq
  | moreItems _ hcomma _ ihItem ihItems =>
      have hitem := ihItem.joints_eq
      have hitems := ihItems.joints_eq
      rw [Phrase.joints] at hitems
      simp [hcomma, hitem, hitems]
  | letStatement hword hname hsign _ ih =>
      obtain ⟨hvalue, -⟩ := ih
      simp [hword, hname, hsign, hvalue]
  | returnStatement hword _ ih =>
      obtain ⟨hvalue, -⟩ := ih
      simp [hword, hvalue]
  | expressionStatement _ ih =>
      simpa only [Phrase.Shows, Phrase.joints, Node.joints] using ih.1
  | noStatements => simp
  | @moreStatements ts semicolons rest node nodes _ hall hrest hnone ihStatement ihStatements =>
      have hstatement : joints false (ts.map Token.kind) = node.joints := by
        simpa using ihStatement.joints_eq
      have hstatements : joints false (rest.map Token.kind) = Node.jointsAll nodes := by
        simpa using ihStatements.joints_eq
      have hafter : joints (endedAfter false (ts.map Token.kind))
          (semicolons.map Token.kind ++ rest.map Token.kind) = Node.jointsAll nodes := by
        rw [joints_semicolons (by simpa using hall)]
        cases semicolons with
        | nil =>
            have hstart : ∀ kind ∈ (rest.map Token.kind).head?, kind ∉ Kind.joiners := by
              intro kind hkind
              obtain ⟨token, htoken, rfl⟩ : ∃ token ∈ rest.head?, token.kind = kind := by
                simpa using hkind
              have hperiod := hrest.head_ne_period token htoken
              have hbracket := hnone rfl token htoken
              simp_all [Kind.ambiguous]
            exact (joints_of_head hstart _).trans hstatements
        | cons semicolon semicolons => exact hstatements
      simp only [Phrase.Shows, Phrase.joints, Node.jointsAll, List.map_append, List.append_assoc]
      rw [joints_append, hafter, hstatement]
  | block hopen _ hclose ih =>
      have hstatements := ih.joints_eq
      rw [Phrase.joints] at hstatements
      simp [hopen, hclose, hstatements]

/-! ## Source texts and canonical texts -/

/-- The tokens of a text that is read without errors show the calls and look-ups that are read. -/
theorem Parse.joints_shapes {source : String} {limit : Numeral.DigitLimit}
    (h : (Parse.ofSource source limit).errors = []) :
    joints false ((shapes source.toList).map Prod.fst) =
      (Parse.ofSource source limit).program.joints := by
  obtain ⟨nodes, hprogram, hderives⟩ := (Parse.accepts_iff_derives source limit).2 h
  obtain ⟨ts, last, hscan, hshapes, -⟩ := Token.scan_eq source
  rw [hscan, List.dropLast_concat] at hderives
  have hshown := hderives.shows.joints_eq
  have hkinds : Prod.fst ∘ Token.shape = Token.kind := rfl
  rw [hprogram, ← hshapes, List.map_map, hkinds, hshown, Phrase.joints, Node.joints]

/-- The canonical text of a program shows the calls and look-ups of the program. -/
theorem WellFormedProgram.joints_spelling {limit : Numeral.DigitLimit} {program : Node}
    (h : WellFormedProgram limit program) :
    joints false (program.spelling.map Prod.fst) = program.joints := by
  obtain ⟨herrors, herase⟩ := h.parse_render
  rw [← h.shapes_render, Parse.joints_shapes herrors, ← Node.joints_erase, herase,
    Node.joints_erase]

theorem WellFormed.joints_spelling {limit : Numeral.DigitLimit} {statement : Node}
    (h : WellFormed limit (.statement statement)) :
    joints false (statement.spelling.map Prod.fst) = statement.joints := by
  have hprogram : WellFormedProgram limit (.program .erased [statement]) := by
    simpa [WellFormedProgram] using h
  simpa [Node.spelling, Node.spellStatements, Node.joints, Node.jointsAll] using
    hprogram.joints_spelling

section

attribute [local simp] Node.spelling endedAfter

theorem WellFormed.endedAfter_block {limit : Numeral.DigitLimit} {node : Node}
    (h : WellFormed limit (.block node)) (ended : Bool) :
    endedAfter ended (node.spelling.map Prod.fst) = true := by
  cases h
  simp
  decide

/-- An expression may have ended with the canonical text of one. -/
theorem WellFormed.endedAfter_expression {limit : Numeral.DigitLimit} {node : Node}
    (h : WellFormed limit (.expression node)) (ended : Bool) :
    endedAfter ended (node.spelling.map Prod.fst) = true := by
  cases h with
  | @boolean token value hliteral =>
      cases value <;> simp [hliteral] <;> decide
  | conditional _ hblock => simp [hblock.endedAfter_block]
  | @choice token condition consequence alternative _ _ halternative =>
      rw [spelling_choice halternative]
      simp [halternative.endedAfter_block]
  | function _ _ hbody => simp [hbody.endedAfter_block]
  | _ =>
      simp
      decide

end

end MonkeyLanguage
