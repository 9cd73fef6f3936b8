-- SUMMARY: Trees of operators, and the one that the binding powers ask for.
import Mathlib.Data.List.Induction
import MonkeyLanguage.Parser.Rules
import MonkeyLanguage.Proofs.Grammar

/-!
# Grouping

Operands with operators between them can be grouped in many ways. The binding powers ask for the
tree in which an operator takes what binds tighter, and of its own power only what is to its left.
There is exactly one such tree for every sequence of operands and operators.
-/

namespace MonkeyLanguage

/-- An operator between two operands. -/
abbrev Infix : Type := { token : Token // token.kind ∈ Kind.infixOperators }

def Infix.power (operator : Infix) : Nat := operator.1.kind.bindingPower

/-- Operands that are joined by operators. -/
inductive OperatorTree (α : Type) where
  | leaf (operand : α)
  | join (operator : Infix) (left right : OperatorTree α)

namespace OperatorTree

variable {α : Type}

/-- The first operand from the left. -/
def first : OperatorTree α → α
  | leaf operand => operand
  | join _ left _ => left.first

/-- The operators from left to right, each with the operand behind it. -/
def links : OperatorTree α → List (Infix × α)
  | leaf _ => []
  | join operator left right => left.links ++ (operator, right.first) :: right.links

/-- The operator at the top, if the tree is more than an operand. -/
def root? : OperatorTree α → Option Infix
  | leaf _ => none
  | join operator _ _ => some operator

/-- The left child of an operator binds at least as tightly as the operator, the right child
tighter. -/
def Grouped : OperatorTree α → Prop
  | leaf _ => True
  | join operator left right =>
    left.Grouped ∧ right.Grouped ∧ (∀ inner ∈ left.root?, operator.power ≤ inner.power) ∧
      ∀ inner ∈ right.root?, operator.power < inner.power

/-! ## No more than one -/

/-- In a grouped tree, no operator binds looser than the one at the top. -/
theorem Grouped.le_power {tree : OperatorTree α} (h : tree.Grouped) {bound : Nat}
    (hroot : ∀ operator ∈ tree.root?, bound ≤ operator.power) :
    ∀ link ∈ tree.links, bound ≤ link.1.power := by
  induction tree with
  | leaf operand => exact List.forall_mem_nil _
  | join operator left right ihLeft ihRight =>
      obtain ⟨hleft, hright, hleftRoot, hrightRoot⟩ := h
      have hbound : bound ≤ operator.power := hroot operator rfl
      refine List.forall_mem_append.2 ⟨?_, List.forall_mem_cons.2 ⟨hbound, ?_⟩⟩
      · exact ihLeft hleft fun inner hinner => Nat.le_trans hbound (hleftRoot inner hinner)
      · exact ihRight hright fun inner hinner =>
          Nat.le_trans hbound (Nat.le_of_lt (hrightRoot inner hinner))

/-- The place of the top operator: nothing before it binds looser, all behind it binds tighter. -/
theorem split_unique {before before' behind behind' : List (Infix × α)} {link link' : Infix × α}
    (h : before ++ link :: behind = before' ++ link' :: behind')
    (hbefore : ∀ other ∈ before, link.1.power ≤ other.1.power)
    (hbehind : ∀ other ∈ behind, link.1.power < other.1.power)
    (hbefore' : ∀ other ∈ before', link'.1.power ≤ other.1.power)
    (hbehind' : ∀ other ∈ behind', link'.1.power < other.1.power) :
    before = before' ∧ link = link' ∧ behind = behind' := by
  rcases List.append_eq_append_iff.1 h with ⟨middle, hmiddle, hrest⟩ | ⟨middle, hmiddle, hrest⟩
  · cases middle with
    | nil =>
        obtain ⟨rfl, rfl⟩ := List.cons.inj hrest
        exact ⟨by simpa using hmiddle.symm, rfl, rfl⟩
    | cons other middle =>
        obtain ⟨rfl, rfl⟩ := List.cons.inj hrest
        have hle := hbefore' link (by simp [hmiddle])
        have hlt := hbehind link' (by simp)
        omega
  · cases middle with
    | nil =>
        obtain ⟨rfl, rfl⟩ := List.cons.inj hrest
        exact ⟨by simpa using hmiddle, rfl, rfl⟩
    | cons other middle =>
        obtain ⟨rfl, rfl⟩ := List.cons.inj hrest
        have hle := hbefore link' (by simp [hmiddle])
        have hlt := hbehind' link (by simp)
        omega

/-- Grouped trees that read the same from left to right are the same. -/
theorem Grouped.eq {tree other : OperatorTree α} (h : tree.Grouped) (hother : other.Grouped)
    (hfirst : tree.first = other.first) (hlinks : tree.links = other.links) : tree = other := by
  induction tree generalizing other with
  | leaf operand =>
      cases other with
      | leaf operand' => exact congrArg leaf hfirst
      | join operator left right => simp [links] at hlinks
  | join operator left right ihLeft ihRight =>
      cases other with
      | leaf operand => simp [links] at hlinks
      | join operator' left' right' =>
          obtain ⟨hleft, hright, hleftRoot, hrightRoot⟩ := h
          obtain ⟨hleft', hright', hleftRoot', hrightRoot'⟩ := hother
          obtain ⟨hbefore, hlink, hbehind⟩ := split_unique hlinks (hleft.le_power hleftRoot)
            (hright.le_power hrightRoot) (hleft'.le_power hleftRoot')
            (hright'.le_power hrightRoot')
          obtain ⟨rfl, hsecond⟩ := Prod.mk.inj hlink
          rw [ihLeft hleft hleft' hfirst hbefore, ihRight hright hright' hsecond hbehind]

/-! ## At least one -/

/-- An operator and an operand are added behind a tree. What binds looser than the operator stays
above it. -/
def attach (operator : Infix) (operand : α) : OperatorTree α → OperatorTree α
  | leaf only => join operator (leaf only) (leaf operand)
  | join top left right =>
    if top.power < operator.power then join top left (attach operator operand right)
    else join operator (join top left right) (leaf operand)

theorem first_attach (operator : Infix) (operand : α) (tree : OperatorTree α) :
    (attach operator operand tree).first = tree.first := by
  cases tree with
  | leaf only => rfl
  | join top left right =>
      rw [attach]
      split <;> rfl

theorem links_attach (operator : Infix) (operand : α) (tree : OperatorTree α) :
    (attach operator operand tree).links = tree.links ++ [(operator, operand)] := by
  induction tree with
  | leaf only => rfl
  | join top left right _ ihRight =>
      rw [attach]
      split
      · rw [links, first_attach, ihRight, links, List.append_assoc, List.cons_append]
      · rfl

theorem root?_attach (operator : Infix) (operand : α) (tree : OperatorTree α) :
    ∀ top ∈ (attach operator operand tree).root?, top = operator ∨ top ∈ tree.root? := by
  cases tree with
  | leaf only => simp [attach, root?]
  | join top left right =>
      rw [attach]
      split <;> simp [root?]

theorem grouped_attach (operator : Infix) (operand : α) {tree : OperatorTree α}
    (h : tree.Grouped) : (attach operator operand tree).Grouped := by
  induction tree with
  | leaf only => simp [attach, Grouped, root?]
  | join top left right _ ihRight =>
      obtain ⟨hleft, hright, hleftRoot, hrightRoot⟩ := h
      rw [attach]
      split
      case isTrue hlooser =>
        refine ⟨hleft, ihRight hright, hleftRoot, fun inner hinner => ?_⟩
        rcases root?_attach operator operand right inner hinner with rfl | hold
        · exact hlooser
        · exact hrightRoot inner hold
      case isFalse htighter =>
        refine ⟨⟨hleft, hright, hleftRoot, hrightRoot⟩, trivial, ?_, by simp [root?]⟩
        simpa [root?] using htighter

/-- Every sequence of operands and operators can be grouped. -/
theorem exists_grouped (operand : α) (sequence : List (Infix × α)) :
    ∃ tree : OperatorTree α, tree.Grouped ∧ tree.first = operand ∧ tree.links = sequence := by
  induction sequence using List.reverseRecOn with
  | nil => exact ⟨leaf operand, trivial, rfl, rfl⟩
  | append_singleton sequence link ih =>
      obtain ⟨tree, hgrouped, hfirst, hlinks⟩ := ih
      refine ⟨attach link.1 link.2 tree, grouped_attach _ _ hgrouped, ?_, ?_⟩
      · rw [first_attach, hfirst]
      · rw [links_attach, hlinks]

end OperatorTree

end MonkeyLanguage
