-- SUMMARY: What the grammar derives is read without errors.
import MonkeyLanguage.Proofs.Reading.Climb
import MonkeyLanguage.Proofs.Reading.Made
import MonkeyLanguage.Proofs.Reading.Sequence

/-!
# Derivations are read

The grammar leaves open how operands and operators are put into brackets, so the tree that is
read need not be the one that was derived. What a derivation does tell is the operands and
the operators between them, and these are all that the parser needs.
-/

namespace MonkeyLanguage

namespace Parser

variable {limit : Numeral.DigitLimit} {ts : List Token}

/-- The tokens are read as an item of the sort that the phrase is. -/
def ReadableItem (limit : Numeral.DigitLimit) (ts : List Token) : Phrase → Prop
  | .expression _ => ∃ node, ReadsExpression limit BindingPower.lowest ts node
  | .parameter _ => ∃ node, ReadsItem limit (fun _ => parameter) ts node
  | .pair _ _ => ∃ entry, ReadsItem limit pair ts entry
  | _ => True

/-- The tokens are read as what the phrase is. -/
def Readable (limit : Numeral.DigitLimit) (ts : List Token) : Phrase → Prop
  | .expression _ => ∃ left links, Chain limit ts left links
  | .parameter _ => ∃ node, ReadsItem limit (fun _ => parameter) ts node
  | .pair _ _ => ∃ entry, ReadsItem limit pair ts entry
  | .list items => Separated (ReadableItem limit) ts items
  | .statement _ => ∀ semicolons : List Token,
      (∀ token ∈ semicolons, token.kind = .semicolon) → ∃ node, ReadsStatement limit semicolons ts node
  | .statements _ => ∃ nodes, Sequence limit ts nodes
  | .block _ => ∃ node, ReadsBlock limit ts node

theorem Readable.item {phrase : Phrase} (h : Readable limit ts phrase) :
    ReadableItem limit ts phrase := by
  cases phrase with
  | expression => exact let ⟨_, _, hchain⟩ := h; hchain.exists_node
  | parameter => exact h
  | pair => exact h
  | list => trivial
  | statement => trivial
  | statements => trivial
  | block => trivial

section

variable {α β : Type} {P : List Token → α → Prop} {Q : List Token → β → Prop}

theorem Separated.exists_others {items : List α} (h : Separated P ts items)
    (hitem : ∀ ts, ∀ a ∈ items, P ts a → ∃ b, Q ts b) :
    ∃ others, Separated Q ts others ∧ others.length = items.length := by
  induction h with
  | none => exact ⟨[], .none, rfl⟩
  | last hfirst =>
      obtain ⟨b, hb⟩ := hitem _ _ List.mem_cons_self hfirst
      exact ⟨[b], .last hb, rfl⟩
  | more hfirst hcomma _ ih =>
      obtain ⟨b, hb⟩ := hitem _ _ List.mem_cons_self hfirst
      obtain ⟨bs, hbs, hlength⟩ := ih fun ts a hmem => hitem ts a (List.mem_cons_of_mem _ hmem)
      obtain ⟨next, bs, rfl⟩ := List.exists_cons_of_length_eq_add_one hlength
      exact ⟨b :: next :: bs, .more hb hcomma hbs, by simpa using hlength⟩

/-- Items that can be read one by one make a list that can be read. -/
theorem Separated.exists_items {phrase : α → Phrase} {items : List α}
    (h : Separated (ReadableItem limit) ts (items.map phrase))
    (hitem : ∀ {ts a}, ReadableItem limit ts (phrase a) → ∃ b, Q ts b) :
    ∃ others, Separated Q ts others := by
  obtain ⟨others, hothers, -⟩ := h.exists_others (Q := Q) fun ts item hmem hread => by
    obtain ⟨a, -, rfl⟩ := List.mem_map.1 hmem
    exact hitem hread
  exact ⟨others, hothers⟩

end

/-- What is derived is read. -/
theorem readable_of_derives {phrase : Phrase} (h : Derives (reads limit) ts phrase) :
    Readable limit ts phrase := by
  induction h with
  | identifier hkind => exact ⟨_, _, (readsOperand_identifier hkind).chain⟩
  | integer hkind hread => exact ⟨_, _, (readsOperand_integer hkind hread.1 hread.2).chain⟩
  | string hkind => exact ⟨_, _, (readsOperand_string hkind).chain⟩
  | trueWord hkind =>
      exact ⟨_, _, (readsOperand_boolean true (by simp [hkind])).chain⟩
  | falseWord hkind =>
      exact ⟨_, _, (readsOperand_boolean false (by simp [hkind])).chain⟩
  | prefixed hoperator _ ih =>
      obtain ⟨left, links, hchain⟩ := ih
      exact ⟨_, _, hchain.prefixed hoperator⟩
  | grouped hopen _ hclose ih =>
      obtain ⟨left, links, hchain⟩ := ih
      obtain ⟨node, hnode⟩ := hchain.exists_node
      exact ⟨_, _, (hnode.grouped hopen hclose).chain⟩
  | conditional hword hopen _ hclose _ ihCondition ihBlock =>
      obtain ⟨left, links, hchain⟩ := ihCondition
      obtain ⟨condition, hcondition⟩ := hchain.exists_node
      obtain ⟨block, hblock⟩ := ihBlock
      exact ⟨_, _, (readsOperand_conditional hword hopen hcondition hclose hblock).chain⟩
  | choice hword hopen _ hclose _ helse _ ihCondition ihBlock ihOther =>
      obtain ⟨left, links, hchain⟩ := ihCondition
      obtain ⟨condition, hcondition⟩ := hchain.exists_node
      obtain ⟨block, hblock⟩ := ihBlock
      obtain ⟨other, hother⟩ := ihOther
      exact ⟨_, _, (readsOperand_choice hword hopen hcondition hclose hblock helse hother).chain⟩
  | function hword hopen _ hclose _ ihParameters ihBody =>
      obtain ⟨parameters, hparameters⟩ := Separated.exists_items ihParameters fun hitem => hitem
      obtain ⟨body, hbody⟩ := ihBody
      exact ⟨_, _, (readsOperand_function hword hopen hparameters hclose hbody).chain⟩
  | array hopen _ hclose ih =>
      obtain ⟨elements, helements⟩ := Separated.exists_items ih fun hitem => hitem
      exact ⟨_, _, (readsOperand_array helements hopen hclose).chain⟩
  | hash hopen _ hclose ih =>
      obtain ⟨pairs, hpairs⟩ := Separated.exists_items ih fun hitem => hitem
      exact ⟨_, _, (readsOperand_hash hpairs hopen hclose).chain⟩
  | binary _ hoperator _ ihLeft ihRight =>
      obtain ⟨left, links, hchain⟩ := ihLeft
      obtain ⟨right, others, hright⟩ := ihRight
      exact ⟨_, _, hchain.binary hoperator hright⟩
  | call _ hopen _ hclose ihCallee ihArguments =>
      obtain ⟨left, links, hchain⟩ := ihCallee
      obtain ⟨arguments, harguments⟩ := Separated.exists_items ihArguments fun hitem => hitem
      exact hchain.extend (readsExtension_call harguments hopen hclose)
  | index _ hopen _ hclose ihTarget ihKey =>
      obtain ⟨left, links, hchain⟩ := ihTarget
      obtain ⟨_, _, hkeyChain⟩ := ihKey
      obtain ⟨key, hkey⟩ := hkeyChain.exists_node
      exact hchain.extend (readsExtension_index hkey hopen hclose)
  | property _ hperiod hname ih =>
      obtain ⟨left, links, hchain⟩ := ih
      exact hchain.extend (readsExtension_property hperiod hname)
  | parameter hkind => exact ⟨_, readsItem_parameter hkind⟩
  | pair _ hcolon _ ihKey ihValue =>
      obtain ⟨_, _, hkeyChain⟩ := ihKey
      obtain ⟨key, hkey⟩ := hkeyChain.exists_node
      obtain ⟨_, _, hvalueChain⟩ := ihValue
      obtain ⟨value, hvalue⟩ := hvalueChain.exists_node
      exact ⟨_, hkey.pair hcolon hvalue⟩
  | noItems => exact .none
  | lastItem _ ih => exact .last ih.item
  | moreItems _ hcomma _ ihItem ihItems => exact .more ihItem.item hcomma ihItems
  | letStatement hword hname hsign _ ih =>
      intro semicolons hall
      obtain ⟨_, _, hchain⟩ := ih
      obtain ⟨value, hvalue⟩ := hchain.exists_node
      exact ⟨_, hvalue.letStatement hall hword hname hsign⟩
  | returnStatement hword _ ih =>
      intro semicolons hall
      obtain ⟨_, _, hchain⟩ := ih
      obtain ⟨value, hvalue⟩ := hchain.exists_node
      exact ⟨_, hvalue.returnStatement hall hword⟩
  | expressionStatement _ ih =>
      intro semicolons hall
      obtain ⟨_, _, hchain⟩ := ih
      obtain ⟨value, hvalue⟩ := hchain.exists_node
      obtain ⟨_, _, -, hstatement⟩ := hvalue.expressionStatement hall
      exact ⟨_, hstatement⟩
  | noStatements => exact ⟨[], .none⟩
  | moreStatements _ hall _ hnone ihStatement ihStatements =>
      obtain ⟨node, hnode⟩ := ihStatement _ hall
      obtain ⟨nodes, hnodes⟩ := ihStatements
      exact ⟨_, .more hnode hnodes hnone⟩
  | block hopen _ hclose ih =>
      obtain ⟨nodes, hnodes⟩ := ih
      exact ⟨_, hnodes.readsBlock hopen hclose⟩

/-- A program that the grammar derives is read without errors. -/
theorem programStatements_complete {depth : Nat} {feed rest : Feed} {nodes : List Node}
    (h : Derives (reads limit) ts (.statements nodes)) (hsplit : feed.ahead = ts ++ rest.ahead)
    (hfinish : rest.finish = feed.finish) (hend : rest.current.kind = .endOfInput)
    (hdepth : feed.ahead.length < depth) :
    ∃ others, Yields (programStatements (Parser.expression limit depth)) feed others rest := by
  obtain ⟨others, hothers⟩ := readable_of_derives h
  exact ⟨others, hothers.yields_programStatements hsplit hfinish hend hdepth⟩

end Parser

end MonkeyLanguage
