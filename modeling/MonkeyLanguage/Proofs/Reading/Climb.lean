-- SUMMARY: How operands and the operators between them are put into a tree.
import MonkeyLanguage.Proofs.Reading.Operand

/-!
# Operators

An expression is an operand with links behind it, each of them an operator and another operand.
`Climbs` says what the parser makes of that: at a given power it joins links for as long as
their operators bind tighter, and leaves the others to whoever reads at a lower power.
-/

namespace MonkeyLanguage.Parser

open Feed

variable {limit : Numeral.DigitLimit}

/-- An operator and the operand behind it. -/
abbrev Link : Type := Token × Node

/-- At a power, the operand and its links are joined to a tree, and some links are left over. -/
inductive Climbs : Nat → Node → List Link → Node → List Link → Prop where
  | stop {power : Nat} {left : Node} {links : List Link} :
      (∀ link ∈ links.head?, link.1.kind.bindingPower ≤ power) → Climbs power left links left links
  | join {power : Nat} {operator : Token} {left operand right node : Node}
      {links mid spare : List Link} :
      power < operator.kind.bindingPower →
      Climbs operator.kind.bindingPower operand links right mid →
      Climbs power (.binary operator operator.literal left right) mid node spare →
      Climbs power left ((operator, operand) :: links) node spare

/-- What is left over comes from the end of the links, and starts with a looser operator. -/
theorem Climbs.spare {power : Nat} {left node : Node} {links spare : List Link}
    (h : Climbs power left links node spare) :
    spare <:+ links ∧ ∀ link ∈ spare.head?, link.1.kind.bindingPower ≤ power := by
  induction h with
  | stop hstop => exact ⟨List.suffix_refl _, hstop⟩
  | join _ _ _ ihRight ihNode =>
      exact ⟨(ihNode.1.trans ihRight.1).trans (List.suffix_cons _ _), ihNode.2⟩

/-- Joining always comes to an end. -/
theorem exists_climbs (power : Nat) (left : Node) (links : List Link) :
    ∃ node spare, Climbs power left links node spare := by
  induction hlength : links.length using Nat.strongRecOn generalizing power left links with
  | _ length ih =>
      cases links with
      | nil => exact ⟨left, [], .stop (by simp)⟩
      | cons link links =>
          by_cases htighter : power < link.1.kind.bindingPower
          · rw [List.length_cons] at hlength
            obtain ⟨right, mid, hright⟩ :=
              ih links.length (by omega) link.1.kind.bindingPower link.2 links rfl
            have hle := hright.spare.1.length_le
            obtain ⟨node, spare, hnode⟩ :=
              ih mid.length (by omega) power (.binary link.1 link.1.literal left right) mid rfl
            exact ⟨node, spare, .join htighter hright hnode⟩
          · exact ⟨left, _, .stop (by simpa using htighter)⟩

/-! ## Operands with operators in front -/

/-- An operand with any number of operators in front of it. -/
inductive Operand (limit : Numeral.DigitLimit) : List Token → Node → Prop where
  | plain {ts : List Token} {node : Node} : ReadsOperand limit ts node → Operand limit ts node
  | prefixed {operator : Token} {ts : List Token} {right : Node} :
      operator.kind ∈ Kind.prefixOperators → Operand limit ts right →
      Operand limit (operator :: ts) (.prefixed operator operator.literal right)

/-- Operators between operands end an operand with operators in front, calls and look-ups do not. -/
theorem Operand.leads {ts : List Token} {node : Node} (h : Operand limit ts node) :
    Leads limit (·.Ends BindingPower.prefixed) ts node := by
  induction h with
  | plain hplain =>
      exact ⟨hplain.ne_nil, fun hpass hdepth hends => hplain.yields hpass hdepth hends.no_else⟩
  | @prefixed operator ts right hoperator _ ih =>
      refine ⟨by simp, fun {depth feed mid} hpass hdepth hends _ _ _ _ hextend => ?_⟩
      refine yields_bind.2 ⟨_, mid, ?_, hextend⟩
      obtain ⟨hahead, rfl, hnext⟩ := (passes_cons ih.ne_nil).1 hpass
      have hread : ReadsExpression limit BindingPower.prefixed ts right :=
        ih.readsExpression (Nat.le_refl _) fun _ h => h
      have hless := Nat.lt_of_lt_of_le (length_advance_lt hahead) hdepth
      have hyields := yields_prefixed.2 ⟨right, hread.yields hnext hless hends, rfl⟩
      simp only [Kind.prefixOperators, List.mem_cons, List.not_mem_nil, or_false] at hoperator
      rw [yields_operand]
      rcases hoperator with hkind | hkind <;> rw [hkind] <;> exact hyields

/-- A call or look-up behind an operand binds tighter than the operators in front of it. -/
theorem Operand.extend {ts us : List Token} {node : Node} {extended : Node → Node}
    (h : Operand limit ts node) (hextension : ReadsExtension limit us extended) :
    ∃ longer, Operand limit (ts ++ us) longer := by
  induction h with
  | plain hplain => exact ⟨_, .plain (hplain.extend hextension)⟩
  | prefixed hoperator _ ih =>
      obtain ⟨longer, hlonger⟩ := ih
      exact ⟨_, .prefixed hoperator hlonger⟩

/-! ## Links -/

/-- The tokens of links. -/
inductive Links (limit : Numeral.DigitLimit) : List Token → List Link → Prop where
  | none : Links limit [] []
  | more {operator : Token} {ts us : List Token} {node : Node} {links : List Link} :
      operator.kind ∈ Kind.infixOperators → Operand limit ts node → Links limit us links →
      Links limit (operator :: ts ++ us) ((operator, node) :: links)

theorem Links.joining {ts : List Token} {links : List Link} (h : Links limit ts links) :
    ∀ link ∈ links, link.1.kind ∈ Kind.infixOperators := by
  induction h with
  | none => simp
  | more hoperator _ _ ih => simpa using ⟨hoperator, fun a b hmem => ih (a, b) hmem⟩

/-- An infix operator binds tighter than nothing at all and looser than a prefix. -/
theorem bounds_of_joining {kind : Kind} (h : kind ∈ Kind.infixOperators) :
    BindingPower.lowest < kind.bindingPower ∧ kind.bindingPower < BindingPower.prefixed := by
  simp only [Kind.infixOperators, List.mem_cons, List.not_mem_nil, or_false] at h
  rcases h with rfl | rfl | rfl | rfl | rfl | rfl | rfl | rfl <;> decide

theorem yields_extension_of_joining {expression : ExpressionParser} {left node : Node}
    {feed rest : Feed} (h : feed.current.kind ∈ Kind.infixOperators) :
    Yields (extension expression left) feed node rest ↔
      Yields (binary expression left) feed node rest := by
  rw [yields_extension]
  simp only [Kind.infixOperators, List.mem_cons, List.not_mem_nil, or_false] at h
  rcases h with h | h | h | h | h | h | h | h <;> rw [h]

/-- Behind the token at the front of `feed` the tokens of the links lie ahead, up to the one at
the front of `last`. -/
def LinksAhead (limit : Numeral.DigitLimit) (feed : Feed) (links : List Link)
    (last : Feed) : Prop :=
  ∃ ts, Links limit ts links ∧ feed.Passes (feed.current :: ts) last

theorem LinksAhead.eq_of_nil {feed last : Feed} (h : LinksAhead limit feed [] last) :
    last = feed := by
  obtain ⟨ts, hts, hpass⟩ := h
  cases hts
  exact (passes_singleton.1 hpass).2.2

/-- If the first link does not bind tighter than a power, an expression read at that power ends
where the links start. -/
theorem LinksAhead.ends {feed last : Feed} {links : List Link} {power : Nat}
    (h : LinksAhead limit feed links last) (hlowest : BindingPower.lowest ≤ power)
    (hstop : ∀ link ∈ links.head?, link.1.kind.bindingPower ≤ power)
    (hlast : last.advance.current.kind.Ends BindingPower.lowest) :
    feed.advance.current.kind.Ends power := by
  cases links with
  | nil =>
      rw [← h.eq_of_nil]
      exact hlast.mono hlowest
  | cons link links =>
      obtain ⟨ts, hts, hpass⟩ := h
      cases hts with
      | more hoperator _ _ =>
          obtain ⟨-, -, hnext⟩ := (passes_cons (by simp)).1 hpass
          rw [current_eq_of_ahead hnext.split]
          refine ⟨hstop _ rfl, fun helse => ?_⟩
          rw [helse] at hoperator
          simp [Kind.infixOperators] at hoperator

theorem LinksAhead.ends_prefixed {feed last : Feed} {links : List Link}
    (h : LinksAhead limit feed links last)
    (hlast : last.advance.current.kind.Ends BindingPower.lowest) :
    feed.advance.current.kind.Ends BindingPower.prefixed := by
  refine h.ends (by decide) ?_ hlast
  obtain ⟨ts, hts, -⟩ := h
  cases hts with
  | none => simp
  | more hoperator _ _ => simpa using Nat.le_of_lt (bounds_of_joining hoperator).2

/-- The parser joins operands as it should. -/
theorem Climbs.yields {power : Nat} {left node : Node} {links spare : List Link}
    (h : Climbs power left links node spare) {depth : Nat} {feed last : Feed}
    (hlinks : LinksAhead limit feed links last) (hdepth : feed.ahead.length ≤ depth)
    (hlowest : BindingPower.lowest ≤ power)
    (hlast : last.advance.current.kind.Ends BindingPower.lowest) :
    ∃ rest, Yields (extend (Parser.expression limit depth) power left) feed node rest ∧
      rest.ahead.length ≤ feed.ahead.length ∧ LinksAhead limit rest spare last := by
  induction h generalizing depth feed with
  | stop hstop =>
      exact ⟨feed, Yields.extend_stop (hlinks.ends hlowest hstop hlast).power_le, Nat.le_refl _,
        hlinks⟩
  | @join power operator left operand right node links mid spare htighter _ _ ihRight ihNode =>
      obtain ⟨ts, hts, hpass⟩ := hlinks
      cases hts with
      | @more _ ts us _ _ hoperator hoperand hus =>
          obtain ⟨hahead, -, hnext⟩ := (passes_cons (by simp)).1 hpass
          obtain ⟨haheadNext, rfl, hafter⟩ := (passes_cons (by simp [hoperand.leads.ne_nil])).1 hnext
          obtain ⟨first, hfirst, hrest⟩ := hafter.split_at hoperand.leads.ne_nil
          have hfirstLinks : LinksAhead limit first links last := ⟨us, hus, hrest⟩
          -- The operand takes two tokens less than there are, so it may nest less deeply.
          have hlessOperator := length_advance_lt hahead
          have hlessOperand := length_advance_lt haheadNext
          have hleFirst := hfirst.length_le
          obtain ⟨depth, rfl⟩ : ∃ n, depth = n + 1 := ⟨depth - 1, by omega⟩
          have hdepthFirst : first.ahead.length ≤ depth := by omega
          obtain ⟨spare, hright, hleSpare, hspareLinks⟩ :=
            ihRight hfirstLinks hdepthFirst (Nat.le_of_lt (bounds_of_joining hoperator).1)
          have hdepthSpare : spare.ahead.length ≤ depth + 1 := by omega
          obtain ⟨rest, hnode, hleRest, hrestLinks⟩ := ihNode hspareLinks hdepthSpare hlowest
          have hoperandYields := hoperand.leads.yields hfirst (by omega)
            (hfirstLinks.ends_prefixed hlast) (Nat.le_of_lt (bounds_of_joining hoperator).2) hright
          have hbinary : Yields (extension (Parser.expression limit (depth + 1)) left) feed.advance
              (.binary feed.advance.current feed.advance.current.literal left right) spare :=
            (yields_extension_of_joining hoperator).2 (yields_binary.2 ⟨right, hoperandYields, rfl⟩)
          exact ⟨rest, Yields.extend_more htighter hbinary (by omega) hnode, by omega, hrestLinks⟩

/-! ## Whole expressions -/

/-- The tokens are those of an operand and its links. -/
def Chain (limit : Numeral.DigitLimit) (tokens : List Token) (left : Node)
    (links : List Link) : Prop :=
  ∃ ts us, tokens = ts ++ us ∧ Operand limit ts left ∧ Links limit us links

theorem ReadsOperand.chain {ts : List Token} {node : Node} (h : ReadsOperand limit ts node) :
    Chain limit ts node [] :=
  ⟨ts, [], by simp, .plain h, .none⟩

theorem Links.append {ts us : List Token} {links others : List Link} (h : Links limit ts links)
    (hothers : Links limit us others) : Links limit (ts ++ us) (links ++ others) := by
  induction h with
  | none => exact hothers
  | more hoperator hoperand _ ih =>
      rw [List.append_assoc]
      exact .more hoperator hoperand ih

theorem Chain.binary {operator : Token} {ts us : List Token} {left right : Node}
    {links others : List Link} (h : Chain limit ts left links)
    (hoperator : operator.kind ∈ Kind.infixOperators) (hright : Chain limit us right others) :
    Chain limit (ts ++ operator :: us) left (links ++ (operator, right) :: others) := by
  obtain ⟨ts, vs, rfl, hoperand, hlinks⟩ := h
  obtain ⟨us, ws, rfl, hnext, hothers⟩ := hright
  have hjoined := hlinks.append (.more hoperator hnext hothers)
  exact ⟨ts, vs ++ (operator :: us ++ ws), by simp, hoperand, hjoined⟩

theorem Chain.prefixed {operator : Token} {ts : List Token} {left : Node} {links : List Link}
    (h : Chain limit ts left links) (hoperator : operator.kind ∈ Kind.prefixOperators) :
    Chain limit (operator :: ts) (.prefixed operator operator.literal left) links := by
  obtain ⟨ts, us, rfl, hoperand, hlinks⟩ := h
  exact ⟨operator :: ts, us, rfl, .prefixed hoperator hoperand, hlinks⟩

/-- A call or look-up behind links belongs to the last operand. -/
theorem Links.extend {ts us : List Token} {links : List Link} {extended : Node → Node}
    (h : Links limit ts links) (hne : links ≠ []) (hextension : ReadsExtension limit us extended) :
    ∃ longer, Links limit (ts ++ us) longer := by
  induction h with
  | none => exact absurd rfl hne
  | @more operator ts vs node links hoperator hoperand hlinks ih =>
      cases hlinks with
      | none =>
          obtain ⟨longer, hlonger⟩ := hoperand.extend hextension
          have hmore := Links.more hoperator hlonger .none
          exact ⟨_, by simpa using hmore⟩
      | more hnext hoperandNext hothers =>
          obtain ⟨longer, hlonger⟩ := ih (List.cons_ne_nil _ _)
          rw [List.append_assoc]
          exact ⟨_, .more hoperator hoperand hlonger⟩

theorem Chain.extend {ts us : List Token} {left : Node} {links : List Link}
    {extended : Node → Node} (h : Chain limit ts left links)
    (hextension : ReadsExtension limit us extended) :
    ∃ left links, Chain limit (ts ++ us) left links := by
  obtain ⟨ts, vs, rfl, hoperand, hlinks⟩ := h
  cases hlinks with
  | none =>
      obtain ⟨longer, hlonger⟩ := hoperand.extend hextension
      exact ⟨longer, [], ts ++ us, [], by simp, hlonger, .none⟩
  | more hoperator hnext hothers =>
      obtain ⟨longer, hlonger⟩ :=
        (Links.more hoperator hnext hothers).extend (List.cons_ne_nil _ _) hextension
      exact ⟨left, longer, ts, _, by rw [List.append_assoc], hoperand, hlonger⟩

theorem Chain.readsExpression {ts : List Token} {left node : Node} {links : List Link}
    (h : Chain limit ts left links) (hclimbs : Climbs BindingPower.lowest left links node []) :
    ReadsExpression limit BindingPower.lowest ts node := by
  obtain ⟨ts, us, rfl, hoperand, hlinks⟩ := h
  refine ⟨by simp [hoperand.leads.ne_nil], fun {depth feed rest} hpass hdepth hends => ?_⟩
  obtain ⟨depth, rfl⟩ : ∃ n, depth = n + 1 := ⟨depth - 1, by omega⟩
  obtain ⟨first, hfirst, hrest⟩ := hpass.split_at hoperand.leads.ne_nil
  have hfirstLinks : LinksAhead limit first links rest := ⟨us, hlinks, hrest⟩
  have hdepthFeed : feed.ahead.length ≤ depth := Nat.le_of_lt_succ hdepth
  obtain ⟨last, hlast, -, hover⟩ := hclimbs.yields hfirstLinks
    (Nat.le_trans hfirst.length_le hdepthFeed) (Nat.le_refl _) hends
  obtain rfl := hover.eq_of_nil
  exact hoperand.leads.yields hfirst hdepthFeed (hfirstLinks.ends_prefixed hends) (by decide) hlast

/-- At the lowest power all links are joined. -/
theorem Chain.exists_node {ts : List Token} {left : Node} {links : List Link}
    (h : Chain limit ts left links) :
    ∃ node, ReadsExpression limit BindingPower.lowest ts node := by
  obtain ⟨node, spare, hclimbs⟩ := exists_climbs BindingPower.lowest left links
  suffices hnil : spare = [] from ⟨node, h.readsExpression (hnil ▸ hclimbs)⟩
  obtain ⟨hsuffix, hstop⟩ := hclimbs.spare
  obtain ⟨_, us, -, -, hlinks⟩ := h
  cases spare with
  | nil => rfl
  | cons link spare =>
      have hjoining := hlinks.joining link (hsuffix.subset List.mem_cons_self)
      exact absurd (hstop link rfl) (Nat.not_le.2 (bounds_of_joining hjoining).1)

end MonkeyLanguage.Parser
