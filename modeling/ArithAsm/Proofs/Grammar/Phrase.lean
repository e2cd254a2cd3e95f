import ArithAsm.Grammar.Derivation
import ArithAsm.Proofs.Grammar.Step

/-!
# Phrases

The derivations of the grammar as data.  A `Phrase` of a level is what the grammar says of some
tokens: a chain is its first operand, or its first operand, an operator and the rest of the chain.
It has its tokens and its tree, in which the chains group to the left, and these are what
`Derives` relates (`Phrase.derives_iff`).  The grammar is unambiguous: the tokens of a phrase
determine the phrase, also in front of tokens that do not continue it
(`Phrase.eq_of_tokens_append`).
-/

namespace ArithAsm

/-! ### The two levels of chains -/

/-- **A level of chains:** its operators, and the level of its operands. -/
inductive Level.Chains : Level → List Operator → Level → Prop
  | sum : Chains .sum [.add, .sub] .product
  | product : Chains .product [.mul, .div] .signed

/-- The operators that can continue a phrase of the level, if they are behind it. -/
def Level.operators : Level → List Operator
  | .sum => [.add, .sub, .mul, .div]
  | .product => [.mul, .div]
  | .signed => []
  | .primary => []

namespace Level.Chains

variable {level part : Level} {ops : List Operator} {op : Operator} {symbol : Token}
  {ts ls rs : List Token} {t l r : Tree}

theorem derives_one (hc : Chains level ops part) (h : Derives part ts t) : Derives level ts t := by
  cases hc with
  | sum => exact .oneTerm h
  | product => exact .oneFactor h

theorem derives_more (hc : Chains level ops part) (hop : op ∈ ops)
    (hs : symbol.isReserved (String.singleton op.symbol) = true) (hl : Derives level ls l)
    (hr : Derives part rs r) :
    Derives level (ls ++ symbol :: rs) (.node op l r symbol.position) := by
  cases hc with
  | sum => exact .terms (by simpa using hop) hs hl hr
  | product => exact .factors (by simpa using hop) hs hl hr

theorem unique {part' : Level} {ops' : List Operator} (hc : Chains level ops part)
    (hc' : Chains level ops' part') : ops = ops' ∧ part = part' := by
  cases hc <;> cases hc' <;> exact ⟨rfl, rfl⟩

theorem operators_eq (hc : Chains level ops part) : level.operators = ops ++ part.operators := by
  cases hc <;> rfl

theorem not_mem_operators (hc : Chains level ops part) (hop : op ∈ ops) :
    op ∉ part.operators := by
  revert op
  cases hc <;> decide

theorem mem_operators (hc : Chains level ops part) (hop : op ∈ ops) : op ∈ level.operators := by
  rw [hc.operators_eq]
  exact List.mem_append_left _ hop

theorem noneAhead_part (hc : Chains level ops part) (h : NoneAhead level.operators ts) :
    NoneAhead part.operators ts := by
  intro op hop
  refine h op ?_
  rw [hc.operators_eq]
  exact List.mem_append_right _ hop

theorem noneAhead_symbol (hc : Chains level ops part) (hop : op ∈ ops)
    (hs : symbol.isReserved (String.singleton op.symbol) = true) (rest : List Token) :
    NoneAhead part.operators (symbol :: rest) := by
  intro op' hop'
  refine Bool.eq_false_iff.mpr fun hs' => hc.not_mem_operators hop ?_
  rwa [Operator.eq_of_isReserved hs hs']

end Level.Chains

/-! ### Derivations as data -/

/-- **The derivations of a level.** -/
inductive Phrase : Level → Type
  | number (token : Token) (value : Int) (h : token.kind = .number value) : Phrase .primary
  | parenthesized (opening closing : Token) (ho : opening.isReserved "(" = true)
      (hc : closing.isReserved ")" = true) (inner : Phrase .sum) : Phrase .primary
  | unsigned (operand : Phrase .primary) : Phrase .signed
  | plus (sign : Token) (hs : sign.isReserved "+" = true) (operand : Phrase .primary) :
      Phrase .signed
  | minus (sign : Token) (hs : sign.isReserved "-" = true) (operand : Phrase .primary) :
      Phrase .signed
  | single {level part : Level} {ops : List Operator} (hc : level.Chains ops part)
      (operand : Phrase part) : Phrase level
  | joined {level part : Level} {ops : List Operator} (hc : level.Chains ops part)
      (operand : Phrase part) (op : Operator) (hop : op ∈ ops) (symbol : Token)
      (hs : symbol.isReserved (String.singleton op.symbol) = true) (rest : Phrase level) :
      Phrase level

namespace Phrase

variable {level part : Level} {ops : List Operator}

/-- The tokens of a phrase. -/
def tokens {level : Level} : Phrase level → List Token
  | number token _ _ => [token]
  | parenthesized opening closing _ _ inner => opening :: (inner.tokens ++ [closing])
  | unsigned operand => operand.tokens
  | plus sign _ operand => sign :: operand.tokens
  | minus sign _ operand => sign :: operand.tokens
  | single _ operand => operand.tokens
  | joined _ operand _ _ symbol _ rest => operand.tokens ++ symbol :: rest.tokens

/-- The tree of a phrase behind some operands of the same chain: `join` is what they make of the
next operand. -/
def treeBehind {level : Level} (join : Tree → Tree) : Phrase level → Tree
  | number token value _ => join (.number value token.position)
  | parenthesized _ _ _ _ inner => join (inner.treeBehind id)
  | unsigned operand => join (operand.treeBehind id)
  | plus _ _ operand => join (operand.treeBehind id)
  | minus sign _ operand =>
    join (.node .sub (.number 0 sign.position) (operand.treeBehind id) sign.position)
  | single _ operand => join (operand.treeBehind id)
  | joined _ operand op _ symbol _ rest =>
    rest.treeBehind fun t => .node op (join (operand.treeBehind id)) t symbol.position

/-- **The tree of a phrase.** -/
def tree (p : Phrase level) : Tree :=
  p.treeBehind id

/-! ### Phrases and derivations -/

theorem derives_behind (p : Phrase level) : Derives level p.tokens p.tree ∧
    ∀ {part ops op symbol ls l}, level.Chains ops part → op ∈ ops →
      symbol.isReserved (String.singleton op.symbol) = true → Derives level ls l →
      Derives level (ls ++ symbol :: p.tokens)
        (p.treeBehind fun t => .node op l t symbol.position) := by
  -- the second half is what carries the operands in front through the rest of a chain
  induction p with
  | number token value h => exact ⟨.number h, fun hc => nomatch hc⟩
  | parenthesized opening closing ho hc inner ih =>
    exact ⟨.parenthesized ho hc ih.1, fun hc => nomatch hc⟩
  | unsigned operand ih => exact ⟨.unsigned ih.1, fun hc => nomatch hc⟩
  | plus sign hs operand ih => exact ⟨.plus hs ih.1, fun hc => nomatch hc⟩
  | minus sign hs operand ih => exact ⟨.minus hs ih.1, fun hc => nomatch hc⟩
  | single hc operand ih =>
    refine ⟨hc.derives_one ih.1, fun hc' hop hs hl => ?_⟩
    obtain ⟨rfl, rfl⟩ := hc.unique hc'
    exact hc.derives_more hop hs hl ih.1
  | joined hc operand op hop symbol hs rest ih ihrest =>
    refine ⟨ihrest.2 hc hop hs (hc.derives_one ih.1), fun hc' hop' hs' hl => ?_⟩
    obtain ⟨rfl, rfl⟩ := hc.unique hc'
    have hchain := ihrest.2 hc hop hs (hc.derives_more hop' hs' hl ih.1)
    rwa [List.append_assoc, List.cons_append] at hchain

theorem exists_more (hc : level.Chains ops part) {op : Operator} (hop : op ∈ ops) {symbol : Token}
    (hs : symbol.isReserved (String.singleton op.symbol) = true) (last : Phrase part)
    (p : Phrase level) : ∃ q : Phrase level, q.tokens = p.tokens ++ symbol :: last.tokens ∧
      ∀ join, q.treeBehind join = .node op (p.treeBehind join) last.tree symbol.position := by
  induction p with
  | single hc' operand =>
    obtain ⟨rfl, rfl⟩ := hc.unique hc'
    exact ⟨joined hc operand op hop symbol hs (single hc last), rfl, fun join => rfl⟩
  | joined hc' operand op' hop' symbol' hs' rest _ ih =>
    obtain ⟨rest', htokens, htree⟩ := ih hc
    refine ⟨joined hc' operand op' hop' symbol' hs' rest', ?_, fun join => htree _⟩
    rw [tokens, htokens, tokens, List.append_assoc, List.cons_append]
  | _ => cases hc

/-- **The grammar relates the tokens and the trees of its phrases.** -/
theorem derives_iff {ts : List Token} {t : Tree} :
    Derives level ts t ↔ ∃ p : Phrase level, p.tokens = ts ∧ p.tree = t := by
  constructor
  · intro h
    induction h with
    | @number token value h => exact ⟨number token value h, rfl, rfl⟩
    | @parenthesized opening closing _ _ ho hc _ ih =>
      obtain ⟨p, rfl, rfl⟩ := ih
      exact ⟨parenthesized opening closing ho hc p, rfl, rfl⟩
    | unsigned _ ih =>
      obtain ⟨p, rfl, rfl⟩ := ih
      exact ⟨unsigned p, rfl, rfl⟩
    | @plus sign _ _ hs _ ih =>
      obtain ⟨p, rfl, rfl⟩ := ih
      exact ⟨plus sign hs p, rfl, rfl⟩
    | @minus sign _ _ hs _ ih =>
      obtain ⟨p, rfl, rfl⟩ := ih
      exact ⟨minus sign hs p, rfl, rfl⟩
    | oneFactor _ ih =>
      obtain ⟨p, rfl, rfl⟩ := ih
      exact ⟨single .product p, rfl, rfl⟩
    | factors hop hs _ _ ihl ihr =>
      obtain ⟨p, rfl, rfl⟩ := ihl
      obtain ⟨last, rfl, rfl⟩ := ihr
      obtain ⟨q, hq, htree⟩ := exists_more .product (by simpa using hop) hs last p
      exact ⟨q, hq, htree id⟩
    | oneTerm _ ih =>
      obtain ⟨p, rfl, rfl⟩ := ih
      exact ⟨single .sum p, rfl, rfl⟩
    | terms hop hs _ _ ihl ihr =>
      obtain ⟨p, rfl, rfl⟩ := ihl
      obtain ⟨last, rfl, rfl⟩ := ihr
      obtain ⟨q, hq, htree⟩ := exists_more .sum (by simpa using hop) hs last p
      exact ⟨q, hq, htree id⟩
  · rintro ⟨p, rfl, rfl⟩
    exact p.derives_behind.1

theorem token_cases {token : Token} (p : Phrase level) (ht : token ∈ p.tokens) :
    (∃ v, token.kind = .number v) ∨ token.isReserved "(" = true ∨ token.isReserved ")" = true ∨
      ∃ op : Operator, token.isReserved (String.singleton op.symbol) = true := by
  induction p with
  | number _ value h =>
    obtain rfl := List.mem_singleton.mp ht
    exact Or.inl ⟨value, h⟩
  | parenthesized opening closing ho hc inner ih =>
    rw [tokens, List.mem_cons, List.mem_append, List.mem_singleton] at ht
    rcases ht with rfl | ht | rfl
    · exact Or.inr (Or.inl ho)
    · exact ih ht
    · exact Or.inr (Or.inr (Or.inl hc))
  | unsigned operand ih => exact ih ht
  | plus sign hs operand ih =>
    rcases List.mem_cons.mp ht with rfl | ht
    · exact Or.inr (Or.inr (Or.inr ⟨.add, hs⟩))
    · exact ih ht
  | minus sign hs operand ih =>
    rcases List.mem_cons.mp ht with rfl | ht
    · exact Or.inr (Or.inr (Or.inr ⟨.sub, hs⟩))
    · exact ih ht
  | single hc operand ih => exact ih ht
  | joined hc operand op hop symbol hs rest ih ihrest =>
    rw [tokens, List.mem_append, List.mem_cons] at ht
    rcases ht with ht | rfl | ht
    · exact ih ht
    · exact Or.inr (Or.inr (Or.inr ⟨op, hs⟩))
    · exact ihrest ht

/-! ### Unique derivations -/

theorem isReserved_ahead (p : Phrase .primary) (us : List Token) (op : Operator) :
    (Token.ahead (p.tokens ++ us)).isReserved (String.singleton op.symbol) = false := by
  cases p with
  | number token value h => simp [tokens, Token.ahead, Token.isReserved, h]
  | parenthesized opening closing ho hc inner =>
    exact Token.isReserved_eq_false ho (by cases op <;> decide)
  | single hc operand => cases hc
  | joined hc operand op' hop symbol hs rest => cases hc

theorem tokens_append_ne (p : Phrase .primary) (us : List Token) (op : Operator) {sign : Token}
    {ts : List Token} (hs : sign.isReserved (String.singleton op.symbol) = true) :
    p.tokens ++ us ≠ sign :: ts := by
  intro h
  have hahead := p.isReserved_ahead us op
  rw [h] at hahead
  exact Bool.false_ne_true (hahead.symm.trans hs)

/-- **The grammar is unambiguous:** tokens that begin with a phrase, and do not continue it,
determine the phrase and the tokens behind it. -/
theorem eq_of_tokens_append (p q : Phrase level) {us vs : List Token}
    (hu : NoneAhead level.operators us) (hv : NoneAhead level.operators vs)
    (h : p.tokens ++ us = q.tokens ++ vs) : p = q ∧ us = vs := by
  induction p generalizing us vs with
  | number token value hk =>
    cases q with
    | number token' value' hk' =>
      obtain ⟨rfl, rfl⟩ := List.cons.inj h
      obtain rfl : value = value' := TokenKind.number.inj (hk.symm.trans hk')
      exact ⟨rfl, rfl⟩
    | parenthesized opening closing ho hc inner =>
      obtain ⟨rfl, -⟩ := List.cons.inj h
      simp [Token.isReserved, hk] at ho
    | single hc => cases hc
    | joined hc => cases hc
  | parenthesized opening closing ho hc inner ih =>
    cases q with
    | number token value hk =>
      obtain ⟨rfl, -⟩ := List.cons.inj h
      simp [Token.isReserved, hk] at ho
    | parenthesized opening' closing' ho' hc' inner' =>
      simp only [tokens, List.cons_append, List.append_assoc, List.nil_append,
        List.cons.injEq] at h
      obtain ⟨rfl, hinner⟩ := h
      obtain ⟨rfl, hclosing⟩ := ih inner' (noneAhead_of_isReserved hc (by decide))
        (noneAhead_of_isReserved hc' (by decide)) hinner
      obtain ⟨rfl, rfl⟩ := List.cons.inj hclosing
      exact ⟨rfl, rfl⟩
    | single hc => cases hc
    | joined hc => cases hc
  | unsigned operand ih =>
    cases q with
    | unsigned operand' =>
      obtain ⟨rfl, rfl⟩ := ih operand' hu hv h
      exact ⟨rfl, rfl⟩
    | plus sign hs operand' => exact absurd h (operand.tokens_append_ne us .add hs)
    | minus sign hs operand' => exact absurd h (operand.tokens_append_ne us .sub hs)
    | single hc => cases hc
    | joined hc => cases hc
  | plus sign hs operand ih =>
    cases q with
    | unsigned operand' => exact absurd h.symm (operand'.tokens_append_ne vs .add hs)
    | plus sign' hs' operand' =>
      obtain ⟨rfl, hoperand⟩ := List.cons.inj h
      obtain ⟨rfl, rfl⟩ := ih operand' hu hv hoperand
      exact ⟨rfl, rfl⟩
    | minus sign' hs' operand' =>
      obtain ⟨rfl, -⟩ := List.cons.inj h
      exact absurd (Token.isReserved_inj hs hs') (by decide)
    | single hc => cases hc
    | joined hc => cases hc
  | minus sign hs operand ih =>
    cases q with
    | unsigned operand' => exact absurd h.symm (operand'.tokens_append_ne vs .sub hs)
    | plus sign' hs' operand' =>
      obtain ⟨rfl, -⟩ := List.cons.inj h
      exact absurd (Token.isReserved_inj hs hs') (by decide)
    | minus sign' hs' operand' =>
      obtain ⟨rfl, hoperand⟩ := List.cons.inj h
      obtain ⟨rfl, rfl⟩ := ih operand' hu hv hoperand
      exact ⟨rfl, rfl⟩
    | single hc => cases hc
    | joined hc => cases hc
  | single hc operand ih =>
    cases q with
    | single hc' operand' =>
      obtain ⟨rfl, rfl⟩ := hc.unique hc'
      obtain ⟨rfl, rfl⟩ := ih operand' (hc.noneAhead_part hu) (hc.noneAhead_part hv) h
      exact ⟨rfl, rfl⟩
    | joined hc' operand' op hop symbol hs rest =>
      obtain ⟨rfl, rfl⟩ := hc.unique hc'
      rw [tokens, tokens, List.append_assoc, List.cons_append] at h
      -- `us` would go on with the symbol of the longer chain
      obtain ⟨-, rfl⟩ := ih operand' (hc.noneAhead_part hu) (hc.noneAhead_symbol hop hs _) h
      exact absurd hs (Bool.eq_false_iff.mp (hu op (hc.mem_operators hop)))
    | _ => cases hc
  | joined hc operand op hop symbol hs rest ih ihrest =>
    rw [tokens, List.append_assoc, List.cons_append] at h
    cases q with
    | single hc' operand' =>
      obtain ⟨rfl, rfl⟩ := hc.unique hc'
      obtain ⟨-, rfl⟩ := ih operand' (hc.noneAhead_symbol hop hs _) (hc.noneAhead_part hv) h
      exact absurd hs (Bool.eq_false_iff.mp (hv op (hc.mem_operators hop)))
    | joined hc' operand' op' hop' symbol' hs' rest' =>
      obtain ⟨rfl, rfl⟩ := hc.unique hc'
      rw [tokens, List.append_assoc, List.cons_append] at h
      obtain ⟨rfl, hrest⟩ := ih operand' (hc.noneAhead_symbol hop hs _)
        (hc.noneAhead_symbol hop' hs' _) h
      obtain ⟨rfl, htail⟩ := List.cons.inj hrest
      obtain rfl := Operator.eq_of_isReserved hs hs'
      obtain ⟨rfl, rfl⟩ := ihrest rest' hu hv htail
      exact ⟨rfl, rfl⟩
    | _ => cases hc

/-- **Derivations are unique.** -/
theorem eq_of_tokens {p q : Phrase level} (h : p.tokens = q.tokens) : p = q := by
  have hnil : NoneAhead level.operators [] := fun op _ => by
    simp [Token.ahead, Token.stop, Token.isReserved]
  exact (eq_of_tokens_append p q hnil hnil (by rw [h])).1

end Phrase

end ArithAsm
