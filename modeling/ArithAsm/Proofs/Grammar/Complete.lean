import ArithAsm.Proofs.Grammar.Phrase

/-!
# The rules find the phrases

In front of tokens that cannot continue it, a phrase is read to its end and gives its tree, unless
the parentheses in it are too deep (`Derives.reads_whole` for a whole expression).  A phrase of a
chain may stand in front of more of the chain: reading it leads to the place in the middle of the
chain where it has become the left operand.
-/

namespace ArithAsm

/-- The reading is the expected one, or it was given up because of the depth. -/
def Reading.Reaches (r expected : Reading Tree) : Prop :=
  r.result = .error .tooDeep ∨ r = expected

namespace Reading.Reaches

variable {r r' r'' : Reading Tree}

theorem of_eq (h : r = r') : r.Reaches r' :=
  Or.inr h

theorem trans (h : r.Reaches r') (h' : r'.Reaches r'') : r.Reaches r'' := by
  rcases h with h | rfl
  · exact Or.inl h
  · exact h'

theorem after (h : r.Reaches r') (taken : Nat) : (r.after taken).Reaches (r'.after taken) := by
  rcases h with h | rfl
  · exact Or.inl h
  · exact Or.inr rfl

theorem bind {rule : Rule Tree} {second : Tree → Rule Tree} {ts rest : List Token} {t : Tree}
    (h : (rule (ts ++ rest)).Reaches ⟨ts.length, .ok t⟩) :
    ((rule >>= second) (ts ++ rest)).Reaches ((second t rest).after ts.length) := by
  rcases h with h | h
  · exact Or.inl (by rw [Rule.bind_of_error (Rule.eq_of_result h)])
  · exact of_eq (by rw [Rule.bind_of_ok h, List.drop_left])

end Reading.Reaches

open Reading (Reaches)

namespace Rule

/-! ### Chains -/

section Chain

variable {ops : List Operator} {operand : Rule Tree} {ts ls rs rest : List Token} {t l r : Tree}

theorem reads_one (h : (operand (ts ++ rest)).Reaches ⟨ts.length, .ok t⟩) :
    ((operand >>= chainOf ops operand) (ts ++ rest)).Reaches
      ((chainOf ops operand t rest).after ts.length) :=
  h.bind

theorem reads_more {op : Operator} {symbol : Token} (hop : op ∈ ops)
    (hs : symbol.isReserved (String.singleton op.symbol) = true)
    (hl : ((operand >>= chainOf ops operand) (ls ++ symbol :: (rs ++ rest))).Reaches
      ((chainOf ops operand l (symbol :: (rs ++ rest))).after ls.length))
    (hr : (operand (rs ++ rest)).Reaches ⟨rs.length, .ok r⟩) :
    ((operand >>= chainOf ops operand) ((ls ++ symbol :: rs) ++ rest)).Reaches
      ((chainOf ops operand (.node op l r symbol.position) rest).after
        (ls ++ symbol :: rs).length) := by
  rw [List.append_assoc, List.cons_append]
  refine hl.trans ?_
  rw [chainOf_of_mem hop hs]
  refine (((hr.bind).after 1).after ls.length).trans (Reaches.of_eq ?_)
  simp only [Reading.after, List.length_append, List.length_cons, Reading.mk.injEq, and_true]
  omega

end Chain

/-! ### The levels -/

/-- What reading a phrase of a level comes to, in front of other tokens. -/
def Reads (inner : Rule Tree) (ts : List Token) (t : Tree) : Level → Prop
  | .sum => ∀ rest, NoneAhead [.mul, .div] rest →
    (sum inner (ts ++ rest)).Reaches ((chainOf [.add, .sub] (product inner) t rest).after ts.length)
  | .product => ∀ rest,
    (product inner (ts ++ rest)).Reaches
      ((chainOf [.mul, .div] (signed inner) t rest).after ts.length)
  | .signed => ∀ rest, (signed inner (ts ++ rest)).Reaches ⟨ts.length, .ok t⟩
  | .primary => ∀ rest, (primary inner (ts ++ rest)).Reaches ⟨ts.length, .ok t⟩

variable {inner : Rule Tree} {ts rest : List Token} {t : Tree}

theorem Reads.of_product (h : Reads inner ts t .product) (hrest : NoneAhead [.mul, .div] rest) :
    (product inner (ts ++ rest)).Reaches ⟨ts.length, .ok t⟩ := by
  have hreads := h rest
  rwa [chainOf_of_noneAhead hrest] at hreads

theorem Reads.of_sum (h : Reads inner ts t .sum) (hrest : NoneAhead [.mul, .div] rest)
    (hrest' : NoneAhead [.add, .sub] rest) :
    (sum inner (ts ++ rest)).Reaches ⟨ts.length, .ok t⟩ := by
  have hreads := h rest hrest
  rwa [chainOf_of_noneAhead hrest'] at hreads

theorem Reads.nested {closing : Token} (hc : closing.isReserved ")" = true)
    (h : ∀ limit, Reads (Rule.nested limit) ts t .sum) (limit : Nat) :
    (Rule.nested limit (ts ++ closing :: rest)).Reaches ⟨ts.length, .ok t⟩ := by
  cases limit with
  | zero => exact Or.inl rfl
  | succ limit =>
    refine (h limit).of_sum ?_ ?_ <;> exact noneAhead_of_isReserved hc (by decide)

end Rule

open Rule

/-- **The rules find the phrases of every level.** -/
theorem Derives.reads {level : Level} {ts : List Token} {t : Tree} (h : Derives level ts t)
    (limit : Nat) : Reads (Rule.nested limit) ts t level := by
  induction h generalizing limit with
  | number h => exact fun rest => Reaches.of_eq (primary_of_number h)
  | @parenthesized opening closing ts t ho hc _ ih =>
    intro rest
    rw [List.cons_append, List.append_assoc, List.singleton_append, primary_of_opening ho]
    refine ((Reads.nested hc ih limit).bind.after 1).trans (Reaches.of_eq ?_)
    rw [bind_of_ok (expect_of_isReserved hc)]
    simp [Reading.after]
    omega
  | unsigned h ih =>
    intro rest
    obtain ⟨p, rfl, -⟩ := Phrase.derives_iff.mp h
    rw [signed_of_ahead (p.isReserved_ahead rest .add) (p.isReserved_ahead rest .sub)]
    exact ih limit rest
  | plus hs _ ih =>
    intro rest
    rw [List.cons_append, signed_of_plus hs]
    refine ((ih limit rest).after 1).trans (Reaches.of_eq ?_)
    simp [Reading.after, Nat.add_comm]
  | minus hs _ ih =>
    intro rest
    rw [List.cons_append, signed_of_minus hs]
    refine ((ih limit rest).bind.after 1).trans (Reaches.of_eq ?_)
    simp [Reading.after, Nat.add_comm]
  | oneFactor _ ih =>
    intro rest
    rw [product_eq]
    exact reads_one (ih limit rest)
  | factors hop hs _ _ ihl ihr =>
    intro rest
    rw [product_eq]
    exact reads_more (by simpa using hop) hs (ihl limit _) (ihr limit rest)
  | oneTerm _ ih =>
    intro rest hrest
    rw [sum_eq]
    exact reads_one ((ih limit).of_product hrest)
  | @terms op symbol ls rs _ _ hop hs _ _ ihl ihr =>
    intro rest hrest
    -- the sum goes on behind its last product, so the product has to end there
    have hsymbol : NoneAhead [.mul, .div] (symbol :: (rs ++ rest)) :=
      noneAhead_of_isReserved hs (by rcases hop with rfl | rfl <;> decide)
    rw [sum_eq]
    exact reads_more (by simpa using hop) hs (ihl limit _ hsymbol) ((ihr limit).of_product hrest)

/-- **A whole expression is read to its end.** -/
theorem Derives.reads_whole {ts : List Token} {t : Tree} {stop : Token} (h : Derives .sum ts t)
    (hstop : stop.isStop = true) (rest : List Token) (limit : Nat) :
    (whole limit (ts ++ stop :: rest)).Reaches ⟨ts.length, .ok t⟩ := by
  have hsum : (Level.sum.rule limit (ts ++ stop :: rest)).Reaches ⟨ts.length, .ok t⟩ :=
    (h.reads limit).of_sum (noneAhead_of_isStop hstop _) (noneAhead_of_isStop hstop _)
  have hahead : (Token.ahead (stop :: rest)).isStop = true := hstop
  refine hsum.bind.trans (Reaches.of_eq ?_)
  rw [bind_of_ok (atStop_apply _), hahead]
  rfl

end ArithAsm
