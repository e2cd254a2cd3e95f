import ArithAsm.Grammar.Derivation

/-!
# Open parentheses

`Token.deepest` grows with the tokens.  Tokens that close the parentheses they open
(`Token.Balanced`) do not change how many are open behind them, and the phrases are such tokens
(`Derives.balanced`).
-/

namespace ArithAsm

namespace Token

variable {t : Token} {ts us : List Token} {opened : Nat}

theorem deepest_opening (h : t.isReserved "(" = true) :
    deepest opened (t :: ts) = max opened (deepest (opened + 1) ts) := by
  rw [deepest, if_pos h]

theorem deepest_closing (h : t.isReserved ")" = true) :
    deepest opened (t :: ts) = max opened (deepest (opened - 1) ts) := by
  have hopening : ¬ t.isReserved "(" = true := by
    simp [isReserved, (isReserved_iff.mp h).2]
  rw [deepest, if_neg hopening, if_pos h]

theorem le_deepest (opened : Nat) (ts : List Token) : opened ≤ deepest opened ts := by
  cases ts with
  | nil => exact Nat.le_refl _
  | cons t ts => exact Nat.le_max_left _ _

theorem deepest_other (ho : t.isReserved "(" = false) (hc : t.isReserved ")" = false) :
    deepest opened (t :: ts) = deepest opened ts := by
  rw [deepest, if_neg (Bool.eq_false_iff.mp ho), if_neg (Bool.eq_false_iff.mp hc)]
  exact Nat.max_eq_right (le_deepest opened ts)

theorem not_parenthesis_of_operator (op : Operator)
    (h : t.isReserved (String.singleton op.symbol) = true) :
    t.isReserved "(" = false ∧ t.isReserved ")" = false := by
  have htext := (isReserved_iff.mp h).2
  constructor <;> cases op <;> simp [isReserved, htext, Operator.symbol]

theorem deepest_operator (op : Operator)
    (h : t.isReserved (String.singleton op.symbol) = true) :
    deepest opened (t :: ts) = deepest opened ts :=
  deepest_other (not_parenthesis_of_operator op h).1 (not_parenthesis_of_operator op h).2

/-! ### How the depth grows -/

theorem deepest_le_append (opened : Nat) (ts us : List Token) :
    deepest opened ts ≤ deepest opened (ts ++ us) := by
  induction ts generalizing opened with
  | nil => exact le_deepest opened us
  | cons t ts ih =>
    rw [List.cons_append, deepest, deepest]
    have := ih (if t.isReserved "(" then opened + 1 else if t.isReserved ")" then opened - 1
      else opened)
    omega

theorem deepest_concat_stop {stop : Token} (hstop : stop.isStop = true) (opened : Nat)
    (ts : List Token) : deepest opened (ts ++ [stop]) = deepest opened ts := by
  have hother (text : String) : stop.isReserved text = false := by
    refine Bool.eq_false_iff.mpr fun h => ?_
    exact Bool.false_ne_true ((isStop_of_isReserved h).symm.trans hstop)
  induction ts generalizing opened with
  | nil => exact deepest_other (hother "(") (hother ")")
  | cons t ts ih => rw [List.cons_append, deepest, deepest, ih]

theorem deepest_take_le (opened : Nat) (ts : List Token) {n m : Nat} (h : n ≤ m) :
    deepest opened (ts.take n) ≤ deepest opened (ts.take m) := by
  obtain ⟨k, rfl⟩ := Nat.exists_eq_add_of_le h
  rw [List.take_add]
  exact deepest_le_append opened _ _

theorem deepest_mono {opened' : Nat} (h : opened ≤ opened') (ts : List Token) :
    deepest opened ts ≤ deepest opened' ts := by
  induction ts generalizing opened opened' with
  | nil => exact h
  | cons t ts ih =>
    have hbehind : deepest (if t.isReserved "(" then opened + 1 else if t.isReserved ")" then
          opened - 1 else opened) ts ≤
        deepest (if t.isReserved "(" then opened' + 1 else if t.isReserved ")" then
          opened' - 1 else opened') ts := by
      refine ih ?_
      split
      · omega
      · split <;> omega
    rw [deepest, deepest]
    omega

theorem deepest_drop_le (ts : List Token) (n : Nat) : deepest 0 (ts.drop n) ≤ deepest 0 ts := by
  induction ts generalizing n with
  | nil => exact Nat.le_of_eq (by rw [List.drop_nil])
  | cons t ts ih =>
    have htail : deepest 0 ts ≤ deepest 0 (t :: ts) := by
      rw [deepest]
      exact Nat.le_trans (deepest_mono (Nat.zero_le _) ts) (Nat.le_max_right _ _)
    cases n with
    | zero => exact Nat.le_refl _
    | succ n => exact Nat.le_trans (ih n) htail

theorem deepest_le_add_length (opened : Nat) (ts : List Token) :
    deepest opened ts ≤ opened + ts.length := by
  induction ts generalizing opened with
  | nil => exact Nat.le_refl opened
  | cons t ts ih =>
    rw [deepest, List.length_cons]
    have hopening := ih (opened + 1)
    have hclosing := ih (opened - 1)
    have hother := ih opened
    split
    · omega
    · split <;> omega

/-! ### Tokens that close what they open -/

/-- **The tokens close the parentheses they open,** and no others. -/
def Balanced (ts : List Token) : Prop :=
  ∀ opened us, deepest opened (ts ++ us) = max (deepest opened ts) (deepest opened us)

theorem balanced_nil : Balanced [] :=
  fun opened us => (Nat.max_eq_right (le_deepest opened us)).symm

theorem Balanced.append (h : Balanced ts) (h' : Balanced us) : Balanced (ts ++ us) := by
  intro opened vs
  rw [List.append_assoc, h, h', h, Nat.max_assoc]

theorem Balanced.cons (ho : t.isReserved "(" = false) (hc : t.isReserved ")" = false)
    (h : Balanced ts) : Balanced (t :: ts) := by
  intro opened us
  rw [List.cons_append, deepest_other ho hc, deepest_other ho hc, h]

theorem Balanced.operator (op : Operator) (hs : t.isReserved (String.singleton op.symbol) = true)
    (h : Balanced ts) : Balanced (t :: ts) :=
  h.cons (not_parenthesis_of_operator op hs).1 (not_parenthesis_of_operator op hs).2

theorem deepest_enclosed {opening closing : Token} (ho : opening.isReserved "(" = true)
    (hc : closing.isReserved ")" = true) (h : Balanced ts) (opened : Nat) (us : List Token) :
    deepest opened (opening :: (ts ++ closing :: us))
      = max (deepest (opened + 1) ts) (deepest opened us) := by
  have hts := le_deepest (opened + 1) ts
  rw [deepest_opening ho, h, deepest_closing hc, Nat.add_sub_cancel]
  omega

theorem Balanced.enclose {opening closing : Token} (ho : opening.isReserved "(" = true)
    (hc : closing.isReserved ")" = true) (h : Balanced ts) :
    Balanced (opening :: (ts ++ [closing])) := by
  intro opened us
  have hts := le_deepest (opened + 1) ts
  have hself : deepest opened [] = opened := rfl
  rw [List.cons_append, List.append_assoc, List.singleton_append, deepest_enclosed ho hc h,
    deepest_enclosed ho hc h, hself]
  have hus := le_deepest opened us
  omega

end Token

/-- **A phrase closes the parentheses it opens.** -/
theorem Derives.balanced {level : Level} {ts : List Token} {t : Tree} (h : Derives level ts t) :
    Token.Balanced ts := by
  induction h with
  | number h =>
    refine Token.balanced_nil.cons ?_ ?_ <;> simp [Token.isReserved, h]
  | parenthesized ho hc _ ih => exact ih.enclose ho hc
  | unsigned _ ih => exact ih
  | plus hs _ ih => exact ih.operator .add hs
  | minus hs _ ih => exact ih.operator .sub hs
  | oneFactor _ ih => exact ih
  | factors _ hs _ _ ihl ihr => exact ihl.append (ihr.operator _ hs)
  | oneTerm _ ih => exact ih
  | terms _ hs _ _ ihl ihr => exact ihl.append (ihr.operator _ hs)

theorem Derives.deepest_le {level : Level} {ts : List Token} {t : Tree} (h : Derives level ts t)
    (opened : Nat) (us : List Token) :
    Token.deepest opened us ≤ Token.deepest opened (ts ++ us) := by
  rw [h.balanced]
  exact Nat.le_max_right _ _

end ArithAsm
