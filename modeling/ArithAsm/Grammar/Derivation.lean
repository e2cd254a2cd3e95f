import ArithAsm.Grammar.Expression

/-!
# Derivations

The grammar of expressions as a relation, said without the rules that read it: `Derives level ts t`
means that the tokens `ts` form a phrase of the level, which stands for the tree `t`.  A chain is
derived from its front, so that it groups to the left.

`deepest` is the number of parentheses that are open at a time, at most, in a list of tokens.
-/

namespace ArithAsm

/-- **The phrases of a level** and the trees they stand for. -/
inductive Derives : Level → List Token → Tree → Prop
  | number {token : Token} {value : Int} (h : token.kind = .number value) :
      Derives .primary [token] (.number value token.position)
  | parenthesized {opening closing : Token} {ts : List Token} {t : Tree}
      (ho : opening.isReserved "(" = true) (hc : closing.isReserved ")" = true)
      (h : Derives .sum ts t) : Derives .primary (opening :: (ts ++ [closing])) t
  | unsigned {ts : List Token} {t : Tree} (h : Derives .primary ts t) : Derives .signed ts t
  | plus {sign : Token} {ts : List Token} {t : Tree} (hs : sign.isReserved "+" = true)
      (h : Derives .primary ts t) : Derives .signed (sign :: ts) t
  | minus {sign : Token} {ts : List Token} {t : Tree} (hs : sign.isReserved "-" = true)
      (h : Derives .primary ts t) :
      Derives .signed (sign :: ts) (.node .sub (.number 0 sign.position) t sign.position)
  | oneFactor {ts : List Token} {t : Tree} (h : Derives .signed ts t) : Derives .product ts t
  | factors {op : Operator} {symbol : Token} {ls rs : List Token} {l r : Tree}
      (hop : op = .mul ∨ op = .div) (hs : symbol.isReserved (String.singleton op.symbol) = true)
      (hl : Derives .product ls l) (hr : Derives .signed rs r) :
      Derives .product (ls ++ symbol :: rs) (.node op l r symbol.position)
  | oneTerm {ts : List Token} {t : Tree} (h : Derives .product ts t) : Derives .sum ts t
  | terms {op : Operator} {symbol : Token} {ls rs : List Token} {l r : Tree}
      (hop : op = .add ∨ op = .sub) (hs : symbol.isReserved (String.singleton op.symbol) = true)
      (hl : Derives .sum ls l) (hr : Derives .product rs r) :
      Derives .sum (ls ++ symbol :: rs) (.node op l r symbol.position)

/-- The tokens form an expression. -/
def IsSentence (ts : List Token) : Prop :=
  ∃ t, Derives .sum ts t

/-- The tokens in front of the end of the input. -/
def Token.beforeStop (ts : List Token) : List Token :=
  ts.takeWhile fun t => !t.isStop

/-- The greatest number of parentheses that are open at a time, after `opened` of them. -/
def Token.deepest (opened : Nat) : List Token → Nat
  | [] => opened
  | t :: ts =>
    max opened (deepest
      (if t.isReserved "(" then opened + 1 else if t.isReserved ")" then opened - 1 else opened) ts)

theorem Derives.ne_nil {level : Level} {ts : List Token} {t : Tree} (h : Derives level ts t) :
    ts ≠ [] := by
  induction h <;> simp_all

theorem Derives.isStop_eq_false {level : Level} {ts : List Token} {t : Tree}
    (h : Derives level ts t) {token : Token} (ht : token ∈ ts) : token.isStop = false := by
  have around {symbol : Token} {text : String} {l r : List Token}
      (hs : symbol.isReserved text = true) (hl : token ∈ l → token.isStop = false)
      (hr : token ∈ r → token.isStop = false) (ht : token ∈ l ++ symbol :: r) :
      token.isStop = false := by
    rcases List.mem_append.mp ht with ht | ht
    · exact hl ht
    · rcases List.mem_cons.mp ht with rfl | ht
      · exact Token.isStop_of_isReserved hs
      · exact hr ht
  induction h with
  | number h =>
    rw [List.mem_singleton.mp ht]
    simp [Token.isStop, h]
  | parenthesized ho hc _ ih =>
    refine around (l := []) ho (fun h => absurd h List.not_mem_nil) (fun ht => ?_) ht
    exact around (r := []) hc ih (fun h => absurd h List.not_mem_nil) ht
  | unsigned _ ih => exact ih ht
  | plus hs _ ih => exact around (l := []) hs (fun h => absurd h List.not_mem_nil) ih ht
  | minus hs _ ih => exact around (l := []) hs (fun h => absurd h List.not_mem_nil) ih ht
  | oneFactor _ ih => exact ih ht
  | factors _ hs _ _ ihl ihr => exact around hs ihl ihr ht
  | oneTerm _ ih => exact ih ht
  | terms _ hs _ _ ihl ihr => exact around hs ihl ihr ht

end ArithAsm
