import ArithAsm.Proofs.Grammar.Parse
import ArithAsm.Proofs.Result
import ArithAsm.Proofs.Tree.Stack
import ArithAsm.Assembly.Backend
import ArithAsm.Tree.Print
import ArithAsm.Tree.Value

/-!
# How deep the trees of the parser are

Only parentheses make a tree deep.  A chain of either kind grows at its left end, where it costs no
depth, so a phrase adds one right operand for each of the three levels above its operands
(`Level.height`), and three for each pair of parentheses around them (`Derives.rightDepth_le`).  For
every number of parentheses there is an expression that is as deep as this allows
(`exists_deepest_phrase`).  The main statement is `rightDepth_of_parse`.
-/

namespace ArithAsm

/-- How many right operands the phrases of a level can add to those of their operands. -/
def Level.height : Level → Nat
  | .sum => 3
  | .product => 2
  | .signed => 1
  | .primary => 0

/-! ### The bound -/

/-- **A phrase is as deep as its parentheses make it,** and the levels above its operands. -/
theorem Derives.rightDepth_le {level : Level} {ts : List Token} {t : Tree}
    (h : Derives level ts t) {opened depth : Nat}
    (hdepth : Token.deepest opened ts ≤ opened + depth) :
    t.rightDepth ≤ 3 * depth + level.height := by
  induction h generalizing opened depth with
  | number h => exact Nat.zero_le _
  | @parenthesized _ _ ts _ ho hc h ih =>
    rw [Token.deepest_enclosed ho hc h.balanced] at hdepth
    -- the parentheses are open once more inside, so one of the depth is used up there
    have hmore := Token.le_deepest (opened + 1) ts
    have hinner := Nat.le_trans hmore (Nat.le_trans (Nat.le_max_left _ _) hdepth)
    obtain ⟨rest, rfl⟩ : ∃ rest, depth = rest + 1 := Nat.exists_eq_add_of_le' (by omega)
    have hrest := ih (show Token.deepest (opened + 1) ts ≤ opened + 1 + rest by omega)
    simp only [Level.height] at hrest ⊢
    omega
  | unsigned _ ih => exact Nat.le_succ_of_le (ih hdepth)
  | plus hs _ ih =>
    rw [Token.deepest_operator .add hs] at hdepth
    exact Nat.le_succ_of_le (ih hdepth)
  | minus hs _ ih =>
    rw [Token.deepest_operator .sub hs] at hdepth
    have hoperand := ih hdepth
    simp only [Level.height, Tree.rightDepth, Tree.number] at hoperand ⊢
    omega
  | oneFactor _ ih => exact Nat.le_succ_of_le (ih hdepth)
  | @factors op _ _ _ _ _ _ hs hl _ ihl ihr =>
    rw [hl.balanced, Token.deepest_operator op hs] at hdepth
    have hleft := ihl (show _ ≤ opened + depth by omega)
    have hright := ihr (show _ ≤ opened + depth by omega)
    simp only [Level.height, Tree.rightDepth] at hleft hright ⊢
    omega
  | oneTerm _ ih => exact Nat.le_succ_of_le (ih hdepth)
  | @terms op _ _ _ _ _ _ hs hl _ ihl ihr =>
    rw [hl.balanced, Token.deepest_operator op hs] at hdepth
    have hleft := ihl (show _ ≤ opened + depth by omega)
    have hright := ihr (show _ ≤ opened + depth by omega)
    simp only [Level.height, Tree.rightDepth] at hleft hright ⊢
    omega

/-! ### Expressions that attain it -/

/-- The token of the number one. -/
def Token.one : Token :=
  ⟨.number 1, "1", 0⟩

/-- One plus one times the negative of an operand. -/
def Token.steepened (operand : List Token) : List Token :=
  one :: ofSymbol Operator.add.symbol 0 :: one :: ofSymbol Operator.mul.symbol 0
    :: ofSymbol Operator.sub.symbol 0 :: operand

theorem Token.isReserved_symbol (op : Operator) (position : Nat) :
    (ofSymbol op.symbol position).isReserved (String.singleton op.symbol) = true := by
  simp [isReserved, ofSymbol]

theorem Token.deepest_steepened (opened : Nat) (operand : List Token) :
    deepest opened (steepened operand) = deepest opened operand := by
  have hone (ts : List Token) : deepest opened (one :: ts) = deepest opened ts :=
    deepest_other (by decide) (by decide)
  have hsymbol (op : Operator) (ts : List Token) :
      deepest opened (ofSymbol op.symbol 0 :: ts) = deepest opened ts :=
    deepest_operator op (isReserved_symbol op 0)
  rw [steepened, hone, hsymbol, hone, hsymbol, hsymbol]

/-- Each level adds a right operand: the sum, the product and the sign. -/
theorem Derives.exists_steepened {ts : List Token} {t : Tree} (h : Derives .primary ts t) :
    ∃ u, Derives .sum (Token.steepened ts) u ∧ u.rightDepth = t.rightDepth + 3 := by
  have hone : Derives .signed [Token.one] (.number 1 (some 0)) := .unsigned (.number rfl)
  have hsigned := Derives.minus (Token.isReserved_symbol .sub 0) h
  have hproduct := Derives.factors (Or.inl rfl) (Token.isReserved_symbol .mul 0)
    (.oneFactor hone) hsigned
  have hsum := Derives.terms (Or.inl rfl) (Token.isReserved_symbol .add 0)
    (.oneTerm (.oneFactor hone)) hproduct
  refine ⟨_, hsum, ?_⟩
  simp only [Tree.rightDepth, Tree.number]
  omega

/-- **For every number of parentheses there is an expression as deep as they allow.** -/
theorem exists_deepest_phrase (depth : Nat) : ∃ ts t, Derives .sum ts t ∧
    (∀ opened, Token.deepest opened ts = opened + depth) ∧ t.rightDepth = 3 * (depth + 1) := by
  induction depth with
  | zero =>
    have hone : Derives .primary [Token.one] (.number 1 (some 0)) := .number rfl
    obtain ⟨u, hu, hdepth⟩ := hone.exists_steepened
    refine ⟨_, u, hu, fun opened => ?_, hdepth⟩
    rw [Token.deepest_steepened, Token.deepest_other (by decide) (by decide)]
    rfl
  | succ depth ih =>
    obtain ⟨ts, t, h, hdeepest, hdepth⟩ := ih
    have ho : (Token.ofSymbol '(' 0).isReserved "(" = true := by decide
    have hc : (Token.ofSymbol ')' 0).isReserved ")" = true := by decide
    obtain ⟨u, hu, hudepth⟩ := (Derives.parenthesized ho hc h).exists_steepened
    refine ⟨_, u, hu, fun opened => ?_, by omega⟩
    have hself : Token.deepest opened [] = opened := rfl
    rw [Token.deepest_steepened, Token.deepest_enclosed ho hc h.balanced, hdeepest, hself]
    omega

theorem exists_parse {limit depth : Nat} (h : depth ≤ limit) : ∃ ts t,
    parse limit ts = .ok t ∧ Token.deepest 0 ts = depth ∧ t.rightDepth = 3 * (depth + 1) := by
  obtain ⟨ts, t, hphrase, hdeepest, hdepth⟩ := exists_deepest_phrase depth
  have hstop : (Token.stop 0).isStop = true := rfl
  have hbefore : Token.beforeStop (ts ++ [.stop 0]) = ts :=
    Token.beforeStop_append (fun _ => hphrase.isStop_eq_false) hstop
  have hwhole : Token.deepest 0 (ts ++ [.stop 0]) = depth := by
    have hnone : Token.deepest 0 [.stop 0] = 0 := by decide
    rw [hphrase.balanced, hdeepest, hnone]
    omega
  refine ⟨ts ++ [.stop 0], t, ?_, hwhole, hdepth⟩
  rw [parse_eq_ok_iff List.getLast?_concat hstop (by omega), hbefore]
  exact hphrase

/-! ### The trees of the parser -/

/-- **The trees of the parser do not exhaust the stack.**  The depth of a tree is the number of
frames that a visit of it needs.  If no more than `depth` parentheses are open at a time up to the
end of the input, a tree has at most the depth `3 * (depth + 1)`, however many tokens there are, and
its value, its text and its code can be computed on a stack of so many frames.  Every limit has
expressions with as many parentheses as it allows, or fewer, that are so deep. -/
theorem rightDepth_of_parse (limit depth : Nat) :
    (∀ ts t, parse limit ts = .ok t → Token.deepest 0 (Token.beforeStop ts) ≤ depth →
      t.rightDepth ≤ 3 * (depth + 1) ∧
      (∀ overflow, t.visit (Tree.valuer.onStack overflow) (3 * (depth + 1)) = t.value) ∧
      (∀ overflow, (t.visit (Tree.printer.onStack overflow) (3 * (depth + 1)) "").map (·.2)
        = t.print) ∧
      ∀ (b : Backend) overflow,
        t.visit (b.emitter.onStack overflow) (3 * (depth + 1)) = b.expression t) ∧
    (depth ≤ limit → ∃ ts t, parse limit ts = .ok t ∧ Token.deepest 0 ts = depth ∧
      t.rightDepth = 3 * (depth + 1)) ∧
    ∀ (t : Tree) (frames : Nat), t.RunsOn frames ↔ t.rightDepth ≤ frames := by
  refine ⟨fun ts t hparse hdeepest => ?_, exists_parse, fun t frames => Tree.runsOn_iff⟩
  have hphrase := derives_of_parse hparse
  have hdepth : t.rightDepth ≤ 3 * (depth + 1) :=
    hphrase.rightDepth_le (show Token.deepest 0 _ ≤ 0 + depth by omega)
  refine ⟨hdepth, fun overflow => ?_, fun overflow => ?_, fun b overflow => ?_⟩
  · exact t.visit_onStack Tree.valuer overflow hdepth
  · rw [t.visit_onStack Tree.printer overflow hdepth, Tree.print]
  · exact t.visit_onStack b.emitter overflow hdepth

/-- A signed operand in parentheses: the sum, the product and the sign lie within each other. -/
theorem rightDepth_of_parse_signed :
    let ts : List Token := [⟨.number 9, "9", 0⟩, .ofSymbol '+' 1, ⟨.number 2, "2", 2⟩,
      .ofSymbol '*' 3, .ofSymbol '-' 4, .ofSymbol '(' 5, ⟨.number 7, "7", 6⟩, .ofSymbol ')' 7,
      .stop 8]
    let t : Tree := .node .add (.number 9 (some 0)) (.node .mul (.number 2 (some 2))
      (.node .sub (.number 0 (some 4)) (.number 7 (some 6)) (some 4)) (some 3)) (some 1)
    parse 1 ts = .ok t ∧ Token.deepest 0 (Token.beforeStop ts) ≤ 1 ∧ t.rightDepth = 3 ∧
      t.rightDepth ≤ 6 ∧ t.visit (Tree.valuer.onStack (.error .noValue)) 6 = .ok (-5) ∧
      ¬ t.RunsOn 2 := by
  intro ts t
  have hparse : parse 1 ts = .ok t := eq_ok_of_toOption (by decide +kernel)
  have hdeepest : Token.deepest 0 (Token.beforeStop ts) ≤ 1 := by decide
  have hdepth : t.rightDepth = 3 := by decide
  obtain ⟨hbound, -, hneeds⟩ := rightDepth_of_parse 1 1
  obtain ⟨hle, hvalue, -⟩ := hbound ts t hparse hdeepest
  have hfew : ¬ t.RunsOn 2 := by
    rw [hneeds, hdepth]
    decide
  exact ⟨hparse, hdeepest, hdepth, hle, (hvalue _).trans (by cbv), hfew⟩

end ArithAsm
