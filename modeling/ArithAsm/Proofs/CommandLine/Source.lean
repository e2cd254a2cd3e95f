import ArithAsm.Proofs.CommandLine.Dash
import ArithAsm.Proofs.Grammar.Literals

/-!
# Sources that start with a dash

In a phrase of the grammar a sign stands in front of a number or a parenthesis
(`Derives.opens_cases`).  So a source that has a tree and starts with a dash goes on with layout, a
digit or a parenthesis, and is known as an expression on a command line
(`startsExpression_of_readTree`).
-/

namespace ArithAsm

/-! ### How a phrase begins -/

/-- The token begins an operand without a sign. -/
def Token.Opens (t : Token) : Prop :=
  (∃ v, t.kind = .number v) ∨ t.isReserved "(" = true

theorem Derives.opens_of_primary {ts : List Token} {t : Tree} (h : Derives .primary ts t) :
    ∃ first rest, ts = first :: rest ∧ first.Opens := by
  cases h with
  | number h => exact ⟨_, [], rfl, Or.inl ⟨_, h⟩⟩
  | parenthesized ho hc h => exact ⟨_, _, rfl, Or.inr ho⟩

/-- **A phrase begins with an operand,** or with one token in front of it. -/
theorem Derives.opens_cases {level : Level} {ts : List Token} {t : Tree} (h : Derives level ts t) :
    ∃ first rest, ts = first :: rest ∧
      (first.Opens ∨ ∃ second rest', rest = second :: rest' ∧ second.Opens) := by
  have longer {ls rs : List Token} (h : ∃ first rest, ls = first :: rest ∧
      (first.Opens ∨ ∃ second rest', rest = second :: rest' ∧ second.Opens)) :
      ∃ first rest, ls ++ rs = first :: rest ∧
        (first.Opens ∨ ∃ second rest', rest = second :: rest' ∧ second.Opens) := by
    obtain ⟨first, rest, rfl, hopens | ⟨second, rest', rfl, hopens⟩⟩ := h
    · exact ⟨first, rest ++ rs, rfl, Or.inl hopens⟩
    · exact ⟨first, _, rfl, Or.inr ⟨second, rest' ++ rs, rfl, hopens⟩⟩
  induction h with
  | number h => exact ⟨_, [], rfl, Or.inl (Or.inl ⟨_, h⟩)⟩
  | parenthesized ho hc h => exact ⟨_, _, rfl, Or.inl (Or.inr ho)⟩
  | unsigned _ ih => exact ih
  | plus hs h => exact ⟨_, _, rfl, Or.inr h.opens_of_primary⟩
  | minus hs h => exact ⟨_, _, rfl, Or.inr h.opens_of_primary⟩
  | oneFactor _ ih => exact ih
  | factors _ _ _ _ ihl => exact longer ihl
  | oneTerm _ ih => exact ih
  | terms _ _ _ _ ihl => exact longer ihl

/-! ### How the tokens of a source begin -/

namespace Token

theorem prefix_of_scan {place : Place} {read ts : List Token} {cs : List Char}
    (h : scan place read cs = .ok ts) : read.reverse <+: ts := by
  have shorter {t : Token} {read ts : List Token} (h : (t :: read).reverse <+: ts) :
      read.reverse <+: ts := by
    rw [List.reverse_cons] at h
    exact (List.prefix_append _ _).trans h
  fun_induction scan place read cs with
  | case1 place read =>
    rw [← Except.ok.inj h, List.reverse_cons]
    exact List.prefix_append _ _
  | case2 place read c rest hc ih => exact ih h
  | case3 place read c rest hc hd run e he => cases h
  | case4 place read c rest hc hd run token ht ih => exact shorter (ih h)
  | case5 place read c rest hc hd hs ih => exact shorter (ih h)
  | case6 place read c rest hc hd hs => cases h

theorem scan_symbol {place : Place} {read ts : List Token} {c : Char} {cs : List Char}
    (hlayout : c ∉ layout) (hdigit : c.isDigit = false)
    (h : scan place read (c :: cs) = .ok ts) :
    scan (place.next c) (ofSymbol c place.chars :: read) cs = .ok ts := by
  rw [scan, if_neg hlayout, if_neg (by simp [hdigit])] at h
  split at h
  · exact h
  · cases h

theorem opens_ofSymbol {c : Char} {position : Nat} (h : (ofSymbol c position).Opens) : c = '(' := by
  rcases h with ⟨v, hv⟩ | h
  · cases hv
  · have htext : String.singleton c = "(" := (isReserved_iff.mp h).2
    simpa [← String.toList_inj] using htext

theorem beforeStop_ofSymbol (c : Char) (position : Nat) (ts : List Token) :
    beforeStop (ofSymbol c position :: ts) = ofSymbol c position :: beforeStop ts := by
  rw [beforeStop, List.takeWhile_cons_of_pos]
  · rfl
  · rfl

end Token

/-! ### Sources on a command line -/

namespace CommandLine.Argument

theorem mem_afterDash_of_layout {c : Char} (h : c ∈ Token.layout) : c ∈ afterDash := by
  have hall : Token.layout ⊆ afterDash := by decide
  exact hall h

theorem mem_afterDash_of_isDigit {c : Char} (h : c.isDigit = true) : c ∈ afterDash := by
  have hall : ∀ n < 10, Char.ofNat (48 + n) ∈ afterDash := by decide
  simp only [Char.isDigit, Bool.and_eq_true, decide_eq_true_eq] at h
  have hle : 48 ≤ c.toNat ∧ c.toNat ≤ 57 := h
  have hmem := hall (c.toNat - 48) (by omega)
  rwa [show 48 + (c.toNat - 48) = c.toNat by omega, Char.ofNat_toNat] at hmem

end CommandLine.Argument

/-- **A source that has a tree is known as an expression** if it starts with a dash. -/
theorem startsExpression_of_readTree {limit : Nat} {source : String} {t : Tree}
    (h : readTree limit source = .ok t) (hdash : CommandLine.Argument.hasDash source = true) :
    CommandLine.Argument.startsExpression source = true := by
  obtain ⟨cs, hcs⟩ := CommandLine.Argument.hasDash_iff.mp hdash
  obtain ⟨ts, htokens, hparse⟩ := exists_of_readTree h
  rw [tokenize, hcs] at htokens
  have hscan := Token.scan_symbol (by decide) (by decide) htokens
  -- behind the dash the phrase has an operand
  have hopens {more : List Token} (hts : ts = .ofSymbol '-' 0 :: more) :
      ∃ second rest, Token.beforeStop more = second :: rest ∧ second.Opens := by
    obtain ⟨first, rest, heq, hcases⟩ := (derives_of_parse hparse).opens_cases
    rw [hts, Token.beforeStop_ofSymbol] at heq
    obtain ⟨rfl, rfl⟩ := List.cons.inj heq
    exact hcases.resolve_left fun h => absurd (Token.opens_ofSymbol h) (by decide)
  have hafter : ∃ c rest, cs = c :: rest ∧ c ∈ CommandLine.afterDash := by
    rcases cs with _ | ⟨c, rest⟩
    · rw [Token.scan] at hscan
      obtain ⟨second, rest, heq, -⟩ := hopens (Except.ok.inj hscan).symm
      cases heq
    refine ⟨c, rest, rfl, ?_⟩
    by_cases hlayout : c ∈ Token.layout
    · exact CommandLine.Argument.mem_afterDash_of_layout hlayout
    by_cases hdigit : c.isDigit = true
    · exact CommandLine.Argument.mem_afterDash_of_isDigit hdigit
    have hscan' := Token.scan_symbol hlayout (Bool.eq_false_iff.mpr hdigit) hscan
    obtain ⟨more, hmore⟩ := Token.prefix_of_scan hscan'
    have hts : ts = .ofSymbol '-' 0 :: .ofSymbol c 1 :: more := hmore.symm
    obtain ⟨second, rest, heq, hsecond⟩ := hopens hts
    rw [Token.beforeStop_ofSymbol] at heq
    obtain ⟨rfl, -⟩ := List.cons.inj heq
    rw [Token.opens_ofSymbol hsecond]
    decide
  obtain ⟨c, rest, rfl, hc⟩ := hafter
  rw [CommandLine.Argument.startsExpression, hcs]
  simpa using hc

end ArithAsm
