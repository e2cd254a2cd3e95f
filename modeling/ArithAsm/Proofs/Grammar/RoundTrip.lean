import ArithAsm.Proofs.Grammar.Parse
import ArithAsm.Proofs.Token.Spelling
import ArithAsm.Tree.Shape

/-!
# A tree is read back from its expression

The words that a tree is written as form a phrase of the level that the tree holds together for, and
the phrase stands for the tree (`Tree.exists_derives`): parentheses are left out only where the
grammar groups in the same way.  So every text made of these words is read as the tree, whatever the
layout between them, as long as its parentheses do not nest too deep (`parse_of_spaced_written`).
-/

namespace ArithAsm

open Token

/-! ### The words of a tree -/

/-- A number that a source can write: an integer of `[0, 2^63)`. -/
def IsWritable (v : Int) : Prop :=
  0 ≤ v ∧ v < 0x8000000000000000

instance : DecidablePred IsWritable := fun _ => inferInstanceAs (Decidable (_ ∧ _))

namespace Tree

variable {t : Tree} {words : List String}

theorem isSymbol_symbol (op : Operator) : IsSymbol (String.singleton op.symbol) :=
  ⟨op.symbol, by cases op <;> decide, rfl⟩

theorem isSymbol_opening : IsSymbol "(" := ⟨'(', by decide, rfl⟩

theorem isSymbol_closing : IsSymbol ")" := ⟨')', by decide, rfl⟩

theorem isNumeral_text {v : Int} (h : IsWritable v) : IsNumeral (toString v) := by
  obtain ⟨hlow, hhigh⟩ := h
  refine ⟨v.toNat, ?_, ?_⟩
  · unfold maxLiteral
    omega
  · rw [Int.toNat_of_nonneg hlow]

theorem isWord_of_mem_enclose (h : ∀ w ∈ words, IsSymbol w ∨ IsNumeral w) (needed : Bool) :
    ∀ w ∈ enclose needed words, IsSymbol w ∨ IsNumeral w := by
  cases needed with
  | false => exact h
  | true =>
    exact List.forall_mem_cons.mpr ⟨Or.inl isSymbol_opening,
      List.forall_mem_append.mpr ⟨h, List.forall_mem_singleton.mpr (Or.inl isSymbol_closing)⟩⟩

theorem isWord_of_mem_written (ht : t.AllNumbers IsWritable) :
    ∀ w ∈ t.written, IsSymbol w ∨ IsNumeral w := by
  induction t with
  | leaf a =>
    cases a with
    | number value position => exact List.forall_mem_singleton.mpr (Or.inr (isNumeral_text ht))
    | placeholder kind => exact ht.elim
    | foreign text => exact ht.elim
  | node op left right position ihl ihr =>
    refine List.forall_mem_append.mpr ⟨isWord_of_mem_enclose (ihl ht.1) _, ?_⟩
    exact List.forall_mem_cons.mpr
      ⟨Or.inl (isSymbol_symbol op), isWord_of_mem_enclose (ihr ht.2) _⟩

/-- One of two neighbours is a symbol. -/
def Alternating (words : List String) : Prop :=
  words.IsChain fun v w => IsSymbol v ∨ IsSymbol w

theorem Alternating.cons {w : String} (hw : IsSymbol w) (h : Alternating words) :
    Alternating (w :: words) :=
  List.isChain_cons.mpr ⟨fun _ _ => Or.inl hw, h⟩

theorem Alternating.append_cons {w : String} {words' : List String} (h : Alternating words)
    (hw : IsSymbol w) (h' : Alternating words') : Alternating (words ++ w :: words') := by
  refine List.isChain_append.mpr ⟨h, h'.cons hw, fun _ _ v hv => ?_⟩
  cases hv
  exact Or.inr hw

theorem Alternating.enclose (h : Alternating words) (needed : Bool) :
    Alternating (enclose needed words) := by
  cases needed with
  | false => exact h
  | true => exact (h.append_cons isSymbol_closing List.isChain_nil).cons isSymbol_opening

theorem alternating_written (t : Tree) : Alternating t.written := by
  induction t with
  | leaf a => exact List.isChain_singleton _
  | node op left right position ihl ihr =>
    exact (ihl.enclose _).append_cons (isSymbol_symbol op) (ihr.enclose _)

end Tree

/-! ### The phrase of a tree -/

/-- How strongly a tree has to hold together to stand at a level without parentheses. -/
def Level.weakest : Level → Nat
  | .sum => 1
  | .product => 2
  | .signed => 3
  | .primary => 4

theorem Derives.weaken {level level' : Level} {ts : List Token} {t : Tree}
    (h : Derives level ts t) (hle : level'.weakest ≤ level.weakest) : Derives level' ts t := by
  cases level with
  | sum =>
    cases level' with
    | sum => exact h
    | product | signed | primary => exact absurd hle (by decide)
  | product =>
    cases level' with
    | sum => exact .oneTerm h
    | product => exact h
    | signed | primary => exact absurd hle (by decide)
  | signed =>
    cases level' with
    | sum => exact .oneTerm (.oneFactor h)
    | product => exact .oneFactor h
    | signed => exact h
    | primary => exact absurd hle (by decide)
  | primary =>
    cases level' with
    | sum => exact .oneTerm (.oneFactor (.unsigned h))
    | product => exact .oneFactor (.unsigned h)
    | signed => exact .unsigned h
    | primary => exact h

/-- An operator belongs to the chains of the weakest level that a tree of it can stand at, and their
operands have to hold together more. -/
theorem Operator.exists_chains (op : Operator) :
    ∃ level ops part, Level.Chains level ops part ∧ op ∈ ops ∧ level.weakest = op.strength ∧
      part.weakest = op.strength + 1 := by
  cases op with
  | add => exact ⟨_, _, _, .sum, by decide, rfl, rfl⟩
  | sub => exact ⟨_, _, _, .sum, by decide, rfl, rfl⟩
  | mul => exact ⟨_, _, _, .product, by decide, rfl, rfl⟩
  | div => exact ⟨_, _, _, .product, by decide, rfl, rfl⟩

theorem Token.exists_append_of_spells {ts : List Token} {front back : List String}
    (h : List.Forall₂ Spells ts (front ++ back)) :
    ∃ us vs, ts = us ++ vs ∧ List.Forall₂ Spells us front ∧ List.Forall₂ Spells vs back :=
  ⟨_, _, (List.take_append_drop front.length ts).symm, List.forall₂_take_append ts front back h,
    List.forall₂_drop_append ts front back h⟩

namespace Tree

theorem one_le_strength (t : Tree) : 1 ≤ t.strength := by
  cases t with
  | leaf a => exact Nat.le_add_left 1 2
  | node op left right position =>
    rw [strength]
    cases op <;> decide

/-- **Tokens that spell the words are a phrase of the level,** which stands for the tree. -/
def ReadFrom (t : Tree) (words : List String) (level : Level) : Prop :=
  ∀ ts, List.Forall₂ Spells ts words → ∃ u, Derives level ts u ∧ u.Same t

/-- An operand is read from its words if it has parentheses wherever its level needs them. -/
theorem readFrom_enclose {t : Tree} {needed : Bool} {level : Level}
    (h : ∀ level : Level, level.weakest ≤ t.strength → t.ReadFrom t.written level)
    (hneeded : needed = false → level.weakest ≤ t.strength) :
    t.ReadFrom (enclose needed t.written) level := by
  cases needed with
  | false => exact h level (hneeded rfl)
  | true =>
    intro ts hts
    obtain ⟨opening, rest, hopening, hrest, rfl⟩ := List.forall₂_cons_right_iff.mp hts
    obtain ⟨inner, last, rfl, hinner, hlast⟩ := exists_append_of_spells hrest
    obtain ⟨closing, nothing, hclosing, hnothing, rfl⟩ := List.forall₂_cons_right_iff.mp hlast
    obtain rfl := List.forall₂_nil_right_iff.mp hnothing
    obtain ⟨u, hu, hsame⟩ := h .sum (one_le_strength t) inner hinner
    have hprimary := Derives.parenthesized (isReserved_of_spells hopening isSymbol_opening)
      (isReserved_of_spells hclosing isSymbol_closing) hu
    have hle : level.weakest ≤ Level.primary.weakest := by cases level <;> decide
    exact ⟨u, hprimary.weaken hle, hsame⟩

/-- **A tree is read from its words** at every level that it can stand at. -/
theorem readFrom_written {t : Tree} (ht : t.AllNumbers IsWritable) {level : Level}
    (hlevel : level.weakest ≤ t.strength) : t.ReadFrom t.written level := by
  induction t generalizing level with
  | leaf a =>
    cases a with
    | number value position =>
      intro ts hts
      obtain ⟨token, nothing, htoken, hnothing, rfl⟩ := List.forall₂_cons_right_iff.mp hts
      obtain rfl := List.forall₂_nil_right_iff.mp hnothing
      obtain ⟨m, rfl⟩ := Int.eq_ofNat_of_zero_le ht.1
      have hnumber := Derives.number (kind_of_spells htoken)
      exact ⟨_, hnumber.weaken (Nat.le_succ_of_le hlevel), rfl⟩
    | placeholder kind => exact ht.elim
    | foreign text => exact ht.elim
  | node op left right position ihl ihr =>
    intro ts hts
    obtain ⟨ls, rest, rfl, hls, hrest⟩ := exists_append_of_spells hts
    obtain ⟨symbol, rs, hsymbol, hrs, rfl⟩ := List.forall₂_cons_right_iff.mp hrest
    obtain ⟨chain, ops, part, hchains, hop, hchain, hpart⟩ := op.exists_chains
    -- what binds too weakly for its side stands in parentheses
    have hleft : left.ReadFrom (enclose (left.strength < op.strength) left.written) chain :=
      readFrom_enclose (fun _ => ihl ht.1) fun hnot => by
        have hstrong := of_decide_eq_false hnot
        omega
    have hright : right.ReadFrom (enclose (right.strength ≤ op.strength) right.written) part :=
      readFrom_enclose (fun _ => ihr ht.2) fun hnot => by
        have hstrong := of_decide_eq_false hnot
        omega
    obtain ⟨l, hl, hsamel⟩ := hleft ls hls
    obtain ⟨r, hr, hsamer⟩ := hright rs hrs
    have hnode := hchains.derives_more hop (isReserved_of_spells hsymbol (isSymbol_symbol op)) hl hr
    refine ⟨_, hnode.weaken (by rw [hchain]; exact hlevel), ?_⟩
    unfold Same at *
    rw [unlocated, unlocated, hsamel, hsamer]

end Tree

/-! ### Texts -/

/-- The greatest number of parentheses that are open at a time in a text, after `opened` of
them. -/
def deepestOpen (opened : Nat) : List Char → Nat
  | [] => opened
  | c :: cs =>
    max opened (deepestOpen
      (if c = '(' then opened + 1 else if c = ')' then opened - 1 else opened) cs)

theorem le_deepestOpen (opened : Nat) (cs : List Char) : opened ≤ deepestOpen opened cs := by
  cases cs with
  | nil => exact Nat.le_refl _
  | cons c cs => exact Nat.le_max_left _ _

theorem deepestOpen_other {opened : Nat} {c : Char} (ho : c ≠ '(') (hc : c ≠ ')')
    (cs : List Char) : deepestOpen opened (c :: cs) = deepestOpen opened cs := by
  rw [deepestOpen, if_neg ho, if_neg hc]
  exact Nat.max_eq_right (le_deepestOpen opened cs)

theorem deepestOpen_digits {opened : Nat} {run : List Char}
    (hrun : ∀ c ∈ run, c.isDigit = true) (cs : List Char) :
    deepestOpen opened (run ++ cs) = deepestOpen opened cs := by
  induction run with
  | nil => rfl
  | cons c run ih =>
    obtain ⟨hc, hrun⟩ := List.forall_mem_cons.mp hrun
    have ho : c ≠ '(' := by rintro rfl; cases hc
    have hclose : c ≠ ')' := by rintro rfl; cases hc
    rw [List.cons_append, deepestOpen_other ho hclose, ih hrun]

theorem isReserved_ofSymbol {c d : Char} (n : Nat) :
    (ofSymbol c n).isReserved (String.singleton d) = true ↔ c = d := by
  rw [isReserved_iff]
  simp [ofSymbol, ← String.toList_inj]

/-- **The tokens of a text open as many parentheses as the text.** -/
theorem Token.Lexes.deepest_eq {n : Nat} {cs : List Char} {ts : List Token} (h : Lexes n cs ts)
    (opened : Nat) : deepest opened ts = deepestOpen opened cs := by
  induction h generalizing opened with
  | stop n => exact Nat.max_self opened
  | @layout n c cs ts hc _ ih =>
    have ho : c ≠ '(' := by rintro rfl; revert hc; decide
    have hclose : c ≠ ')' := by rintro rfl; revert hc; decide
    rw [ih, deepestOpen_other ho hclose]
  | @symbol n c cs ts hc _ ih =>
    have ho : (ofSymbol c n).isReserved "(" = true ↔ c = '(' :=
      isReserved_ofSymbol (d := '(') n
    have hclose : (ofSymbol c n).isReserved ")" = true ↔ c = ')' :=
      isReserved_ofSymbol (d := ')') n
    simp only [deepest, deepestOpen, ho, hclose, ih]
  | @number n cs run back ts hrun _ _ ih =>
    rw [deepest_other rfl rfl, ih, hrun.split, List.nil_append, deepestOpen_digits hrun.digits]

/-- **A tree is read back from its expression:** every text of the words it is written as, with any
layout around them, is read as the tree, if its parentheses do not nest too deep. -/
theorem parse_of_spaced_written {limit : Nat} {t : Tree} {source : String}
    (ht : t.AllNumbers IsWritable) (hsource : Spaced t.written source.toList)
    (hdepth : deepestOpen 0 source.toList ≤ limit) :
    ∃ ts u, tokenize source = .ok ts ∧ parse limit ts = .ok u ∧ u.Same t := by
  obtain ⟨front, hspells, hlexes⟩ :=
    exists_lexes_of_spaced hsource (Tree.isWord_of_mem_written ht) (Tree.alternating_written t)
  have hread : t.ReadFrom t.written .sum := Tree.readFrom_written ht (Tree.one_le_strength t)
  obtain ⟨u, hu, hsame⟩ := hread front hspells
  have hbefore : beforeStop (front ++ [stop (0 + source.toList.length)]) = front :=
    beforeStop_append (fun _ => hu.isStop_eq_false) rfl
  have hopen : deepest 0 (front ++ [stop (0 + source.toList.length)]) ≤ limit := by
    rwa [hlexes.deepest_eq]
  refine ⟨_, u, tokenize_eq_ok_iff_lexes.mpr hlexes, ?_, hsame⟩
  rw [parse_eq_ok_iff List.getLast?_concat rfl hopen, hbefore]
  exact hu

/-- A product on the left needs no parentheses, and a difference on the right keeps its own. -/
theorem parse_of_spaced_written_right :
    let t : Tree := .node .sub (.node .mul (.number 2 none) (.number 3 none) none)
      (.node .sub (.number 4 none) (.number 1 none) none) none
    let source := "2 *3-(\t4-1 )\n"
    t.AllNumbers IsWritable ∧ Spaced t.written source.toList ∧
      deepestOpen 0 source.toList ≤ 120 ∧
      ∃ ts u, tokenize source = .ok ts ∧ parse 120 ts = .ok u ∧ u.Same t := by
  intro t source
  have ht : t.AllNumbers IsWritable := by decide
  have hwritten : t.written = ["2", "*", "3", "-", "(", "4", "-", "1", ")"] := by decide
  have hsource : Spaced t.written source.toList := by
    rw [hwritten]
    change Spaced _ "2 *3-(\t4-1 )\n".toList
    have hnone : ∀ c ∈ ([] : List Char), c ∈ layout := nofun
    have hone {c : Char} (hc : c ∈ layout) : ∀ d ∈ [c], d ∈ layout :=
      List.forall_mem_singleton.mpr hc
    exact .cons hnone <| .cons (hone (c := ' ') (by decide)) <| .cons hnone <| .cons hnone <|
      .cons hnone <| .cons (hone (c := '\t') (by decide)) <| .cons hnone <| .cons hnone <|
      .cons (hone (c := ' ') (by decide)) <| .nil (hone (c := '\n') (by decide))
  have hdepth : deepestOpen 0 source.toList ≤ 120 := by decide
  exact ⟨ht, hsource, hdepth, parse_of_spaced_written ht hsource hdepth⟩

end ArithAsm
