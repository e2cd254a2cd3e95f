import ArithAsm.Proofs.Grammar.Parse
import ArithAsm.Proofs.Token.Cover

/-!
# A tree from left to right

Read from left to right, a tree shows the numbers and the operators of its tokens in their order,
each with its place (`items_of_parse`).  Parentheses and unary plus signs leave no trace in it, and
in front of a unary minus there is a zero.  Which signs are unary is told by the token before them
(`Token.leadsOn`), and this agrees with the grammar: a phrase begins where a sign would be unary,
and ends where it would not (`Derives.itemsFrom_append`).
-/

namespace ArithAsm

/-! ### What a tree shows -/

/-- A part of a tree without its operands. -/
inductive Item where
  | leaf (a : Leaf)
  | operation (op : Operator) (position : Option Int)
  deriving DecidableEq, Repr

/-- A number at a place. -/
def Item.number (value position : Int) : Item :=
  .leaf (.number value (some position))

/-- **The parts of a tree from left to right:** those of the left operand, the operation, and those
of the right operand. -/
def Tree.items : Tree → List Item
  | .leaf a => [.leaf a]
  | .node op left right position => left.items ++ .operation op position :: right.items

/-- The part stands in the characters at its place: a number as a maximal run of digits, an
operation as its operator, and the zero of a unary minus where the minus is. -/
inductive Item.StandsIn (cs : List Char) : Item → Prop
  | number {front run back : List Char} (h : Token.IsDigitRun cs front run back) :
      StandsIn cs (.number (Nat.ofDigitChars 10 run 0) front.length)
  | zero {front back : List Char} (h : cs = front ++ '-' :: back) :
      StandsIn cs (.number 0 front.length)
  | operation {front back : List Char} {op : Operator} (h : cs = front ++ op.symbol :: back) :
      StandsIn cs (.operation op (some front.length))

/-! ### What tokens show -/

namespace Token

/-- The operator that the token writes. -/
def operator? (t : Token) : Option Operator :=
  if t.kind = .reserved then Operator.ofText? t.text else none

/-- A sign behind the token is unary: the token is an operator or an opening parenthesis. -/
def leadsOn (t : Token) : Bool :=
  t.operator?.isSome || t.isReserved "("

/-- What a token shows, if a sign in its place would be unary or if it would not. -/
def items (unary : Bool) (t : Token) : List Item :=
  match t.kind with
  | .number value => [.number value t.position]
  | .endOfInput => []
  | .reserved =>
    match t.operator?, unary with
    | none, _ => []
    | some .add, true => []
    | some .sub, true => [.number 0 t.position, .operation .sub (some t.position)]
    | some op, _ => [.operation op (some t.position)]

/-- **What tokens show from left to right.**  `unary` tells whether a sign would be unary in front
of them. -/
def itemsFrom (unary : Bool) : List Token → List Item
  | [] => []
  | t :: ts => t.items unary ++ itemsFrom t.leadsOn ts

variable {t : Token} {unary : Bool} {ts : List Token} {item : Item}

theorem operator?_of_isReserved {op : Operator}
    (h : t.isReserved (String.singleton op.symbol) = true) : t.operator? = some op := by
  obtain ⟨hkind, htext⟩ := isReserved_iff.mp h
  rw [operator?, if_pos hkind, htext]
  cases op <;> rfl

theorem isReserved_of_operator? {op : Operator} (h : t.operator? = some op) :
    t.isReserved (String.singleton op.symbol) = true := by
  unfold operator? Operator.ofText? at h
  split at h
  · rename_i hkind
    split at h
    · rename_i c htext
      rw [Operator.ofSymbol?_eq_some_iff] at h
      refine isReserved_iff.mpr ⟨hkind, ?_⟩
      rw [← String.toList_inj, htext, h, String.toList_singleton]
    · cases h
  · cases h

theorem itemsFrom_cons (unary : Bool) (t : Token) (ts : List Token) :
    itemsFrom unary (t :: ts) = t.items unary ++ itemsFrom t.leadsOn ts :=
  rfl

theorem itemsFrom_operator (op : Operator)
    (h : t.isReserved (String.singleton op.symbol) = true) :
    itemsFrom unary (t :: ts) = t.items unary ++ itemsFrom true ts := by
  simp [itemsFrom_cons, leadsOn, operator?_of_isReserved h]

theorem items_operator {op : Operator} (h : t.isReserved (String.singleton op.symbol) = true) :
    t.items false = [.operation op (some t.position)] := by
  have hkind := (isReserved_iff.mp h).1
  have hop := operator?_of_isReserved h
  simp [items, hkind, hop]

theorem items_plus (h : t.isReserved "+" = true) : t.items true = [] := by
  have hkind := (isReserved_iff.mp h).1
  have hop : t.operator? = some .add := operator?_of_isReserved h
  simp [items, hkind, hop]

theorem items_minus (h : t.isReserved "-" = true) :
    t.items true = [.number 0 t.position, .operation .sub (some t.position)] := by
  have hkind := (isReserved_iff.mp h).1
  have hop : t.operator? = some .sub := operator?_of_isReserved h
  simp [items, hkind, hop]

theorem itemsFrom_number {v : Int} (h : t.kind = .number v) :
    itemsFrom unary (t :: ts) = .number v t.position :: itemsFrom false ts := by
  simp [itemsFrom_cons, items, leadsOn, operator?, isReserved, h]

theorem operator?_parenthesis {text : String} (h : t.isReserved text = true)
    (htext : text = "(" ∨ text = ")") : t.operator? = none := by
  obtain ⟨hkind, rfl⟩ := isReserved_iff.mp h
  rw [operator?, if_pos hkind]
  rcases htext with htext | htext <;> rw [htext] <;> rfl

theorem itemsFrom_opening (h : t.isReserved "(" = true) :
    itemsFrom unary (t :: ts) = itemsFrom true ts := by
  have hkind := (isReserved_iff.mp h).1
  have hop := operator?_parenthesis h (Or.inl rfl)
  simp [itemsFrom_cons, items, leadsOn, hkind, hop, h]

theorem itemsFrom_closing (h : t.isReserved ")" = true) :
    itemsFrom unary (t :: ts) = itemsFrom false ts := by
  have hkind := (isReserved_iff.mp h).1
  have hop := operator?_parenthesis h (Or.inr rfl)
  have hopening : t.isReserved "(" = false := isReserved_eq_false h (by decide)
  simp [itemsFrom_cons, items, leadsOn, hkind, hop, hopening]

theorem itemsFrom_stop (n : Nat) : itemsFrom unary [stop n] = [] :=
  rfl

theorem exists_of_mem_itemsFrom (h : item ∈ itemsFrom unary ts) :
    ∃ t ∈ ts, ∃ unary', item ∈ t.items unary' := by
  induction ts generalizing unary with
  | nil => cases h
  | cons t ts ih =>
    rcases List.mem_append.mp h with h | h
    · exact ⟨t, List.mem_cons_self, unary, h⟩
    · obtain ⟨u, hu, unary', hitem⟩ := ih h
      exact ⟨u, List.mem_cons_of_mem _ hu, unary', hitem⟩

theorem items_cases (h : item ∈ t.items unary) :
    (∃ v, t.kind = .number v ∧ item = .number v t.position) ∨
    (t.isReserved "-" = true ∧ item = .number 0 t.position) ∨
    ∃ op : Operator, t.isReserved (String.singleton op.symbol) = true ∧
      item = .operation op (some t.position) := by
  unfold items at h
  split at h
  · rename_i v hkind
    exact Or.inl ⟨v, hkind, List.mem_singleton.mp h⟩
  · cases h
  · split at h
    · cases h
    · cases h
    · rename_i hop
      have hminus : t.isReserved "-" = true := isReserved_of_operator? hop
      rcases List.mem_cons.mp h with rfl | h
      · exact Or.inr (Or.inl ⟨hminus, rfl⟩)
      · exact Or.inr (Or.inr ⟨.sub, hminus, List.mem_singleton.mp h⟩)
    · rename_i op hop _ _
      exact Or.inr (Or.inr ⟨op, isReserved_of_operator? hop, List.mem_singleton.mp h⟩)

end Token

/-! ### Phrases -/

theorem Token.itemsFrom_joined {op : Operator} {symbol : Token} {ls rs : List Token} {l r : Tree}
    (hs : symbol.isReserved (String.singleton op.symbol) = true)
    (hl : ∀ rest, itemsFrom true (ls ++ rest) = l.items ++ itemsFrom false rest)
    (hr : ∀ rest, itemsFrom true (rs ++ rest) = r.items ++ itemsFrom false rest)
    (rest : List Token) : itemsFrom true ((ls ++ symbol :: rs) ++ rest)
      = (Tree.node op l r symbol.position).items ++ itemsFrom false rest := by
  rw [List.append_assoc, List.cons_append, hl, itemsFrom_operator op hs, items_operator hs, hr]
  simp [Tree.items]

/-- **A phrase shows what its tree shows,** and a sign behind it is not unary. -/
theorem Derives.itemsFrom_append {level : Level} {ts : List Token} {t : Tree}
    (h : Derives level ts t) (rest : List Token) :
    Token.itemsFrom true (ts ++ rest) = t.items ++ Token.itemsFrom false rest := by
  induction h generalizing rest with
  | number h =>
    rw [List.singleton_append, Token.itemsFrom_number h]
    rfl
  | @parenthesized opening closing ts t ho hc _ ih =>
    rw [List.cons_append, List.append_assoc, List.singleton_append, Token.itemsFrom_opening ho,
      ih, Token.itemsFrom_closing hc]
  | unsigned _ ih => exact ih rest
  | @plus sign ts t hs _ ih =>
    rw [List.cons_append, Token.itemsFrom_operator .add hs, Token.items_plus hs,
      List.nil_append, ih]
  | @minus sign ts t hs _ ih =>
    rw [List.cons_append, Token.itemsFrom_operator .sub hs, Token.items_minus hs, ih]
    rfl
  | oneFactor _ ih => exact ih rest
  | factors _ hs _ _ ihl ihr => exact Token.itemsFrom_joined hs ihl ihr rest
  | oneTerm _ ih => exact ih rest
  | terms _ hs _ _ ihl ihr => exact Token.itemsFrom_joined hs ihl ihr rest

/-! ### Sources -/

theorem Token.IsTokenOf.standsIn {cs : List Char} {t : Token} (h : IsTokenOf 0 cs t)
    {unary : Bool} {item : Item} (hitem : item ∈ t.items unary) : item.StandsIn cs := by
  cases h with
  | @number front run back hrun =>
    obtain rfl : item = .number (Nat.ofDigitChars 10 run 0) (0 + front.length : Nat) :=
      List.mem_singleton.mp hitem
    rw [Nat.zero_add]
    exact .number hrun
  | @symbol front back c hsplit hc =>
    rw [Nat.zero_add] at hitem
    rcases items_cases hitem with ⟨v, hkind, -⟩ | ⟨hminus, rfl⟩ | ⟨op, hop, rfl⟩
    · cases hkind
    · have hc : String.singleton c = "-" := (isReserved_iff.mp hminus).2
      obtain rfl : c = '-' := by simpa [← String.toList_inj] using hc
      exact .zero hsplit
    · have hc : String.singleton c = String.singleton op.symbol := (isReserved_iff.mp hop).2
      obtain rfl : c = op.symbol := by simpa [← String.toList_inj] using hc
      exact .operation hsplit
  | stop => cases hitem

/-- **A tree shows the tokens of its source from left to right,** and nothing else: nothing is lost,
doubled or moved, and every part stands in the source at its place. -/
theorem items_of_parse {limit : Nat} {source : String} {ts : List Token} {t : Tree}
    (htokens : tokenize source = .ok ts) (hparse : parse limit ts = .ok t) :
    t.items = Token.itemsFrom true ts ∧ ∀ item ∈ t.items, item.StandsIn source.toList := by
  have hlexes := tokenize_eq_ok_iff_lexes.mp htokens
  obtain ⟨front, rfl, hfront⟩ := hlexes.ends
  have hstop : (Token.ahead [.stop (0 + source.toList.length)]).isStop = true := rfl
  have hphrase := derives_of_parse hparse
  rw [Token.beforeStop_append hfront hstop] at hphrase
  have hitems : t.items = Token.itemsFrom true (front ++ [.stop (0 + source.toList.length)]) := by
    rw [hphrase.itemsFrom_append, Token.itemsFrom_stop, List.append_nil]
  refine ⟨hitems, fun item hitem => ?_⟩
  rw [hitems] at hitem
  obtain ⟨token, htoken, unary, hitem⟩ := Token.exists_of_mem_itemsFrom hitem
  have hread : Token.IsTokenOf 0 source.toList token := hlexes.mem_iff.mp htoken
  exact hread.standsIn hitem

/-- Unary signs at the start, behind an operator and behind a parenthesis. -/
theorem items_of_parse_signs :
    let source := "-2 * -(+3-1)"
    ∃ ts t, tokenize source = .ok ts ∧ parse 1 ts = .ok t ∧
      t.items = [.number 0 0, .operation .sub (some 0), .number 2 1, .operation .mul (some 3),
        .number 0 5, .operation .sub (some 5), .number 3 8, .operation .sub (some 9),
        .number 1 10] ∧
      ∀ item ∈ t.items, item.StandsIn source.toList := by
  intro source
  let ts : List Token := [.ofSymbol '-' 0, ⟨.number 2, "2", 1⟩, .ofSymbol '*' 3, .ofSymbol '-' 5,
    .ofSymbol '(' 6, .ofSymbol '+' 7, ⟨.number 3, "3", 8⟩, .ofSymbol '-' 9, ⟨.number 1, "1", 10⟩,
    .ofSymbol ')' 11, .stop 12]
  have htokens : tokenize source = .ok ts := by decide +kernel
  have hparse : ∃ t, parse 1 ts = .ok t := ⟨_, by cbv⟩
  obtain ⟨t, hparse⟩ := hparse
  obtain ⟨hitems, hstands⟩ := items_of_parse htokens hparse
  exact ⟨ts, t, htokens, hparse, hitems.trans (by decide), hstands⟩

end ArithAsm
