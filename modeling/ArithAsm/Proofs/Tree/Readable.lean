import ArithAsm.Proofs.Result
import ArithAsm.Proofs.Token.Lexes
import ArithAsm.Tree.Print
import ArithAsm.Tree.Shape
import Std.Data.String.ToInt

/-!
# A printed tree can be read back

A tree of numbers has a text unless one of them has too many digits to be written
(`Tree.exists_print`).  The text tells the tree, up to the places of its nodes.  It is read from its
start: the text of an operation ends with its last parenthesis, and that of a number in front of
the first character that is no digit (`Tree.Ends`).  So trees whose texts begin the same characters
are the same, and leave the same characters behind (`Tree.print_append_inj`).  The main statement is
`Tree.print_eq_iff_same`; of trees without a text it says nothing (`Tree.print_of_long_number`).
-/

namespace ArithAsm

/-! ### Numerals -/

section Numeral

variable {m n : Nat} {v w : Int} {c : Char} {r s : List Char}

theorem isDigitRun_repr (n : Nat) (hr : ∀ c ∈ r.head?, c.isDigit = false) :
    Token.IsDigitRun (n.repr.toList ++ r) [] n.repr.toList r where
  split := rfl
  nonempty := by
    rw [Nat.toList_repr]
    exact Nat.toDigits_ne_nil
  digits c hc := by
    rw [Nat.toList_repr] at hc
    exact Nat.isDigit_of_mem_toDigits (by decide) (by decide) hc
  before := nofun
  behind := hr

theorem natRepr_append_inj (hr : ∀ c ∈ r.head?, c.isDigit = false)
    (hs : ∀ c ∈ s.head?, c.isDigit = false) (h : m.repr.toList ++ r = n.repr.toList ++ s) :
    m = n ∧ r = s := by
  have hrun := isDigitRun_repr m hr
  rw [h] at hrun
  obtain ⟨htext, rfl⟩ := (isDigitRun_repr n hs).unique hrun
  exact ⟨Nat.repr_inj.mp (String.toList_injective htext), rfl⟩

theorem natRepr_append_ne (n : Nat) (hc : c.isDigit = false) : n.repr.toList ++ r ≠ c :: s := by
  intro h
  have hrun := isDigitRun_repr n (r := []) nofun
  obtain ⟨d, ds, hd⟩ := List.exists_cons_of_ne_nil hrun.nonempty
  have hdigit := hrun.digits d (by simp [hd])
  rw [hd] at h
  rw [(List.cons.inj h).1, hc] at hdigit
  cases hdigit

theorem toList_repr_cases (v : Int) : (0 ≤ v ∧ v.repr.toList = v.toNat.repr.toList) ∨
    (v < 0 ∧ v.repr.toList = '-' :: (-v).toNat.repr.toList) := by
  rw [Int.repr_eq_if]
  split
  · exact Or.inl ⟨by assumption, rfl⟩
  · exact Or.inr ⟨by omega, String.toList_append⟩

theorem intRepr_append_inj (hr : ∀ c ∈ r.head?, c.isDigit = false)
    (hs : ∀ c ∈ s.head?, c.isDigit = false) (h : v.repr.toList ++ r = w.repr.toList ++ s) :
    v = w ∧ r = s := by
  have hminus : '-'.isDigit = false := by decide
  rcases toList_repr_cases v with ⟨hv, hvtext⟩ | ⟨hv, hvtext⟩ <;>
    rcases toList_repr_cases w with ⟨hw, hwtext⟩ | ⟨hw, hwtext⟩ <;>
    rw [hvtext, hwtext] at h
  · obtain ⟨habs, hrest⟩ := natRepr_append_inj hr hs h
    exact ⟨by omega, hrest⟩
  · exact absurd h (natRepr_append_ne _ hminus)
  · exact absurd h.symm (natRepr_append_ne _ hminus)
  · obtain ⟨habs, hrest⟩ := natRepr_append_inj hr hs (List.cons.inj h).2
    exact ⟨by omega, hrest⟩

theorem intRepr_append_ne_opening (v : Int) : v.repr.toList ++ r ≠ '(' :: s := by
  rcases toList_repr_cases v with ⟨-, hv⟩ | ⟨-, hv⟩
  · rw [hv]
    exact natRepr_append_ne _ (by decide)
  · rw [hv]
    exact fun h => absurd (List.cons.inj h).1 (by decide)

end Numeral

namespace Tree

open Text (HasDecimal)

variable {t a b : Tree} {r s : List Char} {ta tb : String}

/-! ### Trees that have a text -/

theorem print_node_eq_ok_iff {op : Operator} {left right : Tree} {position : Option Int}
    {text : String} : (Tree.node op left right position).print = .ok text ↔
      ∃ l r, left.print = .ok l ∧ right.print = .ok r ∧
        text = "(" ++ String.singleton op.symbol ++ " " ++ l ++ " " ++ r ++ ")" := by
  rw [print_node]
  constructor
  · intro h
    obtain ⟨l, hl, h⟩ := bind_eq_ok_iff.mp h
    obtain ⟨r, hr, h⟩ := bind_eq_ok_iff.mp h
    exact ⟨l, r, hl, hr, (Except.ok.inj h).symm⟩
  · rintro ⟨l, r, hl, hr, rfl⟩
    rw [hl, hr]
    rfl

theorem exists_print (h : t.AllNumbers HasDecimal) : ∃ text, t.print = .ok text := by
  induction t with
  | leaf x =>
    obtain ⟨v, p, rfl, hv⟩ := exists_number_of_allNumbers h
    exact ⟨toString v, by rw [print_leaf, Leaf.text, Text.decimal_of_hasDecimal hv]⟩
  | node op left right position ihl ihr =>
    obtain ⟨l, hl⟩ := ihl h.1
    obtain ⟨r, hr⟩ := ihr h.2
    exact ⟨_, print_node_eq_ok_iff.mpr ⟨l, r, hl, hr, rfl⟩⟩

theorem print_of_not_hasDecimal (ht : t.AllNumbers fun _ => True)
    (h : ¬ t.AllNumbers HasDecimal) : t.print = .error .tooManyDigits := by
  induction t with
  | leaf x =>
    obtain ⟨v, p, rfl, -⟩ := exists_number_of_allNumbers ht
    rw [print_leaf, Leaf.text, Text.decimal_of_not_hasDecimal h]
  | node op left right position ihl ihr =>
    by_cases hleft : left.AllNumbers HasDecimal
    · obtain ⟨l, hl⟩ := exists_print hleft
      rw [print_node, hl, ihr ht.2 fun hright => h ⟨hleft, hright⟩]
      rfl
    · rw [print_node, ihl ht.1 hleft]
      rfl

/-! ### The places leave no trace -/

theorem print_unlocated (t : Tree) : t.unlocated.print = t.print := by
  induction t with
  | leaf x => cases x <;> rfl
  | node op left right position ihl ihr => rw [unlocated, print_node, print_node, ihl, ihr]

theorem Same.print_eq (h : a.Same b) : a.print = b.print := by
  rw [← a.print_unlocated, ← b.print_unlocated]
  exact congrArg print h

/-! ### Where a text ends -/

/-- **The text of the tree ends in front of the characters.**  That of a number would go on with a
digit, and that of an operation has its end in itself. -/
def Ends : Tree → List Char → Prop
  | .leaf _, rest => ∀ c ∈ rest.head?, c.isDigit = false
  | .node _ _ _ _, _ => True

theorem ends_nil (t : Tree) : t.Ends [] := by
  cases t with
  | leaf x => exact nofun
  | node op left right position => trivial

theorem ends_cons (t : Tree) {c : Char} (hc : c.isDigit = false) (rest : List Char) :
    t.Ends (c :: rest) := by
  cases t with
  | leaf x => exact fun d hd => Option.some.inj hd ▸ hc
  | node op left right position => trivial

theorem repr_of_print {v : Int} {p : Option Int} (h : (number v p).print = .ok ta) :
    ta = v.repr := by
  rw [number, print_leaf] at h
  exact (Text.decimal_eq_ok_iff.mp h).2.symm

theorem toList_of_print_node {op : Operator} {left right : Tree} {position : Option Int}
    (h : (Tree.node op left right position).print = .ok ta) (rest : List Char) :
    ∃ tl tr, left.print = .ok tl ∧ right.print = .ok tr ∧ ta.toList ++ rest =
      '(' :: op.symbol :: ' ' :: (tl.toList ++ ' ' :: (tr.toList ++ ')' :: rest)) := by
  obtain ⟨tl, tr, hl, hr, rfl⟩ := print_node_eq_ok_iff.mp h
  exact ⟨tl, tr, hl, hr, by simp [String.toList_append]⟩

/-- **The text of a tree tells the tree and where the text ends.** -/
theorem print_append_inj (ha : a.AllNumbers fun _ => True) (hb : b.AllNumbers fun _ => True)
    (hta : a.print = .ok ta) (htb : b.print = .ok tb) (hr : a.Ends r) (hs : b.Ends s)
    (h : ta.toList ++ r = tb.toList ++ s) : a.Same b ∧ r = s := by
  induction a generalizing b r s ta tb with
  | leaf x =>
    obtain ⟨v, p, rfl, -⟩ := exists_number_of_allNumbers ha
    rw [repr_of_print hta] at h
    cases b with
    | leaf y =>
      obtain ⟨w, q, rfl, -⟩ := exists_number_of_allNumbers hb
      rw [repr_of_print htb] at h
      obtain ⟨hvalue, hrest⟩ := intRepr_append_inj hr hs h
      exact ⟨same_number hvalue p q, hrest⟩
    | node op left right q =>
      obtain ⟨_, _, -, -, htext⟩ := toList_of_print_node htb s
      rw [htext] at h
      exact absurd h (intRepr_append_ne_opening v)
  | node op left right p ihl ihr =>
    obtain ⟨tl, tr, hl, hr', htext⟩ := toList_of_print_node hta r
    rw [htext] at h
    cases b with
    | leaf y =>
      obtain ⟨w, q, rfl, -⟩ := exists_number_of_allNumbers hb
      rw [repr_of_print htb] at h
      exact absurd h.symm (intRepr_append_ne_opening w)
    | node op' left' right' q =>
      have hblank : ' '.isDigit = false := by decide
      have hclosing : ')'.isDigit = false := by decide
      obtain ⟨tl', tr', hl', hr'', htext'⟩ := toList_of_print_node htb s
      rw [htext'] at h
      simp only [List.cons.injEq, true_and] at h
      obtain ⟨hsymbol, h⟩ := h
      obtain rfl := Operator.symbol_inj hsymbol
      obtain ⟨hleft, h⟩ := ihl ha.1 hb.1 hl hl' (left.ends_cons hblank _)
        (left'.ends_cons hblank _) h
      obtain ⟨hright, h⟩ := ihr ha.2 hb.2 hr' hr'' (right.ends_cons hclosing _)
        (right'.ends_cons hclosing _) (List.cons.inj h).2
      exact ⟨hleft.node hright op p q, (List.cons.inj h).2⟩

/-- **A printed tree can be read back.**  A tree of numbers has a text exactly if none of them has
too many digits.  Trees that are the same up to the places of their nodes have one text, or none for
one reason; two trees that have texts have one text only if they are the same.  The text of one does
not begin that of another, unless both are plain numbers.  And from the start of some characters at
most one tree can be read, up to the places, with one end to it. -/
theorem print_eq_iff_same (ha : a.AllNumbers fun _ => True) (hb : b.AllNumbers fun _ => True) :
    ((∃ text, a.print = .ok text) ↔ a.AllNumbers HasDecimal) ∧
    (¬ a.AllNumbers HasDecimal → a.print = .error .tooManyDigits) ∧
    (a.Same b → a.print = b.print) ∧
    ∀ ta tb, a.print = .ok ta → b.print = .ok tb →
      (ta = tb ↔ a.Same b) ∧
      (ta.toList <+: tb.toList → ta ≠ tb → ∃ v p w q, a = number v p ∧ b = number w q) ∧
      ∀ r s, a.Ends r → b.Ends s → ta.toList ++ r = tb.toList ++ s → a.Same b ∧ r = s := by
  refine ⟨⟨?_, exists_print⟩, print_of_not_hasDecimal ha, Same.print_eq, fun ta tb hta htb => ?_⟩
  · rintro ⟨text, htext⟩
    refine Classical.not_not.mp fun hdigits => ?_
    cases htext.symm.trans (print_of_not_hasDecimal ha hdigits)
  have hinj {r s : List Char} (hr : a.Ends r) (hs : b.Ends s)
      (h : ta.toList ++ r = tb.toList ++ s) : a.Same b ∧ r = s :=
    print_append_inj ha hb hta htb hr hs h
  have hsame (h : a.Same b) : ta = tb := Except.ok.inj (hta.symm.trans (h.print_eq.trans htb))
  refine ⟨⟨fun h => ?_, hsame⟩, ?_, fun r s => hinj⟩
  · exact (hinj (ends_nil a) (ends_nil b) (by rw [h])).1
  · rintro ⟨r, h⟩ hne
    cases a with
    | leaf x =>
      obtain ⟨v, p, rfl, -⟩ := exists_number_of_allNumbers ha
      cases b with
      | leaf y =>
        obtain ⟨w, q, rfl, -⟩ := exists_number_of_allNumbers hb
        exact ⟨v, p, w, q, rfl, rfl⟩
      | node op left right q =>
        obtain ⟨_, _, -, -, htext⟩ := toList_of_print_node htb []
        rw [repr_of_print hta, ← List.append_nil tb.toList, htext] at h
        exact absurd h (intRepr_append_ne_opening v)
    | node op left right p =>
      -- an operation ends in itself, so that nothing is left of the longer text
      exact absurd (hsame (hinj trivial (ends_nil b) (by rw [h, List.append_nil])).1) hne

/-- A minus sign of a number and one of a subtraction. -/
theorem print_eq_iff_same_minus :
    let a : Tree := .node .sub (number (-1) (some 3)) (number 12 (some 6)) (some 5)
    let b : Tree :=
      .node .sub (.node .sub (number 0 none) (number 1 none) none) (number 12 none) none
    a.AllNumbers (fun _ => True) ∧ b.AllNumbers (fun _ => True) ∧ ¬ a.Same b ∧
      ∃ ta tb, a.print = .ok ta ∧ b.print = .ok tb ∧ ta ≠ tb ∧ ¬ ta.toList <+: tb.toList := by
  intro a b
  have ha : a.AllNumbers fun _ => True := by decide
  have hb : b.AllNumbers fun _ => True := by decide
  have hne : ¬ a.Same b := by decide
  obtain ⟨ta, hta⟩ := (print_eq_iff_same ha hb).1.mpr (by decide)
  obtain ⟨tb, htb⟩ := (print_eq_iff_same hb ha).1.mpr (by decide)
  obtain ⟨hiff, hprefix, -⟩ := (print_eq_iff_same ha hb).2.2.2 ta tb hta htb
  have hprint : ta ≠ tb := fun h => hne (hiff.mp h)
  refine ⟨ha, hb, hne, ta, tb, hta, htb, hprint, fun h => ?_⟩
  obtain ⟨v, p, -, -, hnumber, -⟩ := hprefix h hprint
  exact Tree.noConfusion hnumber

theorem print_of_digits {n : Nat} (h : Nat.pow 10 Text.maxDigits ≤ n) (position : Option Int) :
    (number n position).print = .error .tooManyDigits :=
  print_of_not_hasDecimal trivial (Text.not_hasDecimal_natCast h)

theorem not_same_succ (n : Nat) (p q : Option Int) :
    ¬ (number n p).Same (number (n + 1 : Nat) q) := by
  intro h
  obtain ⟨hvalue, -⟩ := Leaf.number.inj (Tree.leaf.inj h)
  omega

/-- **Two numbers that are not the same and have no text,** since they have a digit too many. -/
theorem print_of_long_number :
    let n : Nat := Nat.pow 10 Text.maxDigits
    let a : Tree := number n none
    let b : Tree := number (n + 1 : Nat) none
    a.AllNumbers (fun _ => True) ∧ b.AllNumbers (fun _ => True) ∧ ¬ a.Same b ∧
      a.print = .error .tooManyDigits ∧ b.print = .error .tooManyDigits := by
  intro n a b
  have hn : Nat.pow 10 Text.maxDigits ≤ n := Nat.le_refl n
  exact ⟨trivial, trivial, not_same_succ n none none, print_of_digits hn none,
    print_of_digits (Nat.le_succ_of_le hn) none⟩

end Tree

end ArithAsm
