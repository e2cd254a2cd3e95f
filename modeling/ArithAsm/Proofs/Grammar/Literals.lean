import ArithAsm.Compile
import ArithAsm.Proofs.Grammar.Parse
import ArithAsm.Proofs.Result
import ArithAsm.Proofs.Token.DigitRun
import ArithAsm.Tree.Shape

/-!
# The literals of a source

The scanner refuses literals that are no word, and the parser makes up no number but zero.  So all
leaves of the tree of a source are words (`allNumbers_of_readTree`).
-/

namespace ArithAsm

namespace Token

/-- The token has the value of a word, if it has one. -/
def HoldsWord (t : Token) : Prop :=
  ∀ v, t.kind = .number v → IsWord v

theorem holdsWord_of_literal {run : List Char} {position : Nat} {t : Token}
    (h : literal run position = .ok t) : t.HoldsWord := by
  intro v hv
  obtain ⟨⟨-, hvalue⟩, rfl⟩ := literal_eq_ok_iff.mp h
  obtain rfl := TokenKind.number.inj hv
  unfold maxLiteral at hvalue
  unfold IsWord
  omega

theorem holdsWord_of_scan {place : Place} {read ts : List Token} {cs : List Char}
    (hread : ∀ t ∈ read, t.HoldsWord) (h : scan place read cs = .ok ts) :
    ∀ t ∈ ts, t.HoldsWord := by
  have hcons {t : Token} {read : List Token} (ht : t.HoldsWord)
      (hread : ∀ t ∈ read, t.HoldsWord) : ∀ u ∈ t :: read, u.HoldsWord :=
    List.forall_mem_cons.mpr ⟨ht, hread⟩
  fun_induction scan place read cs with
  | case1 place read =>
    rw [← Except.ok.inj h]
    intro t ht
    exact hcons (fun v hv => by cases hv) hread t (List.mem_reverse.mp ht)
  | case2 place read c rest hc ih => exact ih hread h
  | case3 place read c rest hc hd run e he => cases h
  | case4 place read c rest hc hd run token ht ih =>
    exact ih (hcons (holdsWord_of_literal ht) hread) h
  | case5 place read c rest hc hd hs ih => exact ih (hcons (fun v hv => by cases hv) hread) h
  | case6 place read c rest hc hd hs => cases h

end Token

theorem Derives.allNumbers {p : Int → Prop} (hzero : p 0) {level : Level} {ts : List Token}
    {t : Tree} (h : Derives level ts t)
    (hts : ∀ token ∈ ts, ∀ v, token.kind = .number v → p v) : t.AllNumbers p := by
  induction h with
  | number h => exact hts _ (List.mem_singleton_self _) _ h
  | parenthesized _ _ _ ih =>
    exact ih fun token ht => hts token (List.mem_cons_of_mem _ (List.mem_append_left _ ht))
  | unsigned _ ih => exact ih hts
  | plus _ _ ih => exact ih fun token ht => hts token (List.mem_cons_of_mem _ ht)
  | minus _ _ ih => exact ⟨hzero, ih fun token ht => hts token (List.mem_cons_of_mem _ ht)⟩
  | oneFactor _ ih => exact ih hts
  | factors _ _ _ _ ihl ihr =>
    rw [List.forall_mem_append, List.forall_mem_cons] at hts
    exact ⟨ihl hts.1, ihr hts.2.2⟩
  | oneTerm _ ih => exact ih hts
  | terms _ _ _ _ ihl ihr =>
    rw [List.forall_mem_append, List.forall_mem_cons] at hts
    exact ⟨ihl hts.1, ihr hts.2.2⟩

theorem readTree_of_toOption {limit : Nat} {source : String} {t : Tree}
    (h : (readTree limit source).toOption = some t) : readTree limit source = .ok t :=
  eq_ok_of_toOption h

theorem exists_of_readTree {limit : Nat} {source : String} {t : Tree}
    (h : readTree limit source = .ok t) :
    ∃ ts, tokenize source = .ok ts ∧ parse limit ts = .ok t := by
  obtain ⟨ts, htokens, hparse⟩ := bind_eq_ok_iff.mp h
  exact ⟨ts, mapError_eq_ok_iff.mp htokens, mapError_eq_ok_iff.mp hparse⟩

/-- **All leaves of the tree of a source are words.** -/
theorem allNumbers_of_readTree {limit : Nat} {source : String} {t : Tree}
    (h : readTree limit source = .ok t) :
    t.AllNumbers IsWord := by
  obtain ⟨ts, htokens, hparse⟩ := exists_of_readTree h
  have hword : ∀ token ∈ ts, token.HoldsWord :=
    Token.holdsWord_of_scan (fun _ ht => by cases ht) htokens
  refine (derives_of_parse hparse).allNumbers (by decide) fun token ht => ?_
  exact hword token ((List.takeWhile_sublist _).subset ht)

end ArithAsm
