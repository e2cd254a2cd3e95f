import ArithAsm.Proofs.Token.Lexes

/-!
# The tokens of a source cover it

The tokens of a source can be read off it without a scanner: they are one number for each maximal
run of digits, one reserved token for each operator or parenthesis, and the end
(`Token.IsTokenOf`), in the order of their places.  So they lie in the source without overlap, each
where its text stands, and leave out nothing but layout (`Token.Covers`).  The main statement is
`tokenize_iff_covers`: a source has tokens exactly if it is lexable, and its tokens are the one list
that covers it.
-/

namespace ArithAsm

namespace Token

/-- The token can be read off the characters, which stand behind `n` others. -/
inductive IsTokenOf (n : Nat) (cs : List Char) : Token → Prop
  | number {front run back : List Char} (h : IsDigitRun cs front run back) :
      IsTokenOf n cs (ofRun run (n + front.length))
  | symbol {front back : List Char} {c : Char} (hsplit : cs = front ++ c :: back)
      (hc : c ∈ symbols) : IsTokenOf n cs (ofSymbol c (n + front.length))
  | stop : IsTokenOf n cs (stop (n + cs.length))

/-- The text of the token has a character in common with `k` characters behind `n` others. -/
def Meets (t : Token) (n k : Nat) : Prop :=
  t.position < n + k ∧ n < t.position + t.text.length

instance (t : Token) (n k : Nat) : Decidable (t.Meets n k) :=
  inferInstanceAs (Decidable (_ ∧ _))

/-- The tokens that lie over `k` characters behind `n` others. -/
def meeting (ts : List Token) (n k : Nat) : List Token :=
  ts.filter fun t => t.Meets n k

/-- **The tokens cover the characters exactly.** -/
structure Covers (cs : List Char) (ts : List Token) : Prop where
  /-- The tokens are all that can be read off the characters. -/
  mem_iff : ∀ t, t ∈ ts ↔ IsTokenOf 0 cs t
  /-- The last token, and no other, is the end of the input. -/
  ends : ∃ front, ts = front ++ [stop cs.length] ∧ ∀ t ∈ front, t.isStop = false
  increasing : ts.Pairwise fun t u : Token => t.position < u.position
  apart : ts.Pairwise fun t u : Token => t.position + t.text.length ≤ u.position
  /-- A token stands where its position says. -/
  text : ∀ t ∈ ts, ∃ n : Nat, t.position = n ∧
    (cs.drop n).take t.text.length = t.text.toList
  /-- The characters that no token lies over are the layout. -/
  layout_iff : ∀ front c back, cs = front ++ c :: back →
    (meeting ts front.length 1 = [] ↔ c ∈ layout)
  /-- A maximal run of digits is one number and nothing else. -/
  run : ∀ front run back, IsDigitRun cs front run back →
    meeting ts front.length run.length = [ofRun run front.length]
  /-- An operator or a parenthesis is one reserved token and nothing else. -/
  symbol : ∀ front c back, cs = front ++ c :: back → c ∈ symbols →
    meeting ts front.length 1 = [ofSymbol c front.length]

variable {n : Nat} {cs run back : List Char} {ts : List Token} {t : Token} {c : Char}

/-! ### What can be read off some characters -/

theorem add_length_cons (n : Nat) (c : Char) (front : List Char) :
    n + (c :: front).length = n + 1 + front.length := by
  rw [List.length_cons]
  omega

theorem add_length_append (n : Nat) (run front : List Char) :
    n + (run ++ front).length = n + run.length + front.length := by
  rw [List.length_append]
  omega

namespace IsTokenOf

theorem nil_iff : IsTokenOf n [] t ↔ t = Token.stop n := by
  constructor
  · intro h
    cases h with
    | number hrun =>
      obtain ⟨-, hnil⟩ := List.append_eq_nil_iff.mp hrun.split.symm
      exact absurd (List.append_eq_nil_iff.mp hnil).1 hrun.nonempty
    | symbol hsplit hc => simp at hsplit
    | stop => rfl
  · rintro rfl
    exact .stop

theorem cons_iff (hc : c.isDigit = false) : IsTokenOf n (c :: cs) t ↔
    (c ∈ symbols ∧ t = ofSymbol c n) ∨ IsTokenOf (n + 1) cs t := by
  constructor
  · intro h
    cases h with
    | number hrun =>
      obtain ⟨front, rfl, hrest⟩ := (IsDigitRun.cons_iff hc).mp hrun
      rw [add_length_cons]
      exact Or.inr (.number hrest)
    | @symbol front back d hsplit hd =>
      rcases front with _ | ⟨e, front⟩
      · obtain ⟨rfl, -⟩ := List.cons.inj hsplit
        exact Or.inl ⟨hd, rfl⟩
      · obtain ⟨-, hsplit⟩ := List.cons.inj hsplit
        rw [add_length_cons]
        exact Or.inr (.symbol hsplit hd)
    | stop =>
      rw [add_length_cons]
      exact Or.inr .stop
  · rintro (⟨hsymbol, rfl⟩ | h)
    · exact @symbol n (c :: cs) [] cs c rfl hsymbol
    · cases h with
      | @number front run back hrun =>
        rw [← add_length_cons n c front]
        exact .number ((IsDigitRun.cons_iff hc).mpr ⟨front, rfl, hrun⟩)
      | @symbol front back d hsplit hd =>
        rw [← add_length_cons n c front]
        exact .symbol (congrArg (c :: ·) hsplit) hd
      | stop =>
        rw [← add_length_cons]
        exact .stop

theorem run_iff (hrun : IsDigitRun cs [] run back) : IsTokenOf n cs t ↔
    t = ofRun run n ∨ IsTokenOf (n + run.length) back t := by
  have hsplit : cs = run ++ back := hrun.split
  constructor
  · intro h
    cases h with
    | number hrun' =>
      rcases hrun.iff_of_start.mp hrun' with ⟨rfl, rfl, -⟩ | ⟨front, rfl, hrest⟩
      · exact Or.inl rfl
      · rw [add_length_append]
        exact Or.inr (.number hrest)
    | @symbol front back' d hsplit' hd =>
      rcases List.append_eq_append_iff.mp (hsplit.symm.trans hsplit') with
        ⟨a, rfl, hback⟩ | ⟨a, rfl, ha⟩
      · rw [add_length_append]
        exact Or.inr (.symbol hback hd)
      · -- a character within the run is no symbol
        rcases a with _ | ⟨e, a⟩
        · rw [List.append_nil]
          exact Or.inr (@symbol _ _ [] _ _ ha.symm hd)
        · obtain ⟨rfl, -⟩ := List.cons.inj ha
          have hdigit := hrun.digits d (by simp)
          rw [isDigit_of_symbols hd] at hdigit
          cases hdigit
    | stop =>
      rw [hsplit, add_length_append]
      exact Or.inr .stop
  · rintro (rfl | h)
    · exact .number hrun
    · cases h with
      | @number front run' back' hrun' =>
        rw [← add_length_append n run front]
        exact .number (hrun.iff_of_start.mpr (Or.inr ⟨front, rfl, hrun'⟩))
      | @symbol front back' d hsplit' hd =>
        rw [← add_length_append n run front]
        exact .symbol (by rw [hsplit, hsplit', List.append_assoc]) hd
      | stop =>
        rw [← add_length_append, ← hsplit]
        exact .stop

theorem le_position (h : IsTokenOf n cs t) : n ≤ t.position := by
  cases h with
  | number hrun => exact Int.ofNat_le.mpr (Nat.le_add_right _ _)
  | symbol hsplit hc => exact Int.ofNat_le.mpr (Nat.le_add_right _ _)
  | stop => exact Int.ofNat_le.mpr (Nat.le_add_right _ _)

theorem position_le (h : IsTokenOf n cs t) : t.position ≤ n + cs.length := by
  cases h with
  | @number front run back hrun =>
    have hlength := congrArg List.length hrun.split
    rw [List.length_append] at hlength
    simp only [ofRun]
    omega
  | @symbol front back c hsplit hc =>
    have hlength := congrArg List.length hsplit
    rw [List.length_append] at hlength
    simp only [ofSymbol]
    omega
  | stop =>
    simp only [Token.stop]
    omega

theorem text (h : IsTokenOf 0 cs t) :
    ∃ n : Nat, t.position = n ∧ (cs.drop n).take t.text.length = t.text.toList := by
  cases h with
  | @number front run back hrun =>
    refine ⟨front.length, by simp [ofRun], ?_⟩
    rw [hrun.split, List.drop_left]
    simp [ofRun]
  | @symbol front back c hsplit hc =>
    refine ⟨front.length, by simp [ofSymbol], ?_⟩
    rw [hsplit, List.drop_left]
    simp [ofSymbol]
  | stop => exact ⟨cs.length, by simp [Token.stop], by simp [Token.stop]⟩

end IsTokenOf

/-! ### The tokens in their order -/

/-- The token `t` stands before `u`, and their texts do not overlap. -/
def Before (t u : Token) : Prop :=
  t.position < u.position ∧ t.position + t.text.length ≤ u.position

namespace Lexes

/-- **The tokens are what can be read off the characters.** -/
theorem mem_iff (h : Lexes n cs ts) : t ∈ ts ↔ IsTokenOf n cs t := by
  induction h with
  | stop n => rw [IsTokenOf.nil_iff, List.mem_singleton]
  | layout hc _ ih =>
    rw [IsTokenOf.cons_iff (isDigit_of_layout hc), ih]
    exact ⟨Or.inr, fun h => h.resolve_left fun hs => not_mem_layout_of_symbols hs.1 hc⟩
  | symbol hc _ ih =>
    rw [IsTokenOf.cons_iff (isDigit_of_symbols hc), ← ih, List.mem_cons]
    exact or_congr_left ⟨fun ht => ⟨hc, ht⟩, fun ht => ht.2⟩
  | number hrun _ _ ih => rw [IsTokenOf.run_iff hrun, ← ih, List.mem_cons]

theorem le_position (h : Lexes n cs ts) (ht : t ∈ ts) : n ≤ t.position :=
  (h.mem_iff.mp ht).le_position

/-- **The tokens stand one behind the other.** -/
theorem pairwise_before (h : Lexes n cs ts) : ts.Pairwise Before := by
  induction h with
  | stop n => exact List.pairwise_singleton _ _
  | layout _ _ ih => exact ih
  | @symbol n c cs ts hc hlexes ih =>
    refine List.pairwise_cons.mpr ⟨fun u hu => ?_, ih⟩
    have hle := hlexes.le_position hu
    have hlength : (ofSymbol c n).text.length = 1 := by simp [ofSymbol]
    have hposition : (ofSymbol c n).position = n := rfl
    unfold Before
    omega
  | @number n cs run back ts hrun hlimits hlexes ih =>
    refine List.pairwise_cons.mpr ⟨fun u hu => ?_, ih⟩
    have hle := hlexes.le_position hu
    have hlength : (ofRun run n).text.length = run.length := by simp [ofRun]
    have hposition : (ofRun run n).position = n := rfl
    have hpos : 0 < run.length := List.length_pos_iff.mpr hrun.nonempty
    unfold Before
    omega

theorem ends (h : Lexes n cs ts) :
    ∃ front, ts = front ++ [Token.stop (n + cs.length)] ∧ ∀ t ∈ front, t.isStop = false := by
  induction h with
  | stop n => exact ⟨[], rfl, nofun⟩
  | @layout n c cs ts _ _ ih =>
    rw [add_length_cons]
    exact ih
  | @symbol n c cs ts _ _ ih =>
    obtain ⟨front, hts, hfront⟩ := ih
    rw [add_length_cons, hts]
    exact ⟨ofSymbol c n :: front, rfl, List.forall_mem_cons.mpr ⟨rfl, hfront⟩⟩
  | @number n cs run back ts hrun _ _ ih =>
    obtain ⟨front, hts, hfront⟩ := ih
    rw [show cs = run ++ back from hrun.split, add_length_append, hts]
    exact ⟨ofRun run n :: front, rfl, List.forall_mem_cons.mpr ⟨rfl, hfront⟩⟩

theorem layout_or_meets (h : Lexes n cs ts) {front : List Char} (hcs : cs = front ++ c :: back) :
    c ∈ Token.layout ∨ ∃ t ∈ ts, t.Meets (n + front.length) 1 := by
  induction h generalizing front with
  | stop n => simp at hcs
  | @layout n d cs ts hd _ ih =>
    rcases front with _ | ⟨e, front⟩
    · obtain ⟨rfl, -⟩ := List.cons.inj hcs
      exact Or.inl hd
    · obtain ⟨-, hcs⟩ := List.cons.inj hcs
      rw [add_length_cons]
      exact ih hcs
  | @symbol n d cs ts hd _ ih =>
    rcases front with _ | ⟨e, front⟩
    · refine Or.inr ⟨_, List.mem_cons_self, ?_⟩
      simp only [Meets, ofSymbol, String.length_singleton, List.length_nil]
      omega
    · obtain ⟨-, hcs⟩ := List.cons.inj hcs
      rw [add_length_cons]
      exact (ih hcs).imp_right fun ⟨t, ht, hmeets⟩ => ⟨t, List.mem_cons_of_mem _ ht, hmeets⟩
  | @number n cs run back' ts hrun _ _ ih =>
    have hsplit : cs = run ++ back' := hrun.split
    rcases List.append_eq_append_iff.mp (hsplit.symm.trans hcs) with ⟨a, rfl, hback⟩ | ⟨a, rfl, ha⟩
    · rw [add_length_append]
      exact (ih hback).imp_right fun ⟨t, ht, hmeets⟩ => ⟨t, List.mem_cons_of_mem _ ht, hmeets⟩
    · rcases a with _ | ⟨d, a⟩
      · have hback : back' = [] ++ c :: back := ha.symm
        have h := ih hback
        rw [List.append_nil] at h
        exact h.imp_right fun ⟨t, ht, hmeets⟩ => ⟨t, List.mem_cons_of_mem _ ht, hmeets⟩
      · refine Or.inr ⟨_, List.mem_cons_self, ?_⟩
        simp only [Meets, ofRun, String.length_ofList, List.length_append, List.length_cons]
        omega

end Lexes

/-! ### The tokens over a part of the characters -/

theorem meeting_eq_singleton (hbefore : ts.Pairwise Before) (ht : t ∈ ts) {k : Nat}
    (hn : t.position = n) (hk : t.text.length = k) (hpos : 0 < k) : meeting ts n k = [t] := by
  obtain ⟨a, b, rfl⟩ := List.append_of_mem ht
  obtain ⟨-, hb, ha⟩ := List.pairwise_append.mp hbefore
  have hself : t.Meets n k := by
    unfold Meets
    omega
  have hfront : a.filter (fun u => u.Meets n k) = [] := by
    refine List.filter_eq_nil_iff.mpr fun u hu => ?_
    have hu := ha u hu t List.mem_cons_self
    rw [decide_eq_true_eq]
    unfold Before at hu
    unfold Meets
    omega
  have hback : b.filter (fun u => u.Meets n k) = [] := by
    refine List.filter_eq_nil_iff.mpr fun u hu => ?_
    have hu := (List.pairwise_cons.mp hb).1 u hu
    rw [decide_eq_true_eq]
    unfold Before at hu
    unfold Meets
    omega
  rw [meeting, List.filter_append, hfront, List.filter_cons_of_pos (by simpa using hself), hback,
    List.nil_append]

namespace IsTokenOf

theorem not_mem_layout (h : IsTokenOf n cs t) : ∀ c ∈ t.text.toList, c ∉ layout := by
  intro c hc
  cases h with
  | number hrun =>
    rw [ofRun, String.toList_ofList] at hc
    exact fun hmem => not_isDigit_of_layout hmem (hrun.digits c hc)
  | symbol hsplit hd =>
    rw [ofSymbol, String.toList_singleton, List.mem_singleton] at hc
    exact hc ▸ not_mem_layout_of_symbols hd
  | stop => cases hc

theorem mem_text (h : IsTokenOf 0 cs t) {front : List Char} (hcs : cs = front ++ c :: back)
    (hmeets : t.Meets front.length 1) : c ∈ t.text.toList := by
  obtain ⟨m, hm, htext⟩ := h.text
  unfold Meets at hmeets
  rw [← htext, List.mem_iff_getElem?]
  refine ⟨front.length - m, ?_⟩
  rw [List.getElem?_take_of_lt (by omega), List.getElem?_drop,
    show m + (front.length - m) = front.length by omega, hcs, List.getElem?_append_right le_rfl,
    Nat.sub_self]
  rfl

end IsTokenOf

/-- **The tokens cover the characters.** -/
theorem Lexes.covers (h : Lexes 0 cs ts) : Covers cs ts := by
  have hbefore := h.pairwise_before
  have hsymbol {front back : List Char} {c : Char} (hcs : cs = front ++ c :: back)
      (hc : c ∈ symbols) : meeting ts front.length 1 = [ofSymbol c front.length] := by
    have hmem := h.mem_iff.mpr (.symbol hcs hc)
    rw [Nat.zero_add] at hmem
    exact meeting_eq_singleton hbefore hmem rfl (by simp [ofSymbol]) Nat.one_pos
  refine ⟨fun t => h.mem_iff, ?_, hbefore.imp And.left, hbefore.imp And.right,
    fun t ht => (h.mem_iff.mp ht).text, ?_, ?_, fun front c back => hsymbol⟩
  · have hends := h.ends
    rwa [Nat.zero_add] at hends
  · intro front c back hcs
    constructor
    · intro hnone
      refine (h.layout_or_meets hcs).resolve_right fun ⟨t, ht, hmeets⟩ => ?_
      rw [Nat.zero_add] at hmeets
      exact List.filter_eq_nil_iff.mp hnone t ht (by simpa using hmeets)
    · intro hlayout
      refine List.filter_eq_nil_iff.mpr fun t ht hmeets => ?_
      have ht := h.mem_iff.mp ht
      exact ht.not_mem_layout c (ht.mem_text hcs (by simpa using hmeets)) hlayout
  · intro front run back hrun
    have hmem := h.mem_iff.mpr (.number hrun)
    rw [Nat.zero_add] at hmem
    exact meeting_eq_singleton hbefore hmem rfl (by simp [ofRun])
      (List.length_pos_iff.mpr hrun.nonempty)

/-- **Characters are covered by one list of tokens only.** -/
theorem Covers.unique {us : List Token} (h : Covers cs ts) (h' : Covers cs us) : ts = us := by
  have hnodup {vs : List Token} (hvs : Covers cs vs) : vs.Nodup :=
    hvs.increasing.imp fun hlt heq => absurd (congrArg Token.position heq) (Int.ne_of_lt hlt)
  have hperm : ts.Perm us := by
    refine (List.perm_ext_iff_of_nodup (hnodup h) (hnodup h')).mpr fun t => ?_
    rw [h.mem_iff, h'.mem_iff]
  exact hperm.eq_of_pairwise (fun t u _ _ htu hut => absurd htu (Int.lt_asymm hut)) h.increasing
    h'.increasing

end Token

/-- **The tokens of a source are an exact cover of it.**  A source has tokens exactly if it is
lexable, and then they are the one list that covers it. -/
theorem tokenize_iff_covers (source : String) :
    ((∃ ts, tokenize source = .ok ts) ↔ Token.Lexable source.toList) ∧
      ∀ ts, tokenize source = .ok ts ↔
        Token.Lexable source.toList ∧ Token.Covers source.toList ts := by
  have hexists : (∃ ts, tokenize source = .ok ts) ↔ Token.Lexable source.toList := by
    simp only [tokenize_eq_ok_iff_lexes, Token.exists_lexes_iff]
  refine ⟨hexists, fun ts => ⟨fun h => ⟨hexists.mp ⟨ts, h⟩, ?_⟩, ?_⟩⟩
  · exact (tokenize_eq_ok_iff_lexes.mp h).covers
  · rintro ⟨hlexable, hcovers⟩
    obtain ⟨us, hus⟩ := hexists.mpr hlexable
    rw [hus, hcovers.unique (tokenize_eq_ok_iff_lexes.mp hus).covers]

/-- Zeros in front belong to a number, and layout to nothing. -/
example : tokenize "07 *(5" = .ok [⟨.number 7, "07", 0⟩, .ofSymbol '*' 3, .ofSymbol '(' 4,
    ⟨.number 5, "5", 5⟩, .stop 6] := by
  cbv

end ArithAsm
