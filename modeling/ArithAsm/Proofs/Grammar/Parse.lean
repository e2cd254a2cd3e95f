import ArithAsm.Proofs.Grammar.Complete
import ArithAsm.Proofs.Grammar.Local
import ArithAsm.Proofs.Grammar.Sound
import ArithAsm.Proofs.Result

/-!
# The parser and its grammar

`parse_iff_phrase` says that the parser succeeds on the expressions of the grammar, gives the tree
of the one derivation of each, and fails for want of a token on everything else.
`parse_error_viable` says that it fails at the first token that cannot be right: the tokens before
it can be completed to an expression, and together with it they cannot.
-/

namespace ArithAsm

open Rule

/-! ### The end of the input -/

namespace Token

variable {ts front rest : List Token}

theorem beforeStop_append (hfront : ∀ t ∈ front, t.isStop = false)
    (hrest : (ahead rest).isStop = true) : beforeStop (front ++ rest) = front := by
  unfold beforeStop
  rw [List.takeWhile_append_of_pos (by simpa using hfront)]
  cases rest with
  | nil => simp
  | cons t rest =>
    have ht : t.isStop = true := hrest
    simp [ht]

theorem length_le_beforeStop (hfront : ∀ t ∈ front, t.isStop = false) (rest : List Token) :
    front.length ≤ (beforeStop (front ++ rest)).length := by
  unfold beforeStop
  rw [List.takeWhile_append_of_pos (by simpa using hfront), List.length_append]
  exact Nat.le_add_right _ _

theorem exists_eq_beforeStop {last : Token} (hlast : ts.getLast? = some last)
    (hstop : last.isStop = true) :
    ∃ stop rest, ts = beforeStop ts ++ stop :: rest ∧ stop.isStop = true := by
  have hsplit := List.takeWhile_append_dropWhile (p := fun t : Token => !t.isStop) (l := ts)
  cases hd : ts.dropWhile fun t => !t.isStop with
  | nil =>
    have hmem := List.mem_of_getLast? hlast
    rw [hd, List.append_nil] at hsplit
    rw [← hsplit] at hmem
    have hnot := List.all_eq_true.mp List.all_takeWhile last hmem
    simp [hstop] at hnot
  | cons stop rest =>
    have hhead := List.head?_dropWhile_not (fun t : Token => !t.isStop) ts
    rw [hd] at hhead hsplit
    exact ⟨stop, rest, hsplit.symm, by simpa using hhead⟩

end Token

/-! ### A whole expression -/

theorem Rule.faithful_whole (limit : Nat) (ts : List Token) :
    Faithful (limit + 1) (Derives .sum) ts (whole limit ts) := by
  refine (faithful_sum (faithful_nested limit) ts).bind (fun front rest t _ ht => ?_)
    fun front t ht => ⟨[], t, by rwa [List.append_nil]⟩
  rw [bind_of_ok (atStop_apply rest)]
  cases hstop : (Token.ahead rest).isStop
  · exact Faithful.missing [] (by rwa [List.append_nil])
  · exact Faithful.ok [] rest (by rwa [List.append_nil])

theorem Rule.isStop_of_whole {limit k : Nat} {ts : List Token} {t : Tree}
    (h : whole limit ts = ⟨k, .ok t⟩) : (Token.ahead (ts.drop k)).isStop = true := by
  rcases hr : Level.sum.rule limit ts with ⟨k', e | u⟩
  · rw [whole_of_error hr] at h
    cases h
  · rw [whole_of_ok hr] at h
    split at h
    · cases h
      assumption
    · cases h

theorem Token.lt_deepest {limit : Nat} {front : List Token}
    (h : ∀ opened, opened + (limit + 1) ≤ deepest opened front) (rest : List Token) :
    limit < deepest 0 (front ++ rest) := by
  have hfront := h 0
  have happend := deepest_le_append 0 front rest
  omega

theorem Rule.whole_cases {limit : Nat} {ts : List Token}
    (hdepth : Token.deepest 0 ts ≤ limit) :
    (∃ front rest t, ts = front ++ rest ∧ Derives .sum front t ∧
      whole limit ts = ⟨front.length, .ok t⟩) ∨
    ∃ front rest missing t what, ts = front ++ rest ∧ Derives .sum (front ++ missing) t ∧
      whole limit ts = ⟨front.length, .error (.expected what (Token.ahead rest))⟩ := by
  have hfaithful := faithful_whole limit ts
  generalize hr : whole limit ts = r at hfaithful ⊢
  cases hfaithful with
  | ok front rest h => exact Or.inl ⟨front, rest, _, rfl, h, rfl⟩
  | expected front rest missing h => exact Or.inr ⟨front, rest, missing, _, _, rfl, h, rfl⟩
  | tooDeep front rest h =>
    have hlt := Token.lt_deepest h rest
    omega

theorem Rule.whole_ne_tooDeep {limit : Nat} {ts : List Token}
    (hdepth : Token.deepest 0 ts ≤ limit) : (whole limit ts).result ≠ .error .tooDeep := by
  rcases whole_cases hdepth with
    ⟨front, rest, t, -, -, hr⟩ | ⟨front, rest, missing, t, what, -, -, hr⟩
  · rw [hr]
    exact nofun
  · rw [hr]
    exact nofun

theorem Cursor.ofTokens_eq_ok_iff {ts : List Token} {c : Cursor} : ofTokens ts = .ok c ↔
    ∃ last, ts.getLast? = some last ∧ last.isStop = true ∧ c = ⟨ts, 0⟩ := by
  rw [ofTokens]
  constructor
  · intro h
    rcases hlast : ts.getLast? with _ | last <;> rw [hlast] at h
    · cases h
    · simp only at h
      split at h
      · exact ⟨last, rfl, ‹_›, (Except.ok.inj h).symm⟩
      · cases h
  · rintro ⟨last, hlast, hstop, rfl⟩
    rw [hlast]
    exact if_pos hstop

theorem Cursor.ofTokens_of_stop {ts : List Token} {last : Token} (hlast : ts.getLast? = some last)
    (hstop : last.isStop = true) : Cursor.ofTokens ts = .ok ⟨ts, 0⟩ :=
  ofTokens_eq_ok_iff.mpr ⟨last, hlast, hstop, rfl⟩

theorem parse_eq {limit : Nat} {ts : List Token} {last : Token}
    (hlast : ts.getLast? = some last) (hstop : last.isStop = true) :
    parse limit ts = (whole limit ts).result := by
  rw [parse, Cursor.ofTokens_of_stop hlast hstop]
  rfl

theorem exists_getLast?_of_parse {limit : Nat} {ts : List Token} {t : Tree}
    (h : parse limit ts = .ok t) : ∃ last, ts.getLast? = some last ∧ last.isStop = true := by
  obtain ⟨c, hc, -⟩ := bind_eq_ok_iff.mp h
  obtain ⟨last, hlast, hstop, -⟩ := Cursor.ofTokens_eq_ok_iff.mp hc
  exact ⟨last, hlast, hstop⟩

/-! ### Which tokens have a tree -/

section Parse

variable {limit : Nat} {ts : List Token} {last : Token} {t : Tree}

/-- **A tree is only given for an expression,** whatever the limit. -/
theorem derives_of_parse (h : parse limit ts = .ok t) :
    Derives .sum (Token.beforeStop ts) t := by
  obtain ⟨last, hlast, hstop⟩ := exists_getLast?_of_parse h
  rw [parse_eq hlast hstop] at h
  have hfaithful := faithful_whole limit ts
  generalize hr : whole limit ts = r at h hfaithful
  cases hfaithful with
  | @ok front rest u hu =>
    obtain rfl : u = t := Except.ok.inj h
    have hrest := isStop_of_whole hr
    rw [List.drop_left] at hrest
    rwa [Token.beforeStop_append (fun _ => hu.isStop_eq_false) hrest]
  | expected => cases h
  | tooDeep => cases h

/-- **Every expression within the limit has its tree.** -/
theorem parse_eq_ok_iff (hlast : ts.getLast? = some last) (hstop : last.isStop = true)
    (hdepth : Token.deepest 0 ts ≤ limit) :
    parse limit ts = .ok t ↔ Derives .sum (Token.beforeStop ts) t := by
  refine ⟨derives_of_parse, fun h => ?_⟩
  obtain ⟨stop, rest, hts, hs⟩ := Token.exists_eq_beforeStop hlast hstop
  have hreads := h.reads_whole hs rest limit
  rw [← hts] at hreads
  rw [parse_eq hlast hstop, hreads.resolve_left (whole_ne_tooDeep hdepth)]

/-- **The errors of the parser:** more parentheses are open than it can keep track of, or it needs
another token than the one it has stopped at. -/
theorem parse_error_cases (hlast : ts.getLast? = some last) (hstop : last.isStop = true)
    {e : ParseError} (h : parse limit ts = .error e) :
    (e = .tooDeep ∧ limit < Token.deepest 0 ts) ∨
      ∃ what found, e = .expected what found ∧
        ts[(whole limit ts).consumed]? = some found := by
  rw [parse_eq hlast hstop] at h
  have hfaithful := faithful_whole limit ts
  generalize whole limit ts = r at h hfaithful ⊢
  cases hfaithful with
  | ok => cases h
  | tooDeep front rest hdeep =>
    exact Or.inl ⟨(Except.error.inj h).symm, Token.lt_deepest hdeep rest⟩
  | @expected front rest missing t what hphrase =>
    cases rest with
    | nil =>
      -- the end of the input would be in a phrase
      have hmem := List.mem_of_getLast? hlast
      rw [List.append_nil] at hmem
      have hnot := hphrase.isStop_eq_false (List.mem_append_left missing hmem)
      exact absurd hstop (Bool.eq_false_iff.mp hnot)
    | cons found rest => exact Or.inr ⟨what, found, (Except.error.inj h).symm, by simp⟩

theorem exists_expected_of_parse (hlast : ts.getLast? = some last) (hstop : last.isStop = true)
    (hdepth : Token.deepest 0 ts ≤ limit) {e : ParseError} (h : parse limit ts = .error e) :
    ∃ what found, e = .expected what found := by
  rcases parse_error_cases hlast hstop h with ⟨-, hdeep⟩ | ⟨what, found, he, -⟩
  · omega
  · exact ⟨what, found, he⟩

theorem consumed_whole_le (hdepth : Token.deepest 0 ts ≤ limit) :
    (whole limit ts).consumed ≤ (Token.beforeStop ts).length := by
  rcases whole_cases hdepth with
    ⟨front, rest, t, rfl, h, hr⟩ | ⟨front, rest, missing, t, what, rfl, h, hr⟩
  · rw [hr]
    exact Token.length_le_beforeStop (fun _ => h.isStop_eq_false) rest
  · rw [hr]
    refine Token.length_le_beforeStop (fun _ hmem => h.isStop_eq_false ?_) rest
    exact List.mem_append_left missing hmem

theorem parse_eq_of_take (hlast : ts.getLast? = some last) (hstop : last.isStop = true)
    (hdepth : Token.deepest 0 ts ≤ limit) {us : List Token} {last' : Token}
    (hlast' : us.getLast? = some last') (hstop' : last'.isStop = true)
    (htake : us.take ((Token.beforeStop ts).length + 1)
      = ts.take ((Token.beforeStop ts).length + 1)) : parse limit us = parse limit ts := by
  have hwhole : whole limit us = whole limit ts :=
    (local_whole limit ts).eq_of_take (Nat.lt_succ_of_le (consumed_whole_le hdepth)) htake
  rw [parse_eq hlast hstop, parse_eq hlast' hstop', hwhole]

end Parse

theorem not_isSentence_of_text {ts : List Token} {token : Token} (hmem : token ∈ ts)
    (hkind : token.kind = .reserved) (ho : token.text ≠ "(") (hc : token.text ≠ ")")
    (hop : ∀ op : Operator, token.text ≠ String.singleton op.symbol) : ¬ IsSentence ts := by
  rintro ⟨t, h⟩
  obtain ⟨p, rfl, -⟩ := Phrase.derives_iff.mp h
  rcases p.token_cases hmem with ⟨v, hv⟩ | h | h | ⟨op, h⟩
  · rw [hkind] at hv
    cases hv
  · exact ho (Token.isReserved_iff.mp h).2
  · exact hc (Token.isReserved_iff.mp h).2
  · exact hop op (Token.isReserved_iff.mp h).2

/-- **The parser reads the expressions of the grammar,** if no more parentheses are open than its
limit allows.  It succeeds on the tokens that have a derivation up to the first end of the input,
which is then the only one, and gives its tree.  On all others it fails for want of a token. -/
theorem parse_iff_phrase {limit : Nat} {ts : List Token} {last : Token}
    (hlast : ts.getLast? = some last) (hstop : last.isStop = true)
    (hdepth : Token.deepest 0 ts ≤ limit) :
    (∀ t, parse limit ts = .ok t ↔ ∃ p : Phrase .sum, p.tokens = Token.beforeStop ts ∧
      (∀ q : Phrase .sum, q.tokens = Token.beforeStop ts → q = p) ∧ p.tree = t) ∧
    ((∃ t, parse limit ts = .ok t) ↔ IsSentence (Token.beforeStop ts)) ∧
    (¬ IsSentence (Token.beforeStop ts) →
      ∃ what found, parse limit ts = .error (.expected what found)) ∧
    (∀ token ∈ Token.beforeStop ts, token.kind = .reserved → token.text ≠ "(" →
      token.text ≠ ")" → (∀ op : Operator, token.text ≠ String.singleton op.symbol) →
      ¬ IsSentence (Token.beforeStop ts)) ∧
    ∀ us last', us.getLast? = some last' → last'.isStop = true →
      us.take ((Token.beforeStop ts).length + 1) = ts.take ((Token.beforeStop ts).length + 1) →
      parse limit us = parse limit ts := by
  have hiff {t : Tree} := parse_eq_ok_iff (t := t) hlast hstop hdepth
  refine ⟨fun t => ?_, exists_congr fun t => hiff, fun hnot => ?_, ?_, ?_⟩
  · rw [hiff, Phrase.derives_iff]
    constructor
    · rintro ⟨p, hp, rfl⟩
      exact ⟨p, hp, fun q hq => Phrase.eq_of_tokens (hq.trans hp.symm), rfl⟩
    · rintro ⟨p, hp, -, rfl⟩
      exact ⟨p, hp, rfl⟩
  · rcases hp : parse limit ts with e | t
    · obtain ⟨what, found, rfl⟩ := exists_expected_of_parse hlast hstop hdepth hp
      exact ⟨what, found, rfl⟩
    · exact absurd ⟨t, hiff.mp hp⟩ hnot
  · exact fun token hmem hkind ho hc hop => not_isSentence_of_text hmem hkind ho hc hop
  · exact fun us last' hlast' hstop' htake =>
      parse_eq_of_take hlast hstop hdepth hlast' hstop' htake

/-- A difference, with tokens behind the end of the input. -/
theorem parse_iff_phrase_difference :
    let ts : List Token := [⟨.number 1, "1", 0⟩, .ofSymbol '-' 1, ⟨.number 2, "2", 2⟩, .stop 3,
      .ofSymbol ')' 4, .stop 5]
    ts.getLast? = some (.stop 5) ∧ (Token.stop 5).isStop = true ∧ Token.deepest 0 ts ≤ 120 ∧
      parse 120 ts = .ok (.node .sub (.number 1 (some 0)) (.number 2 (some 2)) (some 1)) := by
  intro ts
  have hdepth : Token.deepest 0 ts ≤ 120 := by decide
  let one : Phrase .product := .single .product (.unsigned (.number ⟨.number 1, "1", 0⟩ 1 rfl))
  let two : Phrase .product := .single .product (.unsigned (.number ⟨.number 2, "2", 2⟩ 2 rfl))
  let difference : Phrase .sum :=
    .joined .sum one .sub (by decide) (.ofSymbol '-' 1) (by decide) (.single .sum two)
  have hlast : ts.getLast? = some (.stop 5) := rfl
  have htokens : difference.tokens = Token.beforeStop ts := rfl
  have hunique : ∀ q : Phrase .sum, q.tokens = Token.beforeStop ts → q = difference :=
    fun q hq => Phrase.eq_of_tokens (hq.trans htokens.symm)
  have hparse := (parse_iff_phrase hlast rfl hdepth).1
  exact ⟨rfl, rfl, hdepth, (hparse _).mpr ⟨difference, htokens, hunique, rfl⟩⟩

/-! ### Where the parser fails -/

section Failure

variable {limit : Nat} {taken rest : List Token} {found : Token} {e : ParseError}

/-- No expression begins with the tokens up to the one a rule has failed at. -/
theorem not_isSentence_of_whole
    (h : whole limit (taken ++ found :: rest) = ⟨taken.length, .error e⟩) (he : e ≠ .tooDeep)
    (more : List Token) : ¬ IsSentence (taken ++ found :: more) := by
  rintro ⟨t, ht⟩
  -- up to the token found, the completed tokens are those the rule has failed on
  have hsame : whole limit (taken ++ found :: more ++ [.stop 0])
      = whole limit (taken ++ found :: rest) := by
    refine local_whole limit _ _ ?_
    rw [h]
    simp [List.take_append]
  have hstop : (Token.stop 0).isStop = true := rfl
  have hreads := ht.reads_whole hstop [] limit
  rw [hsame, h] at hreads
  rcases hreads with hdeep | hok
  · exact he (Except.error.inj hdeep)
  · cases congrArg Reading.result hok

theorem not_isSentence_of_stop
    (h : whole limit (taken ++ found :: rest) = ⟨taken.length, .error e⟩) (he : e ≠ .tooDeep)
    (hstop : found.isStop = true) : ¬ IsSentence taken := by
  rintro ⟨t, ht⟩
  have hreads := ht.reads_whole hstop rest limit
  rw [h] at hreads
  rcases hreads with hdeep | hok
  · exact he (Except.error.inj hdeep)
  · cases congrArg Reading.result hok

end Failure

/-- **The parser fails at the first token that cannot be right.**  The cursor is left at the token
the error points at.  The tokens before it can be completed to an expression.  With it they cannot,
or they are not an expression yet if it is the end of the input. -/
theorem parse_error_viable {limit : Nat} {ts : List Token} {last : Token} {e : ParseError}
    {c : Cursor}
    (hlast : ts.getLast? = some last) (hstop : last.isStop = true)
    (hdepth : Token.deepest 0 ts ≤ limit)
    (h : Cursor.run (whole limit) ⟨ts, 0⟩ = (.error e, c)) :
    parse limit ts = .error e ∧ ∃ found, ts[c.index]? = some found ∧
      e.position? = some found.position ∧
      (∃ more, IsSentence (ts.take c.index ++ more)) ∧
      (found.isStop = false → ∀ more, ¬ IsSentence (ts.take (c.index + 1) ++ more)) ∧
      (found.isStop = true → ¬ IsSentence (ts.take c.index)) := by
  simp only [Cursor.run, List.drop_zero, Prod.mk.injEq] at h
  obtain ⟨he, rfl⟩ := h
  refine ⟨(parse_eq hlast hstop).trans he, ?_⟩
  rcases whole_cases hdepth with
    ⟨front, rest, t, -, -, hr⟩ | ⟨taken, rest, missing, t, what, rfl, hphrase, hr⟩
  · rw [hr] at he
    cases he
  rw [hr] at he ⊢
  obtain rfl := Except.error.inj he
  cases rest with
  | nil =>
    -- the end of the input would be in a phrase
    have hmem := List.mem_of_getLast? hlast
    rw [List.append_nil] at hmem
    have hnot := hphrase.isStop_eq_false (List.mem_append_left missing hmem)
    exact absurd hstop (Bool.eq_false_iff.mp hnot)
  | cons found rest =>
    have htake : (taken ++ found :: rest).take taken.length = taken := List.take_left
    have htake' : (taken ++ found :: rest).take (taken.length + 1) = taken ++ [found] := by
      rw [List.take_append, List.take_of_length_le (Nat.le_succ _), Nat.add_sub_cancel_left]
      rfl
    have hfound : (taken ++ found :: rest)[taken.length]? = some found := by simp
    rw [Nat.zero_add, htake, htake']
    refine ⟨found, hfound, rfl, ⟨missing, t, hphrase⟩, fun _ more => ?_, fun hs => ?_⟩
    · rw [List.append_assoc]
      exact not_isSentence_of_whole hr nofun more
    · exact not_isSentence_of_stop hr nofun hs

/-- A number where the expression should end. -/
theorem parse_error_viable_numbers :
    let ts : List Token := [⟨.number 1, "1", 0⟩, ⟨.number 2, "2", 2⟩, .stop 3]
    let e : ParseError := .expected "end of input" ⟨.number 2, "2", 2⟩
    ts.getLast? = some (.stop 3) ∧ (Token.stop 3).isStop = true ∧ Token.deepest 0 ts ≤ 120 ∧
      Cursor.run (whole 120) ⟨ts, 0⟩ = (.error e, ⟨ts, 1⟩) ∧ parse 120 ts = .error e ∧
      (∃ more, IsSentence (ts.take 1 ++ more)) ∧ ∀ more, ¬ IsSentence (ts.take 2 ++ more) := by
  intro ts e
  have hlast : ts.getLast? = some (.stop 3) := rfl
  have hdepth : Token.deepest 0 ts ≤ 120 := by decide
  have hrun : Cursor.run (whole 120) ⟨ts, 0⟩ = (.error e, ⟨ts, 1⟩) := by cbv
  obtain ⟨hparse, found, hfound, -, hviable, hnot, -⟩ :=
    parse_error_viable hlast rfl hdepth hrun
  obtain rfl : ⟨.number 2, "2", 2⟩ = found := Option.some.inj hfound
  exact ⟨rfl, rfl, hdepth, hrun, hparse, hviable, hnot rfl⟩

end ArithAsm
