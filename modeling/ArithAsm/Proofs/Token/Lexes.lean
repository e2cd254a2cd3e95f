import ArithAsm.Proofs.Token.DigitRun

/-!
# How the tokens lie in the characters of a source

`Token.Lexes n cs ts` says how some characters with `n` others before them are taken apart: they are
layout, characters that are a token by themselves, and runs of digits with no digit next to them
(`Token.IsDigitRun`).  The scanner finds this and nothing else (`tokenize_eq_ok_iff_lexes`), and
there is something to find exactly if the characters are of the alphabet and every run of digits is
within the limits of a literal (`Token.exists_lexes_iff`).
-/

namespace ArithAsm

namespace Token

/-! ### Characters and runs -/

/-- The characters that are a token by themselves. -/
def symbols : List Char :=
  ['+', '-', '*', '/', '(', ')']

/-- **A maximal run of digits:** it stands in the characters `cs` between `front` and `back`, and
neither side can make it longer. -/
structure IsDigitRun (cs front run back : List Char) : Prop where
  split : cs = front ++ (run ++ back)
  nonempty : run ≠ []
  digits : ∀ c ∈ run, c.isDigit = true
  before : ∀ c ∈ front.getLast?, c.isDigit = false
  behind : ∀ c ∈ back.head?, c.isDigit = false

theorem isSymbol_iff {c : Char} : isSymbol c = true ↔ c ∈ symbols := by
  have hop : (Operator.ofSymbol? c).isSome = true ↔ c = '+' ∨ c = '-' ∨ c = '*' ∨ c = '/' := by
    rw [Option.isSome_iff_exists]
    constructor
    · rintro ⟨op, hop⟩
      rw [Operator.ofSymbol?_eq_some_iff] at hop
      cases op <;> simp [hop, Operator.symbol]
    · rintro (rfl | rfl | rfl | rfl) <;> exact ⟨_, rfl⟩
  simp only [isSymbol, Bool.or_eq_true, decide_eq_true_eq, hop, symbols, List.mem_cons,
    List.not_mem_nil, or_false]
  constructor
  · rintro ((h | h) | h | h | h | h) <;> simp [h]
  · rintro (h | h | h | h | h | h) <;> simp [h]

theorem isDigit_of_symbols {c : Char} (h : c ∈ symbols) : c.isDigit = false := by
  have hnone : symbols.all (!·.isDigit) = true := by decide
  simpa using List.all_eq_true.mp hnone c h

theorem isDigit_of_layout {c : Char} (h : c ∈ layout) : c.isDigit = false :=
  Bool.eq_false_iff.mpr (not_isDigit_of_layout h)

theorem not_mem_layout_of_symbols {c : Char} (h : c ∈ symbols) : c ∉ layout := by
  have hnone : symbols.all (· ∉ layout) = true := by decide
  simpa using List.all_eq_true.mp hnone c h

namespace IsDigitRun

variable {cs front run back front' run' back' : List Char} {c : Char}

theorem takeWhile_eq (h : IsDigitRun cs [] run back) : cs.takeWhile Char.isDigit = run := by
  have hback : back.takeWhile Char.isDigit = [] := by
    cases back with
    | nil => rfl
    | cons c back => simp [h.behind c rfl]
  rw [h.split, List.nil_append, List.takeWhile_append_of_pos h.digits, hback, List.append_nil]

theorem unique (h : IsDigitRun cs [] run back) (h' : IsDigitRun cs [] run' back') :
    run' = run ∧ back' = back := by
  have hrun : run' = run := h'.takeWhile_eq.symm.trans h.takeWhile_eq
  refine ⟨hrun, ?_⟩
  have hsplit := h'.split.symm.trans h.split
  rw [hrun] at hsplit
  exact List.append_cancel_left hsplit

theorem of_isDigit (hc : c.isDigit = true) (cs : List Char) :
    IsDigitRun (c :: cs) [] (c :: cs.takeWhile Char.isDigit) (cs.dropWhile Char.isDigit) where
  split := by simp
  nonempty := List.cons_ne_nil _ _
  digits := List.forall_mem_cons.mpr ⟨hc, fun _ hd => List.mem_takeWhile_imp hd⟩
  before := nofun
  behind d hd := by
    have hnot := List.head?_dropWhile_not Char.isDigit cs
    rw [hd] at hnot
    simpa using hnot

theorem cons_iff (hc : c.isDigit = false) :
    IsDigitRun (c :: cs) front run back ↔
      ∃ front', front = c :: front' ∧ IsDigitRun cs front' run back := by
  constructor
  · rintro ⟨hsplit, hrun, hdigits, hbefore, hbehind⟩
    rcases front with _ | ⟨d, front'⟩
    · obtain ⟨d, run', rfl⟩ := List.exists_cons_of_ne_nil hrun
      obtain ⟨rfl, -⟩ := List.cons.inj hsplit
      have hd := hdigits c List.mem_cons_self
      rw [hc] at hd
      cases hd
    · obtain ⟨rfl, htail⟩ := List.cons.inj hsplit
      refine ⟨front', rfl, htail, hrun, hdigits, fun d hd => hbefore d ?_, hbehind⟩
      rw [List.getLast?_cons, hd]
      rfl
  · rintro ⟨front', rfl, hsplit, hrun, hdigits, hbefore, hbehind⟩
    refine ⟨congrArg (c :: ·) hsplit, hrun, hdigits, fun d hd => ?_, hbehind⟩
    rw [List.getLast?_cons] at hd
    rcases hlast : front'.getLast? with _ | e <;> rw [hlast] at hd
    · exact Option.some.inj hd ▸ hc
    · exact Option.some.inj hd ▸ hbefore e hlast

theorem iff_of_start (h : IsDigitRun cs [] run back) :
    IsDigitRun cs front run' back' ↔ (front = [] ∧ run' = run ∧ back' = back) ∨
      ∃ front', front = run ++ front' ∧ IsDigitRun back front' run' back' := by
  constructor
  · intro h'
    have hsplit : run ++ back = front ++ (run' ++ back') := h.split.symm.trans h'.split
    rcases List.append_eq_append_iff.mp hsplit with ⟨a, rfl, hback⟩ | ⟨a, rfl, -⟩
    · refine Or.inr ⟨a, rfl, hback, h'.nonempty, h'.digits, fun d hd => h'.before d ?_, h'.behind⟩
      rw [List.getLast?_append, hd]
      rfl
    · -- the last character before the other run would be a digit
      rcases List.eq_nil_or_concat front with rfl | ⟨front', d, rfl⟩
      · exact Or.inl ⟨rfl, h.unique h'⟩
      · have hd := h'.before d (by simp)
        rw [h.digits d (by simp)] at hd
        cases hd
  · rintro (⟨rfl, rfl, rfl⟩ | ⟨front', rfl, h'⟩)
    · exact h
    · refine ⟨?_, h'.nonempty, h'.digits, fun d hd => ?_, h'.behind⟩
      · rw [h.split, h'.split, List.nil_append, List.append_assoc]
      · rcases hlast : front'.getLast? with _ | e
        · -- the other run would start where this one ends
          obtain rfl := List.getLast?_eq_none_iff.mp hlast
          obtain ⟨e, run'', rfl⟩ := List.exists_cons_of_ne_nil h'.nonempty
          have he := h.behind e (by rw [h'.split]; rfl)
          rw [h'.digits e List.mem_cons_self] at he
          cases he
        · rw [List.getLast?_append, hlast] at hd
          exact Option.some.inj hd ▸ h'.before e hlast

end IsDigitRun

/-- Characters are taken apart one by one outside of the runs of digits, and run by run there. -/
theorem digitRun_induction {motive : List Char → Prop} (nil : motive [])
    (other : ∀ c cs, c.isDigit = false → motive cs → motive (c :: cs))
    (run : ∀ cs run back, IsDigitRun cs [] run back → motive back → motive cs) (cs : List Char) :
    motive cs := by
  induction hlength : cs.length using Nat.strong_induction_on generalizing cs with
  | _ n ih =>
    rcases cs with _ | ⟨c, cs⟩
    · exact nil
    · by_cases hc : c.isDigit = true
      · have hle := (List.dropWhile_sublist Char.isDigit (l := cs)).length_le
        rw [List.length_cons] at hlength
        exact run _ _ _ (.of_isDigit hc cs) (ih _ (by omega) _ rfl)
      · rw [List.length_cons] at hlength
        exact other c cs (Bool.eq_false_iff.mpr hc) (ih _ (by omega) _ rfl)

/-! ### The tokens of some characters -/

/-- **The characters, which stand behind `n` others, are taken apart into the tokens.** -/
inductive Lexes : Nat → List Char → List Token → Prop
  | stop (n : Nat) : Lexes n [] [stop n]
  | layout {n : Nat} {c : Char} {cs : List Char} {ts : List Token} (hc : c ∈ layout)
      (h : Lexes (n + 1) cs ts) : Lexes n (c :: cs) ts
  | symbol {n : Nat} {c : Char} {cs : List Char} {ts : List Token} (hc : c ∈ symbols)
      (h : Lexes (n + 1) cs ts) : Lexes n (c :: cs) (ofSymbol c n :: ts)
  | number {n : Nat} {cs run back : List Char} {ts : List Token}
      (hrun : IsDigitRun cs [] run back) (hlimits : InLimits run)
      (h : Lexes (n + run.length) back ts) : Lexes n cs (ofRun run n :: ts)

variable {place : Place} {read ts : List Token} {cs run back : List Char} {n : Nat}

theorem lexes_of_scan (h : scan place read cs = .ok ts) :
    ∃ us, ts = read.reverse ++ us ∧ Lexes place.chars cs us := by
  fun_induction scan place read cs with
  | case1 place read =>
    refine ⟨[stop place.chars], ?_, .stop _⟩
    rw [← Except.ok.inj h, List.reverse_cons]
  | case2 place read c rest hc ih =>
    obtain ⟨us, hus, hlexes⟩ := ih h
    exact ⟨us, hus, .layout hc hlexes⟩
  | case3 => cases h
  | case4 place read c rest hc hd run token ht ih =>
    obtain ⟨us, hus, hlexes⟩ := ih h
    obtain ⟨hlimits, rfl⟩ := literal_eq_ok_iff.mp ht
    rw [Place.chars_skip] at hlexes
    refine ⟨_ :: us, ?_, .number (.of_isDigit hd rest) hlimits hlexes⟩
    rw [hus, List.reverse_cons, List.append_assoc, List.singleton_append]
  | case5 place read c rest hc hd hs ih =>
    obtain ⟨us, hus, hlexes⟩ := ih h
    refine ⟨_ :: us, ?_, .symbol (isSymbol_iff.mp hs) hlexes⟩
    rw [hus, List.reverse_cons, List.append_assoc, List.singleton_append]
  | case6 => cases h

theorem scan_of_digitRun (hrun : IsDigitRun cs [] run back) : scan place read cs = (do
    let token ← literal run place.chars
    scan (place.skip run) (token :: read) back) := by
  obtain ⟨c, rest, rfl, hc⟩ : ∃ c rest, cs = c :: rest ∧ c.isDigit = true := by
    obtain ⟨c, run', rfl⟩ := List.exists_cons_of_ne_nil hrun.nonempty
    exact ⟨c, run' ++ back, hrun.split, hrun.digits c List.mem_cons_self⟩
  obtain ⟨rfl, rfl⟩ := hrun.unique (.of_isDigit hc rest)
  rw [scan, if_neg fun hmem => not_isDigit_of_layout hmem hc, if_pos hc]
  rcases h : literal (c :: rest.takeWhile Char.isDigit) place.chars with e | token
  · simp only [h]
    rfl
  · simp only [h]
    rfl

theorem scan_of_run (hrun : IsDigitRun cs [] run back) (hlimits : InLimits run) :
    scan place read cs = scan (place.skip run) (ofRun run place.chars :: read) back := by
  have htoken : literal run place.chars = .ok (ofRun run place.chars) :=
    literal_eq_ok_iff.mpr ⟨hlimits, rfl⟩
  rw [scan_of_digitRun hrun, htoken]
  rfl

theorem scan_of_lexes (h : Lexes n cs ts) (hplace : place.chars = n) :
    scan place read cs = .ok (read.reverse ++ ts) := by
  induction h generalizing place read with
  | stop n =>
    rw [scan, hplace, List.reverse_cons]
  | layout hc _ ih =>
    rw [scan, if_pos hc]
    exact ih (by rw [Place.chars_next, hplace])
  | symbol hc _ ih =>
    rw [scan, if_neg (not_mem_layout_of_symbols hc), if_neg (by simp [isDigit_of_symbols hc]),
      if_pos (isSymbol_iff.mpr hc), ih (by rw [Place.chars_next, hplace]), hplace,
      List.reverse_cons, List.append_assoc, List.singleton_append]
  | number hrun hlimits _ ih =>
    rw [scan_of_run hrun hlimits, ih (by rw [Place.chars_skip, hplace]), hplace,
      List.reverse_cons, List.append_assoc, List.singleton_append]

/-! ### Which characters have tokens -/

/-- **What a source has to be to have tokens:** it has only characters of the alphabet, and every
maximal run of digits is within the limits of a literal. -/
structure Lexable (cs : List Char) : Prop where
  alphabet : ∀ c ∈ cs, c ∈ layout ∨ c ∈ symbols ∨ c.isDigit = true
  runs : ∀ front run back, IsDigitRun cs front run back → InLimits run

theorem lexable_nil : Lexable [] := by
  refine ⟨nofun, fun front run back h => ?_⟩
  obtain ⟨-, hnil⟩ := List.append_eq_nil_iff.mp h.split.symm
  exact absurd (List.append_eq_nil_iff.mp hnil).1 h.nonempty

theorem lexable_cons_iff {c : Char} (hc : c.isDigit = false) :
    Lexable (c :: cs) ↔ (c ∈ layout ∨ c ∈ symbols) ∧ Lexable cs := by
  constructor
  · rintro ⟨halphabet, hruns⟩
    obtain ⟨hfirst, hrest⟩ := List.forall_mem_cons.mp halphabet
    refine ⟨by simpa [hc] using hfirst, hrest, fun front run back hrun => ?_⟩
    exact hruns (c :: front) run back ((IsDigitRun.cons_iff hc).mpr ⟨front, rfl, hrun⟩)
  · rintro ⟨hfirst, halphabet, hruns⟩
    refine ⟨List.forall_mem_cons.mpr ⟨by simpa [hc] using hfirst, halphabet⟩, ?_⟩
    intro front run back hrun
    obtain ⟨front', -, hrun'⟩ := (IsDigitRun.cons_iff hc).mp hrun
    exact hruns front' run back hrun'

theorem lexable_run_iff (hrun : IsDigitRun cs [] run back) :
    Lexable cs ↔ InLimits run ∧ Lexable back := by
  constructor
  · rintro ⟨halphabet, hruns⟩
    refine ⟨hruns _ _ _ hrun, fun c hc => halphabet c ?_, fun front run' back' hrun' => ?_⟩
    · rw [hrun.split]
      exact List.mem_append_right _ (List.mem_append_right _ hc)
    · exact hruns _ _ _ (hrun.iff_of_start.mpr (Or.inr ⟨front, rfl, hrun'⟩))
  · rintro ⟨hlimits, halphabet, hruns⟩
    refine ⟨fun c hc => ?_, fun front run' back' hrun' => ?_⟩
    · rw [hrun.split, List.nil_append] at hc
      rcases List.mem_append.mp hc with hc | hc
      · exact Or.inr (Or.inr (hrun.digits c hc))
      · exact halphabet c hc
    · rcases hrun.iff_of_start.mp hrun' with ⟨-, rfl, -⟩ | ⟨front', -, hrun'⟩
      · exact hlimits
      · exact hruns _ _ _ hrun'

/-- **Characters have tokens exactly if they are lexable.** -/
theorem exists_lexes_iff : (∃ ts, Lexes n cs ts) ↔ Lexable cs := by
  constructor
  · rintro ⟨ts, h⟩
    induction h with
    | stop n => exact lexable_nil
    | layout hc _ ih => exact (lexable_cons_iff (isDigit_of_layout hc)).mpr ⟨Or.inl hc, ih⟩
    | symbol hc _ ih => exact (lexable_cons_iff (isDigit_of_symbols hc)).mpr ⟨Or.inr hc, ih⟩
    | number hrun hlimits _ ih => exact (lexable_run_iff hrun).mpr ⟨hlimits, ih⟩
  · intro h
    induction cs using digitRun_induction generalizing n with
    | nil => exact ⟨_, .stop n⟩
    | other c cs hc ih =>
      obtain ⟨hfirst, hrest⟩ := (lexable_cons_iff hc).mp h
      obtain ⟨ts, hts⟩ := ih (n := n + 1) hrest
      rcases hfirst with hfirst | hfirst
      · exact ⟨ts, .layout hfirst hts⟩
      · exact ⟨_, .symbol hfirst hts⟩
    | run cs run back hrun ih =>
      obtain ⟨hlimits, hback⟩ := (lexable_run_iff hrun).mp h
      obtain ⟨ts, hts⟩ := ih (n := n + run.length) hback
      exact ⟨_, .number hrun hlimits hts⟩

end Token

/-- **The scanner takes a source apart into its tokens.** -/
theorem tokenize_eq_ok_iff_lexes {source : String} {ts : List Token} :
    tokenize source = .ok ts ↔ Token.Lexes 0 source.toList ts := by
  constructor
  · intro h
    obtain ⟨us, rfl, hlexes⟩ := Token.lexes_of_scan h
    exact hlexes
  · exact fun h => Token.scan_of_lexes h rfl

end ArithAsm
