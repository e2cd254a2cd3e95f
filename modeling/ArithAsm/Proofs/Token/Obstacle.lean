import ArithAsm.Proofs.Token.Stops

/-!
# The first obstacle in a source

An obstacle is a character that is not of the alphabet, or a maximal run of digits that is no
literal (`Token.Obstacle`).  A source without tokens fails at the first obstacle in it: what stands
in front of it has tokens of its own, all of one byte a character, and what stands behind it has no
influence.  The main statement is `tokenize_eq_error_iff_first`.
-/

namespace ArithAsm

namespace Token

/-- A character that tokens and the layout between them are made of. -/
def InAlphabet (c : Char) : Prop :=
  c ∈ layout ∨ c ∈ symbols ∨ c.isDigit = true

/-- **An obstacle:** the text at the index `p` cannot be read, for the reason the error gives. -/
inductive Obstacle (cs : List Char) (p : Nat) : List Char → LexError → Prop
  /-- A character starts no token. -/
  | illegal {c : Char} (hc : cs[p]? = some c) (hout : ¬ InAlphabet c) :
      Obstacle cs p [c] (.illegalCharacter c (String.ofList (cs.take p)).utf8ByteSize p)
  /-- A run has too many digits, whatever its value. -/
  | tooManyDigits {front run back : List Char} (hrun : IsDigitRun cs front run back)
      (hp : front.length = p) (hlong : maxDigits < run.length) :
      Obstacle cs p run (.tooManyDigits run.length)
  /-- A run denotes a number that is too large. -/
  | outOfRange {front run back : List Char} (hrun : IsDigitRun cs front run back)
      (hp : front.length = p) (hshort : run.length ≤ maxDigits)
      (hlarge : maxLiteral < Nat.ofDigitChars 10 run 0) :
      Obstacle cs p run (.outOfRange (String.ofList run) p)

/-- **The first obstacle:** there is none to the left of it. -/
structure IsFirstObstacle (cs : List Char) (p : Nat) (text : List Char) (e : LexError) : Prop where
  obstacle : Obstacle cs p text e
  first : ∀ q text' e', Obstacle cs q text' e' → p ≤ q

variable {cs front run back rest text text' : List Char} {c : Char} {p q : Nat} {e e' : LexError}

/-! ### Bytes -/

theorem utf8Size_of_inAlphabet (h : InAlphabet c) : c.utf8Size = 1 := by
  have hall : (layout ++ symbols).all (fun c => decide (c.utf8Size = 1)) = true := by decide
  have hnamed (c : Char) (hc : c ∈ layout ++ symbols) : c.utf8Size = 1 :=
    of_decide_eq_true (List.all_eq_true.mp hall c hc)
  rcases h with h | h | h
  · exact hnamed c (List.mem_append_left _ h)
  · exact hnamed c (List.mem_append_right _ h)
  · simp only [Char.isDigit, Bool.and_eq_true, decide_eq_true_eq] at h
    exact Char.utf8Size_eq_one_iff.mpr (UInt32.le_trans h.2 (by decide))

theorem utf8ByteSize_cons (c : Char) (cs : List Char) :
    (String.ofList (c :: cs)).utf8ByteSize = c.utf8Size + (String.ofList cs).utf8ByteSize := by
  rw [String.ofList_cons, String.utf8ByteSize_append, String.utf8ByteSize_singleton]

/-- **The alphabet takes one byte a character.** -/
theorem utf8ByteSize_of_lexable (h : Lexable cs) : (String.ofList cs).utf8ByteSize = cs.length := by
  have halphabet := h.alphabet
  clear h
  induction cs with
  | nil => rfl
  | cons c cs ih =>
    obtain ⟨hc, hcs⟩ := List.forall_mem_cons.mp halphabet
    rw [utf8ByteSize_cons, utf8Size_of_inAlphabet hc, ih hcs, List.length_cons, Nat.add_comm]

theorem Place.bytes_skip (place : Place) (cs : List Char) :
    (place.skip cs).bytes = place.bytes + (String.ofList cs).utf8ByteSize := by
  induction cs generalizing place with
  | nil => rfl
  | cons c cs ih =>
    rw [skip, List.foldl_cons, ← skip, ih, utf8ByteSize_cons, ← Nat.add_assoc]
    rfl

/-! ### What stands in front of an obstacle -/

namespace IsDigitRun

theorem take_eq (h : IsDigitRun cs front run back) : cs.take front.length = front := by
  rw [h.split, List.take_left]

theorem drop (h : IsDigitRun cs front run back) :
    IsDigitRun (cs.drop front.length) [] run back := by
  refine ⟨?_, h.nonempty, h.digits, nofun, h.behind⟩
  rw [h.split, List.drop_left, List.nil_append]

theorem exists_digit (h : IsDigitRun cs front run back) :
    ∃ c, cs[front.length]? = some c ∧ c.isDigit = true := by
  obtain ⟨c, run, rfl⟩ := List.exists_cons_of_ne_nil h.nonempty
  refine ⟨c, ?_, h.digits c List.mem_cons_self⟩
  rw [h.split, List.getElem?_append_right (Nat.le_refl _), Nat.sub_self]
  rfl

theorem of_append (h : IsDigitRun (text ++ rest) front run back) (hlt : front.length < text.length)
    (hends : (∀ c ∈ text.getLast?, c.isDigit = false) ∨ ∀ c ∈ rest.head?, c.isDigit = false) :
    ∃ back', IsDigitRun text front run back' := by
  have hsplit : text ++ rest = (front ++ run) ++ back := by rw [h.split, List.append_assoc]
  have htext {back' : List Char} (hback : text = front ++ (run ++ back'))
      (hbehind : ∀ c ∈ back'.head?, c.isDigit = false) : ∃ back', IsDigitRun text front run back' :=
    ⟨back', hback, h.nonempty, h.digits, h.before, hbehind⟩
  rcases List.append_eq_append_iff.mp hsplit with ⟨more, hmore, hrest⟩ | ⟨back', hback, hbehind⟩
  · -- the run reaches the end of the front
    rcases more with _ | ⟨d, more⟩
    · exact @htext [] (by simpa using hmore.symm) nofun
    · obtain ⟨part, rfl⟩ : ∃ part, text = front ++ part :=
        (List.prefix_of_prefix_length_le (List.prefix_append _ _) ⟨_, hmore.symm⟩
          (Nat.le_of_lt hlt)).imp fun _ => Eq.symm
      rw [List.append_assoc] at hmore
      have hrun : run = part ++ d :: more := List.append_cancel_left hmore
      have hpart : part ≠ [] := by
        rintro rfl
        simp at hlt
      rcases hends with hends | hends
      · have hlast := hends (part.getLast hpart) (by simp [List.getLast?_eq_some_getLast hpart])
        rw [h.digits _ (by simp [hrun])] at hlast
        cases hlast
      · have hd := hends d (by rw [hrest]; rfl)
        rw [h.digits d (by simp [hrun])] at hd
        cases hd
  · refine @htext back' (by rw [hback, List.append_assoc]) fun c hc => h.behind c ?_
    rw [hbehind, List.head?_append, hc]
    rfl

end IsDigitRun

theorem isDigit_of_not_inAlphabet (h : ¬ InAlphabet c) : c.isDigit = false :=
  Bool.eq_false_iff.mpr fun hdigit => h (Or.inr (Or.inr hdigit))

theorem obstacle_iff : Obstacle cs p text e ↔
    (∃ c, cs[p]? = some c ∧ ¬ InAlphabet c ∧ text = [c] ∧
      e = .illegalCharacter c (String.ofList (cs.take p)).utf8ByteSize p) ∨
    ∃ front back, IsDigitRun cs front text back ∧ front.length = p ∧ literal text p = .error e := by
  constructor
  · intro h
    cases h with
    | illegal hc hout => exact Or.inl ⟨_, hc, hout, rfl, rfl⟩
    | tooManyDigits hrun hp hlong =>
      exact Or.inr ⟨_, _, hrun, hp, literal_eq_error_iff.mpr (Or.inl ⟨hlong, rfl⟩)⟩
    | outOfRange hrun hp hshort hlarge =>
      exact Or.inr ⟨_, _, hrun, hp, literal_eq_error_iff.mpr (Or.inr ⟨hshort, hlarge, rfl⟩)⟩
  · rintro (⟨c, hc, hout, rfl, rfl⟩ | ⟨front, back, hrun, hp, h⟩)
    · exact .illegal hc hout
    · rcases literal_eq_error_iff.mp h with ⟨hlong, rfl⟩ | ⟨hshort, hlarge, rfl⟩
      · exact .tooManyDigits hrun hp hlong
      · exact .outOfRange hrun hp hshort hlarge

theorem take_eq_of_take_add {other : List Char} {n : Nat}
    (h : other.take (p + n) = cs.take (p + n)) : other.take p = cs.take p := by
  have hshort := congrArg (List.take p) h
  rwa [List.take_take, List.take_take, Nat.min_eq_left (Nat.le_add_right p n)] at hshort

namespace Obstacle

theorem lt_length (h : Obstacle cs p text e) : p < cs.length := by
  rcases obstacle_iff.mp h with ⟨c, hc, -⟩ | ⟨front, back, hrun, rfl, -⟩
  · exact (List.getElem?_eq_some_iff.mp hc).1
  · obtain ⟨c, hc, -⟩ := hrun.exists_digit
    exact (List.getElem?_eq_some_iff.mp hc).1

theorem ends (h : Obstacle cs p text e) : (∀ c ∈ (cs.take p).getLast?, c.isDigit = false) ∨
    ∀ c ∈ (cs.drop p).head?, c.isDigit = false := by
  rcases obstacle_iff.mp h with ⟨c, hc, hout, -⟩ | ⟨front, back, hrun, rfl, -⟩
  · refine Or.inr fun d hd => ?_
    rw [List.head?_drop, hc] at hd
    exact Option.some.inj hd ▸ isDigit_of_not_inAlphabet hout
  · rw [hrun.take_eq]
    exact Or.inl hrun.before

/-- What has an obstacle in it has no tokens, unless it ends within a run of digits. -/
theorem not_lexable (h : Obstacle (front ++ rest) p text e) (hlt : p < front.length)
    (hends : (∀ c ∈ front.getLast?, c.isDigit = false) ∨ ∀ c ∈ rest.head?, c.isDigit = false) :
    ¬ Lexable front := by
  intro hlexable
  rcases obstacle_iff.mp h with ⟨c, hc, hout, -⟩ | ⟨front', back, hrun, rfl, he⟩
  · rw [List.getElem?_append_left hlt] at hc
    exact hout (hlexable.alphabet c (List.mem_of_getElem? hc))
  · obtain ⟨back', hrun'⟩ := hrun.of_append hlt hends
    have hok : literal text front'.length = .ok (ofRun text front'.length) :=
      literal_eq_ok_iff.mpr ⟨hlexable.runs _ _ _ hrun', rfl⟩
    cases he.symm.trans hok

/-- **There is no obstacle in front of one that has tokens before it.** -/
theorem le_of_lexable (h : Obstacle cs p text e) (hfront : Lexable (cs.take p))
    (h' : Obstacle cs q text' e') : p ≤ q := by
  refine Nat.le_of_not_lt fun hlt => ?_
  have hlength : q < (cs.take p).length := by
    rw [List.length_take_of_le (Nat.le_of_lt h.lt_length)]
    exact hlt
  rw [← List.take_append_drop p cs] at h'
  exact h'.not_lexable hlength h.ends hfront

/-- **An index is the start of one obstacle only.** -/
theorem unique (h : Obstacle cs p text e) (h' : Obstacle cs p text' e') :
    text = text' ∧ e = e' := by
  have hdisjoint {c : Char} {front run back : List Char} (hc : cs[front.length]? = some c)
      (hout : ¬ InAlphabet c) (hrun : IsDigitRun cs front run back) : False := by
    obtain ⟨d, hd, hdigit⟩ := hrun.exists_digit
    obtain rfl : c = d := Option.some.inj (hc.symm.trans hd)
    exact hout (Or.inr (Or.inr hdigit))
  rcases obstacle_iff.mp h with ⟨c, hc, hout, rfl, rfl⟩ | ⟨front, back, hrun, hp, he⟩
  · rcases obstacle_iff.mp h' with ⟨d, hd, -, rfl, rfl⟩ | ⟨front', back', hrun', rfl, -⟩
    · obtain rfl : c = d := Option.some.inj (hc.symm.trans hd)
      exact ⟨rfl, rfl⟩
    · exact (hdisjoint hc hout hrun').elim
  · rcases obstacle_iff.mp h' with ⟨d, hd, hout, -⟩ | ⟨front', back', hrun', hp', he'⟩
    · exact (hdisjoint (hp ▸ hd) hout hrun).elim
    · have hdrop := hrun.drop
      have hdrop' := hrun'.drop
      rw [hp] at hdrop
      rw [hp'] at hdrop'
      obtain ⟨rfl, -⟩ := hdrop'.unique hdrop
      exact ⟨rfl, Except.error.inj (he.symm.trans he')⟩

theorem of_take {other : List Char} (h : Obstacle cs p text e)
    (htake : other.take (p + text.length) = cs.take (p + text.length))
    (hends : ∀ c ∈ text, c.isDigit = true →
      ∀ d ∈ (other.drop (p + text.length)).head?, d.isDigit = false) :
    Obstacle other p text e := by
  have hfront := take_eq_of_take_add htake
  rcases obstacle_iff.mp h with ⟨c, hc, hout, rfl, rfl⟩ | ⟨front, back, hrun, rfl, he⟩
  · rw [← hfront]
    refine .illegal ?_ hout
    have hat := congrArg (·[p]?) htake
    simpa [List.getElem?_take, hc] using hat
  · obtain ⟨c, rest, hcons⟩ := List.exists_cons_of_ne_nil hrun.nonempty
    have hc : c ∈ text := hcons ▸ List.mem_cons_self
    refine obstacle_iff.mpr (Or.inr ⟨front, other.drop (front.length + text.length), ?_, rfl, he⟩)
    refine ⟨?_, hrun.nonempty, hrun.digits, hrun.before, hends c hc (hrun.digits c hc)⟩
    have hsplit := (List.take_append_drop (front.length + text.length) other).symm
    rw [htake, hrun.split, ← List.append_assoc, ← List.length_append, List.take_left] at hsplit
    rw [hsplit]
    simp

end Obstacle

/-! ### The scanner stops at the first obstacle -/

theorem scan_cases (cs : List Char) : Lexable cs ∨ ∃ p text e,
    scan .start [] cs = .error e ∧ Obstacle cs p text e ∧ Lexable (cs.take p) := by
  rcases h : scan .start [] cs with e | ts
  · refine Or.inr ?_
    cases stops_of_scan h with
    | @illegal front back c hsplit hfront hlayout hdigit hsymbol =>
      have hout : ¬ InAlphabet c := by
        rintro (hc | hc | hc)
        · exact hlayout hc
        · exact hsymbol hc
        · exact Bool.false_ne_true (hdigit.symm.trans hc)
      have htake : cs.take front.length = front := by rw [hsplit, List.take_left]
      have hc : cs[front.length]? = some c := by simp [hsplit]
      have hobstacle := Obstacle.illegal hc hout
      rw [htake] at hobstacle
      refine ⟨front.length, [c], _, rfl, ?_, by rwa [htake]⟩
      rw [Place.bytes_skip, Place.chars_skip]
      simpa [Place.start] using hobstacle
    | @literal front run back e hrun hfront he =>
      rw [Place.chars_skip] at he
      refine ⟨front.length, run, e, rfl, obstacle_iff.mpr (Or.inr ⟨front, back, hrun, rfl, ?_⟩), ?_⟩
      · simpa [Place.start] using he
      · rwa [hrun.take_eq]
  · obtain ⟨us, -, hlexes⟩ := lexes_of_scan h
    exact Or.inl (exists_lexes_iff.mp ⟨us, hlexes⟩)

theorem Obstacle.exists_scan (h : Obstacle cs p text e) : ∃ q text' e',
    scan .start [] cs = .error e' ∧ Obstacle cs q text' e' ∧ Lexable (cs.take q) := by
  refine (scan_cases cs).resolve_left ?_
  rw [← List.append_nil cs] at h
  exact h.not_lexable (by simpa using h.lt_length) (Or.inr nofun)

theorem isFirstObstacle_iff :
    IsFirstObstacle cs p text e ↔ Obstacle cs p text e ∧ Lexable (cs.take p) := by
  constructor
  · rintro ⟨h, hfirst⟩
    obtain ⟨q, text', e', -, h', hfront⟩ := h.exists_scan
    obtain rfl : p = q := Nat.le_antisymm (hfirst q text' e' h') (h'.le_of_lexable hfront h)
    exact ⟨h, hfront⟩
  · rintro ⟨h, hfront⟩
    exact ⟨h, fun q text' e' => h.le_of_lexable hfront⟩

/-- **The scanner fails at the first obstacle,** and only there. -/
theorem scan_eq_error_iff :
    scan .start [] cs = .error e ↔ ∃ p text, IsFirstObstacle cs p text e := by
  constructor
  · intro hscan
    rcases scan_cases cs with hlexable | ⟨p, text, e', hscan', h⟩
    · obtain ⟨ts, hts⟩ := exists_lexes_iff.mpr hlexable
      cases hscan.symm.trans (scan_of_lexes hts rfl)
    · obtain rfl := Except.error.inj (hscan.symm.trans hscan')
      exact ⟨p, text, isFirstObstacle_iff.mpr h⟩
  · rintro ⟨p, text, h, hfirst⟩
    obtain ⟨q, text', e', hscan, h', hfront⟩ := h.exists_scan
    obtain rfl : p = q := Nat.le_antisymm (hfirst q text' e' h') (h'.le_of_lexable hfront h)
    rw [hscan, (h.unique h').2]

theorem IsFirstObstacle.of_take {other : List Char} (h : IsFirstObstacle cs p text e)
    (htake : other.take (p + text.length) = cs.take (p + text.length))
    (hends : ∀ c ∈ text, c.isDigit = true →
      ∀ d ∈ (other.drop (p + text.length)).head?, d.isDigit = false) :
    IsFirstObstacle other p text e := by
  obtain ⟨hobstacle, hfront⟩ := isFirstObstacle_iff.mp h
  refine isFirstObstacle_iff.mpr ⟨hobstacle.of_take htake hends, ?_⟩
  rwa [take_eq_of_take_add htake]

end Token

/-- **A source fails at the first obstacle in it.**  It has no tokens, for the reason `e`, exactly
if this is the reason at its first obstacle.  Up to there the source has tokens, and one byte a
character; and whatever is behind has no influence, as long as it does not make the run of digits
longer. -/
theorem tokenize_eq_error_iff_first (source : String) (e : LexError) :
    (tokenize source = .error e ↔
      ∃ p text, Token.IsFirstObstacle source.toList p text e) ∧
    ∀ p text, Token.IsFirstObstacle source.toList p text e →
      (∃ ts, tokenize (String.ofList (source.toList.take p)) = .ok ts) ∧
      (String.ofList (source.toList.take p)).utf8ByteSize = p ∧
      ∀ other : String,
        other.toList.take (p + text.length) = source.toList.take (p + text.length) →
        (∀ c ∈ text, c.isDigit = true →
          ∀ d ∈ (other.toList.drop (p + text.length)).head?, d.isDigit = false) →
        tokenize other = .error e := by
  refine ⟨Token.scan_eq_error_iff, fun p text h => ?_⟩
  obtain ⟨hobstacle, hfront⟩ := Token.isFirstObstacle_iff.mp h
  refine ⟨?_, ?_, fun other htake hends => ?_⟩
  · obtain ⟨ts, hts⟩ := Token.exists_lexes_iff.mpr hfront
    exact ⟨ts, tokenize_eq_ok_iff_lexes.mpr (by rwa [String.toList_ofList])⟩
  · rw [Token.utf8ByteSize_of_lexable hfront,
      List.length_take_of_le (Nat.le_of_lt hobstacle.lt_length)]
  · exact Token.scan_eq_error_iff.mpr ⟨p, text, h.of_take htake hends⟩

/-- A literal that is too large by one, with a zero in front and a foreign character behind. -/
theorem tokenize_eq_error_iff_first_literal :
    let source := "1+09223372036854775808é"
    let text := "09223372036854775808"
    let e := LexError.outOfRange text 2
    Token.IsFirstObstacle source.toList 2 text.toList e ∧ tokenize source = .error e ∧
      (∃ ts, tokenize "1+" = .ok ts) ∧ "1+".utf8ByteSize = 2 ∧
      tokenize "1+09223372036854775808-(" = .error e := by
  intro source text e
  have hrun : Token.IsDigitRun source.toList ['1', '+'] text.toList ['é'] :=
    ⟨by decide, by decide, List.all_eq_true.mp (by decide), by rintro _ ⟨⟩; decide,
      by rintro _ ⟨⟩; decide⟩
  have hobstacle : Token.Obstacle source.toList 2 text.toList e := by
    have h := Token.Obstacle.outOfRange hrun rfl (by decide) (by decide)
    rwa [String.ofList_toList] at h
  have hone : Token.IsDigitRun "1+".toList [] ['1'] ['+'] :=
    ⟨by decide, by decide, List.all_eq_true.mp (by decide), nofun, by rintro _ ⟨⟩; decide⟩
  have htake : source.toList.take 2 = "1+".toList := by decide
  have hfront : Token.Lexable (source.toList.take 2) := by
    rw [htake]
    refine (Token.lexable_run_iff hone).mpr ⟨⟨by decide, by decide⟩, ?_⟩
    exact (Token.lexable_cons_iff rfl).mpr ⟨by decide, Token.lexable_nil⟩
  have hfirst : Token.IsFirstObstacle source.toList 2 text.toList e :=
    Token.isFirstObstacle_iff.mpr ⟨hobstacle, hfront⟩
  have hends : ("1+09223372036854775808-(".toList.drop (2 + text.toList.length)).head?
      = some '-' := by decide
  obtain ⟨hiff, hmore⟩ := tokenize_eq_error_iff_first source e
  obtain ⟨hbefore, hbytes, hother⟩ := hmore 2 text.toList hfirst
  rw [htake, String.ofList_toList] at hbefore hbytes
  refine ⟨hfirst, hiff.mpr ⟨2, text.toList, hfirst⟩, hbefore, hbytes,
    hother "1+09223372036854775808-(" (by decide) fun _ _ _ d hd => ?_⟩
  obtain rfl : '-' = d := Option.some.inj (hends.symm.trans hd)
  rfl

end ArithAsm
