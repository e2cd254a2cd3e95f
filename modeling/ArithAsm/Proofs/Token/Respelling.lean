import ArithAsm.Proofs.Result
import ArithAsm.Proofs.Token.Lexes
import Mathlib.Data.List.Forall2
import Mathlib.Logic.Relation

/-!
# Layout and leading zeros

A text is respelled by layout, as long as no run of digits is split or joined to another one, and by
leading zeros, as long as the run does not get too long (`Respelled`).  The scanner reads such texts
alike (`tokenize_agree`): it gives tokens that agree up to their places and up to the digits of the
numbers (`Token.Same`), or fails for the same reason (`LexError.Same`).
-/

namespace ArithAsm

open List (Forall₂)

/-! ### Respelling -/

/-- One more character of layout, or one more leading zero. -/
inductive Edit : List Char → List Char → Prop
  /-- Layout is put in, but not between two digits. -/
  | layout {front back : List Char} {c : Char} (hc : c ∈ Token.layout)
      (hends : (∀ d ∈ front.getLast?, d.isDigit = false) ∨ ∀ d ∈ back.head?, d.isDigit = false) :
      Edit (front ++ back) (front ++ c :: back)
  /-- A zero is put in front of a run of digits, which must not get too long. -/
  | zero {cs front run back : List Char} (hrun : Token.IsDigitRun cs front run back)
      (hlength : run.length < Token.maxDigits) : Edit cs (front ++ ('0' :: run ++ back))

/-- **One text is a respelling of the other:** layout and leading zeros are put in or left out, one
after the other. -/
def Respelled : List Char → List Char → Prop :=
  Relation.EqvGen Edit

/-! ### What agrees up to the places -/

/-- The errors have the same reason. -/
inductive LexError.Same : LexError → LexError → Prop
  | illegalCharacter (c : Char) (byteOffset byteOffset' position position' : Nat) :
      Same (.illegalCharacter c byteOffset position) (.illegalCharacter c byteOffset' position')
  | outOfRange (text text' : String) (position position' : Nat) :
      Same (.outOfRange text position) (.outOfRange text' position')
  | tooManyDigits (digits : Nat) : Same (.tooManyDigits digits) (.tooManyDigits digits)

theorem LexError.Same.symm {e e' : LexError} (h : e.Same e') : e'.Same e := by
  cases h with
  | illegalCharacter => exact .illegalCharacter _ _ _ _ _
  | outOfRange => exact .outOfRange _ _ _ _
  | tooManyDigits => exact .tooManyDigits _

theorem LexError.Same.trans {e₁ e₂ e₃ : LexError} (h : e₁.Same e₂) (h' : e₂.Same e₃) :
    e₁.Same e₃ := by
  cases h with
  | illegalCharacter =>
    cases h'
    exact .illegalCharacter _ _ _ _ _
  | outOfRange =>
    cases h'
    exact .outOfRange _ _ _ _
  | tooManyDigits => exact h'

namespace Token

/-- The tokens agree up to their places, and up to their texts if these are not looked at. -/
def Same (t u : Token) : Prop :=
  t.kind = u.kind ∧ (t.kind = .reserved → t.text = u.text)

section Same

variable {t u v : Token}

theorem Same.refl (t : Token) : t.Same t :=
  ⟨rfl, fun _ => rfl⟩

theorem Same.symm (h : t.Same u) : u.Same t :=
  ⟨h.1.symm, fun hu => (h.2 (h.1.trans hu)).symm⟩

theorem Same.trans (h : t.Same u) (h' : u.Same v) : t.Same v :=
  ⟨h.1.trans h'.1, fun ht => (h.2 ht).trans (h'.2 (h.1.symm.trans ht))⟩

variable {ts us vs : List Token}

theorem sameAll_refl (ts : List Token) : Forall₂ Same ts ts :=
  List.forall₂_same.mpr fun t _ => Same.refl t

theorem sameAll_symm (h : Forall₂ Same ts us) : Forall₂ Same us ts :=
  List.Forall₂.flip (h.imp fun _ _ => Same.symm)

theorem sameAll_trans (h : Forall₂ Same ts us) (h' : Forall₂ Same us vs) : Forall₂ Same ts vs := by
  induction h generalizing vs with
  | nil => exact h'
  | cons htu _ ih =>
    cases h' with
    | cons huv h' => exact .cons (htu.trans huv) (ih h')

end Same

/-! ### Texts that are read alike -/

/-- **The texts are read alike,** wherever they stand and whatever has been read before them. -/
def ScansAlike (cs cs' : List Char) : Prop :=
  ∀ place place' read read', Forall₂ Same read read' →
    Agree LexError.Same (Forall₂ Same) (scan place read cs) (scan place' read' cs')

variable {cs cs' cs'' front run run' back back' : List Char} {c : Char} {position position' : Nat}

/-- Runs that denote one number are literals alike, unless only one of them is too long. -/
theorem literal_agree (hvalue : Nat.ofDigitChars 10 run 0 = Nat.ofDigitChars 10 run' 0)
    (hlength : run.length = run'.length ∨ run.length ≤ maxDigits ∧ run'.length ≤ maxDigits) :
    Agree LexError.Same Same (literal run position) (literal run' position') := by
  by_cases hlong : run.length > maxDigits
  · have hsame : run.length = run'.length := by omega
    rw [literal, literal, if_pos hlong, if_pos (hsame ▸ hlong), hsame]
    exact .error (.tooManyDigits _)
  have hshort : ¬ run'.length > maxDigits := by omega
  rw [literal, literal, if_neg hlong, if_neg hshort]
  simp only [hvalue]
  split
  · exact .error (.outOfRange _ _ _ _)
  · exact .ok ⟨rfl, nofun⟩

namespace ScansAlike

theorem symm (h : ScansAlike cs cs') : ScansAlike cs' cs :=
  fun place place' read read' hread =>
    (h place' place read' read (sameAll_symm hread)).symm LexError.Same.symm sameAll_symm

theorem trans (h : ScansAlike cs cs') (h' : ScansAlike cs' cs'') : ScansAlike cs cs'' :=
  fun place place' read read' hread =>
    (h place place read read' hread).trans (h' place place' read' read' (sameAll_refl read'))
      LexError.Same.trans sameAll_trans

theorem nil : ScansAlike [] [] := by
  intro place place' read read' hread
  rw [scan, scan]
  have hstop : (stop place.chars).Same (stop place'.chars) := ⟨rfl, fun _ => rfl⟩
  exact .ok (List.rel_reverse (.cons hstop hread))

theorem layout (hc : c ∈ Token.layout) (h : ScansAlike cs cs') : ScansAlike cs (c :: cs') := by
  intro place place' read read' hread
  rw [scan.eq_def place' read' (c :: cs')]
  simp only [if_pos hc]
  exact h place (place'.next c) read read' hread

theorem cons (hc : c.isDigit = false) (h : ScansAlike cs cs') :
    ScansAlike (c :: cs) (c :: cs') := by
  intro place place' read read' hread
  rw [scan, scan]
  simp only [hc, Bool.false_eq_true, if_false]
  split_ifs
  · exact h _ _ _ _ hread
  · exact h _ _ _ _ (.cons ⟨rfl, fun _ => rfl⟩ hread)
  · exact .error (.illegalCharacter _ _ _ _ _)

theorem digitRun (hrun : IsDigitRun cs [] run back) (hrun' : IsDigitRun cs' [] run' back')
    (hliteral : ∀ position position',
      Agree LexError.Same Same (literal run position) (literal run' position'))
    (h : ScansAlike back back') : ScansAlike cs cs' := by
  intro place place' read read' hread
  rw [scan_of_digitRun hrun, scan_of_digitRun hrun']
  exact (hliteral _ _).bind fun token token' htoken => h _ _ _ _ (.cons htoken hread)

theorem refl (cs : List Char) : ScansAlike cs cs := by
  induction cs using digitRun_induction with
  | nil => exact nil
  | other c cs hc ih => exact ih.cons hc
  | run cs run back hrun ih =>
    exact digitRun hrun hrun (fun _ _ => literal_agree rfl (Or.inl rfl)) ih

theorem digitRun_append (hrun : IsDigitRun front [] run back)
    (hends : back = [] → ∀ d ∈ cs.head?, d.isDigit = false) :
    IsDigitRun (front ++ cs) [] run (back ++ cs) := by
  refine ⟨?_, hrun.nonempty, hrun.digits, nofun, fun d hd => ?_⟩
  · rw [hrun.split, List.nil_append, List.nil_append, List.append_assoc]
  · cases back with
    | nil => exact hends rfl d hd
    | cons e back => exact hrun.behind d hd

/-- **Texts that are read alike are so behind other characters,** unless a run of digits goes on
into one of them. -/
theorem append (h : ScansAlike cs cs')
    (hends : (∀ d ∈ front.getLast?, d.isDigit = false) ∨
      (∀ d ∈ cs.head?, d.isDigit = false) ∧ ∀ d ∈ cs'.head?, d.isDigit = false) :
    ScansAlike (front ++ cs) (front ++ cs') := by
  induction front using digitRun_induction with
  | nil => exact h
  | other c front hc ih =>
    refine (ih (hends.imp_left fun hlast d hd => hlast d ?_)).cons hc
    rw [List.getLast?_cons, hd]
    rfl
  | run front run back hrun ih =>
    have hsplit : front = run ++ back := hrun.split
    -- a run at the end of the front is one that could go on
    have hheads : back = [] →
        (∀ d ∈ cs.head?, d.isDigit = false) ∧ ∀ d ∈ cs'.head?, d.isDigit = false := by
      rintro rfl
      obtain rfl : front = run := by rw [hsplit, List.append_nil]
      refine hends.resolve_left fun hlast => ?_
      have hdigit := hrun.digits _ (List.getLast_mem hrun.nonempty)
      have hnot := hlast _ (List.getLast?_eq_some_getLast hrun.nonempty)
      exact Bool.false_ne_true (hnot.symm.trans hdigit)
    refine digitRun (digitRun_append hrun fun hnil => (hheads hnil).1)
      (digitRun_append hrun fun hnil => (hheads hnil).2)
      (fun _ _ => literal_agree rfl (Or.inl rfl)) (ih (hends.imp_left fun hlast d hd => hlast d ?_))
    rw [hsplit, List.getLast?_append, hd]
    rfl

/-! ### Respelled texts -/

theorem of_edit (h : Edit cs cs') : ScansAlike cs cs' := by
  cases h with
  | @layout front back c hc hends =>
    have hhead : ∀ d ∈ (c :: back).head?, d.isDigit = false := fun d hd =>
      Option.some.inj hd ▸ isDigit_of_layout hc
    exact ((refl back).layout hc).append (hends.imp_right fun hback => ⟨hback, hhead⟩)
  | @zero _ front run back hrun hlength =>
    have hzero : IsDigitRun (run ++ back) [] run back :=
      ⟨rfl, hrun.nonempty, hrun.digits, nofun, hrun.behind⟩
    have hlonger : IsDigitRun ('0' :: run ++ back) [] ('0' :: run) back :=
      ⟨rfl, List.cons_ne_nil _ _, List.forall_mem_cons.mpr ⟨by decide, hrun.digits⟩, nofun,
        hrun.behind⟩
    have hvalue : Nat.ofDigitChars 10 run 0 = Nat.ofDigitChars 10 ('0' :: run) 0 := by
      simp [Nat.ofDigitChars_cons]
    have hlengths : run.length ≤ maxDigits ∧ ('0' :: run).length ≤ maxDigits := by
      rw [List.length_cons]
      omega
    rw [hrun.split]
    refine append (digitRun hzero hlonger (fun _ _ => ?_) (refl back)) (Or.inl hrun.before)
    exact literal_agree hvalue (Or.inr hlengths)

theorem of_respelled (h : Respelled cs cs') : ScansAlike cs cs' := by
  induction h with
  | rel cs cs' h => exact of_edit h
  | refl cs => exact refl cs
  | symm cs cs' _ ih => exact ih.symm
  | trans cs cs' cs'' _ _ ih ih' => exact ih.trans ih'

end ScansAlike

end Token

/-- **A source and its respelling have tokens that agree up to their places,** or fail for the same
reason. -/
theorem tokenize_agree {source source' : String} (h : Respelled source.toList source'.toList) :
    Agree LexError.Same (Forall₂ Token.Same) (tokenize source) (tokenize source') :=
  Token.ScansAlike.of_respelled h .start .start [] [] .nil

end ArithAsm
