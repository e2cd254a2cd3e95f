import ArithAsm.CommandLine.Settings
import ArithAsm.Proofs.Result
import Mathlib.Logic.Relation

/-!
# What is taken from the words of a command line

`Taken.Step` says all that the words can do to what has been taken: the expression is taken, a word
is left over, a switch gets its value or is turned on.  A reading without an error is a sequence of
such steps (`steps_of_collect`), so the origin of a setting is found by looking at each kind of step
once: an expression stands among the words, and a backend is among the choices.  The name of the
output is the value that the words give to its switch last (`output_of_collect`).

`ofArguments_eq_ok_iff` sets out the stages that settings come from.
-/

namespace ArithAsm.CommandLine

/-! ### Words that give a value -/

/-- **The words give the value to a switch last,** together with the switch or in the next word. -/
inductive GivesLast (s : Switch) (value : String) (words : List Word) : Prop
  | within {behind : List Word} (h : .switch s (some value) :: behind <:+ words)
      (hlast : ∀ v, .switch s v ∉ behind) : GivesLast s value words
  | next {behind : List Word} (h : .switch s none :: .positional value :: behind <:+ words)
      (hlast : ∀ v, .switch s v ∉ behind) : GivesLast s value words

theorem GivesLast.mono {words words' : List Word} {s : Switch} {value : String}
    (hwords : words' <:+ words) (h : GivesLast s value words') : GivesLast s value words := by
  cases h with
  | within h hlast => exact .within (h.trans hwords) hlast
  | next h hlast => exact .next (h.trans hwords) hlast

namespace Taken

variable {choices : List String} {words words' : List Word} {taken taken' final : Taken}
  {beside : Bool}

/-! ### Steps -/

/-- **What the words can do to what has been taken.** -/
inductive Step (choices : List String) (words : List Word) (taken : Taken) : Taken → Prop
  | expression {text : String} (h : .positional text ∈ words) :
      Step choices words taken { taken with expression := some text }
  | leave (text : String) : Step choices words taken (taken.leave text)
  | backend {value : String} (h : value = "--" ∨ value ∈ choices) :
      Step choices words taken { taken with backend := some (.ofValue value) }
  | output (value : String) :
      Step choices words taken { taken with output := some (.ofValue value) }
  | dump (d : Dump) : Step choices words taken { taken with dump := some d }

theorem Step.mono (hwords : words' <:+ words) (h : Step choices words' taken taken') :
    Step choices words taken taken' := by
  cases h with
  | expression h => exact .expression (hwords.subset h)
  | leave text => exact .leave text
  | backend h => exact .backend h
  | output value => exact .output value
  | dump d => exact .dump d

theorem step_of_assign {s : Switch} {value : String}
    (h : taken.assign choices value s = .ok taken') : Step choices words taken taken' := by
  cases s with
  | backend =>
    by_cases hvalue : value = "--"
    · rw [assign, Given.ofValue, if_pos hvalue] at h
      rw [← Except.ok.inj h, ← show Given.ofValue value = .nothing from if_pos hvalue]
      exact .backend (Or.inl hvalue)
    · rw [assign, Given.ofValue, if_neg hvalue] at h
      simp only at h
      split at h
      · rename_i hchoice
        rw [← Except.ok.inj h, ← show Given.ofValue value = .text value from if_neg hvalue]
        exact .backend (Or.inr hchoice)
      · cases h
  | output =>
    rw [← Except.ok.inj h]
    exact .output value
  | help => cases h
  | dump d => cases h

theorem step_of_turnOn {s : Switch} (h : taken.turnOn s = .ok taken') :
    Step choices words taken taken' := by
  cases s with
  | dump d =>
    rcases hdump : taken.dump with _ | earlier <;> rw [turnOn, hdump] at h
    · rw [← Except.ok.inj h]
      exact .dump d
    · simp only at h
      split at h
      · have hsame : { taken with dump := some earlier } = taken := by rw [← hdump]
        rw [← Except.ok.inj h, ← hsame]
        exact .dump earlier
      · cases h
  | help => cases h
  | backend => cases h
  | output => cases h

/-- **A reading without an error is a sequence of steps.** -/
theorem steps_of_collect (h : collect choices beside taken words = .ok final) :
    Relation.ReflTransGen (Step choices words) taken final := by
  have later {w : Word} {rest : List Word} {taken : Taken}
      (h : Relation.ReflTransGen (Step choices rest) taken final) :
      Relation.ReflTransGen (Step choices (w :: rest)) taken final :=
    Relation.ReflTransGen.mono (fun _ _ => Step.mono (List.suffix_cons w rest)) _ _ h
  fun_induction collect choices beside taken words with
  | case1 _ taken =>
    rw [Except.ok.inj h]
  | case2 _ taken text rest _ ih =>
    exact .head (.expression List.mem_cons_self) (later (ih h))
  | case3 _ taken text rest _ _ ih => exact .head (.leave text) (later (ih h))
  | case4 _ taken rest _ ih => exact later (ih h)
  | case5 _ taken rest _ ih => exact .head (.leave "--") (later (ih h))
  | case6 _ taken text rest ih => exact .head (.leave text) (later (ih h))
  | case7 _ taken s value rest ih =>
    obtain ⟨taken', hassign, h⟩ := bind_eq_ok_iff.mp h
    exact .head (step_of_assign hassign) (later (ih taken' h))
  | case8 _ taken s value rest _ ih =>
    obtain ⟨taken', hassign, h⟩ := bind_eq_ok_iff.mp h
    exact .head (step_of_assign hassign) (later (later (ih taken' h)))
  | case9 _ taken s rest _ ih =>
    obtain ⟨taken', hturn, h⟩ := bind_eq_ok_iff.mp h
    exact .head (step_of_turnOn hturn) (later (ih taken' h))
  | case10 => cases h
  | case11 => cases h

/-! ### The name of the output -/

/-- The output is what the words give to its switch last, and without the switch it stays as it
was. -/
def OutputFrom (taken final : Taken) (words : List Word) : Prop :=
  (final.output = taken.output ∧ ∀ v, .switch .output v ∉ words) ∨
    ∃ value, final.output = some (.ofValue value) ∧ GivesLast .output value words

theorem OutputFrom.cons {w : Word} (hw : ∀ v, .switch .output v ≠ w)
    (h : OutputFrom taken final words) : OutputFrom taken final (w :: words) := by
  refine h.imp (fun h => ⟨h.1, fun v => List.not_mem_cons_of_ne_of_not_mem (hw v) (h.2 v)⟩) ?_
  rintro ⟨value, hvalue, hgives⟩
  exact ⟨value, hvalue, hgives.mono (List.suffix_cons w words)⟩

/-- Everything that has been taken is justified by the words and the choices. -/
structure Justified (choices : List String) (words : List Word) (taken : Taken) : Prop where
  expression : ∀ text, taken.expression = some text → .positional text ∈ words
  backend : ∀ given, taken.backend = some given →
    given = .nothing ∨ ∃ name ∈ choices, given = .text name

theorem justified_nothing : Justified choices words nothing :=
  ⟨nofun, nofun⟩

theorem Justified.step (h : Justified choices words taken)
    (hstep : Step choices words taken taken') : Justified choices words taken' := by
  cases hstep with
  | expression hmem =>
    refine { h with expression := fun text htext => ?_ }
    rwa [← Option.some.inj htext]
  | leave text => exact ⟨h.expression, h.backend⟩
  | @backend value hchoice =>
    refine { h with backend := fun given hgiven => ?_ }
    rw [← Option.some.inj hgiven, Given.ofValue]
    split
    · exact Or.inl rfl
    · rename_i hvalue
      exact Or.inr ⟨value, hchoice.resolve_left hvalue, rfl⟩
  | output value => exact ⟨h.expression, h.backend⟩
  | dump d => exact ⟨h.expression, h.backend⟩

/-- **Everything that is taken is justified.** -/
theorem justified_of_collect (h : collect choices beside .nothing words = .ok final) :
    Justified choices words final := by
  have hsteps := steps_of_collect h
  clear h
  induction hsteps with
  | refl => exact justified_nothing
  | tail _ hstep ih => exact ih.step hstep

end Taken

/-! ### The stages -/

/-- **What settings come from:** the words of the arguments, and what is taken from them, with an
expression and nothing left over. -/
theorem Settings.ofArguments_eq_ok_iff {r : Registry} {host : Host} {args : List String}
    {s : Settings} : ofArguments r host args = .ok s ↔
      ∃ words taken expression backend,
        Word.ofTexts ((Argument.arrange args).map (·.text)) = .ok words ∧
        Taken.collect (backendChoices r) false .nothing words = .ok taken ∧
        taken.expression = some expression ∧ taken.leftOver = [] ∧
        resolve r host (taken.backend.getD (.text Registry.defaultName)) = .ok backend ∧
        s = ⟨unhide (Argument.arrange args) expression, backend, taken.output, taken.dump⟩ := by
  unfold ofArguments
  simp only [bind_eq_ok_iff, mapError_eq_ok_iff]
  constructor
  · rintro ⟨words, hwords, taken, hcollect, h⟩
    rcases hexpression : taken.expression with _ | expression <;> rw [hexpression] at h
    · cases h
    simp only at h
    split at h
    · rename_i hleft
      obtain ⟨backend, hbackend, h⟩ := bind_eq_ok_iff.mp h
      exact ⟨words, taken, expression, backend, hwords, hcollect, hexpression,
        List.isEmpty_iff.mp hleft, hbackend, (Except.ok.inj h).symm⟩
    · cases h
  · rintro ⟨words, taken, expression, backend, hwords, hcollect, hexpression, hleft, hbackend, rfl⟩
    refine ⟨words, hwords, taken, hcollect, ?_⟩
    rw [hexpression]
    simp only [hleft, List.isEmpty_nil, if_true]
    exact bind_eq_ok_iff.mpr ⟨backend, hbackend, rfl⟩

/-! ### The backend -/

theorem mem_backendChoices {r : Registry} {name : String} :
    name ∈ backendChoices r ↔ name ∈ r.names ∨ name = nativeChoice := by
  simp [backendChoices]

/-- **The backend of some settings is registered,** if the one that is taken for granted is. -/
theorem Settings.mem_names_of_ofArguments {r : Registry} {host : Host} {args : List String}
    {s : Settings} {name : String} (hdefault : Registry.defaultName ∈ r.names)
    (h : ofArguments r host args = .ok s) (hname : s.backend = .text name) : name ∈ r.names := by
  obtain ⟨words, taken, _, backend, -, hcollect, -, -, hresolve, rfl⟩ := ofArguments_eq_ok_iff.mp h
  obtain rfl : backend = .text name := hname
  have hchoice : ∀ given, taken.backend.getD (.text Registry.defaultName) = given →
      given = .nothing ∨ ∃ name, (name ∈ r.names ∨ name = nativeChoice) ∧ given = .text name := by
    rintro given rfl
    rcases hgiven : taken.backend with _ | given
    · exact Or.inr ⟨_, Or.inl hdefault, rfl⟩
    · refine ((Taken.justified_of_collect hcollect).backend given hgiven).imp_right ?_
      rintro ⟨name, hmem, hname⟩
      exact ⟨name, mem_backendChoices.mp hmem, hname⟩
  unfold resolve at hresolve
  split at hresolve
  · rcases hselect : r.select? (some host.system) (some host.machine) with _ | b <;>
      rw [hselect] at hresolve
    · cases hresolve
    · obtain rfl : b.name = name := Given.text.inj (Except.ok.inj hresolve)
      exact List.mem_map_of_mem (List.mem_of_find?_eq_some hselect)
  · rename_i hnative
    rcases hchoice _ (Except.ok.inj hresolve) with hnothing | ⟨name', hmem, hname'⟩
    · cases hnothing
    · obtain rfl : name = name' := Given.text.inj hname'
      refine hmem.resolve_right fun heq => hnative ?_
      rw [Except.ok.inj hresolve, heq]

end ArithAsm.CommandLine
