import ArithAsm.Proofs.CommandLine.Form
import ArithAsm.Proofs.CommandLine.Origin
import ArithAsm.Proofs.CommandLine.Source
import Mathlib.Data.List.Pairwise

/-!
# A request gets its settings

The groups of a request are set out, read and taken one after the other, each by itself, so that
what has been taken at the end is a fold over the groups (`collect_flatMap`).  Groups of different
kinds commute, and therefore the order of the groups does not matter.  The main statement is
`ofArguments_of_perm`: every expression and every name of a file get through, however the request is
written.
-/

namespace ArithAsm.CommandLine

/-! ### Groups -/

namespace Group

variable {choices : List String} {g g' : Group} {taken : Taken}

/-- The group can be read as what it is meant for. -/
def Fine (choices : List String) : Group → Prop
  | expression source => Argument.hasDash source = true → Argument.startsExpression source = true
  | backend form name => name ∈ choices ∧ name ≠ "--" ∧ form.Allows name
  | output form fileName => fileName ≠ "--" ∧ form.Allows fileName
  | dump _ => True

/-- A group as it is set out. -/
def setOut : Group → List Argument
  | expression source => [.single source]
  | backend form name => form.setOut .backend name
  | output form fileName => form.setOut .output fileName
  | dump d => [.plain (Switch.dump d).longName]

/-- The words of a group. -/
def words : Group → List Word
  | expression source => [.positional (Argument.single source).text]
  | backend form name => form.words .backend name
  | output form fileName => form.words .output fileName
  | dump d => [.switch (.dump d) none]

/-- What has been taken, with a group. -/
def place (taken : Taken) : Group → Taken
  | expression source => { taken with expression := some (Argument.single source).text }
  | backend _ name => { taken with backend := some (.text name) }
  | output _ fileName => { taken with output := some (.text fileName) }
  | dump d => { taken with dump := some d }

/-- Nothing has been taken that the group has to be the first of. -/
def Fits (taken : Taken) : Group → Prop
  | expression _ => taken.expression = none
  | dump _ => taken.dump = none
  | _ => True

/-- The groups are of different kinds. -/
def Apart : Group → Group → Prop
  | expression _, expression _ => False
  | backend _ _, backend _ _ => False
  | output _ _, output _ _ => False
  | dump _, dump _ => False
  | _, _ => True

theorem Apart.symm (h : g.Apart g') : g'.Apart g := by
  cases g <;> cases g' <;> exact h

instance : Std.Symm Apart :=
  ⟨fun _ _ => Apart.symm⟩

theorem place_comm (h : g.Apart g') (taken : Taken) :
    place (place taken g) g' = place (place taken g') g := by
  cases g <;> cases g' <;> first | rfl | exact h.elim

theorem Fits.place (h : g.Apart g') (hfits : g'.Fits taken) : g'.Fits (g.place taken) := by
  cases g <;> cases g' <;> first | exact hfits | exact h.elim

/-! ### One group -/

theorem arrange_args (h : g.Fine choices) (rest : List String) :
    Argument.arrange (g.args ++ rest) = g.setOut ++ Argument.arrange rest := by
  cases g with
  | expression source =>
    refine Argument.arrange_cons_of_not_mem (fun hmem => ?_) rest
    have hall : ∀ spelling ∈ valueSpellings, Argument.startsExpression spelling = false := by decide
    have hstarts := h (Argument.hasDash_of_mem_valueSpellings hmem)
    rw [hall source hmem] at hstarts
    cases hstarts
  | backend form name => exact Form.arrange_args rfl h.2.2 rest
  | output form fileName => exact Form.arrange_args rfl h.2 rest
  | dump d => cases d <;> exact arrange_plain (by decide) (by decide) rest

theorem read_setOut (h : g.Fine choices) : Read g.setOut g.words := by
  cases g with
  | expression source =>
    refine .cons ?_ .nil
    by_cases hstarts : Argument.startsExpression source = true
    · rw [Argument.single, if_pos hstarts]
      exact Argument.ofText_hidden source
    · have hdash : Argument.hasDash source = false := Bool.eq_false_iff.mpr fun hd => hstarts (h hd)
      rw [Argument.single_of_not_hasDash hdash]
      exact Argument.ofText_of_not_hasDash hdash
  | backend form name => exact Form.read_setOut rfl h.2.2
  | output form fileName => exact Form.read_setOut rfl h.2
  | dump d => exact .cons (Word.ofText_longName _) .nil

/-- **The words of a group place it,** whatever was taken before. -/
theorem collect_words (h : g.Fine choices) (hfits : g.Fits taken) (beside : Bool)
    (rest : List Word) : ∃ beside', Taken.collect choices beside taken (g.words ++ rest)
      = Taken.collect choices beside' (g.place taken) rest := by
  cases g with
  | expression source =>
    have hnone : taken.expression = none := hfits
    refine ⟨true, ?_⟩
    rw [words, List.singleton_append, Taken.collect, hnone]
    rfl
  | backend form name =>
    refine ⟨false, ?_⟩
    rw [words, Form.collect_words rfl, Taken.assign, Given.ofValue, if_neg h.2.1]
    simp only [if_pos h.1]
    rfl
  | output form fileName =>
    refine ⟨false, ?_⟩
    rw [words, Form.collect_words rfl, Taken.assign, Given.ofValue, if_neg h.1]
    rfl
  | dump d =>
    have hnone : taken.dump = none := hfits
    refine ⟨false, ?_⟩
    rw [words, List.singleton_append, Taken.collect, Taken.turnOn, hnone]
    · rfl
    · intro _ _ htakes
      cases htakes

/-! ### Several groups -/

section Groups

variable {groups : List Group} {r : Registry} {host : Host}

theorem arrange_flatMap (h : ∀ g ∈ groups, g.Fine choices) :
    Argument.arrange (groups.flatMap args) = groups.flatMap setOut := by
  induction groups with
  | nil => rfl
  | cons g groups ih =>
    obtain ⟨hg, hgroups⟩ := List.forall_mem_cons.mp h
    rw [List.flatMap_cons, List.flatMap_cons, arrange_args hg, ih hgroups]

theorem read_flatMap (h : ∀ g ∈ groups, g.Fine choices) :
    Read (groups.flatMap setOut) (groups.flatMap words) := by
  induction groups with
  | nil => exact .nil
  | cons g groups ih =>
    obtain ⟨hg, hgroups⟩ := List.forall_mem_cons.mp h
    rw [List.flatMap_cons, List.flatMap_cons]
    exact List.rel_append (read_setOut hg) (ih hgroups)

/-- **The words of some groups place them,** one after the other. -/
theorem collect_flatMap (hfine : ∀ g ∈ groups, g.Fine choices) (hfits : ∀ g ∈ groups, g.Fits taken)
    (hapart : groups.Pairwise Apart) (beside : Bool) :
    Taken.collect choices beside taken (groups.flatMap words) = .ok (groups.foldl place taken) := by
  -- What the later groups have to be the first of is not placed by the group before them.
  induction groups generalizing taken beside with
  | nil => rfl
  | cons g groups ih =>
    obtain ⟨hg, hgroups⟩ := List.forall_mem_cons.mp hfine
    obtain ⟨hfit, hrest⟩ := List.forall_mem_cons.mp hfits
    obtain ⟨hdiffer, hapart⟩ := List.pairwise_cons.mp hapart
    obtain ⟨beside', hcollect⟩ := collect_words hg hfit beside (groups.flatMap words)
    rw [List.flatMap_cons, hcollect, List.foldl_cons]
    exact ih hgroups (fun g' hg' => (hrest g' hg').place (hdiffer g' hg')) hapart beside'

end Groups

theorem eq_expression_of_hidden_mem {written : String} (h : .hidden written ∈ g.setOut) :
    ∃ source, g = .expression source ∧ Argument.single source = .hidden written := by
  have hvalue {s : Switch} {value : String} {form : Form} :
      Argument.hidden written ∉ form.setOut s value := by
    have hapart {spelling : String} : Argument.hidden written ∉ setOutApart spelling value := by
      unfold setOutApart
      split <;> simp
    cases form with
    | shortApart => exact hapart
    | shortJoined => simp [Form.setOut]
    | longApart => exact hapart
    | longJoined => simp [Form.setOut]
  cases g with
  | expression source => exact ⟨source, rfl, (List.mem_singleton.mp h).symm⟩
  | backend form name => exact absurd h hvalue
  | output form fileName => exact absurd h hvalue
  | dump d => simp [setOut] at h

end Group

/-! ### Requests -/

namespace Request

variable {q : Request} {r : Registry} {host : Host} {groups : List Group}

theorem expression_mem_groups {source : String} :
    .expression source ∈ q.groups ↔ source = q.source := by
  obtain ⟨_, _ | backend, _ | output, _ | d⟩ := q <;> simp [Request.groups]

theorem pairwise_apart : q.groups.Pairwise Group.Apart := by
  obtain ⟨_, _ | backend, _ | output, _ | d⟩ := q <;> simp [Request.groups, Group.Apart]

theorem pairwise_apart_of_perm (h : groups.Perm q.groups) : groups.Pairwise Group.Apart :=
  (h.pairwise_iff fun hapart => hapart.symm).mpr pairwise_apart

theorem foldl_groups : q.groups.foldl Group.place .nothing =
    ⟨some (Argument.single q.source).text, q.backend.map fun (_, name) => .text name,
      q.output.map fun (_, fileName) => .text fileName, q.dump, []⟩ := by
  obtain ⟨_, _ | backend, _ | output, _ | d⟩ := q <;> rfl

/-- **The order of the groups does not matter,** since groups of different kinds commute. -/
theorem foldl_of_perm (h : groups.Perm q.groups) (taken : Taken) :
    groups.foldl Group.place taken = q.groups.foldl Group.place taken := by
  refine h.foldl_eq' (fun g hg g' hg' taken => ?_) taken
  by_cases heq : g = g'
  · rw [heq]
  · exact Group.place_comm ((pairwise_apart_of_perm h).forall hg hg' heq) taken

theorem unhide_single (hmem : ∀ source, .expression source ∈ groups ↔ source = q.source)
    (harrange : Argument.arrange (groups.flatMap Group.args) = groups.flatMap Group.setOut) :
    Settings.unhide (Argument.arrange (groups.flatMap Group.args))
      (Argument.single q.source).text = q.source := by
  by_cases hstarts : Argument.startsExpression q.source = true
  · have hsingle : Argument.single q.source = .hidden q.source := if_pos hstarts
    rw [hsingle]
    refine unhide_of_hidden ?_
    rw [harrange, ← hsingle]
    exact List.mem_flatMap.mpr ⟨_, (hmem _).mpr rfl, List.mem_singleton_self _⟩
  · have hsingle : Argument.single q.source = .plain q.source := if_neg hstarts
    rw [hsingle]
    refine if_neg fun hhidden => ?_
    obtain ⟨written, hwritten, -⟩ := mem_hiddenTexts.mp hhidden
    rw [harrange] at hwritten
    obtain ⟨g, hg, hwritten⟩ := List.mem_flatMap.mp hwritten
    obtain ⟨source, rfl, hsource⟩ := Group.eq_expression_of_hidden_mem hwritten
    rw [(hmem source).mp hg, hsingle] at hsource
    cases hsource

/-- **A request whose groups can be read gets its settings,** in any order of the groups, with the
backend that its choice is resolved to. -/
theorem ofArguments_of_resolve {backend : Given}
    (hfine : ∀ g ∈ q.groups, g.Fine (backendChoices r))
    (hresolve : Settings.resolve r host q.settings.backend = .ok backend)
    (hperm : groups.Perm q.groups) :
    Settings.ofArguments r host (groups.flatMap Group.args)
      = .ok { q.settings with backend := backend } := by
  have hfine' : ∀ g ∈ groups, g.Fine (backendChoices r) := fun g hg => hfine g (hperm.mem_iff.mp hg)
  have harrange := Group.arrange_flatMap hfine'
  have hwords := (Group.read_flatMap hfine').ofTexts
  rw [← harrange] at hwords
  have hfits : ∀ g ∈ groups, g.Fits .nothing := fun g _ => by cases g <;> trivial
  have hcollect := Group.collect_flatMap hfine' hfits (pairwise_apart_of_perm hperm) false
  rw [foldl_of_perm hperm, foldl_groups] at hcollect
  have hchoice : (q.backend.map fun (_, name) => Given.text name).getD
      (.text Registry.defaultName) = q.settings.backend := by
    rw [settings]
    cases q.backend <;> rfl
  rw [← hchoice] at hresolve
  have hmem (source : String) : .expression source ∈ groups ↔ source = q.source :=
    hperm.mem_iff.trans expression_mem_groups
  refine Settings.ofArguments_eq_ok_iff.mpr
    ⟨_, _, _, _, hwords, hcollect, rfl, rfl, hresolve, ?_⟩
  rw [unhide_single hmem harrange]
  rfl

theorem ofArguments_of_fine (hfine : ∀ g ∈ q.groups, g.Fine (backendChoices r))
    (hnative : ∀ form name, q.backend = some (form, name) → name ≠ nativeChoice)
    (hperm : groups.Perm q.groups) :
    Settings.ofArguments r host (groups.flatMap Group.args) = .ok q.settings := by
  refine ofArguments_of_resolve hfine (if_neg fun hchoice => ?_) hperm
  obtain ⟨source, _ | ⟨form, name⟩, output, d⟩ := q
  · have hdefault : Given.text Registry.defaultName ≠ .text nativeChoice := by decide
    exact hdefault hchoice
  · exact hnative form name rfl (Given.text.inj hchoice)

theorem fine_of_source {choices : List String}
    (hsource : ∃ limit t, readTree limit q.source = .ok t)
    (hbackend : ∀ form name, q.backend = some (form, name) →
      name ∈ choices ∧ name ≠ "--" ∧ form.Allows name)
    (houtput : ∀ form fileName, q.output = some (form, fileName) →
      fileName ≠ "--" ∧ form.Allows fileName) :
    ∀ g ∈ q.groups, g.Fine choices := by
  intro g hg
  simp only [groups, List.mem_append, List.mem_singleton, Option.mem_toList, Option.map_eq_some_iff]
    at hg
  rcases hg with ((rfl | ⟨⟨form, name⟩, hq, rfl⟩) | ⟨⟨form, fileName⟩, hq, rfl⟩) | ⟨d, -, rfl⟩
  · obtain ⟨limit, t, ht⟩ := hsource
    exact startsExpression_of_readTree ht
  · exact hbackend form name hq
  · exact houtput form fileName hq
  · trivial

theorem fine_groups
    (hsource : ∃ limit t, readTree limit q.source = .ok t)
    (hbackend : ∀ form name, q.backend = some (form, name) → name ∈ Registry.builtIn.names)
    (houtput : ∀ form fileName, q.output = some (form, fileName) →
      fileName ≠ "--" ∧ form.Allows fileName) :
    ∀ g ∈ q.groups, g.Fine (backendChoices .builtIn) := by
  refine fine_of_source hsource (fun form name hq => ?_) houtput
  have hname := hbackend form name hq
  have hall : ∀ name ∈ Registry.builtIn.names, name ≠ "--" ∧ Form.shortJoined.Allows name := by
    decide
  refine ⟨mem_backendChoices.mpr (Or.inl hname), (hall name hname).1, ?_⟩
  cases form with
  | shortJoined => exact (hall name hname).2
  | shortApart => trivial
  | longApart => trivial
  | longJoined => trivial

end Request

/-- **Every expression gets through the command line,** whatever it starts with, together with any
backend, any name of a file and any dump, in every form and in any order of the groups. -/
theorem ofArguments_of_perm {q : Request} {host : Host} {groups : List Group}
    (hsource : ∃ limit t, readTree limit q.source = .ok t)
    (hbackend : ∀ form name, q.backend = some (form, name) → name ∈ Registry.builtIn.names)
    (houtput : ∀ form fileName, q.output = some (form, fileName) →
      fileName ≠ "--" ∧ form.Allows fileName)
    (hperm : groups.Perm q.groups) :
    Settings.ofArguments .builtIn host (groups.flatMap Group.args) = .ok q.settings := by
  refine Request.ofArguments_of_fine (Request.fine_groups hsource hbackend houtput) ?_ hperm
  rintro form _ hq rfl
  exact absurd (hbackend form _ hq) (by decide)

/-- The output goes to a file that is named like a switch, and an expression with a dash in front
follows. -/
theorem ofArguments_of_perm_dashes :
    Settings.ofArguments .builtIn ⟨"Linux", "aarch64"⟩ ["--ast", "-o", "-b", "-3+5", "-bx64-intel"]
      = .ok ⟨"-3+5", .text "x64-intel", some (.text "-b"), some .ast⟩ := by
  let q : Request := ⟨"-3+5", some (.shortJoined, "x64-intel"), some (.shortApart, "-b"), some .ast⟩
  let t : Tree := .node .add
    (.node .sub (.number 0 (some 0)) (.number 3 (some 1)) (some 0)) (.number 5 (some 3)) (some 2)
  have hsource : readTree nestingLimit q.source = .ok t := readTree_of_toOption (by decide +kernel)
  have hperm : [Group.dump .ast, .output .shortApart "-b", .expression "-3+5",
      .backend .shortJoined "x64-intel"].Perm q.groups := by decide
  refine ofArguments_of_perm ⟨nestingLimit, t, hsource⟩ ?_ ?_ hperm
  · rintro form name ⟨⟩
    decide
  · rintro form fileName ⟨⟩
    decide

end ArithAsm.CommandLine
