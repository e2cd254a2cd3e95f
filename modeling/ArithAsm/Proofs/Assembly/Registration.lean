import ArithAsm.Compile
import ArithAsm.Proofs.CommandLine.Request
import Mathlib.Data.List.Induction

/-!
# Registrations

What a registry holds is decided by the backends that were registered, in their order.  Kept as a
table of names and backends, in which a registration assigns the backend to its name (`keyed`), it
never has a backend under a name that is not its own (`keyed_eq`).  The main statement is
`register_coherent`: the backend that is found for a host is found under its name, so that the
choice of the native backend, of which only the name is passed on, reaches the backend that was
selected.
-/

namespace ArithAsm.Registry

open CommandLine

/-! ### Tables with names as keys -/

/-- Assigns a value to a key: in the place that the key has, or at the end if it is new. -/
def assign {α : Type} (key : String) (value : α) : List (String × α) → List (String × α)
  | [] => [(key, value)]
  | (k, v) :: rest => if k = key then (key, value) :: rest else (k, v) :: assign key value rest

/-- **The table of the backends that were registered,** each assigned to its name. -/
def keyed (registered : List Backend) : List (String × Backend) :=
  registered.foldl (fun table b => assign b.name b table) []

/-- The registry of the backends that were registered, the first one first. -/
def ofRegistered (registered : List Backend) : Registry :=
  registered.foldl register ⟨[]⟩

theorem ofRegistered_concat (registered : List Backend) (b : Backend) :
    ofRegistered (registered ++ [b]) = (ofRegistered registered).register b := by
  rw [ofRegistered, List.foldl_append]
  rfl

theorem foldl_register_builtIn (added : List Backend) :
    added.foldl register builtIn = ofRegistered (builtIn.backends ++ added) := by
  have hbuiltIn : builtIn = builtIn.backends.foldl register ⟨[]⟩ := by decide
  rw [ofRegistered, List.foldl_append, ← hbuiltIn]

theorem assign_eq_put (b : Backend) (bs : List Backend) :
    assign b.name b (bs.map fun b => (b.name, b)) = (put b bs).map fun b => (b.name, b) := by
  induction bs with
  | nil => rfl
  | cons x rest ih =>
    by_cases h : x.name = b.name
    · simp [assign, put, h]
    · simp [assign, put, h, ih]

/-- **Every key is the name of its backend.** -/
theorem keyed_eq (registered : List Backend) :
    keyed registered = (ofRegistered registered).backends.map fun b => (b.name, b) := by
  induction registered using List.reverseRecOn with
  | nil => rfl
  | append_singleton registered b ih =>
    rw [ofRegistered_concat, register, ← assign_eq_put, ← ih, keyed, List.foldl_append]
    rfl

/-! ### Names -/

theorem eraseDups_concat (names : List String) (name : String) :
    (names ++ [name]).eraseDups
      = if name ∈ names then names.eraseDups else names.eraseDups ++ [name] := by
  rw [List.eraseDups_append]
  by_cases h : name ∈ names <;> simp [List.removeAll, List.eraseDups_cons, h]

/-- **The names stand in the order of their first registration.** -/
theorem names_ofRegistered (registered : List Backend) :
    (ofRegistered registered).names = (registered.map (·.name)).eraseDups := by
  induction registered using List.reverseRecOn with
  | nil => rfl
  | append_singleton registered b ih =>
    rw [ofRegistered_concat, names_register, ih, List.map_append, List.map_singleton,
      eraseDups_concat]
    simp only [List.mem_eraseDups]

theorem nodup_names_register {r : Registry} (h : r.names.Nodup) (b : Backend) :
    (r.register b).names.Nodup := by
  rw [names_register]
  split
  · exact h
  · rename_i hnew
    refine List.nodup_append.mpr ⟨h, by simp, ?_⟩
    intro name hname name' hname' heq
    obtain rfl := List.mem_singleton.mp hname'
    exact hnew (heq ▸ hname)

theorem nodup_names_ofRegistered (registered : List Backend) :
    (ofRegistered registered).names.Nodup := by
  induction registered using List.reverseRecOn with
  | nil => exact List.nodup_nil
  | append_singleton registered b ih =>
    rw [ofRegistered_concat]
    exact nodup_names_register ih b

/-! ### What is found -/

/-- **The backend of a name is the one that was registered last.** -/
theorem get?_ofRegistered (registered : List Backend) (name : String) :
    (ofRegistered registered).get? name = registered.findRev? (·.name = name) := by
  rw [List.findRev?_eq_find?_reverse]
  induction registered using List.reverseRecOn with
  | nil => rfl
  | append_singleton registered b ih =>
    rw [ofRegistered_concat, get?_register, ih, List.reverse_concat, List.find?_cons]
    by_cases h : b.name = name <;> simp [h]

theorem get?_of_mem {r : Registry} {b : Backend} (hnames : r.names.Nodup) (h : b ∈ r.backends) :
    r.get? b.name = some b := by
  obtain ⟨before, behind, hbs⟩ := List.append_of_mem h
  rw [names, hbs, List.map_append, List.map_cons] at hnames
  have hbefore : ∀ x ∈ before, x.name ≠ b.name := by
    intro x hx
    have hdisjoint := (List.nodup_append.mp hnames).2.2
    exact hdisjoint x.name (List.mem_map_of_mem hx) b.name List.mem_cons_self
  rw [get?, hbs, List.find?_append, List.find?_eq_none.mpr (by simpa using hbefore)]
  simp

theorem lower_of_get? {r : Registry} {name : String} {b : Backend} (h : r.get? name = some b)
    (t : Tree) : r.lower t name = (b.lower t).mapError .lower := by
  rw [lower, h]

theorem lower_eq_unknownBackend_iff {r : Registry} {t : Tree} {name : String} :
    r.lower t name = .error (.unknownBackend name) ↔ r.get? name = none := by
  constructor
  · intro h
    rcases hget : r.get? name with _ | b
    · rfl
    · rw [lower_of_get? hget] at h
      cases hb : b.lower t <;> rw [hb] at h <;> cases h
  · intro h
    rw [lower, h]

theorem exists_of_select? {r : Registry} {system machine : Option String} {b : Backend}
    (h : r.select? system machine = some b) : ∃ before behind, r.backends = before ++ b :: behind ∧
      b.system = system ∧ b.machine = machine ∧
      ∀ x ∈ before, ¬ (x.system = system ∧ x.machine = machine) := by
  obtain ⟨hfor, before, behind, hbs, hbefore⟩ := List.find?_eq_some_iff_append.mp h
  simp only [Backend.isFor, Bool.and_eq_true, decide_eq_true_eq] at hfor
  refine ⟨before, behind, hbs, hfor.1, hfor.2, fun x hx hboth => ?_⟩
  simpa [Backend.isFor, hboth] using hbefore x hx

/-! ### The native backend -/

/-- What is taken from a list of arguments. -/
def taken (r : Registry) (args : List String) : Except Stop Taken := do
  let words ← (Word.ofTexts ((Argument.arrange args).map (·.text))).mapError .misuse
  Taken.collect (backendChoices r) false .nothing words

theorem resolve_native_eq_ok_iff {r : Registry} {host : Host} {given : Given} :
    Settings.resolve r host (.text nativeChoice) = .ok given ↔
      ∃ b, r.select? (some host.system) (some host.machine) = some b ∧ given = .text b.name := by
  rw [Settings.resolve, if_pos rfl]
  cases r.select? (some host.system) (some host.machine) <;> simp [eq_comm]

/-- Whatever the command line is: if it chooses the native backend and gets settings, then they
have the name of the backend that is selected. -/
theorem exists_of_taken_native {r : Registry} {host : Host} {args : List String} {what : Taken}
    {s : Settings} (htaken : taken r args = .ok what)
    (hnative : what.backend = some (.text nativeChoice))
    (hs : Settings.ofArguments r host args = .ok s) :
    ∃ b, r.select? (some host.system) (some host.machine) = some b ∧ s.backend = .text b.name := by
  obtain ⟨words, what', _, given, hwords, hcollect, -, -, hresolve, rfl⟩ :=
    Settings.ofArguments_eq_ok_iff.mp hs
  rw [taken, hwords] at htaken
  obtain rfl : what' = what := Except.ok.inj (hcollect.symm.trans htaken)
  rw [hnative] at hresolve
  exact resolve_native_eq_ok_iff.mp hresolve

theorem ofArguments_of_native {r : Registry} {host : Host} {q : Request} {groups : List Group}
    {form : Form} {b : Backend}
    (hselect : r.select? (some host.system) (some host.machine) = some b)
    (hsource : ∃ limit t, readTree limit q.source = .ok t)
    (hbackend : q.backend = some (form, nativeChoice))
    (houtput : ∀ form fileName, q.output = some (form, fileName) →
      fileName ≠ "--" ∧ form.Allows fileName)
    (hperm : groups.Perm q.groups) :
    Settings.ofArguments r host (groups.flatMap Group.args)
      = .ok { q.settings with backend := .text b.name } := by
  refine Request.ofArguments_of_resolve (Request.fine_of_source hsource ?_ houtput) ?_ hperm
  · intro form' name hname
    obtain ⟨rfl, rfl⟩ := Prod.mk.inj (Option.some.inj (hbackend.symm.trans hname))
    refine ⟨mem_backendChoices.mpr (Or.inr rfl), by decide, ?_⟩
    cases form <;> decide
  · rw [Request.settings, hbackend]
    exact resolve_native_eq_ok_iff.mpr ⟨b, hselect, rfl⟩

/-- **The registry is coherent** after any registrations on top of the backends that are always
there.  Kept as a table of names and backends, it has every backend under its own name; no name is
repeated, and they stand in the order of their first registration.  The backend of a name is the one
that was registered last under it, and it is missing exactly if there was none.  The backend that is
selected for a host is the first one made for it, and the one that is found under its name.  So a
command line that chooses the native backend, however it is written, passes on the name of the
backend that is selected, and every tree is lowered with this very backend; and such a choice does
get through the command line, in every form and any order of the groups. -/
theorem register_coherent (added : List Backend) :
    let r := added.foldl register builtIn
    let registered := builtIn.backends ++ added
    keyed registered = r.backends.map (fun b => (b.name, b)) ∧
    r.names.Nodup ∧ r.names = (registered.map (·.name)).eraseDups ∧
    (∀ name, r.get? name = registered.findRev? (·.name = name)) ∧
    (∀ name t, r.lower t name = .error (.unknownBackend name) ↔
      ∀ b ∈ registered, b.name ≠ name) ∧
    (∀ system machine b, r.select? system machine = some b →
      (∃ before behind, r.backends = before ++ b :: behind ∧ b.system = system ∧
        b.machine = machine ∧ ∀ x ∈ before, ¬ (x.system = system ∧ x.machine = machine)) ∧
      r.get? b.name = some b) ∧
    (∀ host args what s, taken r args = .ok what → what.backend = some (.text nativeChoice) →
      Settings.ofArguments r host args = .ok s →
      ∃ b, r.select? (some host.system) (some host.machine) = some b ∧ s.backend = .text b.name ∧
        ∀ t, r.lower t b.name = (b.lower t).mapError .lower) ∧
    ∀ (host : Host) (b : Backend) (q : Request) (form : Form) (groups : List Group),
      r.select? (some host.system) (some host.machine) = some b →
      (∃ limit t, readTree limit q.source = .ok t) → q.backend = some (form, nativeChoice) →
      (∀ form fileName, q.output = some (form, fileName) →
        fileName ≠ "--" ∧ form.Allows fileName) →
      groups.Perm q.groups →
      Settings.ofArguments r host (groups.flatMap Group.args)
        = .ok { q.settings with backend := .text b.name } := by
  intro r registered
  have hr : r = ofRegistered registered := foldl_register_builtIn added
  have hnames : r.names.Nodup := hr ▸ nodup_names_ofRegistered registered
  have hfind (name : String) : r.get? name = registered.findRev? (·.name = name) :=
    hr ▸ get?_ofRegistered registered name
  have hselected {system machine : Option String} {b : Backend}
      (h : r.select? system machine = some b) : r.get? b.name = some b :=
    get?_of_mem hnames (List.mem_of_find?_eq_some h)
  refine ⟨hr ▸ keyed_eq registered, hnames, hr ▸ names_ofRegistered registered, hfind,
    fun name t => ?_, fun system machine b h => ⟨exists_of_select? h, hselected h⟩,
    fun host args what s htaken hnative hs => ?_,
    fun host b q form groups h hsource hbackend houtput hperm =>
      ofArguments_of_native h hsource hbackend houtput hperm⟩
  · rw [lower_eq_unknownBackend_iff, hfind, List.findRev?_eq_find?_reverse]
    simp
  · obtain ⟨b, hselect, hbackend⟩ := exists_of_taken_native htaken hnative hs
    exact ⟨b, hselect, hbackend, lower_of_get? (hselected hselect)⟩

/-- A backend takes the place of another one of its name, and with it the host; a new one for the
same host stands behind it. -/
theorem register_coherent_replaced :
    let replacing : Backend := { Backend.arm64Darwin with system := some "Linux" }
    let added : List Backend :=
      [replacing, { Backend.x64Intel with
        name := "arm64-linux", system := some "Linux", machine := some "arm64" }]
    let r := added.foldl register builtIn
    r.names = ["x64-linux", "x64-intel", "arm64-apple-darwin", "arm64-linux"] ∧
    Settings.ofArguments r ⟨"Linux", "arm64"⟩ ["-b", "native", "1"]
      = .ok ⟨"1", .text "arm64-apple-darwin", none, none⟩ ∧
    ∀ t, r.lower t "arm64-apple-darwin" = (replacing.lower t).mapError .lower := by
  intro replacing added r
  obtain ⟨-, -, hnames, -, -, -, hchosen, hrequested⟩ := register_coherent added
  have hwords : Word.ofTexts ((Argument.arrange ["-b", "native", "1"]).map (·.text))
      = .ok [.switch .backend none, .positional nativeChoice, .positional "1"] := by rfl
  have hassign : Taken.nothing.assign (backendChoices r) nativeChoice .backend
      = .ok { Taken.nothing with backend := some (.text nativeChoice) } :=
    if_pos (mem_backendChoices.mpr (Or.inr rfl))
  have htaken : taken r ["-b", "native", "1"]
      = .ok ⟨some "1", some (.text nativeChoice), none, none, []⟩ := by
    rw [taken, hwords]
    change Taken.nothing.assign (backendChoices r) nativeChoice .backend >>= _ = _
    rw [hassign]
    rfl
  have hs : Settings.ofArguments r ⟨"Linux", "arm64"⟩ ["-b", "native", "1"]
      = .ok ⟨"1", .text "arm64-apple-darwin", none, none⟩ := by
    refine hrequested ⟨"Linux", "arm64"⟩ replacing
      ⟨"1", some (.shortApart, nativeChoice), none, none⟩ .shortApart
      [.backend .shortApart nativeChoice, .expression "1"] (by rfl) ?_ rfl ?_ (by decide)
    · have hread : readTree nestingLimit "1" = .ok (.number 1 (some 0)) :=
        readTree_of_toOption (by decide +kernel)
      exact ⟨_, _, hread⟩
    · rintro _ _ ⟨⟩
  obtain ⟨b, hselect, -, hlower⟩ := hchosen _ _ _ _ htaken rfl hs
  obtain rfl : replacing = b := Option.some.inj hselect
  exact ⟨hnames.trans (by decide), hs, hlower⟩

end ArithAsm.Registry
