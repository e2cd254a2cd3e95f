import ArithAsm.Assembly.Backend

/-!
# The registry of backends

A registry lists backends in the order in which their names were first registered.  A backend
registered under a name that is taken replaces the one that had it.
-/

namespace ArithAsm

namespace Backend

/-- 64-bit x86 under Linux. -/
def x64Linux : Backend :=
  ⟨.att, "x64-linux", some "Linux", some "x86_64", "main", "%rax", "%rdi"⟩

/-- 64-bit x86 in the other notation, for no host in particular. -/
def x64Intel : Backend :=
  ⟨.intel, "x64-intel", none, none, "main", "rax", "rdi"⟩

/-- 64-bit ARM under Darwin. -/
def arm64Darwin : Backend :=
  ⟨.arm64, "arm64-apple-darwin", some "Darwin", some "arm64", "_main", "X0", "X1"⟩

/-- The backend has been made for the given host. -/
def isFor (b : Backend) (system machine : Option String) : Bool :=
  b.system = system && b.machine = machine

end Backend

/-- Backends in the order of their registration. -/
structure Registry where
  backends : List Backend
  deriving DecidableEq, Repr

namespace Registry

/-- The backends that are always there. -/
def builtIn : Registry :=
  ⟨[.x64Linux, .x64Intel, .arm64Darwin]⟩

/-- The name of the backend that is used unless another one is asked for. -/
def defaultName : String :=
  Backend.x64Linux.name

/-- The names in the order of their registration. -/
def names (r : Registry) : List String :=
  r.backends.map (·.name)

/-- Puts a backend in the place of the one of its name, or at the end. -/
def put (b : Backend) : List Backend → List Backend
  | [] => [b]
  | x :: rest => if x.name = b.name then b :: rest else x :: put b rest

/-- **Registers a backend** under its name. -/
def register (r : Registry) (b : Backend) : Registry :=
  ⟨put b r.backends⟩

/-- The backend of a name. -/
def get? (r : Registry) (name : String) : Option Backend :=
  r.backends.find? (·.name = name)

/-- The first backend for a host. -/
def select? (r : Registry) (system machine : Option String) : Option Backend :=
  r.backends.find? (·.isFor system machine)

theorem find?_put (b : Backend) (bs : List Backend) (name : String) :
    (put b bs).find? (·.name = name)
      = if b.name = name then some b else bs.find? (·.name = name) := by
  induction bs with
  | nil => by_cases h : b.name = name <;> simp [put, h]
  | cons x rest ih =>
    by_cases hx : x.name = b.name
    · by_cases h : b.name = name <;> simp [put, hx, h]
    · rw [put, if_neg hx]
      by_cases h : x.name = name
      · have hb : b.name ≠ name := fun hb => hx (h.trans hb.symm)
        simp [h, hb]
      · simp only [List.find?_cons, h, decide_false, ih]

theorem get?_register (r : Registry) (b : Backend) (name : String) :
    (r.register b).get? name = if b.name = name then some b else r.get? name :=
  find?_put b r.backends name

theorem names_register (r : Registry) (b : Backend) :
    (r.register b).names = if b.name ∈ r.names then r.names else r.names ++ [b.name] := by
  obtain ⟨bs⟩ := r
  simp only [register, names]
  induction bs with
  | nil => simp [put]
  | cons x rest ih =>
    by_cases hx : x.name = b.name
    · simp [put, hx]
    · simp only [put, hx, if_false, List.map_cons, List.mem_cons, Ne.symm hx, false_or, ih]
      by_cases hm : b.name ∈ rest.map (·.name) <;> simp [hm]

end Registry

end ArithAsm
