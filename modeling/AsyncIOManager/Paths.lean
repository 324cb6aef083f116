import Mathlib

namespace Paths

universe u

variable {ν : Type u}

inductive Component (ν : Type u)
  | here
  | up
  | name (n : ν)
deriving DecidableEq, Repr

/-- A lexically normal path: how many levels it goes up and the names it then goes down.
An absolute path has nothing above it. -/
structure Place (ν : Type u) where
  root : Bool
  ups : Nat
  names : List ν
deriving DecidableEq, Repr

namespace Place

/-- The directory that relative paths start from. -/
def current : Place ν := ⟨false, 0, []⟩

def step (p : Place ν) : Component ν → Place ν
  | .here => p
  | .up =>
    if p.names ≠ [] then { p with names := p.names.dropLast }
    else if p.root then p
    else { p with ups := p.ups + 1 }
  | .name n => { p with names := p.names ++ [n] }

def walk (p : Place ν) (path : List (Component ν)) : Place ν := path.foldl step p

/-- Go up `n` levels. -/
def climb (p : Place ν) (n : Nat) : Place ν where
  root := p.root
  ups := if p.root then p.ups else p.ups + (n - p.names.length)
  names := p.names.take (p.names.length - n)

def descend (p : Place ν) (names : List ν) : Place ν := { p with names := p.names ++ names }

/-- `x` is something in the directory `d`. -/
def Inside (d x : Place ν) : Prop :=
  x.root = d.root ∧ x.ups = d.ups ∧ ∃ tail, tail ≠ [] ∧ x.names = d.names ++ tail

instance [DecidableEq ν] (d x : Place ν) : Decidable (d.Inside x) :=
  decidable_of_iff (x.root = d.root ∧ x.ups = d.ups ∧ d.names <+: x.names ∧ x.names ≠ d.names) (by
    refine and_congr_right fun _ => and_congr_right fun _ => ⟨?_, ?_⟩
    · rintro ⟨⟨tail, names⟩, more⟩
      refine ⟨tail, ?_, names.symm⟩
      rintro rfl
      exact more (by rw [← names, List.append_nil])
    · rintro ⟨tail, more, names⟩
      refine ⟨⟨tail, names.symm⟩, fun same => more ?_⟩
      rw [names] at same
      simpa using same)

/-- What keeps a relative path in the directory it starts from: it goes down all the names
that it has gone up, and further. -/
def Stays (d path : Place ν) : Prop :=
  (path.ups ≤ d.names.length ∨ d.root = true) ∧
    ∃ tail, tail ≠ [] ∧ path.names = d.names.drop (d.names.length - path.ups) ++ tail

theorem walk_append (p : Place ν) (first second : List (Component ν)) :
    p.walk (first ++ second) = (p.walk first).walk second :=
  List.foldl_append ..

theorem climb_up (p : Place ν) (n : Nat) : (p.climb n).step .up = p.climb (n + 1) := by
  by_cases left : n < p.names.length
  · have some : (p.climb n).names ≠ [] := by
      intro none
      have length := congrArg List.length none
      simp only [climb, List.length_take, List.length_nil] at length
      omega
    have names : (p.names.take (p.names.length - n)).dropLast = p.names.take (p.names.length - (n + 1)) := by
      rw [List.dropLast_eq_take, List.take_take, List.length_take]
      congr 1
      omega
    have ups : n - p.names.length = n + 1 - p.names.length := by omega
    simp only [step, if_pos some]
    simp only [climb, names, ups]
  · have none : (p.climb n).names = [] := by
      simp only [climb, show p.names.length - n = 0 by omega, List.take_zero]
    have next : p.names.take (p.names.length - (n + 1)) = [] := by
      simp only [show p.names.length - (n + 1) = 0 by omega, List.take_zero]
    have here : p.names.take (p.names.length - n) = [] := none
    simp only [step, none, ne_eq, not_true_eq_false, if_false]
    cases hr : p.root with
    | true => simp [climb, hr, next, here]
    | false =>
      have ups : p.ups + (n - p.names.length) + 1 = p.ups + (n + 1 - p.names.length) := by omega
      simp [climb, hr, next, here, ups]

theorem walk_root (p : Place ν) (path : List (Component ν)) : (p.walk path).root = p.root := by
  induction path using List.reverseRecOn with
  | nil => rfl
  | append_singleton path c ih =>
    rw [walk_append, ← ih]
    generalize p.walk path = r
    cases c with
    | here => rfl
    | name n => rfl
    | up =>
      change (r.step .up).root = r.root
      simp only [step]
      split
      next => rfl
      next => split <;> rfl

/-- A relative path acts on every directory as its normal form says. -/
theorem walk_eq (d : Place ν) (path : List (Component ν)) :
    d.walk path = (d.climb (current.walk path).ups).descend (current.walk path).names := by
  induction path using List.reverseRecOn with
  | nil => simp [walk, current, climb, descend]
  | append_singleton path c ih =>
    have relative : (current.walk path).root = false := walk_root current path
    rw [walk_append, walk_append, ih]
    generalize current.walk path = r at relative
    cases c with
    | here => rfl
    | name n => simp [walk, step, descend]
    | up =>
      change ((d.climb r.ups).descend r.names).step .up =
        (d.climb (r.step .up).ups).descend (r.step .up).names
      by_cases level : r.names = []
      · have up : r.step .up = { r with ups := r.ups + 1 } := by simp [step, level, relative]
        have still : (d.climb r.ups).descend r.names = d.climb r.ups := by simp [descend, level]
        rw [up, still, climb_up, level]
        simp [descend]
      · have up : r.step .up = { r with names := r.names.dropLast } := by simp [step, level]
        rw [up]
        simp [step, descend, level, List.dropLast_append_of_ne_nil level]

theorem inside_walk_iff (d : Place ν) (path : List (Component ν)) :
    Inside d (d.walk path) ↔ Stays d (current.walk path) := by
  rw [walk_eq]
  generalize current.walk path = r
  have split : d.names = d.names.take (d.names.length - r.ups) ++ d.names.drop (d.names.length - r.ups) :=
    (List.take_append_drop _ _).symm
  have level : (if d.root then d.ups else d.ups + (r.ups - d.names.length)) = d.ups ↔
      r.ups ≤ d.names.length ∨ d.root = true := by
    cases d.root with
    | true => simp
    | false => simp; omega
  have below (tail : List ν) : d.names.take (d.names.length - r.ups) ++ r.names = d.names ++ tail ↔
      r.names = d.names.drop (d.names.length - r.ups) ++ tail := by
    conv_lhs => rhs; lhs; rw [split]
    rw [List.append_assoc, List.append_cancel_left_eq]
  simp only [Inside, Stays, climb, descend, true_and, level, below]

end Place

/-- The component that a piece of text between two separators stands for. -/
def component (piece : List Char) : Component (List Char) :=
  if piece = [] ∨ piece = ['.'] then .here
  else if piece = ['.', '.'] then .up
  else .name piece

def components (path : List Char) : List (Component (List Char)) := (path.splitOn '/').map component

/-- The directory that a path starts from. -/
def origin (path : List Char) : Place (List Char) := ⟨path.head? = some '/', 0, []⟩

/-- The lexical normal form of a path. -/
def place (path : List Char) : Place (List Char) := (origin path).walk (components path)

/-- The normal form of a path that is appended to another one. -/
def relative (path : List Char) : Place (List Char) := Place.current.walk (components path)

theorem components_append (dir path : List Char) :
    components (dir ++ '/' :: path) = components dir ++ components path := by
  simp [components, List.splitOn_append_cons_self]

theorem components_directory (dir : List Char) : components (dir ++ ['/']) = components dir ++ [.here] := by
  rw [components_append]
  simp [components, component]

/-- A path in a directory is where its components lead from there. -/
theorem place_append (dir path : List Char) :
    place (dir ++ '/' :: path) = (place (dir ++ ['/'])).walk (components path) := by
  have same : origin (dir ++ '/' :: path) = origin (dir ++ ['/']) := by
    cases dir with
    | nil => rfl
    | cons c dir => rfl
  rw [place, same, components_append, Place.walk_append, place, components_directory, Place.walk_append]
  rfl

/-- A path stays in the directory it is appended to if and only if its normal form does. -/
theorem inside_iff (dir path : List Char) :
    (place (dir ++ ['/'])).Inside (place (dir ++ '/' :: path)) ↔
      (place (dir ++ ['/'])).Stays (relative path) := by
  rw [place_append dir path]
  exact Place.inside_walk_iff _ _

/-- A single name stays in every directory. -/
theorem stays_name (d : Place (List Char)) {name : List Char} (plain : '/' ∉ name)
    (regular : component name = .name name) : d.Stays (relative name) := by
  have whole : relative name = ⟨false, 0, [name]⟩ := by
    simp [relative, components, List.splitOn_eq_singleton plain, regular, Place.walk, Place.step, Place.current]
  rw [whole]
  exact ⟨.inl (Nat.zero_le _), [name], by simp, by simp⟩

end Paths
