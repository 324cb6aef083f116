import Mathlib

namespace Descriptors

universe u

variable {α : Type u}

/-- A descriptor table: what each number stands for, if it is not free. -/
abbrev Table (α : Type u) := List (Option α)

namespace Table

def lookup (n : Nat) (t : Table α) : Option α := t[n]?.join

/-- The lowest number that is free. -/
def lowest : Table α → Nat
  | [] => 0
  | none :: _ => 0
  | some _ :: t => lowest t + 1

/-- Open a descriptor, which gets the lowest free number. -/
def allocate (a : α) : Table α → Table α
  | [] => [some a]
  | none :: t => some a :: t
  | some b :: t => some b :: allocate a t

def release (n : Nat) (t : Table α) : Table α := t.set n none

theorem lookup_lowest (t : Table α) : t.lookup t.lowest = none := by
  induction t with
  | nil => rfl
  | cons entry t ih =>
    cases entry with
    | none => rfl
    | some a => simpa [lookup, lowest] using ih

theorem lookup_allocate (a : α) (t : Table α) (n : Nat) :
    (t.allocate a).lookup n = if n = t.lowest then some a else t.lookup n := by
  induction t generalizing n with
  | nil => cases n <;> simp [allocate, lookup, lowest]
  | cons entry t ih =>
    cases entry with
    | none => cases n <;> simp [allocate, lookup, lowest]
    | some b =>
      cases n with
      | zero => simp [allocate, lookup, lowest]
      | succ n => simpa [allocate, lookup, lowest] using ih n

theorem lookup_release (n m : Nat) (t : Table α) :
    (t.release n).lookup m = if m = n then none else t.lookup m := by
  simp only [release, lookup, List.getElem?_set]
  by_cases same : n = m
  · subst same
    by_cases inside : n < t.length <;> simp [inside]
  · simp [same, Ne.symm same]

/-- A number that is released right after it was given out is the next one again. -/
theorem lowest_release_allocate (a : α) (t : Table α) : ((t.allocate a).release t.lowest).lowest = t.lowest := by
  induction t with
  | nil => rfl
  | cons entry t ih =>
    cases entry with
    | none => rfl
    | some b => exact congrArg (· + 1) ih

variable [DecidableEq α]

theorem count_allocate (a b : α) (t : Table α) :
    (t.allocate a).count (some b) = t.count (some b) + if a = b then 1 else 0 := by
  induction t with
  | nil => simp [allocate, List.count_cons]
  | cons entry t ih =>
    cases entry with
    | none => simp [allocate, List.count_cons]
    | some c =>
      simp only [allocate, List.count_cons, ih]
      omega

theorem count_release {t : Table α} {n : Nat} {a : α} (held : t.lookup n = some a) (b : α) :
    (t.release n).count (some b) + (if a = b then 1 else 0) = t.count (some b) := by
  induction t generalizing n with
  | nil => simp [lookup] at held
  | cons entry t ih =>
    cases n with
    | zero =>
      have here : entry = some a := by simpa [lookup] using held
      simp [release, here, List.count_cons]
    | succ n =>
      have later := ih (n := n) (by simpa [lookup] using held)
      simp only [release, List.set_cons_succ, List.count_cons] at later ⊢
      omega

/-- What a number stands for is in the table. -/
theorem count_of_lookup {t : Table α} {n : Nat} {a : α} (held : t.lookup n = some a) : 0 < t.count (some a) := by
  have counts := count_release held a
  rw [if_pos rfl] at counts
  omega

theorem lookup_of_count {t : Table α} {a : α} (counts : 0 < t.count (some a)) : ∃ n, t.lookup n = some a := by
  obtain ⟨n, hn⟩ := List.mem_iff_getElem?.mp (List.count_pos_iff.mp counts)
  exact ⟨n, by simp [lookup, hn]⟩

end Table

end Descriptors
