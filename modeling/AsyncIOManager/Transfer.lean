import Mathlib

namespace Streaming

universe u

variable {α : Type u}

/-- One request to write `len` elements from `offset` on; a positive result tells how
many were accepted. -/
structure Write where
  offset : Nat
  len : Nat
  rc : Int
deriving DecidableEq, Repr

namespace Write

/-- The elements that the writes have handed over, in order. -/
def accepted (content : List α) (writes : List Write) : List α :=
  writes.flatMap fun w => (content.drop w.offset).take w.rc.toNat

end Write

/-- Writes that each ask for everything that is left, after which `total` elements
are accepted. -/
inductive Transfer (content : List α) : List Write → Nat → Prop
  | start : Transfer content [] 0
  | write {ws : List Write} {total : Nat} (w : Write) : Transfer content ws total → w.offset = total →
      total + w.len = content.length → w.rc ≤ w.len → Transfer content (ws ++ [w]) (total + w.rc.toNat)

namespace Transfer

variable {content : List α} {ws vs : List Write} {w v : Write} {total : Nat}

theorem total_le (h : Transfer content ws total) : total ≤ content.length := by
  induction h with
  | start => exact Nat.zero_le _
  | write w _ _ fits bound _ => omega

theorem accepted_eq (h : Transfer content ws total) : Write.accepted content ws = content.take total := by
  induction h with
  | start => simp [Write.accepted]
  | write w _ here _ _ ih =>
    rw [Write.accepted, List.flatMap_append, ← Write.accepted, ih, List.take_add]
    simp [here]

/-- The last write of a transfer continues where the others have stopped. -/
theorem last (h : Transfer content (ws ++ [w]) total) : Transfer content ws w.offset ∧
    w.offset + w.len = content.length ∧ total = w.offset + w.rc.toNat := by
  generalize hl : ws ++ [w] = l at h
  cases h with
  | start => simp at hl
  | write x before here fits _ =>
    obtain ⟨rfl, hx⟩ := List.append_inj' hl rfl
    obtain rfl := List.singleton_inj.mp hx
    exact ⟨here ▸ before, here ▸ fits, by rw [here]⟩

/-- Every write asks for all that the writes before it have left. -/
theorem split (h : Transfer content (ws ++ w :: vs) total) :
    Transfer content ws w.offset ∧ w.offset + w.len = content.length := by
  induction vs using List.reverseRecOn generalizing total with
  | nil =>
    obtain ⟨before, fits, _⟩ := h.last
    exact ⟨before, fits⟩
  | append_singleton vs x ih =>
    rw [← List.cons_append, ← List.append_assoc] at h
    exact ih h.last.1

/-- The write that follows one which accepts nothing repeats it. -/
theorem retry (h : Transfer content (ws ++ w :: v :: vs) total) (nothing : w.rc ≤ 0) :
    v.offset = w.offset ∧ v.len = w.len := by
  rw [List.append_cons] at h
  obtain ⟨before, fits⟩ := h.split
  obtain ⟨_, whole, same⟩ := before.last
  omega

end Transfer

/-- How many elements the first `n` results have accepted. -/
def moved (results : Nat → Int) : Nat → Nat
  | 0 => 0
  | n + 1 => moved results n + (results n).toNat

theorem moved_mono (results : Nat → Int) {m n : Nat} (le : m ≤ n) : moved results m ≤ moved results n := by
  induction le with
  | refl => exact Nat.le_refl _
  | step _ ih => exact Nat.le_trans ih (Nat.le_add_right _ _)

section

-- A loop that writes `size` elements and gives up at a result that `fails`.
variable (fails : Int → Prop) (size : Nat) (results : Nat → Int)

/-- The loop has gone on after each of the first `n` results. -/
def Working (n : Nat) : Prop := ∀ k < n, moved results k < size ∧ ¬ fails (results k)

/-- The loop ends after `n` results, with all elements accepted. -/
structure Completes (n : Nat) : Prop where
  working : Working fails size results n
  whole : size ≤ moved results n

/-- The loop gives up at the result `n`. -/
structure Fails (n : Nat) : Prop where
  working : Working fails size results n
  more : moved results n < size
  stops : fails (results n)

variable {fails size results} {m n : Nat}

theorem Working.next (working : Working fails size results n) (more : moved results n < size)
    (fine : ¬ fails (results n)) : Working fails size results (n + 1) := by
  intro k hk
  rcases Nat.lt_succ_iff_lt_or_eq.mp hk with before | rfl
  · exact working k before
  · exact ⟨more, fine⟩

/-- A loop that has ended does not go on. -/
theorem Completes.le (done : Completes fails size results m) (working : Working fails size results n) : n ≤ m := by
  by_contra later
  have more := (working m (by omega)).1
  have whole := done.whole
  omega

theorem Fails.le (failed : Fails fails size results m) (working : Working fails size results n) : n ≤ m := by
  by_contra later
  exact (working m (by omega)).2 failed.stops

theorem Fails.not_completes (failed : Fails fails size results m) : ¬ Completes fails size results n := by
  intro done
  have le := moved_mono results (failed.le done.working)
  have more := failed.more
  have whole := done.whole
  omega

variable (fails size results) in
/-- After the result `n` the loop goes on, and gives up before everything is accepted. -/
def Later (n : Nat) : Prop :=
  ∃ k, n < k ∧ moved results k < size ∧ fails (results k) ∧ ∀ j, n < j → j < k → ¬ fails (results j)

theorem fails_later_iff (working : Working fails size results n) (more : moved results n < size)
    (fine : ¬ fails (results n)) : (∃ k, Fails fails size results k) ↔ Later fails size results n := by
  constructor
  · rintro ⟨k, failed⟩
    have le := failed.le (working.next more fine)
    exact ⟨k, by omega, failed.more, failed.stops, fun j _ hj => (failed.working j hj).2⟩
  · rintro ⟨k, after, room, stops, fineAfter⟩
    refine ⟨k, ⟨fun j hj => ?_, room, stops⟩⟩
    have le := moved_mono results (Nat.le_of_lt hj)
    refine ⟨by omega, ?_⟩
    rcases Nat.lt_trichotomy j n with before | rfl | between
    · exact (working j before).2
    · exact fine
    · exact fineAfter j between hj

/-- A loop that no result stops and in which every result accepts something completes. -/
theorem completes_of_positive (positive : ∀ n, moved results n < size → ¬ fails (results n) ∧ 0 < results n) :
    ∃ n, Completes fails size results n := by
  have progress (n : Nat) : size ≤ moved results n ∨ n ≤ moved results n := by
    induction n with
    | zero => exact .inr (Nat.zero_le _)
    | succ n ih =>
      have mono := moved_mono results (Nat.le_add_right n 1)
      by_cases more : moved results n < size
      · have some := (positive n more).2
        have step : moved results (n + 1) = moved results n + (results n).toNat := rfl
        omega
      · omega
  have reached : ∃ n, size ≤ moved results n := ⟨size, (progress size).elim id id⟩
  classical
  refine ⟨Nat.find reached, fun k hk => ?_, Nat.find_spec reached⟩
  have more : moved results k < size := Nat.lt_of_not_le (Nat.find_min reached hk)
  exact ⟨more, (positive k more).1⟩

end

end Streaming
