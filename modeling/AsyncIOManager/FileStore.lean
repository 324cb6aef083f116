import Mathlib

namespace Files

universe u v

variable {φ : Type u} {α : Type v}

/-- What the files of a disk hold. -/
abbrev Disk (φ : Type u) (α : Type v) := φ → Option (List α)

namespace Disk

/-- What a disk holds of the files `p`. -/
def within (p : φ → Bool) (d : Disk φ α) : Disk φ α := fun x => if p x then d x else none

/-- Remove the files `p`. -/
def erase (p : φ → Bool) (d : Disk φ α) : Disk φ α := fun x => if p x then none else d x

variable [DecidableEq φ]

def put (f : φ) (content : List α) (d : Disk φ α) : Disk φ α :=
  fun g => if g = f then some content else d g

/-- A file that does not exist is created empty. -/
def create (f : φ) (d : Disk φ α) : Disk φ α := d.put f ((d f).getD [])

@[simp] theorem put_self (f : φ) (content : List α) (d : Disk φ α) : d.put f content f = some content := by
  simp [put]

theorem put_other {f g : φ} (other : g ≠ f) (content : List α) (d : Disk φ α) :
    d.put f content g = d g := by
  simp [put, other]

theorem put_congr {d e : Disk φ α} {x : φ} (same : d x = e x) (f : φ) (content : List α) :
    d.put f content x = e.put f content x := by
  simp [put, same]

theorem put_put (f : φ) (first second : List α) (d : Disk φ α) : (d.put f first).put f second = d.put f second := by
  funext x
  by_cases same : x = f <;> simp [put, same]

/-- What a blank disk holds when files have been put on it one after the other. -/
def lay (files : List (φ × List α)) : Disk φ α := files.foldl (fun d e => d.put e.1 e.2) fun _ => none

theorem lay_concat (files : List (φ × List α)) (e : φ × List α) : lay (files ++ [e]) = (lay files).put e.1 e.2 :=
  List.foldl_append ..

theorem lay_absent {files : List (φ × List α)} {x : φ} (absent : ∀ e ∈ files, e.1 ≠ x) : lay files x = none := by
  induction files using List.reverseRecOn with
  | nil => rfl
  | append_singleton files e ih =>
    have other : x ≠ e.1 := fun same => absent e (by simp) same.symm
    rw [lay_concat, put_other other]
    exact ih fun f hf => absent f (List.mem_append_left _ hf)

/-- When the files with one name have one content, each is there with its own. -/
theorem lay_mem {files : List (φ × List α)} (agree : ∀ e ∈ files, ∀ f ∈ files, e.1 = f.1 → e.2 = f.2)
    {e : φ × List α} (mem : e ∈ files) : lay files e.1 = some e.2 := by
  induction files using List.reverseRecOn with
  | nil => simp at mem
  | append_singleton files last ih =>
    rw [lay_concat]
    by_cases same : e.1 = last.1
    · rw [same, put_self, agree e mem last (by simp) same]
    · rw [put_other same]
      refine ih (fun a ha b hb => agree a (List.mem_append_left _ ha) b (List.mem_append_left _ hb)) ?_
      rcases List.mem_append.mp mem with old | new
      · exact old
      · exact absurd (congrArg Prod.fst (List.mem_singleton.mp new)) same

end Disk

/-- Write `bytes` at an offset of a content. -/
def pwrite (content : List α) (offset : Nat) (bytes : List α) : List α :=
  content.take offset ++ bytes ++ content.drop (offset + bytes.length)

/-- What an old content has become when the first `n` elements of a new one are written over it. -/
def overwritten (old content : List α) (n : Nat) : List α := content.take n ++ old.drop n

theorem pwrite_overwritten {old content : List α} {n k : Nat} (room : n + k ≤ content.length) :
    pwrite (overwritten old content n) n ((content.drop n).take k) = overwritten old content (n + k) := by
  have front : (content.take n).length = n := by
    rw [List.length_take]
    omega
  have size : ((content.drop n).take k).length = k := by
    rw [List.length_take, List.length_drop]
    omega
  have before : (overwritten old content n).take n = content.take n := by
    rw [overwritten, List.take_append_of_le_length (by omega), List.take_of_length_le (by omega)]
  have after : (overwritten old content n).drop (n + k) = old.drop (n + k) := by
    rw [overwritten, List.drop_append, front, List.drop_drop, List.drop_eq_nil_of_le (by omega)]
    simp
  rw [pwrite, size, before, after, overwritten, List.take_add]

/-- Writing everything leaves exactly the new content when the old one was not longer. -/
theorem overwritten_whole {old content : List α} (short : old.length ≤ content.length) :
    overwritten old content content.length = content := by
  rw [overwritten, List.take_length, List.drop_eq_nil_of_le short, List.append_nil]

end Files
