import AsyncIOManager.FileStore

namespace Files

universe u v

variable {φ : Type u} {α : Type v}

/-- A file that is written or read piece by piece, with what has been written or read so far. -/
inductive Task (φ : Type u) (α : Type v)
  | write (f : φ) (content : List α) (written : Nat)
  | read (f : φ) (buffer : List α)
deriving DecidableEq, Repr

namespace Task

def file : Task φ α → φ
  | write f _ _ => f
  | read f _ => f

def writes : Task φ α → Bool
  | write _ _ _ => true
  | read _ _ => false

/-- Two tasks on one file both read it. -/
def Apart (x y : Task φ α) : Prop := x.file = y.file → x.writes = false ∧ y.writes = false

theorem Apart.symm {x y : Task φ α} (h : x.Apart y) : y.Apart x := fun same => (h same.symm).symm

end Task

/-- What a write starts on. -/
def ground (truncated : Bool) (old : Option (List α)) : List α := if truncated then [] else old.getD []

/-- What is known of a task when the files would hold `cells` if it had not begun. -/
def Task.Fits (cells disk : Disk φ α) : Task φ α → Prop
  | write f content n => ∃ truncated, disk f = some (overwritten (ground truncated (cells f)) content n)
  | read f buffer => ∃ content, cells f = some content ∧ buffer <+: content

/-- The disk is as `cells` tell, but for the files that are being written, each of which is
only one task's. -/
structure Atomic (cells disk : Disk φ α) (tasks : List (Task φ α)) : Prop where
  apart : tasks.Pairwise Task.Apart
  fits : ∀ x ∈ tasks, x.Fits cells disk
  still : ∀ f, (∀ x ∈ tasks, x.file = f → x.writes = false) → disk f = cells f

namespace Atomic

variable {cells disk : Disk φ α} {tasks rest : List (Task φ α)} {f : φ} {content buffer : List α} {n k : Nat}

theorem begun (disk : Disk φ α) : Atomic disk disk ([] : List (Task φ α)) :=
  ⟨.nil, fun x hx => (by cases hx), fun _ _ => rfl⟩

theorem perm (h : Atomic cells disk tasks) (same : tasks.Perm rest) : Atomic cells disk rest where
  apart := (same.pairwise_iff fun apart => apart.symm).mp h.apart
  fits x hx := h.fits x (same.mem_iff.mpr hx)
  still f only := h.still f fun x hx => only x (same.mem_iff.mp hx)

/-- A file that is read holds what it is to hold. -/
theorem read_still (h : Atomic cells disk (.read f buffer :: rest)) : disk f = cells f := by
  refine h.still f fun x hx same => ?_
  rcases List.mem_cons.mp hx with rfl | other
  · rfl
  · exact ((List.pairwise_cons.mp h.apart).1 x other same.symm).2

/-- No other task has to do with a file that is written. -/
theorem write_alone (h : Atomic cells disk (.write f content n :: rest)) : ∀ x ∈ rest, x.file ≠ f := by
  intro x hx same
  have both := (List.pairwise_cons.mp h.apart).1 x hx same.symm
  cases both.1

/-- Tasks fit on as long as their own files stay as they are. -/
theorem fits_congr {cells' disk' : Disk φ α} {x : Task φ α} (fits : x.Fits cells disk)
    (now : disk' x.file = disk x.file) (due : cells' x.file = cells x.file) : x.Fits cells' disk' := by
  cases x with
  | write f content n =>
    obtain ⟨truncated, here⟩ := fits
    refine ⟨truncated, ?_⟩
    change disk' f = disk f at now
    change cells' f = cells f at due
    rw [now, due]
    exact here
  | read f buffer =>
    obtain ⟨content, here, sofar⟩ := fits
    exact ⟨content, due.trans here, sofar⟩

theorem openRead (h : Atomic cells disk tasks) (still : ∀ x ∈ tasks, x.file = f → x.writes = false)
    (there : disk f = some content) : Atomic cells disk (.read f [] :: tasks) where
  apart := List.pairwise_cons.mpr ⟨fun x hx same => ⟨rfl, still x hx same.symm⟩, h.apart⟩
  fits x hx := by
    rcases List.mem_cons.mp hx with rfl | old
    · exact ⟨content, (h.still f still).symm.trans there, List.nil_prefix⟩
    · exact h.fits x old
  still g only := h.still g fun x hx => only x (List.mem_cons_of_mem _ hx)

/-- The next piece of a file is read. -/
theorem read (h : Atomic cells disk (.read f buffer :: rest)) (there : disk f = some content) (n : Nat) :
    Atomic cells disk (.read f (buffer ++ (content.drop buffer.length).take n) :: rest) := by
  have same := h.read_still
  obtain ⟨apart, others⟩ := List.pairwise_cons.mp h.apart
  obtain ⟨whole, due, sofar⟩ := h.fits _ List.mem_cons_self
  obtain rfl : whole = content := Option.some.inj ((due.symm.trans same.symm).trans there)
  refine ⟨List.pairwise_cons.mpr ⟨apart, others⟩, ?_, ?_⟩
  · intro x hx
    rcases List.mem_cons.mp hx with rfl | old
    · refine ⟨whole, due, ?_⟩
      obtain ⟨left, rfl⟩ := sofar
      rw [List.drop_left]
      exact (List.prefix_append_right_inj _).mpr (List.take_prefix n left)
    · exact h.fits x (List.mem_cons_of_mem _ old)
  · intro g only
    refine h.still g fun x hx => ?_
    rcases List.mem_cons.mp hx with rfl | old
    · exact fun _ => rfl
    · exact only x (List.mem_cons_of_mem _ old)

/-- A task that reads ends. -/
theorem closeRead (h : Atomic cells disk (.read f buffer :: rest)) : Atomic cells disk rest where
  apart := (List.pairwise_cons.mp h.apart).2
  fits x hx := h.fits x (List.mem_cons_of_mem _ hx)
  still g only := by
    refine h.still g fun x hx => ?_
    rcases List.mem_cons.mp hx with rfl | old
    · exact fun _ => rfl
    · exact only x old

/-- A file that has been read to its end is what it is to hold. -/
theorem read_whole (h : Atomic cells disk (.read f buffer :: rest)) (there : disk f = some content)
    (ended : content.length ≤ buffer.length) : cells f = some buffer := by
  obtain ⟨whole, due, sofar⟩ := h.fits _ List.mem_cons_self
  obtain rfl : whole = content := Option.some.inj ((due.symm.trans h.read_still.symm).trans there)
  rw [due, sofar.eq_of_length_le ended]

variable [DecidableEq φ]

/-- What becomes of one file leaves the tasks on all others. -/
theorem fits_others (h : Atomic cells disk tasks) (free : ∀ x ∈ tasks, x.file ≠ f) (new due : List α)
    {x : Task φ α} (hx : x ∈ tasks) : x.Fits (cells.put f due) (disk.put f new) :=
  fits_congr (h.fits x hx) (Disk.put_other (free x hx) new disk) (Disk.put_other (free x hx) due cells)

theorem put (h : Atomic cells disk tasks) (free : ∀ x ∈ tasks, x.file ≠ f) (content : List α) :
    Atomic (cells.put f content) (disk.put f content) tasks where
  apart := h.apart
  fits _ hx := h.fits_others free content content hx
  still g only := Disk.put_congr (h.still g only) f content

theorem openWrite (h : Atomic cells disk tasks) (free : ∀ x ∈ tasks, x.file ≠ f) (truncated : Bool)
    (content : List α) :
    Atomic cells (disk.put f (ground truncated (disk f))) (.write f content 0 :: tasks) := by
  have same : disk f = cells f := h.still f fun x hx here => absurd here (free x hx)
  refine ⟨List.pairwise_cons.mpr ⟨fun x hx here => absurd here.symm (free x hx), h.apart⟩, ?_, ?_⟩
  · intro x hx
    rcases List.mem_cons.mp hx with rfl | old
    · refine ⟨truncated, (Disk.put_self ..).trans ?_⟩
      rw [same, overwritten]
      simp
    · exact fits_congr (h.fits x old) (Disk.put_other (free x old) _ disk) rfl
  · intro g only
    have other : g ≠ f := fun here => by cases only _ List.mem_cons_self here.symm
    rw [Disk.put_other other]
    exact h.still g fun x hx => only x (List.mem_cons_of_mem _ hx)

/-- The next piece of a file is written. -/
theorem write (h : Atomic cells disk (.write f content n :: rest)) (room : n + k ≤ content.length) :
    Atomic cells (disk.put f (pwrite ((disk f).getD []) n ((content.drop n).take k)))
      (.write f content (n + k) :: rest) := by
  obtain ⟨apart, others⟩ := List.pairwise_cons.mp h.apart
  obtain ⟨truncated, here⟩ := h.fits _ List.mem_cons_self
  refine ⟨List.pairwise_cons.mpr ⟨apart, others⟩, ?_, ?_⟩
  · intro x hx
    rcases List.mem_cons.mp hx with rfl | old
    · refine ⟨truncated, (Disk.put_self ..).trans ?_⟩
      rw [here, Option.getD_some, pwrite_overwritten room]
    · exact fits_congr (h.fits x (List.mem_cons_of_mem _ old)) (Disk.put_other (h.write_alone x old) _ disk) rfl
  · intro g only
    have other : g ≠ f := fun same => by cases only _ List.mem_cons_self same.symm
    rw [Disk.put_other other]
    refine h.still g fun x hx same => ?_
    rcases List.mem_cons.mp hx with rfl | old
    · exact absurd same.symm other
    · exact only x (List.mem_cons_of_mem _ old) same

/-- A task that writes ends, and the file is to hold what it holds. -/
theorem closeWrite (h : Atomic cells disk (.write f content n :: rest)) :
    ∃ truncated, Atomic (cells.put f (overwritten (ground truncated (cells f)) content n)) disk rest := by
  obtain ⟨truncated, here⟩ := h.fits _ List.mem_cons_self
  refine ⟨truncated, (List.pairwise_cons.mp h.apart).2, ?_, ?_⟩
  · intro x hx
    exact fits_congr (h.fits x (List.mem_cons_of_mem _ hx)) rfl (Disk.put_other (h.write_alone x hx) _ cells)
  · intro g only
    by_cases same : g = f
    · subst same
      exact here.trans (Disk.put_self ..).symm
    · rw [Disk.put_other same]
      refine h.still g fun x hx at_g => ?_
      rcases List.mem_cons.mp hx with rfl | old
      · exact absurd at_g.symm same
      · exact only x old at_g

end Atomic

end Files
