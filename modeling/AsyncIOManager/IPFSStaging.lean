import AsyncIOManager.IPFSCompletion

namespace AsyncIOManager

open Reactor Files Paths

namespace IPFSSaver

/-- A file of the payload, where it is staged. -/
def laid (file : Str × Str) : Str × Str := (cStr (slash tempDirPath file.1), file.2)

/-- What a save knows in a stage. -/
def Fits (s : Save) : Stage → Prop
  | .tempDirectoryPath => s.single = true ∧ s.staged = []
  | .tempFile => s.single = true ∧ ∃ now, s.tempFilePath = slash s.tempDir (tempName now)
  | .tempWrite => s.single = true ∧ ∃ now, s.tempFilePath = slash s.tempDir (tempName now)
  | .publishFile => s.single = true
  | .existing => s.single = false
  | .removeAll => s.single = false
  | .createDirectories => s.single = false
  | .parentPath file content rest => s.single = false ∧ (file, content) :: rest.map laid <:+ s.files.map laid
  | .ofs file content rest => s.single = false ∧ (file, content) :: rest.map laid <:+ s.files.map laid
  | .write file content rest => s.single = false ∧ MNNSaver.namesFile file = true ∧
      (file, content) :: rest.map laid <:+ s.files.map laid
  | .publishDirectory => s.single = false
  | .publishing => True
  | .catching => True
  | .finished => True

/-- A file that a save can stage. -/
def Names (s : Save) (file : Str) : Prop :=
  if s.single then ∃ now, file = slash s.tempDir (tempName now)
  else MNNSaver.namesFile file = true ∧ ∃ path ∈ s.data.first, file = cStr (slash tempDirPath path)

structure Kept (s : Save) : Prop where
  sized : s.data.first.length = s.data.second.length
  fits : Fits s s.stage
  staged : ∀ f ∈ s.staged, Names s f.1

theorem fits_loop {s : Save} {rest : List (Str × Str)} (several : s.single = false)
    (left : rest.map laid <:+ s.files.map laid) : Fits s (.loop rest) := by
  cases rest with
  | nil => exact several
  | cons file rest => exact ⟨several, left⟩

theorem suffix_tail {α : Type} {a : α} {l m : List α} (h : a :: l <:+ m) : l <:+ m :=
  (List.suffix_cons a l).trans h

theorem names_of_left {s : Save} (several : s.single = false) {file content : Str} {rest : List (Str × Str)}
    (regular : MNNSaver.namesFile file = true) (left : (file, content) :: rest.map laid <:+ s.files.map laid) :
    Names s file := by
  obtain ⟨⟨path, c⟩, mem, same⟩ := List.mem_map.mp (left.mem List.mem_cons_self)
  obtain ⟨rfl, _⟩ := Prod.mk.inj same
  rw [Names, several, if_neg (by simp)]
  exact ⟨regular, path, (List.of_mem_zip mem).1, rfl⟩

theorem names_temp {s : Save} (single : s.single = true)
    (named : ∃ now, s.tempFilePath = slash s.tempDir (tempName now)) : Names s s.tempFilePath := by
  rw [Names, if_pos single]
  exact named

theorem Kept.opened {s : Save} (h : Kept s) {file : Str} {next : Stage} (own : Names s file)
    (fits : Fits s next) (ahead : next ≠ .tempDirectoryPath) : Kept ((s.opened file).goto next) := by
  refine ⟨h.sized, ?_, ?_⟩
  · cases next <;> first | exact fits | exact absurd rfl ahead
  · intro f hf
    rcases List.mem_append.mp hf with hf | hf
    · exact h.staged f hf
    · rw [List.mem_singleton.mp hf]
      exact own

theorem Kept.wrote {s : Save} (h : Kept s) {file bytes : Str} {next : Stage} (own : Names s file)
    (fits : Fits s next) (ahead : next ≠ .tempDirectoryPath) : Kept ((s.wrote file bytes).goto next) := by
  refine ⟨h.sized, ?_, ?_⟩
  · cases next <;> first | exact fits | exact absurd rfl ahead
  · intro f hf
    rcases List.mem_append.mp hf with hf | hf
    · exact h.staged f (List.dropLast_subset _ hf)
    · rw [List.mem_singleton.mp hf]
      exact own

/-- A step that stages nothing. -/
theorem Kept.same {s v : Save} (h : Kept s) (fits : Fits s v.stage)
    (keeps : v.data = s.data ∧ v.tempDir = s.tempDir ∧ v.tempFilePath = s.tempFilePath ∧ v.staged = s.staged) :
    Kept v := by
  obtain ⟨data, tempDir, tempFilePath, staged⟩ := keeps
  have same : Fits v = Fits s := by
    funext stage
    cases stage <;> simp only [Fits, Save.single, Save.files, data, tempDir, tempFilePath, staged]
  refine ⟨data ▸ h.sized, same ▸ fits, ?_⟩
  rw [staged]
  simp only [Names, Save.single, data, tempDir]
  exact h.staged

theorem kept_saveASync (data : ResultType) (bitswap : Bool) (saveLocation : Option Str) :
    Kept (saveASync data bitswap saveLocation) := by
  have done : Kept (refused saveLocation) := ⟨rfl, trivial, by simp [refused]⟩
  unfold saveASync
  split
  next => exact done
  next => exact done
  next data =>
    split
    next => exact done
    next =>
      split
      next => exact done
      next =>
        split
        next => exact done
        next sized =>
          refine ⟨not_not.mp sized, ?_, by simp⟩
          by_cases one : data.first.length = 1
          · simp [Fits, Save.single, one]
          · simp [Fits, Save.single, one]

theorem Save.report_keeps (s : Save) (result : Published) :
    (s.report result).data = s.data ∧ (s.report result).tempDir = s.tempDir ∧
      (s.report result).tempFilePath = s.tempFilePath ∧ (s.report result).staged = s.staged := by
  unfold Save.report
  split <;> exact ⟨rfl, rfl, rfl, rfl⟩

theorem Kept.step {s s' : Save} {t t' : Tree} {a : Act} (h : Kept s) (steps : s.Steps t a s' t') :
    Kept s' := by
  have here := h.fits
  cases steps with
  | named dir now hs =>
    rw [hs] at here
    refine ⟨h.sized, ⟨here.1, now, rfl⟩, ?_⟩
    change ∀ f ∈ s.staged, _
    simp [here.2]
  | unnamed hs => exact h.same trivial ⟨rfl, rfl, rfl, rfl⟩
  | refused hs => exact h.same trivial ⟨rfl, rfl, rfl, rfl⟩
  | openedTemp hs regular =>
    rw [hs] at here
    exact h.opened (names_temp here.1 here.2) here Stage.noConfusion
  | wroteTemp n hs _ =>
    rw [hs] at here
    exact h.wrote (names_temp here.1 here.2) here.1 Stage.noConfusion
  | looked hs =>
    rw [hs] at here
    refine h.same ?_ ⟨rfl, rfl, rfl, rfl⟩
    simp only [Save.goto]
    split <;> exact here
  | removed hs =>
    rw [hs] at here
    exact h.same here ⟨rfl, rfl, rfl, rfl⟩
  | unremoved removed hs => exact h.same trivial ⟨rfl, rfl, rfl, rfl⟩
  | created hs =>
    rw [hs] at here
    exact h.same (fits_loop here (List.suffix_refl _)) ⟨rfl, rfl, rfl, rfl⟩
  | parent hs =>
    rw [hs] at here
    exact h.same here ⟨rfl, rfl, rfl, rfl⟩
  | opened hs regular =>
    rw [hs] at here
    exact h.opened (names_of_left here.1 regular here.2) ⟨here.1, regular, here.2⟩ Stage.noConfusion
  | skipped hs =>
    rw [hs] at here
    exact h.same (fits_loop here.1 (suffix_tail here.2)) ⟨rfl, rfl, rfl, rfl⟩
  | @wrote file content rest n hs _ =>
    rw [hs] at here
    obtain ⟨several, regular, left⟩ := here
    refine h.wrote (names_of_left several regular left) (fits_loop several (suffix_tail left)) ?_
    cases rest <;> exact Stage.noConfusion
  | publishes hs => exact h.same trivial ⟨rfl, rfl, rfl, rfl⟩
  | thrown hs => exact h.same trivial ⟨rfl, rfl, rfl, rfl⟩
  | recovered hs => exact h.same trivial ⟨rfl, rfl, rfl, rfl⟩
  | unrecovered removed hs => exact h.same trivial ⟨rfl, rfl, rfl, rfl⟩
  | reads hs => exact h.same here ⟨rfl, rfl, rfl, rfl⟩
  | returns hs inside => exact h.same here ⟨rfl, rfl, rfl, rfl⟩
  | calledBack result hs _ => exact h.same trivial (s.report_keeps result)
  | uncleaned result removed hs _ =>
    refine h.same ?_ ⟨rfl, rfl, rfl, rfl⟩
    simp only [Save.goto]
    split <;> trivial

theorem reaches_kept {C : Process → Event → Prop} {tree : Tree} {p : Process}
    (reach : Reaches Process.step C ⟨[], tree⟩ p) : ∀ s ∈ p.saves, Kept s :=
  Process.keep kept_saveASync (fun _ _ _ _ _ _ _ _ steps h => h.step steps) reach (by simp)

end IPFSSaver

end AsyncIOManager
