import AsyncIOManager.IPFSStaging

namespace AsyncIOManager

open Reactor Files Paths

namespace IPFSSaver

/-- A save that has begun to work in its area of the disk and is not done with it. -/
def Stage.using : Stage → Bool
  | tempDirectoryPath => false
  | tempFile => false
  | existing => false
  | finished => false
  | _ => true

/-- The next step is the first in the area. -/
def Stage.begins : Stage → Bool
  | tempFile => true
  | existing => true
  | _ => false

def Area.meets : Area → Area → Bool
  | file x, a => a.has x
  | directory, file y => directory.has y
  | directory, directory => true

theorem Area.apart {a b : Area} (h : a.meets b = false) {x : Place Str} (own : a.has x = true) :
    b.has x = false := by
  cases a with
  | file y =>
    obtain rfl : x = y := by simpa [has] using own
    exact h
  | directory =>
    cases b with
    | file y =>
      by_contra both
      obtain rfl : x = y := by simpa [has] using both
      rw [meets, own] at h
      cases h
    | directory => cases h

theorem Area.meets_comm (a b : Area) : a.meets b = b.meets a := by
  cases a with
  | file x =>
    cases b with
    | file y => simp [meets, has, eq_comm]
    | directory => rfl
  | directory =>
    cases b with
    | file y => rfl
    | directory => rfl

namespace Save

/-- Where the files of a save are to be, and with which contents. -/
def targets (s : Save) : List (Str × Str) :=
  if s.single then [(s.tempFilePath, s.content)] else s.files.map laid

end Save

def placed (e : Str × Str) : Place Str × Str := (place e.1, e.2)

/-- What the area holds when exactly these files are in it. -/
def layout (files : List (Str × Str)) : Disk (Place Str) Char := Disk.lay (files.map placed)

/-- All files are in the area of the save, and two files with one place have one content. -/
structure Save.Publishable (s : Save) : Prop where
  inside : ∀ e ∈ s.targets, s.area.has (place e.1) = true
  agree : ∀ e ∈ s.targets, ∀ f ∈ s.targets, place e.1 = place f.1 → e.2 = f.2

instance (s : Save) : Decidable s.Publishable :=
  decidable_of_iff ((∀ e ∈ s.targets, s.area.has (place e.1) = true) ∧
    ∀ e ∈ s.targets, ∀ f ∈ s.targets, place e.1 = place f.1 → e.2 = f.2)
    ⟨fun h => ⟨h.1, h.2⟩, fun h => ⟨h.inside, h.agree⟩⟩

/-- What the disk holds in the area of a save in a stage. -/
def Holds (s : Save) (d : Disk (Place Str) Char) : Stage → Prop
  | .tempWrite => ∀ x, s.area.has x = true → d x = some []
  | .publishFile => ∀ x, s.area.has x = true → d x = layout s.targets x
  | .createDirectories => ∀ x, s.area.has x = true → d x = none
  | .parentPath file content rest => ∃ done, s.targets = done ++ (file, content) :: rest.map laid ∧
      ∀ x, s.area.has x = true → d x = layout done x
  | .ofs file content rest => ∃ done, s.targets = done ++ (file, content) :: rest.map laid ∧
      ∀ x, s.area.has x = true → d x = layout done x
  | .write file content rest => ∃ done, s.targets = done ++ (file, content) :: rest.map laid ∧
      ∀ x, s.area.has x = true → d x = (layout done).put (place file) [] x
  | .publishDirectory => ∀ x, s.area.has x = true → d x = layout s.targets x
  | .publishing => ∀ x, s.area.has x = true → d x = layout s.targets x
  | _ => True

theorem Holds.congr {s : Save} {d e : Disk (Place Str) Char} {stage : Stage} (h : Holds s d stage)
    (same : ∀ x, s.area.has x = true → e x = d x) : Holds s e stage := by
  have next {P : Place Str → Option Str} (old : ∀ x, s.area.has x = true → d x = P x) :
      ∀ x, s.area.has x = true → e x = P x := fun x own => (same x own).trans (old x own)
  cases stage with
  | tempWrite | publishFile | createDirectories | publishDirectory | publishing => exact next h
  | parentPath | ofs | write =>
    obtain ⟨done, split, old⟩ := h
    exact ⟨done, split, next old⟩
  | _ => trivial

theorem same_single {s v : Save} (data : v.data = s.data) : v.single = s.single := by
  rw [Save.single, data, Save.single]

theorem same_area {s v : Save} (data : v.data = s.data) (tempFilePath : v.tempFilePath = s.tempFilePath) :
    v.area = s.area := by
  rw [Save.area, same_single data, tempFilePath, Save.area]

theorem same_targets {s v : Save} (data : v.data = s.data) (tempFilePath : v.tempFilePath = s.tempFilePath) :
    v.targets = s.targets := by
  rw [Save.targets, same_single data, tempFilePath, Save.content, Save.files, data]
  rfl

/-- What a save holds is about its payload and its temporary file only. -/
theorem Holds.same {s v : Save} {d : Disk (Place Str) Char} {stage : Stage} (h : Holds s d stage)
    (data : v.data = s.data) (tempFilePath : v.tempFilePath = s.tempFilePath) : Holds v d stage := by
  have all : Holds v d = Holds s d := by
    funext stage
    cases stage <;> simp only [Holds, same_area data tempFilePath, same_targets data tempFilePath]
  rw [all]
  exact h

theorem layout_concat (done : List (Str × Str)) (file content : Str) :
    layout (done ++ [(file, content)]) = (layout done).put (place file) content := by
  rw [layout, List.map_append]
  exact Disk.lay_concat ..

theorem holds_loop {s : Save} {d : Disk (Place Str) Char} {done rest : List (Str × Str)}
    (split : s.targets = done ++ rest.map laid) (now : ∀ x, s.area.has x = true → d x = layout done x) :
    Holds s d (.loop rest) := by
  cases rest with
  | nil =>
    rw [List.map_nil, List.append_nil] at split
    rw [← split] at now
    exact now
  | cons file rest => exact ⟨done, split, now⟩

theorem remove_outside {a : Area} {t : Tree} {x : Place Str} (outside : a.has x = false) :
    (a.remove t).disk x = t.disk x := by
  cases a with
  | file y => simp [Area.remove, Tree.erase, Disk.erase, outside]
  | directory =>
    have out : ¬ tempDirectory.Inside x := by simpa [Area.has] using outside
    simp [Area.remove, Tree.removeAll, Disk.erase, out]

theorem removeSome_outside {a : Area} {removed : List (Place Str)} {t : Tree} {x : Place Str}
    (outside : a.has x = false) : (a.removeSome removed t).disk x = t.disk x := by
  simp [Area.removeSome, Tree.erase, Disk.erase, outside]

theorem remove_inside {a : Area} {t : Tree} {x : Place Str} (inside : a.has x = true) :
    (a.remove t).disk x = none := by
  cases a with
  | file y => simp [Area.remove, Tree.erase, Disk.erase, inside]
  | directory =>
    have own : tempDirectory.Inside x := by simpa [Area.has] using inside
    simp [Area.remove, Tree.removeAll, Disk.erase, own]

theorem area_temp {s : Save} (single : s.single = true) : s.area = .file (place s.tempFilePath) := if_pos single

theorem target_of_left {s : Save} (several : s.single = false) {file content : Str} {rest : List (Str × Str)}
    (left : (file, content) :: rest.map laid <:+ s.files.map laid) : (file, content) ∈ s.targets := by
  rw [Save.targets, several, if_neg (by simp)]
  exact left.mem List.mem_cons_self

/-- A step of a save changes the disk only in its area. -/
theorem frame {s s' : Save} {t t' : Tree} {a : Act} (kept : Kept s) (steps : s.Steps t a s' t')
    (fits : s.stage.using = true → s.Publishable) {x : Place Str} (outside : s.area.has x = false) :
    t'.disk x = t.disk x := by
  have here := kept.fits
  have temp (single : s.single = true) : x ≠ place s.tempFilePath := by
    rintro rfl
    simp [area_temp single, Area.has] at outside
  have other {file content : Str} (publishable : s.Publishable) (mem : (file, content) ∈ s.targets) :
      x ≠ place file := by
    rintro rfl
    have inside := publishable.inside _ mem
    rw [outside] at inside
    cases inside
  cases steps with
  | openedTemp hs _ =>
    rw [hs] at here
    exact Disk.put_other (temp here.1) ..
  | wroteTemp n hs _ =>
    rw [hs] at here
    exact Disk.put_other (temp here.1) ..
  | opened hs _ =>
    rw [hs] at here fits
    exact Disk.put_other (other (fits rfl) (target_of_left here.1 here.2)) ..
  | wrote n hs _ =>
    rw [hs] at here fits
    exact Disk.put_other (other (fits rfl) (target_of_left here.1 here.2.2)) ..
  | removed hs => exact remove_outside outside
  | unremoved removed hs => exact removeSome_outside outside
  | recovered hs => exact remove_outside outside
  | unrecovered removed hs => exact removeSome_outside outside
  | calledBack result hs _ => exact remove_outside outside
  | uncleaned result removed hs _ => exact removeSome_outside outside
  | parent hs => split <;> rfl
  | created hs => rfl
  | named dir now hs => rfl
  | unnamed hs => rfl
  | refused hs => rfl
  | looked hs => rfl
  | skipped hs => rfl
  | publishes hs => rfl
  | thrown hs => rfl
  | reads hs => rfl
  | returns hs inside => rfl

/-- Every file is opened, and a write arrives as a whole. -/
def Save.whole (s : Save) (a : Act) : Bool :=
  match s.stage, a with
  | .ofs _ _ _, .fails => false
  | .write _ content _, .writes n => n = content.length
  | .tempWrite, .writes n => n = s.content.length
  | _, _ => true

/-- Between the steps of others, a save whose files and writes do not fail stages what it is
to publish. -/
theorem Holds.step {s s' : Save} {t t' : Tree} {a : Act} (h : Holds s t.disk s.stage) (kept : Kept s)
    (whole : s.whole a = true) (steps : s.Steps t a s' t') : Holds s' t'.disk s'.stage := by
  have here := kept.fits
  have temp (single : s.single = true) {x : Place Str} (own : s.area.has x = true) :
      x = place s.tempFilePath := by simpa [area_temp single, Area.has] using own
  cases steps with
  | openedTemp hs _ =>
    rw [hs] at here
    intro x own
    rw [temp here.1 own]
    exact Disk.put_self ..
  | wroteTemp n hs _ =>
    rw [hs] at here
    obtain rfl : n = s.content.length := by simpa [Save.whole, hs] using whole
    intro x own
    change t.disk.put (place s.tempFilePath) (s.content.take s.content.length) x = layout s.targets x
    rw [temp here.1 own, List.take_length]
    simp [Save.targets, here.1, layout, Disk.lay, placed]
  | @opened file content rest hs _ =>
    rw [hs] at h
    obtain ⟨done, split, old⟩ := h
    exact ⟨done, split, fun x own => Disk.put_congr (old x own) (place file) []⟩
  | @wrote file content rest n hs _ =>
    obtain rfl : n = content.length := by simpa [Save.whole, hs] using whole
    rw [hs] at h
    obtain ⟨done, split, old⟩ := h
    have now (x : Place Str) (own : s.area.has x = true) :
        t.disk.put (place file) (content.take content.length) x = layout (done ++ [(file, content)]) x := by
      rw [layout_concat, ← Disk.put_put (place file) [] content, List.take_length]
      exact Disk.put_congr (old x own) (place file) content
    have all : s.targets = (done ++ [(file, content)]) ++ rest.map laid := by
      rw [split, List.append_assoc, List.singleton_append]
    exact (holds_loop all now).same rfl rfl
  | removed hs =>
    intro x own
    exact remove_inside own
  | @parent file content rest hs =>
    rw [hs] at h
    obtain ⟨done, split, old⟩ := h
    refine ⟨done, split, fun x own => ?_⟩
    rw [← old x own]
    split <;> rfl
  | created hs =>
    rw [hs] at h here
    have all : s.targets = [] ++ s.files.map laid := by
      rw [Save.targets, show s.single = false from here, if_neg (by simp), List.nil_append]
    exact (holds_loop all h).same rfl rfl
  | looked hs =>
    rw [hs] at here
    change Holds (s.goto _) t.disk (if t.present then Stage.removeAll else Stage.createDirectories)
    split
    next => trivial
    next absent =>
      intro x own
      have area : s.area = .directory := by
        rw [Save.area, show s.single = false from here, if_neg (by simp)]
      have inside : s.area.has x = true := own
      rw [area] at inside
      exact t.blank (by simpa using absent) x (by simpa [Area.has] using inside)
  | publishes hs =>
    rcases hs with hs | hs
    · rw [hs] at h
      exact h
    · rw [hs] at h
      exact h
  | reads hs =>
    change Holds _ t.disk s.stage
    exact h.same rfl rfl
  | returns hs inside =>
    change Holds _ t.disk s.stage
    exact h.same rfl rfl
  | skipped hs => simp [Save.whole, hs] at whole
  | uncleaned result removed hs _ =>
    change Holds (s.goto _) _ (if s.exit = none then Stage.catching else Stage.finished)
    split <;> trivial
  | named dir now hs => trivial
  | unnamed hs => trivial
  | refused hs => trivial
  | thrown hs => trivial
  | calledBack result hs _ => trivial
  | recovered hs => trivial
  | unrecovered removed hs => trivial
  | unremoved removed hs => trivial

/-- The stages in which something can have been read. -/
def Stage.late : Stage → Bool
  | publishing => true
  | catching => true
  | finished => true
  | _ => false

theorem layout_outside {s : Save} (publishable : s.Publishable) {x : Place Str} (outside : s.area.has x = false) :
    layout s.targets x = none := by
  refine Disk.lay_absent ?_
  intro e he same
  obtain ⟨f, hf, rfl⟩ := List.mem_map.mp he
  have inside := publishable.inside f hf
  rw [show place f.1 = x from same, outside] at inside
  cases inside

/-- Every file of a publishable save is in what it lays out. -/
theorem layout_contents {s : Save} (publishable : s.Publishable) {e : Str × Str} (he : e ∈ s.targets) :
    layout s.targets (place e.1) = some e.2 := by
  refine Disk.lay_mem (e := placed e) ?_ (List.mem_map_of_mem he)
  intro a ha b hb same
  obtain ⟨f, hf, rfl⟩ := List.mem_map.mp ha
  obtain ⟨g, hg, rfl⟩ := List.mem_map.mp hb
  exact publishable.agree f hf g hg same

theorem Save.Publishable.same {s v : Save} (h : s.Publishable) (data : v.data = s.data)
    (tempFilePath : v.tempFilePath = s.tempFilePath) : v.Publishable := by
  refine ⟨?_, ?_⟩
  · rw [same_area data tempFilePath, same_targets data tempFilePath]
    exact h.inside
  · rw [same_targets data tempFilePath]
    exact h.agree

/-- A save whose reads have all seen what it was to publish. -/
structure Reads (s : Save) : Prop where
  read : ∀ r, s.root = some r → s.stage.late = true ∧ s.Publishable ∧ r = layout s.targets
  located : s.saveLocation ≠ s.given → s.root.isSome = true

theorem steps_same {s s' : Save} {t t' : Tree} {a : Act} (steps : s.Steps t a s' t') :
    s'.data = s.data ∧ s'.given = s.given ∧
      (s'.tempFilePath = s.tempFilePath ∨ s.stage = .tempDirectoryPath ∧ s'.stage = .tempFile) := by
  cases steps with
  | named dir now hs => exact ⟨rfl, rfl, .inr ⟨hs, rfl⟩⟩
  | calledBack result hs _ =>
    obtain ⟨data, _, tempFilePath, _⟩ := s.report_keeps result
    have given : (s.report result).given = s.given := by
      unfold Save.report
      split <;> rfl
    exact ⟨data, given, .inl tempFilePath⟩
  | _ => exact ⟨rfl, rfl, .inl rfl⟩

/-- A step that neither reads nor reports. -/
theorem Reads.keeps {s v : Save} (h : Reads s) (late : s.stage.late = true → v.stage.late = true)
    (same : v.root = s.root ∧ v.data = s.data ∧ v.tempFilePath = s.tempFilePath ∧
      v.saveLocation = s.saveLocation ∧ v.given = s.given) : Reads v := by
  obtain ⟨root, data, tempFilePath, saveLocation, given⟩ := same
  refine ⟨?_, ?_⟩
  · intro r hr
    obtain ⟨after, publishable, whole⟩ := h.read r (root ▸ hr)
    refine ⟨late after, publishable.same data tempFilePath, ?_⟩
    rw [same_targets data tempFilePath]
    exact whole
  · rw [saveLocation, given, root]
    exact h.located

theorem Reads.step {s s' : Save} {t t' : Tree} {a : Act} (h : Reads s) (holds : Holds s t.disk s.stage)
    (fits : s.stage.using = true → s.Publishable) (steps : s.Steps t a s' t') : Reads s' := by
  have early {stage : Stage} (hs : s.stage = stage) (early : stage.late = false) {v : Save} :
      s.stage.late = true → v.stage.late = true := by
    intro late
    rw [hs, early] at late
    cases late
  cases steps with
  | named dir now hs =>
    have unread : s.root = none := by
      by_contra some
      obtain ⟨r, hr⟩ := Option.ne_none_iff_exists'.mp some
      have late := (h.read r hr).1
      rw [hs] at late
      cases late
    refine ⟨?_, ?_⟩
    · intro r hr
      rw [show s.root = some r from hr] at unread
      cases unread
    · exact h.located
  | reads hs =>
    have publishable := fits (by rw [hs]; rfl)
    rw [hs] at holds
    refine ⟨?_, fun _ => rfl⟩
    intro r hr
    refine ⟨?_, publishable.same rfl rfl, ?_⟩
    · change s.stage.late = true
      rw [hs]
      rfl
    · obtain rfl := Option.some.inj hr
      funext x
      change (if s.area.has x = true then t.disk x else none) = layout s.targets x
      cases own : s.area.has x with
      | true => exact holds x own
      | false => exact (layout_outside publishable own).symm
  | calledBack result hs read =>
    have keeps : Reads (s.goto .finished) := h.keeps (fun _ => rfl) ⟨rfl, rfl, rfl, rfl, rfl⟩
    cases result with
    | failure => exact keeps.keeps (fun _ => rfl) ⟨rfl, rfl, rfl, rfl, rfl⟩
    | success cidString =>
      cases cidString with
      | none => exact keeps.keeps (fun _ => rfl) ⟨rfl, rfl, rfl, rfl, rfl⟩
      | some cidString =>
        refine ⟨?_, fun _ => read.resolve_left (by simp)⟩
        intro r hr
        obtain ⟨_, publishable, whole⟩ := keeps.read r hr
        exact ⟨rfl, publishable.same rfl rfl, whole⟩
  | unnamed hs => exact h.keeps (fun _ => rfl) ⟨rfl, rfl, rfl, rfl, rfl⟩
  | refused hs => exact h.keeps (fun _ => rfl) ⟨rfl, rfl, rfl, rfl, rfl⟩
  | thrown hs => exact h.keeps (fun _ => rfl) ⟨rfl, rfl, rfl, rfl, rfl⟩
  | unremoved removed hs => exact h.keeps (fun _ => rfl) ⟨rfl, rfl, rfl, rfl, rfl⟩
  | recovered hs => exact h.keeps (fun _ => rfl) ⟨rfl, rfl, rfl, rfl, rfl⟩
  | unrecovered removed hs => exact h.keeps (fun _ => rfl) ⟨rfl, rfl, rfl, rfl, rfl⟩
  | publishes hs => exact h.keeps (fun _ => rfl) ⟨rfl, rfl, rfl, rfl, rfl⟩
  | uncleaned result removed hs _ =>
    refine h.keeps (fun _ => ?_) ⟨rfl, rfl, rfl, rfl, rfl⟩
    change (if s.exit = none then Stage.catching else Stage.finished).late = true
    split <;> rfl
  | returns hs inside => exact h.keeps (fun late => late) ⟨rfl, rfl, rfl, rfl, rfl⟩
  | openedTemp hs _ => exact h.keeps (early hs rfl) ⟨rfl, rfl, rfl, rfl, rfl⟩
  | wroteTemp n hs _ => exact h.keeps (early hs rfl) ⟨rfl, rfl, rfl, rfl, rfl⟩
  | looked hs => exact h.keeps (early hs rfl) ⟨rfl, rfl, rfl, rfl, rfl⟩
  | removed hs => exact h.keeps (early hs rfl) ⟨rfl, rfl, rfl, rfl, rfl⟩
  | created hs => exact h.keeps (early hs rfl) ⟨rfl, rfl, rfl, rfl, rfl⟩
  | parent hs => exact h.keeps (early hs rfl) ⟨rfl, rfl, rfl, rfl, rfl⟩
  | opened hs _ => exact h.keeps (early hs rfl) ⟨rfl, rfl, rfl, rfl, rfl⟩
  | skipped hs => exact h.keeps (early hs rfl) ⟨rfl, rfl, rfl, rfl, rfl⟩
  | wrote n hs _ => exact h.keeps (early hs rfl) ⟨rfl, rfl, rfl, rfl, rfl⟩

theorem steps_using {s s' : Save} {t t' : Tree} {a : Act} (steps : s.Steps t a s' t')
    (next : s'.stage.using = true) : s.stage.using = true ∨ s.stage.begins = true := by
  cases steps with
  | named dir now hs => cases next
  | unnamed hs => cases next
  | refused hs => cases next
  | calledBack result hs _ => cases next
  | recovered hs => cases next
  | unrecovered removed hs => cases next
  | reads hs => exact .inl next
  | returns hs inside => exact .inl next
  | openedTemp hs _ => exact .inr (by rw [hs]; rfl)
  | looked hs => exact .inr (by rw [hs]; rfl)
  | wroteTemp n hs _ => exact .inl (by rw [hs]; rfl)
  | removed hs => exact .inl (by rw [hs]; rfl)
  | unremoved removed hs => exact .inl (by rw [hs]; rfl)
  | created hs => exact .inl (by rw [hs]; rfl)
  | parent hs => exact .inl (by rw [hs]; rfl)
  | opened hs _ => exact .inl (by rw [hs]; rfl)
  | skipped hs => exact .inl (by rw [hs]; rfl)
  | wrote n hs _ => exact .inl (by rw [hs]; rfl)
  | publishes hs => exact .inl (by rcases hs with hs | hs <;> rw [hs] <;> rfl)
  | uncleaned result removed hs _ => exact .inl (by rw [hs]; rfl)
  | thrown hs =>
    rcases hs with hs | ⟨hs, _⟩
    · generalize s.stage = stage at hs
      cases stage with
      | tempFile | existing => exact .inr rfl
      | tempDirectoryPath | removeAll | publishing | catching | finished => cases hs
      | _ => exact .inl rfl
    · exact .inl (by rw [hs]; rfl)

/-- Only a save that works in its area, or begins to, changes the disk. -/
theorem steps_idle {s s' : Save} {t t' : Tree} {a : Act} (steps : s.Steps t a s' t')
    (idle : s.stage.using = false) (ahead : s.stage.begins = false) : t' = t := by
  cases steps with
  | openedTemp hs _ =>
    rw [hs] at ahead
    cases ahead
  | wroteTemp n hs _ =>
    rw [hs] at idle
    cases idle
  | removed hs =>
    rw [hs] at idle
    cases idle
  | unremoved removed hs =>
    rw [hs] at idle
    cases idle
  | created hs =>
    rw [hs] at idle
    cases idle
  | parent hs =>
    rw [hs] at idle
    cases idle
  | opened hs _ =>
    rw [hs] at idle
    cases idle
  | wrote n hs _ =>
    rw [hs] at idle
    cases idle
  | recovered hs =>
    rw [hs] at idle
    cases idle
  | unrecovered removed hs =>
    rw [hs] at idle
    cases idle
  | calledBack result hs _ =>
    rw [hs] at idle
    cases idle
  | uncleaned result removed hs _ =>
    rw [hs] at idle
    cases idle
  | _ => rfl

/-- The saves whose areas are looked after: those with a location to report, or those of
several files. -/
def Save.watched (located : Bool) (s : Save) : Bool := if located then s.given.isSome else !s.single

/-- A save begins only when what it is to stage stays in its area, and away from the areas in
use; the files of those looked after are all opened and their writes arrive as a whole. -/
def Undisturbed (located : Bool) (p : Process) : Event → Prop
  | .saveASync _ _ _ => True
  | .step i a => ∀ s ∈ p.saves[i]?,
      (s.stage.begins = true → s.Publishable ∧ ∀ v ∈ p.saves.zipIdx, v.2 ≠ i → v.1.stage.using = true →
        (s.watched located || v.1.watched located) = true → s.area.meets v.1.area = false) ∧
      (s.watched located = true → s.whole a = true)

instance (located : Bool) (p : Process) (e : Event) : Decidable (Undisturbed located p e) :=
  match e with
  | .saveASync _ _ _ => .isTrue trivial
  | .step _ _ => inferInstanceAs (Decidable (∀ s ∈ _, _))

structure Isolation (located : Bool) (p : Process) : Prop where
  kept : ∀ s ∈ p.saves, Kept s
  fits : ∀ s ∈ p.saves, s.stage.using = true → s.Publishable
  apart : ∀ (i j : Nat) s v, p.saves[i]? = some s → p.saves[j]? = some v → i ≠ j → s.stage.using = true →
    v.stage.using = true → (s.watched located || v.watched located) = true → s.area.meets v.area = false
  holds : ∀ (i : Nat) s, p.saves[i]? = some s → s.watched located = true → Holds s p.tree.disk s.stage
  reads : ∀ s ∈ p.saves, s.watched located = true → Reads s

theorem holds_idle {s : Save} {stage : Stage} (idle : stage.using = false) (d : Disk (Place Str) Char) :
    Holds s d stage := by
  cases stage with
  | tempDirectoryPath | tempFile | existing | finished => trivial
  | _ => cases idle

theorem reads_saveASync (data : ResultType) (bitswap : Bool) (saveLocation : Option Str) :
    Reads (saveASync data bitswap saveLocation) ∧ (saveASync data bitswap saveLocation).stage.using = false := by
  have done : Reads (refused saveLocation) ∧ (refused saveLocation).stage.using = false :=
    ⟨⟨by simp [refused], by simp [refused]⟩, rfl⟩
  unfold saveASync
  split
  next => exact done
  next => exact done
  next data =>
    split
    next => exact done
    next =>
      split
      next => exact done
      next =>
        split
        next => exact done
        next =>
          refine ⟨⟨by simp, by simp⟩, ?_⟩
          split <;> rfl

theorem Isolation.called {located : Bool} {p : Process} (h : Isolation located p) (data : ResultType) (bitswap : Bool)
    (saveLocation : Option Str) :
    Isolation located { p with saves := p.saves ++ [saveASync data bitswap saveLocation] } := by
  obtain ⟨reads, idle⟩ := reads_saveASync data bitswap saveLocation
  have each {P : Save → Prop} (old : ∀ s ∈ p.saves, P s) (new : P (saveASync data bitswap saveLocation)) :
      ∀ s ∈ p.saves ++ [saveASync data bitswap saveLocation], P s := by
    intro s hs
    rcases List.mem_append.mp hs with hs | hs
    · exact old s hs
    · rw [List.mem_singleton.mp hs]
      exact new
  have cases_at {i : Nat} {s : Save} (hs : (p.saves ++ [saveASync data bitswap saveLocation])[i]? = some s) :
      p.saves[i]? = some s ∨ s.stage.using = false := by
    rcases concat_cases hs with old | rfl
    · exact .inl old
    · exact .inr idle
  refine ⟨each h.kept (kept_saveASync data bitswap saveLocation), each h.fits ?_, ?_, ?_,
    each h.reads fun _ => reads⟩
  · intro using_
    rw [idle] at using_
    cases using_
  · intro i j s v hs hv ne su vu either
    rcases cases_at hs with hs | none
    · rcases cases_at hv with hv | none
      · exact h.apart i j s v hs hv ne su vu either
      · rw [none] at vu
        cases vu
    · rw [none] at su
      cases su
  · intro i s hs watched
    rcases cases_at hs with hs | none
    · exact h.holds i s hs watched
    · exact holds_idle none _

theorem Isolation.stepped {located : Bool} {p : Process} (h : Isolation located p) {i : Nat} {a : Act} {s s' : Save}
    {t' : Tree} (hi : p.saves[i]? = some s) (steps : s.Steps p.tree a s' t')
    (good : Undisturbed located p (.step i a)) : Isolation located { saves := p.saves.set i s', tree := t' } := by
  obtain ⟨begins, whole⟩ := good s hi
  have mem := List.mem_of_getElem? hi
  have kept := h.kept s mem
  obtain ⟨data, given, temp⟩ := steps_same steps
  have watched : s'.watched located = s.watched located := by
    rw [Save.watched, same_single data, given, Save.watched]
  have each {P : Save → Prop} (old : ∀ s ∈ p.saves, P s) (new : P s') : ∀ v ∈ p.saves.set i s', P v := by
    intro v hv
    rcases List.mem_or_eq_of_mem_set hv with hv | rfl
    · exact old v hv
    · exact new
  -- the area of the save is its own, from its first step in it
  have known (busy : s.stage.using = true ∨ s.stage.begins = true) : s.Publishable := by
    rcases busy with busy | first
    · exact h.fits s mem busy
    · exact (begins first).1
  have away (busy : s.stage.using = true ∨ s.stage.begins = true) {j : Nat} {v : Save}
      (hv : p.saves[j]? = some v) (ne : j ≠ i) (vu : v.stage.using = true)
      (either : (s.watched located || v.watched located) = true) : s.area.meets v.area = false := by
    rcases busy with busy | first
    · exact h.apart i j s v hi hv (Ne.symm ne) busy vu either
    · exact (begins first).2 (v, j) (List.mem_zipIdx_iff_getElem?.mpr hv) ne vu either
  have sameTemp (busy : s'.stage.using = true) : s'.tempFilePath = s.tempFilePath := by
    rcases temp with same | ⟨_, named⟩
    · exact same
    · rw [named] at busy
      cases busy
  have fits : s.stage.using = true → s.Publishable := fun busy => known (.inl busy)
  refine ⟨each h.kept (kept.step steps), each h.fits ?_, ?_, ?_, each h.reads ?_⟩
  · intro busy
    exact (known (steps_using steps busy)).same data (sameTemp busy)
  · intro j k v w hv hw ne vu wu either
    rcases set_cases hv with ⟨rfl, rfl⟩ | ⟨other, hj⟩
    · rcases set_cases hw with ⟨rfl, rfl⟩ | ⟨otherw, hw⟩
      · exact absurd rfl ne
      · rw [same_area data (sameTemp vu)]
        rw [watched] at either
        exact away (steps_using steps vu) hw otherw wu either
    · rcases set_cases hw with ⟨rfl, rfl⟩ | ⟨_, hw⟩
      · rw [same_area data (sameTemp wu), Area.meets_comm]
        rw [watched, Bool.or_comm] at either
        exact away (steps_using steps wu) hj other vu either
      · exact h.apart j k v w hj hw ne vu wu either
  · intro j v hv wv
    rcases set_cases hv with ⟨rfl, rfl⟩ | ⟨other, hv⟩
    · rw [watched] at wv
      exact (h.holds j s hi wv).step kept (whole wv) steps
    · cases vu : v.stage.using with
      | false => exact holds_idle vu _
      | true =>
        refine (h.holds j v hv wv).congr ?_
        intro x own
        by_cases busy : s.stage.using = true ∨ s.stage.begins = true
        · have apart := away busy hv other vu (by rw [wv, Bool.or_true])
          rw [Area.meets_comm] at apart
          exact frame kept steps fits (Area.apart apart own)
        · have idle : s.stage.using = false ∧ s.stage.begins = false := by simpa using busy
          rw [steps_idle steps idle.1 idle.2]
  · intro wv
    rw [watched] at wv
    exact (h.reads s mem wv).step (h.holds i s hi wv) fits steps

theorem isolation_empty (located : Bool) (tree : Tree) : Isolation located ⟨[], tree⟩ :=
  ⟨by simp, by simp, by simp, by simp, by simp⟩

theorem reaches_isolation {located : Bool} {tree : Tree} {p : Process}
    (reach : Reaches Process.step (Undisturbed located) ⟨[], tree⟩ p) : Isolation located p := by
  refine reach.invariant ?_ (isolation_empty located tree)
  intro p e q h good step
  rcases Process.step_cases step with ⟨data, bitswap, saveLocation, rfl, rfl⟩ | ⟨i, a, s, s', t', rfl, hi, steps, rfl⟩
  · exact h.called data bitswap saveLocation
  · exact h.stepped hi steps good

/-- What a disk holds among the places `p` is exactly these files. -/
structure Exactly (p : Place Str → Bool) (d : Disk (Place Str) Char) (files : List (Str × Str)) : Prop where
  each : ∀ e ∈ files, d (place e.1) = some e.2
  only : ∀ x, p x = true → d x ≠ none → ∃ e ∈ files, place e.1 = x

theorem layout_exactly {s : Save} (publishable : s.Publishable) (p : Place Str → Bool) :
    Exactly p (layout s.targets) s.targets := by
  refine ⟨fun e he => layout_contents publishable he, ?_⟩
  intro x _ some
  by_contra none
  refine some (Disk.lay_absent ?_)
  intro e he same
  obtain ⟨f, hf, rfl⟩ := List.mem_map.mp he
  exact none ⟨f, hf, same⟩

/-- A save of several files publishes its own files: while the directory may be read it holds
exactly them, all reads have seen exactly them, and no step of another save touches the
directory before the save has removed it. -/
structure PublishesOwn (p : Process) (i : Nat) (s : Save) : Prop where
  publishing : s.stage = .publishing →
    Exactly (fun x => decide (tempDirectory.Inside x)) p.tree.disk (s.files.map laid)
  read : ∀ r, s.root = some r → Exactly (fun _ => true) r (s.files.map laid)
  untouched : s.stage.using = true → ∀ j a q, j ≠ i → Undisturbed false p (.step j a) →
    p.step (.step j a) = some q → ∀ x, tempDirectory.Inside x → q.tree.disk x = p.tree.disk x

/-- A step of another save leaves the area of a save as it is. -/
theorem Isolation.untouched {located : Bool} {p q : Process} (h : Isolation located p) {i j : Nat} {s : Save} {a : Act}
    (hs : p.saves[i]? = some s) (watched : s.watched located = true) (busy : s.stage.using = true) (other : j ≠ i)
    (good : Undisturbed located p (.step j a)) (step : p.step (.step j a) = some q) {x : Place Str}
    (own : s.area.has x = true) : q.tree.disk x = p.tree.disk x := by
  rcases Process.step_cases step with ⟨_, _, _, same, _⟩ | ⟨k, b, v, v', t', same, hv, steps, rfl⟩
  · cases same
  · obtain ⟨rfl, rfl⟩ := Event.step.inj same
    have kept := h.kept v (List.mem_of_getElem? hv)
    have fits := h.fits v (List.mem_of_getElem? hv)
    have either : (v.watched located || s.watched located) = true := by rw [watched, Bool.or_true]
    cases working : v.stage.using with
    | true =>
      have apart := h.apart j i v s hv hs other working busy either
      rw [Area.meets_comm] at apart
      exact frame kept steps fits (Area.apart apart own)
    | false =>
      cases first : v.stage.begins with
      | true =>
        have apart := ((good v hv).1 first).2 (s, i) (List.mem_zipIdx_iff_getElem?.mpr hs) (Ne.symm other) busy
          either
        rw [Area.meets_comm] at apart
        exact frame kept steps fits (Area.apart apart own)
      | false => rw [steps_idle steps working first]

/-- As long as saves of several files begin only while no other works in the directory, with
payloads that fit into it, and all their files are opened and written, each publishes its own. -/
theorem publishes_own_tree {tree : Tree} {p : Process}
    (reach : Reaches Process.step (Undisturbed false) ⟨[], tree⟩ p) {i : Nat} {s : Save}
    (hs : p.saves[i]? = some s) (several : s.single = false) : PublishesOwn p i s := by
  have known := reaches_isolation reach
  have mem := List.mem_of_getElem? hs
  have watched : s.watched false = true := by rw [Save.watched, several]; rfl
  have area : s.area = .directory := by rw [Save.area, several, if_neg (by simp)]
  have targets : s.targets = s.files.map laid := by rw [Save.targets, several, if_neg (by simp)]
  refine ⟨?_, ?_, ?_⟩
  · intro publishing
    have publishable := known.fits s mem (by rw [publishing]; rfl)
    have holds := known.holds i s hs watched
    rw [publishing] at holds
    have exactly := layout_exactly publishable fun x => decide (tempDirectory.Inside x)
    rw [← targets]
    refine ⟨?_, ?_⟩
    · intro e he
      rw [holds _ (publishable.inside e he)]
      exact exactly.each e he
    · intro x inside some
      rw [holds x (by rw [area]; exact inside)] at some
      exact exactly.only x inside some
  · intro r hr
    obtain ⟨_, publishable, rfl⟩ := (known.reads s mem watched).read r hr
    rw [← targets]
    exact layout_exactly publishable _
  · intro busy j a q other good step x inside
    refine known.untouched hs watched busy other good step ?_
    rw [area]
    exact decide_eq_true inside

def twoPages : ResultType := .success (some ⟨["a".toList, "d/b".toList], ["1".toList, "22".toList]⟩)

/-- The steps of the save `i` from its begin until it publishes its two files. -/
def staging (i : Nat) : List Event :=
  [.step i .succeeds, .step i .succeeds, .step i .succeeds, .step i .succeeds, .step i (.writes 1),
    .step i .succeeds, .step i .succeeds, .step i (.writes 2), .step i .succeeds]

theorem publishes_own_tree_pages :
    ∃ (p : Process) (s : Save), p.saves[0]? = some s ∧ s.stage = .publishing ∧ PublishesOwn p 0 s := by
  obtain ⟨p, reach, published⟩ := reaches_of_any_guarded Process.step (Undisturbed false) ⟨[], emptyTree⟩
    (.saveASync twoPages true none :: .saveASync twoPages true none :: staging 0 ++ [.step 0 .reads])
    (fun p => p.saves[0]?.any fun s => s.stage = .publishing && !s.single) (by decide)
  obtain ⟨s, hs, published⟩ := (Option.any_eq_true ..).mp published
  simp only [Bool.and_eq_true, decide_eq_true_eq, Bool.not_eq_true'] at published
  exact ⟨p, s, hs, published.1, publishes_own_tree reach hs published.2⟩

/-- The first file of the payload is not in what has been read. -/
def missesFirst (s : Save) : Bool :=
  !s.single && decide (laid ("a".toList, "1".toList) ∈ s.files.map laid) &&
    s.root.any fun r => decide (r (place (laid ("a".toList, "1".toList)).1) = none)

/-- The second save wipes the directory under the first, whose publishing then reads nothing. -/
theorem second_save_wipes_first :
    ∃ (p : Process) (s : Save), Reaches Process.step Free ⟨[], emptyTree⟩ p ∧ p.saves[0]? = some s ∧
      s.single = false ∧ ¬ PublishesOwn p 0 s := by
  obtain ⟨p, reach, wiped⟩ := reaches_of_any Process.step ⟨[], emptyTree⟩
    (.saveASync twoPages true none :: .saveASync twoPages true none :: staging 0 ++
      [.step 1 .succeeds, .step 1 (.removes .done), .step 0 .reads])
    (fun p => p.saves[0]?.any missesFirst) (by decide)
  obtain ⟨s, hs, wiped⟩ := (Option.any_eq_true ..).mp wiped
  simp only [missesFirst, Bool.and_eq_true, decide_eq_true_eq, Bool.not_eq_true'] at wiped
  obtain ⟨⟨several, mem⟩, wiped⟩ := wiped
  obtain ⟨r, hr, missing⟩ := (Option.any_eq_true ..).mp wiped
  refine ⟨p, s, reach, hs, several, fun own => ?_⟩
  have there := (own.read r hr).each _ mem
  rw [of_decide_eq_true missing] at there
  cases there

end IPFSSaver

end AsyncIOManager
