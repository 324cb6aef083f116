import AsyncIOManager.MNNStoring
import AsyncIOManager.SFTPLocation
import AsyncIOManager.IPFSIsolation

namespace AsyncIOManager

open Reactor Files Paths

namespace MNNSaver

variable {φ : Type} {target : Str → φ} {s : Saving φ} {data : Payload}

/-- Once the location is assigned, every file is opened with a content for it, the stream has
emptied it or left no more than that, and no write fails. -/
def Truthful (target : Str → φ) (given : Option Str) (s : Saving φ) (l : Label Ec Unit Act) : Prop :=
  s.state.saveLocation ≠ given → Sound target s l ∧ Clean s l

instance (target : Str → φ) (given : Option Str) (s : Saving φ) (l : Label Ec Unit Act) :
    Decidable (Truthful target given s l) :=
  inferInstanceAs (Decidable (_ → _))

/-- Every file of a payload is in its place in the directory. -/
def Stored (target : Str → φ) (dir : Str) (data : Payload) (disk : Disk φ Char) : Prop :=
  ∀ (i : Nat) path, data.first[i]? = some path →
    ∃ content, data.second[i]? = some content ∧ disk (target (dir ++ path)) = some content

/-- A save in which nothing has failed has stored everything when no write is left. -/
theorem Keeping.stored {dir : Str} (h : Keeping dir data s) (intact : Intact target s.pool s.state)
    (counted : Counted s) (called : 0 < s.state.handleWrites) : Stored target dir data s.state.disk := by
  have writes := counted.finished called
  have idle : s.pool = [] := by
    refine List.eq_nil_iff_forall_not_mem.mpr fun x hx => ?_
    obtain ⟨_, file, content, written, isWrite, _⟩ := h.writing x hx
    have none := List.countP_eq_zero.mp writes x hx
    simp [isWrite, Handler.isWrite] at none
  have done : s.state.todo = [] := by
    cases counted.progress with
    | running _ count _ before =>
      split at before
      next last => exact List.length_eq_zero_iff.mp (by omega)
      next => omega
    | refused returned =>
      rcases h.running with running | ⟨_, todo⟩
      · rw [running] at returned
        cases returned
      · exact todo
    | thrown _ _ _ before => omega
  have account := h.account
  have sized := h.sized
  have none : queued s = [] := by simp [queued, idle]
  have nothing : entries s.state.filename [] s.state.contents = [] := rfl
  rw [done, none, nothing, List.append_nil, List.append_nil] at account
  rw [done, List.length_nil] at sized
  intro i path hp
  have lt := (List.getElem?_eq_some_iff.mp hp).1
  have hc : data.second[i]? = some data.second[i] := List.getElem?_eq_getElem (by omega)
  refine ⟨data.second[i], hc, ?_⟩
  have pair : (path, data.second[i]) ∈ data.first.zip data.second := by
    refine List.mem_of_getElem? (i := i) ?_
    rw [List.getElem?_zip_eq_some]
    exact ⟨hp, hc⟩
  have entry : (dir ++ path, data.second[i]) ∈ entries dir data.first data.second :=
    List.mem_map.mpr ⟨_, pair, rfl⟩
  exact intact.stored _ (account.mem_iff.mpr entry)

variable [DecidableEq φ] {filename uuid : Str} {nullData : Bool} {given : Option Str} {disk : Disk φ Char}

/-- A location that has been reported to a caller whose `handle_write` has run is that of all
files. -/
theorem location_stored
    (distinct : (data.first.map fun path => target (destination filename uuid ++ path)).Nodup)
    (reach : Reaches (machine target).step (Truthful target given)
      (saveASync filename (.success (some data)) nullData uuid given disk) s)
    (changed : s.state.saveLocation ≠ given) (called : 0 < s.state.handleWrites) :
    s.state.saveLocation = some ("file://".toList ++ destination filename uuid) ∧
      Stored target (destination filename uuid) data s.state.disk := by
  let start : Saving φ := saveASync filename (.success (some data)) nullData uuid given disk
  have frame : s.state.saveLocation = start.state.saveLocation :=
    reach.invariant (P := fun s => s.state.saveLocation = start.state.saveLocation)
      (fun _ _ _ same _ step => (step_frame step).1.trans same) rfl
  have contents : ¬ (data.second = [] ∧ nullData = true) := by
    intro none
    refine changed (frame.trans ?_)
    simp only [start, saveASync, if_pos none]
  have assigned : start.state.saveLocation =
      given.map fun _ => "file://".toList ++ destination filename uuid := by
    simp only [start, saveASync, if_neg contents]
  refine ⟨?_, ?_⟩
  · rw [frame, assigned] at changed ⊢
    cases given with
    | none => exact absurd rfl changed
    | some old => rfl
  · by_cases none : data.first = []
    · intro i path hp
      simp [none] at hp
    · have known : Counted s ∧ Intact target s.pool s.state ∧
          (Keeping (destination filename uuid) data s ∨ s.state.exit = some (.threw .filesystemError)) ∧
          s.state.saveLocation = start.state.saveLocation := by
        refine reach.invariant (P := fun s => Counted s ∧ Intact target s.pool s.state ∧
          (Keeping (destination filename uuid) data s ∨ s.state.exit = some (.threw .filesystemError)) ∧
          s.state.saveLocation = start.state.saveLocation) ?_
          ⟨counted_saveASync (.inl none), intact_saveASync distinct, .inl (keeping_start contents), rfl⟩
        rintro t l u ⟨counted, intact, goes, same⟩ good step
        obtain ⟨sound, clean⟩ := good (by rw [same, ← frame]; exact changed)
        obtain ⟨location, exit⟩ := step_frame step
        refine ⟨counted.step sound step, intact.step sound step, ?_, location.trans same⟩
        rcases goes with kept | threw
        · rcases kept.step sound clean step with kept | ⟨_, _, threw⟩
          · exact .inl kept
          · exact .inr threw
        · exact .inr ((exit (by simp [threw])).trans threw)
      obtain ⟨counted, intact, goes, _⟩ := known
      rcases goes with kept | threw
      · exact kept.stored intact counted called
      · cases counted.progress with
        | running how =>
          rcases how with how | ⟨how, _⟩
          · rw [how] at threw
            cases threw
          · rw [how] at threw
            cases threw
        | refused how =>
          rw [how] at threw
          cases threw
        | thrown _ _ _ before => omega

end MNNSaver

namespace IPFSSaver

/-- What has been published holds every file of the payload. -/
def Stored (s : Save) : Prop :=
  s.data.first.length = s.data.second.length ∧
    ∃ r, s.root = some r ∧ ∀ e ∈ s.targets, r (place e.1) = some e.2

theorem located_step {s s' : Save} {t t' : Tree} {a : Act} (steps : s.Steps t a s' t')
    (h : s.saveLocation.isSome = s.given.isSome) : s'.saveLocation.isSome = s'.given.isSome := by
  cases steps with
  | calledBack result hs _ =>
    cases result with
    | failure => exact h
    | success cidString =>
      cases cidString with
      | none => exact h
      | some cidString =>
        change (s.saveLocation.map _).isSome = s.given.isSome
        rw [Option.isSome_map]
        exact h
  | _ => exact h

theorem located_saveASync (data : ResultType) (bitswap : Bool) (saveLocation : Option Str) :
    (saveASync data bitswap saveLocation).saveLocation.isSome =
      (saveASync data bitswap saveLocation).given.isSome := by
  unfold saveASync
  split
  next => rfl
  next => rfl
  next =>
    split
    next => rfl
    next =>
      split
      next => rfl
      next => split <;> rfl

/-- A location that has been reported is that of a publishing that has read all files. -/
theorem location_stored {tree : Tree} {p : Process} {s : Save}
    (reach : Reaches Process.step (Undisturbed true) ⟨[], tree⟩ p) (mem : s ∈ p.saves)
    (changed : s.saveLocation ≠ s.given) : Stored s := by
  have known := reaches_isolation reach
  have located := Process.keep located_saveASync (fun _ _ _ _ _ _ _ _ steps h => located_step steps h) reach
    (by simp) s mem
  have watched : s.watched true = true := by
    rw [Save.watched, if_pos rfl]
    cases given : s.given with
    | some old => rfl
    | none =>
      rw [given, Option.isSome_none, Option.isSome_eq_false_iff, Option.isNone_iff_eq_none] at located
      exact absurd (located.trans given.symm) changed
  have reads := known.reads s mem watched
  obtain ⟨r, hr⟩ := Option.isSome_iff_exists.mp (reads.located changed)
  obtain ⟨_, publishable, rfl⟩ := reads.read r hr
  exact ⟨(known.kept s mem).sized, _, hr, fun e he => layout_contents publishable he⟩

end IPFSSaver

section Claim

variable {φ : Type} [DecidableEq φ] (target : Str → φ)

/-- When `handle_write` has run, a location that the steps of a save keep truthful is that of
all files: on the disk, on the server, and in what has been published. -/
theorem save_location_truthful (filename : Str) (data : Payload) (given : Option Str) :
    (∀ uuid nullData disk s,
      (data.first.map fun path => target (MNNSaver.destination filename uuid ++ path)).Nodup →
      Reaches (MNNSaver.machine target).step (MNNSaver.Truthful target given)
        (MNNSaver.saveASync filename (.success (some data)) nullData uuid given disk) s →
      s.state.saveLocation ≠ given → 0 < s.state.handleWrites →
      s.state.saveLocation = some ("file://".toList ++ MNNSaver.destination filename uuid) ∧
        MNNSaver.Stored target (MNNSaver.destination filename uuid) data s.state.disk) ∧
    (∀ s, Reaches SFTPSaver.machine.step (SFTPSaver.Truthful given)
        (SFTPSaver.saveASync filename (.success (some data)) given) s →
      s.state.saveLocation ≠ given → 0 < s.state.handleWrites →
      SFTPSaver.Stored filename data given s) ∧
    ∀ tree p s, Reaches IPFSSaver.Process.step (IPFSSaver.Undisturbed true) ⟨[], tree⟩ p → s ∈ p.saves →
      s.data = data → s.saveLocation ≠ s.given → IPFSSaver.Stored s := by
  refine ⟨?_, ?_, ?_⟩
  · intro uuid nullData disk s distinct reach changed called
    exact MNNSaver.location_stored distinct reach changed called
  · intro s reach changed called
    exact SFTPSaver.location_stored reach changed called
  · intro tree p s reach mem _ changed
    exact IPFSSaver.location_stored reach mem changed

end Claim

def filePayload : Payload := ⟨["f".toList], ["ab".toList]⟩

/-- A save of one file with each saver, and one of two files. -/
theorem save_location_truthful_saved :
    (∃ s : MNNSaver.Saving Str, s.state.saveLocation = some "file://d/".toList ∧
      MNNSaver.Stored id "d/".toList filePayload s.state.disk) ∧
    (∃ s, 0 < s.state.handleWrites ∧ SFTPSaver.Stored "u:p@h/d".toList filePayload (some []) s) ∧
    ∃ (p : IPFSSaver.Process) (s : IPFSSaver.Save), s ∈ p.saves ∧ 0 < s.posts ∧ IPFSSaver.Stored s := by
  refine ⟨?_, ?_, ?_⟩
  · obtain ⟨t, reach, ends⟩ := reaches_of_any_guarded (MNNSaver.machine id).step
      (MNNSaver.Truthful id (some []))
      (MNNSaver.saveASync "d/".toList (.success (some filePayload)) false [] (some []) MNNSaver.blank)
      [.call (.next (.tried true true)), .call (.next .throws), .call (.transfer 0 2),
        .call (.complete 0 .success), .run 0 ()]
      (fun t => t.state.saveLocation ≠ some [] && 0 < t.state.handleWrites) (by decide)
    simp only [Bool.and_eq_true, decide_eq_true_eq] at ends
    have claim := save_location_truthful (id : Str → Str) "d/".toList filePayload (some [])
    exact ⟨t, claim.1 _ _ _ t (by decide) reach ends.1 ends.2⟩
  · obtain ⟨t, reach, ends⟩ := reaches_of_any_guarded SFTPSaver.machine.step (SFTPSaver.Truthful (some []))
      (SFTPSaver.saveASync "u:p@h/d".toList (.success (some filePayload)) (some []))
      [.call (.resolved 1), .finish 0 .success, .run 0 {}, .run 0 {}]
      (fun t => t.state.saveLocation ≠ some [] && 0 < t.state.handleWrites) (by decide)
    simp only [Bool.and_eq_true, decide_eq_true_eq] at ends
    have claim := save_location_truthful (id : Str → Str) "u:p@h/d".toList filePayload (some [])
    exact ⟨t, ends.2, claim.2.1 t reach ends.1 ends.2⟩
  · obtain ⟨p, reach, ends⟩ := reaches_of_any_guarded IPFSSaver.Process.step (IPFSSaver.Undisturbed true)
      ⟨[], IPFSSaver.emptyTree⟩
      (.saveASync IPFSSaver.twoPages true (some []) :: IPFSSaver.staging 0 ++
        [.step 0 .reads, .step 0 (.callsBack (.success (some "c".toList)) .done)])
      (fun p => p.saves[0]?.any fun s => s.saveLocation ≠ s.given && 0 < s.posts) (by decide)
    obtain ⟨s, hs, ends⟩ := (Option.any_eq_true ..).mp ends
    simp only [Bool.and_eq_true, decide_eq_true_eq] at ends
    have mem := List.mem_of_getElem? hs
    have claim := save_location_truthful (id : Str → Str) [] s.data s.given
    exact ⟨p, s, mem, ends.2, claim.2.2 _ p s reach mem rfl ends.1⟩

def twoFiles : Payload := ⟨["f".toList, "g".toList], ["a".toList, "b".toList]⟩

/-- The server refuses the first write. -/
def refusing : Ssh2 where
  sftpWrite _ := -31
  sftpWrite_le := by
    intro len
    omega

/-- The location is that of a save whose second file cannot be opened, of an upload that ends with
a write error, and of a directory in which a file is missing. -/
theorem save_location_lies :
    (∃ s : MNNSaver.Saving Str, Reaches (MNNSaver.machine id).step Free
        (MNNSaver.saveASync "d/".toList (.success (some twoFiles)) false [] (some []) MNNSaver.blank) s ∧
      s.state.saveLocation ≠ some [] ∧ 0 < s.state.handleWrites ∧
      ¬ MNNSaver.Stored id "d/".toList twoFiles s.state.disk) ∧
    (∃ s, Reaches SFTPSaver.machine.step Free
        (SFTPSaver.saveASync "u:p@h/d".toList (.success (some filePayload)) (some [])) s ∧
      s.state.saveLocation ≠ some [] ∧ 0 < s.state.handleWrites ∧
      ¬ SFTPSaver.Stored "u:p@h/d".toList filePayload (some []) s) ∧
    ∃ (p : IPFSSaver.Process) (s : IPFSSaver.Save),
      Reaches IPFSSaver.Process.step Free ⟨[], IPFSSaver.emptyTree⟩ p ∧ s ∈ p.saves ∧
      s.saveLocation ≠ s.given ∧ 0 < s.posts ∧ ¬ IPFSSaver.Stored s := by
  refine ⟨?_, ?_, ?_⟩
  · obtain ⟨t, reach, ends⟩ := reaches_of_any (MNNSaver.machine id).step
      (MNNSaver.saveASync "d/".toList (.success (some twoFiles)) false [] (some []) MNNSaver.blank)
      [.call (.next (.tried true true)), .call (.next (.tried false false)), .run 1 ()]
      (fun t => t.state.saveLocation ≠ some [] && 0 < t.state.handleWrites &&
        t.state.disk "d/g".toList = none) (by decide)
    simp only [Bool.and_eq_true, decide_eq_true_eq] at ends
    obtain ⟨⟨changed, called⟩, missing⟩ := ends
    refine ⟨t, reach, changed, called, fun stored => ?_⟩
    obtain ⟨content, _, there⟩ := stored 1 "g".toList rfl
    rw [show t.state.disk (id ("d/".toList ++ "g".toList)) = none from missing] at there
    cases there
  · obtain ⟨t, reach, ends⟩ := reaches_of_any SFTPSaver.machine.step
      (SFTPSaver.saveASync "u:p@h/d".toList (.success (some filePayload)) (some []))
      [.call (.resolved 1), .finish 0 .success, .run 0 refusing, .run 0 {}]
      (fun t => t.state.saveLocation ≠ some [] && 0 < t.state.handleWrites &&
        t.state.uploads.any fun u =>
          Streaming.Write.accepted u.device.fileContent (SFTPUploadDevice.writes u.done.calls) ≠
            u.device.fileContent) (by decide)
    simp only [Bool.and_eq_true, decide_eq_true_eq] at ends
    obtain ⟨⟨changed, called⟩, short⟩ := ends
    refine ⟨t, reach, changed, called, fun stored => ?_⟩
    obtain ⟨u, hu, differs⟩ := List.any_eq_true.mp short
    exact (of_decide_eq_true differs) (stored.whole u hu)
  · obtain ⟨p, reach, ends⟩ := reaches_of_any IPFSSaver.Process.step ⟨[], IPFSSaver.emptyTree⟩
      [.saveASync IPFSSaver.twoPages true (some []), .step 0 .succeeds, .step 0 .succeeds, .step 0 .succeeds,
        .step 0 .succeeds, .step 0 (.writes 1), .step 0 .succeeds, .step 0 .fails, .step 0 .succeeds,
        .step 0 .reads, .step 0 (.callsBack (.success (some "c".toList)) .done)]
      (fun p => p.saves[0]?.any fun s => s.saveLocation ≠ s.given && 0 < s.posts &&
        s.targets.any fun e => s.root.any fun r => r (place e.1) ≠ some e.2) (by decide)
    obtain ⟨s, hs, ends⟩ := (Option.any_eq_true ..).mp ends
    simp only [Bool.and_eq_true, decide_eq_true_eq] at ends
    obtain ⟨⟨changed, posted⟩, missing⟩ := ends
    refine ⟨p, s, reach, List.mem_of_getElem? hs, changed, posted, fun stored => ?_⟩
    obtain ⟨_, r, hr, all⟩ := stored
    obtain ⟨e, he, missing⟩ := List.any_eq_true.mp missing
    rw [hr] at missing
    exact (of_decide_eq_true missing) (all e he)

end AsyncIOManager
