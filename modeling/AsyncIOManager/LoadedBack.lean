import AsyncIOManager.IPFSLoader
import AsyncIOManager.LoadErrors
import AsyncIOManager.LoadedFiles
import AsyncIOManager.SaveLocation

namespace AsyncIOManager

open Reactor Files Paths

/-- A load is under way or has reported `c`, once, and it can come to that. `loading` tells what
the load may have reported, and whether it is under way. -/
structure Yields (loading : List ReadCall → Bool → Prop) (c : ReadCall) : Prop where
  each : ∀ reported waiting, loading reported waiting →
    reported = if waiting then [] else [c]
  some : loading [c] false

/-- The report of one file. -/
def fileRead (name content : Str) : ReadCall := ⟨.success (some ⟨[name], [content]⟩), false, false⟩

namespace MNNLoader

variable {φ : Type} {target : Str → φ} {disk : Disk φ Char} {s t : Reading}

/-- The file system returns what a file holds. -/
def Returns (target : Str → φ) (disk : Disk φ Char) (s : Reading) : Label Ec Str Empty → Prop
  | .finish k e => ∀ x ∈ s.pool[k]?, ∀ filename parse save, x.handler = .read filename parse save →
      e = .other → disk (target filename) = none
  | .run k buffer => ∀ x ∈ s.pool[k]?, ∀ filename parse save, x.handler = .read filename parse save →
      x.outcome = some .eof → disk (target filename) = some buffer
  | .call _ => True

/-- A file that the disk holds is opened. -/
def Loading (target : Str → φ) (disk : Disk φ Char) (filename : Str) (reported : List ReadCall)
    (waiting : Bool) : Prop :=
  ∃ opened t, (opened = false → disk (target filename) = none) ∧
    Reaches machine.step (Returns target disk) (loadASync filename false false opened) t ∧
    t.state.delivered = reported ∧ waiting = !t.pool.isEmpty

/-- The read of a file is under way, or the file has been reported. -/
inductive Reads (name content : Str) : Reading → Prop
  | reading {o : Option Ec} : o ≠ some .other → Reads name content ⟨⟨[]⟩, [⟨.read name false false, o⟩]⟩
  | read : Reads name content ⟨⟨[fileRead (filename name) content]⟩, []⟩

theorem Reads.step {name content : Str} {l : Label Ec Str Empty} (h : Reads name content s)
    (there : disk (target name) = some content) (good : Returns target disk s l)
    (step : machine.step s l = some t) : Reads name content t := by
  cases h with
  | reading going =>
    rcases Machine.step_cases step with ⟨k, e, x, rfl, hk, _, rfl⟩ | ⟨k, o, x, e, rest, rfl, hk, hr⟩ | ⟨a, _, _⟩
    · match k with
      | 0 =>
        obtain ⟨rfl, rfl⟩ := Entry.mk.inj (Option.some.inj hk)
        refine .reading fun failed => ?_
        have missing := good _ hk name false false rfl (Option.some.inj failed)
        rw [there] at missing
        cases missing
      | k + 1 => cases hk
    · obtain ⟨y, hy, taken⟩ := Option.map_eq_some_iff.mp hk
      match k with
      | 0 =>
        obtain rfl := Option.some.inj hy
        obtain ⟨same, rfl⟩ := Prod.mk.inj taken
        obtain ⟨rfl, rfl⟩ := Entry.mk.inj same
        cases e with
        | other => exact absurd rfl going
        | eof =>
          have held := good _ hy name false false rfl rfl
          obtain rfl := Option.some.inj (there.symm.trans held)
          obtain rfl := Option.some.inj hr
          exact .read
      | k + 1 => cases hy
    · exact a.elim
  | read =>
    rcases Machine.step_cases step with ⟨k, e, x, rfl, hk, _, _⟩ | ⟨k, o, x, e, rest, rfl, hk, _⟩ | ⟨a, _, _⟩
    · cases hk
    · cases takeAt_mem hk
    · exact a.elim

/-- A file with a name is loaded with what the disk holds. -/
theorem loading_yields {name content : Str} (named : MNNSaver.namesFile name = true)
    (there : disk (target name) = some content) :
    Yields (Loading target disk name) (fileRead (filename name) content) := by
  refine ⟨?_, ?_⟩
  · rintro _ _ ⟨opened, t, closed, reach, rfl, rfl⟩
    have open_ : opened = true := by
      cases opened with
      | true => rfl
      | false =>
        rw [closed rfl] at there
        cases there
    subst open_
    have reads : Reads name content t :=
      reach.invariant (fun _ _ _ h good step => h.step there good step) (.reading (by simp))
    cases reads with
    | reading _ => rfl
    | read => rfl
  · have ends : machine.step (loadASync name false false true) (.finish 0 .eof) =
        some ⟨⟨[]⟩, [⟨.read name false false, some .eof⟩]⟩ := by
      have completes : Handler.completes (.read name false false) .eof = true := by
        simp [Handler.completes, named]
      exact if_pos completes
    have delivers : machine.step ⟨⟨[]⟩, [⟨.read name false false, some .eof⟩]⟩ (.run 0 content) =
        some ⟨⟨[fileRead (filename name) content]⟩, []⟩ := rfl
    refine ⟨true, _, by simp, (Reaches.one ?_ ends).next ?_ delivers, rfl, rfl⟩
    · rintro x ⟨rfl⟩ _ _ _ _ ⟨⟩
    · rintro x ⟨rfl⟩ _ _ _ ⟨rfl⟩ _
      exact there

/-- A path that names no file is not loaded. -/
theorem not_yields {name : Str} (unnamed : MNNSaver.namesFile name = false) (file content : Str) :
    ¬ Yields (Loading target disk name) (fileRead file content) := by
  intro yields
  obtain ⟨opened, t, _, reach, reported, _⟩ := yields.some
  have delivers : Delivers name ⟨[file], [content]⟩ :=
    ⟨false, false, opened, t, fileRead file content, reach.mono fun _ _ _ => trivial, by simp [reported], rfl⟩
  exact absurd (delivered_file delivers).1 (by simp [unnamed])

end MNNLoader

namespace IPFSLoader

variable {lib : Libp2p} {codec : Codec} {published : CID → Option UnixFSContent}

/-- Bitswap returns what is published under a CID, and the device spares the waits of its loads.
`external` and `dht` tell whether there is a bitswap of the caller, and a DHT. -/
def Loading (lib : Libp2p) (codec : Codec) (published : CID → Option UnixFSContent) (external dht : Bool)
    (filename : Str) (reported : List ReadCall) (waiting : Bool) : Prop :=
  match loadASync codec external true filename false false with
  | .failure e => reported = if waiting then [] else [.failure (.ipfsLoader e)]
  | .request q => ∃ s i load, Reaches (IPFSDevice.machine lib).step (IPFSDevice.Returns lib published)
      (IPFSDevice.created dht) s ∧ s.state.loads[i]? = some load ∧ load.request = q ∧
      load.delivered = reported ∧ waiting = decide (0 < s.pool.countP (IPFSDevice.owes i))

/-- A published file is loaded by its CID and any name. -/
theorem loading_yields (reads : codec.Reads lib) {cid : CID} (written : lib.toString cid = true) {name content : Str}
    (there : published cid = some ⟨true, [⟨name, content⟩]⟩) (external : Bool) {dht : Bool}
    (accepted : IPFSDevice.accepts lib dht cid = true) (file : Str) :
    Yields (Loading lib codec published external dht (codec.text cid ++ '/' :: file))
      (fileRead (if file = [] then name else file) content) := by
  have posted := loadASync_slash reads written external file false false
  refine ⟨?_, ?_⟩
  · intro reported waiting loading
    rw [Loading, posted] at loading
    obtain ⟨s, i, load, reach, hi, request, rfl, rfl⟩ := loading
    have own : published load.request.cid = some ⟨true, [⟨name, content⟩]⟩ := by rw [request, there]
    rcases IPFSDevice.load_fetched reach hi own with ⟨busy, told⟩ | ⟨idle, told⟩
    · rw [told, decide_eq_true busy]
      rfl
    · rw [told, idle, request]
      rfl
  · rw [Loading, posted]
    obtain ⟨s, reach, loads, idle⟩ := IPFSDevice.reaches_fetched (q := ⟨cid, file, 0, false, false⟩) dht accepted
      written there
    exact ⟨s, 0, _, reach, by rw [loads]; rfl, rfl, rfl, by simp [idle]⟩

/-- A CID alone is refused. -/
theorem not_yields {filename : Str} (plain : '/' ∉ filename) (external dht : Bool) (file content : Str) :
    ¬ Yields (Loading lib codec published external dht filename) (fileRead file content) := by
  intro yields
  have told := yields.some
  rw [Loading, loadASync_plain codec external true plain] at told
  cases told

end IPFSLoader

namespace FileManager

/-- The load `i` is under way and has told nothing, or its `finalcall` has been given the buffers. -/
def Tells (buffers : ResultType) (i : Nat) (s : Session) : Prop :=
  ∃ o, s.state.ops[i]? = some o ∧ (o.finalcalls = [] ∧ callbacks i s ≠ [] ∨ o.finalcalls = [buffers])

/-- What the loader has read is handed to `finalcall`. -/
theorem load_tells {s t : Session} (hs : Accounted s) {c : Load} {data : Option Payload}
    (registered : (getURLComponents c.url).2.pre ∈ s.state.loaders) (parse : c.parse = false)
    (save : c.save = false) (set : c.finalcall = true)
    (reach : Reaches machine.step (Follows ⟨false, .success data, false⟩ s.state.ops.length c)
      (loadASync c false s).1 t) : Tells (.success data) s.state.ops.length t := by
  let o : Outcomes := ⟨false, .success data, false⟩
  have lives : Lives o s.state.ops.length s.state c t :=
    reach.invariant (fun _ _ _ ht follows step => ht.step follows step) (lives_loadASync hs o c registered)
  obtain ⟨p, hp, life⟩ := lives.life
  have handled : o.handled s.state c := by
    intro _ _
    rw [parse, save]
    exact ⟨by simp, by simp⟩
  have told : (o.told s.state c).finalcalls = [.success data] := by
    rw [Outcomes.told, if_pos set, looked_handled handled]
    rfl
  refine ⟨p, hp, ?_⟩
  unfold callbacks
  generalize t.held (fun h => h.op = s.state.ops.length) = held at life
  cases life with
  | reading _ => exact .inl ⟨rfl, by simp⟩
  | saving _ _ => exact .inr told
  | ended =>
    rw [final_handled handled]
    exact .inr told

end FileManager

/-- A load of the URL through the manager goes to the loader of the scheme, yields the content
there, and hands it to its `finalcall`. -/
structure LoadsBack (scheme : Str) (loading : Str → List ReadCall → Bool → Prop) (url content : Str) :
    Prop where
  accepted : (getURLComponents url).1 = true
  pre : (getURLComponents url).2.pre = scheme
  yields : ∃ name, Yields (loading (getURLComponents url).2.base) (fileRead name content)
  tells : ∀ loaders parsers savers s c data,
    Reaches FileManager.machine.step Free (FileManager.started loaders parsers savers) s →
    scheme ∈ s.state.loaders → c.url = url → c.parse = false → c.save = false → c.finalcall = true →
    (FileManager.loadASync c false s).2 = .returned ∧
    ∀ t, Reaches FileManager.machine.step
        (FileManager.Follows ⟨false, .success data, false⟩ s.state.ops.length c)
        (FileManager.loadASync c false s).1 t →
      FileManager.Tells (.success data) s.state.ops.length t

/-- What is behind the scheme of a URL is loaded back when the loader yields it. -/
theorem loadsBack_of_yields {scheme : Str} (plain : ':' ∉ scheme) {loading : Str → List ReadCall → Bool → Prop}
    {base content name : Str} (yields : Yields (loading base) (fileRead name content)) :
    LoadsBack scheme loading (scheme ++ ("://".toList ++ base)) content := by
  obtain ⟨accepted, pre, path⟩ := getURLComponents_scheme base plain
  refine ⟨accepted, pre, ⟨name, by rwa [path]⟩, ?_⟩
  intro loaders parsers savers s c data reach known url parse save set
  have registered : (getURLComponents c.url).2.pre ∈ s.state.loaders := by rwa [url, pre]
  refine ⟨?_, fun t reach' => ?_⟩
  · rw [FileManager.loadASync, if_pos registered]
    rfl
  · exact FileManager.load_tells (FileManager.reaches_accounted reach) registered parse save set reach'

namespace MNNSaver

variable {φ : Type} {target : Str → φ} {s t : Saving φ}

/-- The files that are written have names. -/
abbrev Named : Saving φ → Prop :=
  Carries (fun _ h => ∀ e ∈ h.entry, namesFile e.1 = true) fun m => ∀ e ∈ m.stored, namesFile e.1 = true

/-- The file has been written, is on the disk as it was given, and `handle_write` has run. -/
structure Saved (target : Str → φ) (file content : Str) (s : Saving φ) : Prop where
  written : (file, content) ∈ s.state.stored
  there : s.state.disk (target file) = some content
  reported : 0 < s.state.handleWrites

theorem Named.run {h : Handler} (own : ∀ e ∈ h.entry, namesFile e.1 = true) (hs : Named s) {e : Ec}
    (run : h.run e () s = some t) : Named t := by
  cases h with
  | write file content n =>
    obtain rfl := Option.some.inj run
    refine Carries.modify hs (fun _ own => own) ?_
    have stored : (written file content e s.state).stored =
        (if e = .success then { s.state with stored := s.state.stored ++ [(file, content)] } else s.state).stored :=
      (countDown_keeps _).2.1
    rw [stored]
    cases e with
    | error => exact hs.state
    | success =>
      intro p hp
      rcases List.mem_append.mp hp with old | new
      · exact hs.state p old
      · rw [List.mem_singleton.mp new]
        exact own (file, content) rfl
  | handleWrite =>
    obtain rfl := Option.some.inj run
    exact ⟨hs.pool, hs.state⟩

theorem Named.goes (hs : Named s) {f : Save φ → Save φ} (stored : (f s.state).stored = s.state.stored) :
    Named (s.modify f) :=
  Carries.modify hs (fun _ own => own) (by simpa only [stored] using hs.state)

/-- A queued write that changes stays the write of its file. -/
theorem Named.set (hs : Named s) {k : Nat} {file content : Str} {m n : Nat} {o e : Option Ec}
    (hk : s.pool[k]? = some ⟨.write file content m, o⟩) {u : Save φ} (stored : u.stored = s.state.stored) :
    Named ⟨u, s.pool.set k ⟨.write file content n, e⟩⟩ := by
  refine ⟨?_, by simpa only [stored] using hs.state⟩
  intro x hx
  rcases List.mem_or_eq_of_mem_set hx with old | rfl
  · exact hs.pool x old
  · exact hs.pool ⟨.write file content m, o⟩ (List.mem_of_getElem? hk)

variable [DecidableEq φ]

theorem Named.call (hs : Named s) {a : Act} (called : a.perform target s = some t) : Named t := by
  cases a with
  | next o =>
    cases (next_pass called).2 with
    | returns o done => exact hs.goes rfl
    | throws hp => exact hs.goes rfl
    | refused stream hp _ => exact Carries.post (hs.goes (by cases stream <;> rfl)) (by simp [Handler.entry])
    | outOfRange stream _ hp _ regular =>
      exact Carries.start (hs.goes (by cases stream <;> rfl)) (by simpa [Handler.entry] using regular)
    | starts stream hp _ regular =>
      exact Carries.start (hs.goes (by cases stream <;> rfl)) (by simpa [Handler.entry] using regular)
  | transfer k n =>
    obtain ⟨file, content, written, hk, _, rfl⟩ := transfer_cases called
    exact hs.set hk rfl
  | complete k e =>
    obtain ⟨file, content, written, hk, _, rfl⟩ := complete_cases called
    exact hs.set hk rfl

/-- A file that has been saved has a name, and the location is that of its directory. -/
theorem saved_named {filename uuid given file content path : Str} {nullData : Bool} {disk : Disk φ Char}
    (reach : Reaches (machine target).step Free
      (saveASync filename (.success (some ⟨[path], [content]⟩)) nullData uuid (some given) disk) s)
    (saved : Saved target file content s) : namesFile file = true ∧
      s.state.saveLocation = some ("file://".toList ++ destination filename uuid) := by
  have named : Named s := Carries.reaches (fun _ _ _ _ _ own hs run => Named.run own hs run)
    (fun _ _ _ hs called => Named.call hs called) reach ⟨by simp [saveASync], by simp [saveASync]⟩
  have location := reach.invariant
    (P := fun s => s.state.saveLocation = some ("file://".toList ++ destination filename uuid))
    (fun _ _ _ same _ step => (step_frame step).1.trans same) (by simp [saveASync])
  exact ⟨named.state _ saved.written, location⟩

end MNNSaver

namespace IPFSSaver

variable {lib : Libp2p} {codec : IPFSLoader.Codec} {published : CID → Option UnixFSContent}

/-- What the publishing of one file has read is published under the CID, as a file. -/
def PublishedAs (published : CID → Option UnixFSContent) (cid : CID) (s : Save) : Prop :=
  ∃ r name content, s.root = some r ∧ r (place s.tempFilePath) = some content ∧
    published cid = some ⟨true, [⟨name, content⟩]⟩

/-- A text that the publishing of one file calls back with is that of the CID of the file. -/
def Publishes (lib : Libp2p) (codec : IPFSLoader.Codec) (published : CID → Option UnixFSContent) (p : Process) :
    Event → Prop
  | .step i (.callsBack (.success (some cidString)) _) => ∀ s ∈ p.saves[i]?, s.single = true →
      ∃ cid, lib.toString cid = true ∧ cidString = codec.text cid ∧ PublishedAs published cid s
  | _ => True

/-- The location of a save is the CID of what has been published. -/
structure Located (lib : Libp2p) (codec : IPFSLoader.Codec) (published : CID → Option UnixFSContent) (cid : CID)
    (s : Save) : Prop where
  finished : s.stage = .finished
  written : lib.toString cid = true
  location : s.saveLocation = some ("ipfs://".toList ++ codec.text cid)
  published : PublishedAs published cid s

theorem located_of_calledBack {s s' : Save} {t t' : Tree} {a : Act} (steps : s.Steps t a s' t')
    (good : ∀ cidString r, a = .callsBack (.success (some cidString)) r → s.single = true →
      ∃ cid, lib.toString cid = true ∧ cidString = codec.text cid ∧ PublishedAs published cid s)
    (single : s.single = true) (h : s.saveLocation = s.given ∨ ∃ cid, Located lib codec published cid s) :
    s'.saveLocation = s'.given ∨ ∃ cid, Located lib codec published cid s' := by
  rcases h with same | ⟨cid, located⟩
  · cases steps with
    | calledBack result hs _ =>
      match result with
      | .failure => exact .inl same
      | .success none => exact .inl same
      | .success (some cidString) =>
        obtain ⟨cid, written, rfl, root⟩ := good _ _ rfl single
        cases given : s.saveLocation with
        | none =>
          left
          change s.saveLocation.map _ = s.given
          rw [← same, given]
          rfl
        | some old =>
          refine .inr ⟨cid, rfl, written, ?_, root⟩
          change s.saveLocation.map _ = _
          rw [given]
          rfl
    | _ => exact .inl same
  · have finished := located.finished
    cases steps with
    | returns hs running => exact .inr ⟨cid, finished, located.written, located.location, located.published⟩
    | thrown hs =>
      rw [finished] at hs
      rcases hs with hs | ⟨hs, _⟩ <;> cases hs
    | publishes hs =>
      rw [finished] at hs
      rcases hs with hs | hs <;> cases hs
    | named _ _ hs | unnamed hs | refused hs | openedTemp hs _ | wroteTemp _ hs _ | looked hs | removed hs
    | unremoved _ hs | created hs | parent hs | opened hs _ | skipped hs | wrote _ hs _ | recovered hs
    | unrecovered _ hs | reads hs | calledBack _ hs _ | uncleaned _ _ hs _ =>
      rw [finished] at hs
      cases hs

/-- The location that a save of one file has reported is that of the file. -/
theorem single_located {tree : Tree} {p : Process} {s : Save}
    (reach : Reaches Process.step (Publishes lib codec published) ⟨[], tree⟩ p) (mem : s ∈ p.saves)
    (single : s.single = true) (changed : s.saveLocation ≠ s.given) : ∃ cid, Located lib codec published cid s := by
  have known := Process.keep
    (P := fun s => s.single = true → s.saveLocation = s.given ∨ ∃ cid, Located lib codec published cid s)
    ?_ ?_ reach (by simp) s mem single
  · exact known.resolve_left changed
  · intro data bitswap saveLocation _
    left
    unfold saveASync
    split
    next => rfl
    next => rfl
    next =>
      split
      next => rfl
      next =>
        split
        next => rfl
        next => split <;> rfl
  · intro p i a s s' t' good hi steps h single'
    have single : s.single = true := by rwa [same_single (steps_same steps).1] at single'
    refine located_of_calledBack steps ?_ single (h single)
    rintro cidString r rfl
    exact good s hi

end IPFSSaver

section Claim

variable {φ : Type} [DecidableEq φ] (target : Str → φ) (lib : Libp2p) (codec : IPFSLoader.Codec)
  (published : CID → Option UnixFSContent)

/-- The location of a file that has been saved is accepted, and names the directory of the file,
or its CID. With the name of the file behind it, it is loaded back: as the path that has been
written, or as the file that has been published. -/
theorem location_loads_back (reads : codec.Reads lib) (path content : Str) :
    (∀ url uuid nullData given disk s, (getURLComponents url).2.pre = "file".toList →
      Reaches (MNNSaver.machine target).step Free (MNNSaver.saveASync (getURLComponents url).2.base
        (.success (some ⟨[path], [content]⟩)) nullData uuid (some given) disk) s →
      MNNSaver.Saved target (MNNSaver.destination (getURLComponents url).2.base uuid ++ path) content s →
      ∃ location, s.state.saveLocation = some location ∧
        (getURLComponents location).1 = true ∧ (getURLComponents location).2.pre = "file".toList ∧
        (getURLComponents location).2.base = MNNSaver.destination (getURLComponents url).2.base uuid ∧
        (getURLComponents (location ++ path)).2.base =
          MNNSaver.destination (getURLComponents url).2.base uuid ++ path ∧
        LoadsBack "file".toList (MNNLoader.Loading target s.state.disk) (location ++ path) content) ∧
    ∀ tree p s, Reaches IPFSSaver.Process.step (IPFSSaver.Publishes lib codec published) ⟨[], tree⟩ p →
      s ∈ p.saves → s.data = ⟨[path], [content]⟩ → s.saveLocation ≠ s.given → IPFSSaver.Stored s →
      ∃ cid location, s.saveLocation = some location ∧
        (getURLComponents location).1 = true ∧ (getURLComponents location).2.pre = "ipfs".toList ∧
        (getURLComponents location).2.base = codec.text cid ∧
        ∀ external dht file, parseIPFSUrl (getURLComponents (location ++ '/' :: file)).2.base =
            (true, ⟨codec.text cid, file⟩) ∧
          (IPFSDevice.accepts lib dht cid = true →
            LoadsBack "ipfs".toList (IPFSLoader.Loading lib codec published external dht) (location ++ '/' :: file)
              content) := by
  refine ⟨?_, ?_⟩
  · intro url uuid nullData given disk s _ reach saved
    obtain ⟨named, location⟩ := MNNSaver.saved_named reach saved
    have plain : ':' ∉ "file".toList := by decide
    obtain ⟨accepted, pre, base⟩ :=
      getURLComponents_scheme (MNNSaver.destination (getURLComponents url).2.base uuid) plain
    obtain ⟨_, _, whole⟩ :=
      getURLComponents_scheme (MNNSaver.destination (getURLComponents url).2.base uuid ++ path) plain
    have yields := MNNLoader.loading_yields named saved.there
    refine ⟨_, location, accepted, pre, base, ?_, ?_⟩
    · rw [List.append_assoc]
      exact whole
    · rw [List.append_assoc]
      exact loadsBack_of_yields plain yields
  · intro tree p s reach mem data changed stored
    have single : s.single = true := by rw [IPFSSaver.Save.single, data]; rfl
    obtain ⟨cid, located⟩ := IPFSSaver.single_located reach mem single changed
    have written := located.written
    obtain ⟨r, name, bytes, root, held, there⟩ := located.published
    obtain ⟨_, r', root', each⟩ := stored
    have own : bytes = content := by
      obtain rfl := Option.some.inj (root.symm.trans root')
      have target : (s.tempFilePath, content) ∈ s.targets := by
        simp [IPFSSaver.Save.targets, single, IPFSSaver.Save.content, data]
      exact Option.some.inj (held.symm.trans (each _ target))
    subst own
    have plain : ':' ∉ "ipfs".toList := by decide
    obtain ⟨accepted, pre, base⟩ := getURLComponents_scheme (codec.text cid) plain
    refine ⟨cid, _, located.location, accepted, pre, base, fun external dht file => ⟨?_, fun hashed => ?_⟩⟩
    · obtain ⟨_, _, whole⟩ := getURLComponents_scheme (codec.text cid ++ '/' :: file) plain
      rw [List.append_assoc]
      have same : (getURLComponents ("ipfs://".toList ++ (codec.text cid ++ '/' :: file))).2.base =
          codec.text cid ++ '/' :: file := whole
      rw [same]
      exact parseIPFSUrl_slash (reads.some cid written) (reads.plain cid written) file
    · rw [List.append_assoc]
      exact loadsBack_of_yields plain (IPFSLoader.loading_yields reads written there external hashed file)

end Claim

/-- `Q` is the only CID with a text, and names a page. -/
def pageCodec : IPFSLoader.Codec := ⟨fun cid => cid, fun text => some text⟩

def pagePublished (cid : CID) : Option UnixFSContent :=
  if cid = "Q".toList then some ⟨true, [⟨"t".toList, "ab".toList⟩]⟩ else none

theorem pageCodec_reads : pageCodec.Reads IPFSDevice.plain := by
  have only {cid : CID} (written : IPFSDevice.plain.toString cid = true) : cid = "Q".toList :=
    of_decide_eq_true written
  refine ⟨fun cid written => ?_, fun cid written => ?_, fun cid _ => rfl⟩
  · rw [only written]
    decide
  · rw [only written]
    decide

/-- The page is what has been read when `Q` is called back. -/
def PublishesPage (p : IPFSSaver.Process) : IPFSSaver.Event → Prop
  | .step i (.callsBack (.success (some cidString)) _) => cidString = "Q".toList ∧
      ∀ s ∈ p.saves[i]?, s.root.any (fun r => r (place s.tempFilePath) = some "ab".toList) = true
  | _ => True

instance (p : IPFSSaver.Process) (e : IPFSSaver.Event) : Decidable (PublishesPage p e) :=
  match e with
  | .saveASync _ _ _ => .isTrue trivial
  | .step _ (.callsBack (.success (some _)) _) => inferInstanceAs (Decidable (_ ∧ _))
  | .step _ (.callsBack (.success none) _) => .isTrue trivial
  | .step _ (.callsBack .failure _) => .isTrue trivial
  | .step _ (.tempDirectoryPath _ _) => .isTrue trivial
  | .step _ .succeeds => .isTrue trivial
  | .step _ .fails => .isTrue trivial
  | .step _ .throws => .isTrue trivial
  | .step _ (.writes _) => .isTrue trivial
  | .step _ (.removes _) => .isTrue trivial
  | .step _ .reads => .isTrue trivial
  | .step _ .returns => .isTrue trivial

theorem publishes_of_page {p : IPFSSaver.Process} {e : IPFSSaver.Event} (h : PublishesPage p e) :
    IPFSSaver.Publishes IPFSDevice.plain pageCodec pagePublished p e := by
  unfold IPFSSaver.Publishes
  split
  next i cidString _ =>
    obtain ⟨rfl, read⟩ := h
    intro s hs _
    obtain ⟨r, root, held⟩ := (Option.any_eq_true ..).mp (read s hs)
    exact ⟨"Q".toList, rfl, rfl, r, _, _, root, of_decide_eq_true held, rfl⟩
  next => trivial

theorem page_published :
    ∃ p s, Reaches IPFSSaver.Process.step (IPFSSaver.Publishes IPFSDevice.plain pageCodec pagePublished)
        ⟨[], IPFSSaver.emptyTree⟩ p ∧ s ∈ p.saves ∧ s.data = ⟨["p".toList], ["ab".toList]⟩ ∧
      s.saveLocation = some "ipfs://Q".toList ∧ s.saveLocation ≠ s.given ∧ IPFSSaver.Stored s := by
  obtain ⟨p, reach, ends⟩ := reaches_of_any_guarded IPFSSaver.Process.step PublishesPage
    ⟨[], IPFSSaver.emptyTree⟩
    (IPFSSaver.publishing ++ [.step 0 (.callsBack (.success (some "Q".toList)) .done)])
    (fun p => p.saves[0]?.any fun s => s.data = ⟨["p".toList], ["ab".toList]⟩ &&
      s.saveLocation = some "ipfs://Q".toList && s.saveLocation ≠ s.given &&
      s.root.any fun r => s.targets.all fun e => r (place e.1) = some e.2) (by decide)
  obtain ⟨s, hs, ends⟩ := (Option.any_eq_true ..).mp ends
  simp only [Bool.and_eq_true, decide_eq_true_eq] at ends
  obtain ⟨⟨⟨data, location⟩, changed⟩, read⟩ := ends
  obtain ⟨r, root, each⟩ := (Option.any_eq_true ..).mp read
  refine ⟨p, s, reach.mono fun _ _ good => publishes_of_page good, List.mem_of_getElem? hs, data, location,
    changed, ?_, r, root, fun e he => ?_⟩
  · rw [data]
    rfl
  · exact of_decide_eq_true (List.all_eq_true.mp each e he)

/-- A save of one file in a directory. -/
theorem page_saved :
    ∃ s : MNNSaver.Saving Str, Reaches (MNNSaver.machine id).step Free
        (MNNSaver.saveASync (getURLComponents "file://d/".toList).2.base
          (.success (some ⟨["p".toList], ["ab".toList]⟩)) false [] (some []) MNNSaver.blank) s ∧
      s.state.saveLocation = some "file://d/".toList ∧ MNNSaver.Saved id "d/p".toList "ab".toList s := by
  obtain ⟨t, reach, ends⟩ := reaches_of_any (MNNSaver.machine id).step
    (MNNSaver.saveASync (getURLComponents "file://d/".toList).2.base
      (.success (some ⟨["p".toList], ["ab".toList]⟩)) false [] (some []) MNNSaver.blank)
    [.call (.next (.tried true true)), .call (.next .throws), .call (.transfer 0 2),
      .call (.complete 0 .success), .run 0 ()]
    (fun t => t.state.saveLocation = some "file://d/".toList &&
      ("d/p".toList, "ab".toList) ∈ t.state.stored && t.state.disk "d/p".toList = some "ab".toList &&
      0 < t.state.handleWrites) (by decide)
  simp only [Bool.and_eq_true, decide_eq_true_eq] at ends
  obtain ⟨⟨⟨location, written⟩, there⟩, reported⟩ := ends
  exact ⟨t, reach, location, written, there, reported⟩

theorem location_loads_back_page :
    (∃ disk, LoadsBack "file".toList (MNNLoader.Loading (id : Str → Str) disk) "file://d/p".toList "ab".toList) ∧
    ∀ external dht, LoadsBack "ipfs".toList
      (IPFSLoader.Loading IPFSDevice.plain pageCodec pagePublished external dht) "ipfs://Q/p".toList "ab".toList := by
  have claim := location_loads_back (id : Str → Str) IPFSDevice.plain pageCodec pagePublished pageCodec_reads
    "p".toList "ab".toList
  refine ⟨?_, fun external dht => ?_⟩
  · obtain ⟨s, reach, location, saved⟩ := page_saved
    obtain ⟨_, same, _, _, _, _, back⟩ := claim.1 "file://d/".toList [] false [] _ s (by decide) reach saved
    obtain rfl := Option.some.inj (location.symm.trans same)
    exact ⟨_, back⟩
  · obtain ⟨p, s, reach, mem, data, location, changed, stored⟩ := page_published
    obtain ⟨cid, _, same, _, _, base, back⟩ := claim.2 _ p s reach mem data changed stored
    obtain rfl := Option.some.inj (location.symm.trans same)
    have named : cid = "Q".toList := base.symm.trans (by decide)
    have hashed (dht : Bool) : IPFSDevice.accepts IPFSDevice.plain dht cid = true := by
      rw [named]
      cases dht <;> rfl
    exact (back external dht "p".toList).2 (hashed dht)

/-- What is loaded from the location itself: the directory of the file, or a CID without a name. -/
theorem location_does_not_load :
    (∃ s : MNNSaver.Saving Str, Reaches (MNNSaver.machine id).step Free
        (MNNSaver.saveASync (getURLComponents "file://d/".toList).2.base
          (.success (some ⟨["p".toList], ["ab".toList]⟩)) false [] (some []) MNNSaver.blank) s ∧
      MNNSaver.Saved id "d/p".toList "ab".toList s ∧ s.state.saveLocation = some "file://d/".toList ∧
      ¬ LoadsBack "file".toList (MNNLoader.Loading id s.state.disk) "file://d/".toList "ab".toList) ∧
    ∃ p s, Reaches IPFSSaver.Process.step (IPFSSaver.Publishes IPFSDevice.plain pageCodec pagePublished)
        ⟨[], IPFSSaver.emptyTree⟩ p ∧ s ∈ p.saves ∧ s.data = ⟨["p".toList], ["ab".toList]⟩ ∧
      IPFSSaver.Stored s ∧ s.saveLocation = some "ipfs://Q".toList ∧
      (parseIPFSUrl (getURLComponents "ipfs://Q".toList).2.base).1 = false ∧
      ∀ external dht, ¬ LoadsBack "ipfs".toList
        (IPFSLoader.Loading IPFSDevice.plain pageCodec pagePublished external dht) "ipfs://Q".toList "ab".toList := by
  refine ⟨?_, ?_⟩
  · obtain ⟨s, reach, location, saved⟩ := page_saved
    refine ⟨s, reach, saved, location, fun back => ?_⟩
    obtain ⟨name, yields⟩ := back.yields
    exact MNNLoader.not_yields (by decide) name _ yields
  · obtain ⟨p, s, reach, mem, data, location, changed, stored⟩ := page_published
    refine ⟨p, s, reach, mem, data, stored, location, by decide, fun external dht back => ?_⟩
    obtain ⟨name, yields⟩ := back.yields
    exact IPFSLoader.not_yields (by decide) external dht name _ yields

end AsyncIOManager
