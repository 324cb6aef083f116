import AsyncIOManager.FILECommon

namespace AsyncIOManager

open Reactor Descriptors

namespace FILEDevice

variable {s t : Process} {d e n m : Nat} {x y : FILEDevice}

/-- How often a descriptor has been closed. -/
def closes (s : Process) (k : Nat) : Nat := s.closed.countP fun c => c.2 = .opened k

/-- Every close has closed a descriptor of its own device, no descriptor is closed twice, and a
device that is gone has closed all of its descriptors. -/
def Exclusive (s : Process) : Prop :=
  (∀ c ∈ s.closed, ∃ k, c.2 = .opened k ∧ s.opened[k]? = some c.1) ∧
    ∀ k d, s.opened[k]? = some d → closes s k ≤ 1 ∧
      ∀ x, s.devices[d]? = some x → x.stage = .gone → closes s k = 1

/-- No device that has closed `file_` and not yet `fd_` sees its number opened again. -/
def Careful (s : Process) : Act → Prop
  | .openFd _ true => ∀ x ∈ s.devices, x.stage = .closing → x.fd ≠ some s.table.lowest
  | _ => True

instance (s : Process) (a : Act) : Decidable (Careful s a) := by
  unfold Careful
  split <;> infer_instance

/-- The descriptor that a number stands for has been opened by `d`. -/
def Owns (s : Process) (d n : Nat) : Prop :=
  ∃ k, s.table.lookup n = some (.opened k) ∧ s.opened[k]? = some d

theorem Owns.taken (owns : Owns s d n) : s.table.lookup n ≠ none := by
  obtain ⟨k, there, _⟩ := owns
  simp [there]

theorem Owns.same (own : Owns s d n) (other : Owns s e n) : e = d := by
  obtain ⟨k, there, opened⟩ := own
  obtain ⟨l, there', opened'⟩ := other
  obtain rfl : k = l := by simpa using there.symm.trans there'
  exact Option.some.inj (opened'.symm.trans opened)

/-- The numbers that a device has still to close. -/
def Holds (x : FILEDevice) (n : Nat) : Prop := x.file = some n ∨ (x.stage = .opening ∧ x.fd = some n)

/-- A device closes only what it has opened: `fd_` is the number of `file_`, or is new, or is free. -/
def Keeps (s : Process) (d : Nat) (x : FILEDevice) : Prop :=
  (∀ n, x.file = some n → Owns s d n) ∧
    match x.stage with
    | .ready => x.fd = none ∨ x.fd = x.file
    | .opening => ∃ n, x.fd = some n ∧ Owns s d n ∧ x.file ≠ some n
    | .closing => x.file = none ∧ ∀ n, x.fd = some n → s.table.lookup n = none
    | .gone => x.file = none

theorem Keeps.mono (h : Keeps s d x) (owns : ∀ n, Owns s d n → Owns t d n)
    (free : ∀ n, x.stage = .closing → x.fd = some n → s.table.lookup n = none → t.table.lookup n = none) :
    Keeps t d x := by
  obtain ⟨file, stage⟩ := h
  refine ⟨fun n hn => owns n (file n hn), ?_⟩
  cases at_ : x.stage with
  | ready => simpa [at_] using stage
  | opening =>
    obtain ⟨n, fd, own, other⟩ := by simpa [at_] using stage
    exact ⟨n, fd, owns n own, other⟩
  | closing =>
    obtain ⟨none, gone⟩ := by simpa [at_] using stage
    exact ⟨none, fun n fd => free n at_ fd (gone n fd)⟩
  | gone => simpa [at_] using stage

structure Orderly (s : Process) : Prop where
  keeps : ∀ d x, s.devices[d]? = some x → Keeps s d x
  held : ∀ d n, Owns s d n → ∃ x, s.devices[d]? = some x ∧ Holds x n
  once : ∀ k, s.table.count (some (.opened k)) + closes s k = if k < s.opened.length then 1 else 0
  own : ∀ c ∈ s.closed, ∃ k, c.2 = .opened k ∧ s.opened[k]? = some c.1

theorem Orderly.known (h : Orderly s) {k : Nat} (there : s.table.lookup n = some (.opened k)) :
    k < s.opened.length := by
  have once := h.once k
  have counts := Table.count_of_lookup there
  by_contra unknown
  rw [if_neg unknown] at once
  omega

/-- A device and the table change together. -/
theorem Orderly.change (h : Orderly s) (devices : t.devices = s.devices.set d y) (inside : d < s.devices.length)
    (kept : Keeps t d y) (others : ∀ e x, e ≠ d → s.devices[e]? = some x → Keeps t e x)
    (held : ∀ n, Owns t d n → Holds y n) (heldOthers : ∀ e n, e ≠ d → Owns t e n → Owns s e n)
    (once : ∀ k, t.table.count (some (.opened k)) + closes t k = if k < t.opened.length then 1 else 0)
    (own : ∀ c ∈ t.closed, ∃ k, c.2 = .opened k ∧ t.opened[k]? = some c.1) : Orderly t := by
  have here : t.devices[d]? = some y := by simp [devices, inside]
  have there (e : Nat) (other : e ≠ d) : t.devices[e]? = s.devices[e]? := by
    rw [devices, List.getElem?_set_ne other.symm]
  refine ⟨?_, ?_, once, own⟩
  · intro e x hx
    by_cases same : e = d
    · subst same
      obtain rfl : y = x := by simpa [here] using hx
      exact kept
    · rw [there e same] at hx
      exact others e x same hx
  · intro e n owns
    by_cases same : e = d
    · subst same
      exact ⟨y, here, held n owns⟩
    · rw [there e same]
      exact h.held e n (heldOthers e n same owns)

/-- A device that closes nothing keeps what it holds. -/
theorem Orderly.put (h : Orderly s) (found : s.devices[d]? = some x) (rest : ∀ n, Holds x n → Holds y n)
    (kept : Keeps s d y) : Orderly (s.put d y) := by
  have inside := (List.getElem?_eq_some_iff.mp found).1
  refine h.change rfl inside kept (fun e z _ hz => h.keeps e z hz) ?_ (fun e n _ owns => owns) h.once h.own
  intro n owns
  obtain ⟨z, hz, holds⟩ := h.held d n owns
  obtain rfl : x = z := by simpa [found] using hz
  exact rest n holds

section Open

/-- What is owned after `::open`. -/
theorem Orderly.owns_sysOpen (h : Orderly s) :
    Owns (s.sysOpen d) e n ↔ Owns s e n ∨ (n = s.table.lowest ∧ e = d) := by
  unfold Owns Process.sysOpen
  simp only [Table.lookup_allocate]
  by_cases new : n = s.table.lowest
  · subst new
    simp [Table.lookup_lowest, eq_comm]
  · simp only [new, false_and, or_false]
    constructor
    · rintro ⟨k, there, opened⟩
      rw [List.getElem?_append_left (h.known there)] at opened
      exact ⟨k, there, opened⟩
    · rintro ⟨k, there, opened⟩
      refine ⟨k, there, ?_⟩
      rwa [List.getElem?_append_left (h.known there)]

theorem Orderly.openFd (h : Orderly s) (found : s.devices[d]? = some x) (ready : x.stage = .ready)
    (careful : Careful s (.openFd d true)) : Orderly (openFd d x true s) := by
  have inside := (List.getElem?_eq_some_iff.mp found).1
  have file := (h.keeps d x found).1
  have grows (e n : Nat) (owns : Owns s e n) : Owns (s.sysOpen d) e n := h.owns_sysOpen.mpr (.inl owns)
  refine h.change (t := FILEDevice.openFd d x true s) rfl inside ?_ ?_ ?_ ?_ ?_ ?_
  · refine ⟨fun n hn => grows d n (file n hn), s.table.lowest, rfl, h.owns_sysOpen.mpr (.inr ⟨rfl, rfl⟩), ?_⟩
    intro same
    exact (file _ same).taken (Table.lookup_lowest s.table)
  · intro e z other hz
    refine (h.keeps e z hz).mono (grows e) ?_
    intro n closing fd free
    have old := careful z (List.mem_of_getElem? hz) closing
    have new : n ≠ s.table.lowest := by
      rintro rfl
      exact old fd
    exact (Table.lookup_allocate ..).trans ((if_neg new).trans free)
  · intro n owns
    rcases h.owns_sysOpen.mp owns with before | ⟨rfl, _⟩
    · obtain ⟨z, hz, holds⟩ := h.held d n before
      obtain rfl : x = z := by simpa [found] using hz
      rcases holds with file | ⟨opening, _⟩
      · exact .inl file
      · cases ready.symm.trans opening
    · exact .inr ⟨rfl, rfl⟩
  · intro e n other owns
    rcases h.owns_sysOpen.mp owns with before | ⟨_, same⟩
    · exact before
    · exact absurd same other
  · intro k
    have once := h.once k
    change (s.table.allocate (.opened s.opened.length)).count (some (.opened k)) + closes s k =
      if k < (s.opened ++ [d]).length then 1 else 0
    rw [Table.count_allocate, List.length_append, List.length_singleton]
    by_cases new : s.opened.length = k
    · subst new
      rw [if_neg (Nat.lt_irrefl _)] at once
      rw [if_pos rfl, if_pos (Nat.lt_succ_self _)]
      omega
    · have same : k < s.opened.length + 1 ↔ k < s.opened.length := by omega
      rw [if_neg (by simpa using new)]
      simpa only [same, Nat.add_zero] using once
  · intro c mem
    obtain ⟨k, what, owner⟩ := h.own c mem
    refine ⟨k, what, ?_⟩
    have before := (List.getElem?_eq_some_iff.mp owner).1
    exact (List.getElem?_append_left before).trans owner

end Open

section Close

theorem sysClose_owned {k : Nat} (there : s.table.lookup n = some (.opened k)) :
    s.sysClose d (some n) = { s with table := s.table.release n, closed := s.closed ++ [(d, .opened k)] } := by
  simp [Process.sysClose, there]

theorem sysClose_free (free : s.table.lookup n = none) : s.sysClose d (some n) = s := by
  simp [Process.sysClose, free]

/-- What is owned after a device has closed its own descriptor. -/
theorem Owns.sysClose (own : Owns s d n) : Owns (s.sysClose d (some n)) e m ↔ Owns s e m ∧ m ≠ n := by
  obtain ⟨k, there, _⟩ := own
  rw [sysClose_owned there]
  simp only [Owns, Table.lookup_release]
  by_cases same : m = n
  · simp [same]
  · simp [same]

/-- A device closes a descriptor of its own. -/
theorem Orderly.close (h : Orderly s) (found : s.devices[d]? = some x) (own : Owns s d n)
    (rest : ∀ m, Holds x m → m ≠ n → Holds y m) (kept : Keeps (s.sysClose d (some n)) d y) :
    Orderly ((s.sysClose d (some n)).put d y) := by
  have inside := (List.getElem?_eq_some_iff.mp found).1
  obtain ⟨k, there, opened⟩ := own
  have own : Owns s d n := ⟨k, there, opened⟩
  have closed := sysClose_owned (d := d) there
  have keptOpen : (s.sysClose d (some n)).opened = s.opened := by rw [closed]
  refine h.change (t := (s.sysClose d (some n)).put d y) ?_ inside kept ?_ ?_ ?_ ?_ ?_
  · rw [closed]
    rfl
  · intro e z other hz
    refine (h.keeps e z hz).mono ?_ ?_
    · intro m owns
      refine own.sysClose.mpr ⟨owns, ?_⟩
      rintro rfl
      exact other (own.same owns)
    · intro m _ _ free
      change (s.sysClose d (some n)).table.lookup m = none
      rw [closed]
      exact (Table.lookup_release ..).trans (by rw [free, ite_self])
  · intro m owns
    obtain ⟨before, other⟩ := own.sysClose.mp owns
    obtain ⟨z, hz, holds⟩ := h.held d m before
    obtain rfl : x = z := by simpa [found] using hz
    exact rest m holds other
  · intro e m _ owns
    exact (own.sysClose.mp owns).1
  · intro l
    have once := h.once l
    have count := Table.count_release there (.opened l)
    change (s.sysClose d (some n)).table.count (some (.opened l)) + closes (s.sysClose d (some n)) l =
      if l < (s.sysClose d (some n)).opened.length then 1 else 0
    rw [keptOpen, ← once, closed]
    simp only [closes, List.countP_append, List.countP_singleton, decide_eq_true_eq]
    omega
  · intro c mem
    change c ∈ (s.sysClose d (some n)).closed at mem
    change ∃ k, c.2 = .opened k ∧ (s.sysClose d (some n)).opened[k]? = some c.1
    rw [keptOpen]
    rw [closed] at mem
    rcases List.mem_append.mp mem with before | now
    · exact h.own c before
    · obtain rfl := List.mem_singleton.mp now
      exact ⟨k, rfl, opened⟩

theorem Orderly.assign (h : Orderly s) (found : s.devices[d]? = some x) (opening : x.stage = .opening)
    {ok : Bool} (possible : ¬ (ok = true ∧ x.file ≠ none)) : Orderly (assign d x ok s) := by
  obtain ⟨file, stage⟩ := h.keeps d x found
  obtain ⟨n, fd, own, other⟩ := by simpa [opening] using stage
  cases ok with
  | true =>
    have none : x.file = none := by simpa using possible
    refine h.put found ?_ ⟨?_, .inr rfl⟩
    · rintro m (old | ⟨_, new⟩)
      · cases none.symm.trans old
      · exact .inl new
    · intro m hm
      obtain rfl : n = m := Option.some.inj (fd.symm.trans hm)
      exact own
  | false =>
    have closed : FILEDevice.assign d x false s =
        (s.sysClose d (some n)).put d { x with fd := none, stage := .ready } := by simp [FILEDevice.assign, fd]
    rw [closed]
    refine h.close found own ?_ ⟨?_, .inl rfl⟩
    · rintro m (old | ⟨_, new⟩) differs
      · exact .inl old
      · exact absurd (Option.some.inj (new.symm.trans fd)) differs
    · intro m hm
      refine own.sysClose.mpr ⟨file m hm, ?_⟩
      rintro rfl
      exact other hm

theorem Orderly.closeFile (h : Orderly s) (found : s.devices[d]? = some x) (ready : x.stage = .ready) :
    Orderly (closeFile d x s) := by
  obtain ⟨file, stage⟩ := h.keeps d x found
  have fd : x.fd = none ∨ x.fd = x.file := by simpa [ready] using stage
  cases hfile : x.file with
  | none =>
    have closed : FILEDevice.closeFile d x s = s.put d { x with file := none, stage := .closing } := by
      simp [FILEDevice.closeFile, Process.sysClose, hfile]
    rw [closed]
    have unopened : x.fd = none := by simpa [hfile] using fd
    refine h.put found ?_ ⟨by simp, rfl, by simp [unopened]⟩
    rintro m (old | ⟨opening, _⟩)
    · cases hfile.symm.trans old
    · cases ready.symm.trans opening
  | some n =>
    have own := file n hfile
    have closed : FILEDevice.closeFile d x s =
        (s.sysClose d (some n)).put d { x with file := none, stage := .closing } := by
      simp [FILEDevice.closeFile, hfile]
    rw [closed]
    refine h.close found own ?_ ⟨by simp, rfl, ?_⟩
    · rintro m (old | ⟨opening, _⟩) differs
      · exact absurd (Option.some.inj (old.symm.trans hfile)) differs
      · cases ready.symm.trans opening
    · intro m hm
      have same : m = n := by
        rcases fd with unopened | both
        · cases unopened.symm.trans hm
        · exact Option.some.inj (hm.symm.trans (both.trans hfile))
      obtain ⟨k, there, _⟩ := own
      rw [sysClose_owned there, same]
      exact (Table.lookup_release ..).trans (if_pos rfl)

/-- The second close of the destructor finds its number free. -/
theorem Orderly.closeFd (h : Orderly s) (found : s.devices[d]? = some x) (closing : x.stage = .closing) :
    Orderly (closeFd d x s) := by
  obtain ⟨_, stage⟩ := h.keeps d x found
  obtain ⟨none, free⟩ := by simpa [closing] using stage
  have same : s.sysClose d x.fd = s := by
    cases fd : x.fd with
    | none => rfl
    | some n => exact sysClose_free (free n fd)
  rw [FILEDevice.closeFd, same]
  refine h.put found ?_ ⟨by simp [none], none⟩
  rintro m (old | ⟨opening, _⟩)
  · cases none.symm.trans old
  · cases closing.symm.trans opening

end Close

theorem Orderly.construct (h : Orderly s) : Orderly { s with devices := s.devices ++ [{}] } := by
  refine ⟨?_, ?_, h.once, h.own⟩
  · intro d x found
    rcases Nat.lt_or_ge d s.devices.length with old | new
    · exact h.keeps d x ((List.getElem?_append_left old).symm.trans found)
    · have blank : x = {} := by
        have mem := List.mem_of_getElem? ((List.getElem?_append_right new).symm.trans found)
        exact List.mem_singleton.mp mem
      rw [blank]
      exact ⟨by simp, .inl rfl⟩
  · intro d n owns
    obtain ⟨x, found, holds⟩ := h.held d n owns
    exact ⟨x, (List.getElem?_append_left (List.getElem?_eq_some_iff.mp found).1).trans found, holds⟩

/-- What a step does, by its label. -/
inductive Steps (s : Process) : Act → Process → Prop
  | construct : Steps s .construct { s with devices := s.devices ++ [{}] }
  | openFd {d : Nat} {x : FILEDevice} (ok : Bool) : s.devices[d]? = some x → x.stage = .ready →
      Steps s (.openFd d ok) (openFd d x ok s)
  | assign {d : Nat} {x : FILEDevice} (ok : Bool) : s.devices[d]? = some x → x.stage = .opening →
      ¬ (ok = true ∧ x.file ≠ none) → Steps s (.assign d ok) (assign d x ok s)
  | closeFile {d : Nat} {x : FILEDevice} : s.devices[d]? = some x → x.stage = .ready →
      Steps s (.closeFile d) (closeFile d x s)
  | closeFd {d : Nat} {x : FILEDevice} : s.devices[d]? = some x → x.stage = .closing →
      Steps s (.closeFd d) (closeFd d x s)

theorem atStage_some {stage : Stage} {f : FILEDevice → Process → Option Process}
    (h : s.atStage d stage f = some t) : ∃ x, s.devices[d]? = some x ∧ x.stage = stage ∧ f x s = some t := by
  obtain ⟨x, found, h⟩ := Option.bind_eq_some_iff.mp h
  split at h
  next here => exact ⟨x, found, here, h⟩
  next => cases h

theorem step_steps {a : Act} (h : s.step a = some t) : Steps s a t := by
  unfold Process.step at h
  cases a with
  | construct =>
    obtain rfl := Option.some.inj h
    exact .construct
  | openFd d ok =>
    obtain ⟨x, found, ready, h⟩ := atStage_some h
    obtain rfl := Option.some.inj h
    exact .openFd ok found ready
  | assign d ok =>
    obtain ⟨x, found, opening, h⟩ := atStage_some h
    split at h
    next => cases h
    next possible =>
      obtain rfl := Option.some.inj h
      exact .assign ok found opening possible
  | closeFile d =>
    obtain ⟨x, found, ready, h⟩ := atStage_some h
    obtain rfl := Option.some.inj h
    exact .closeFile found ready
  | closeFd d =>
    obtain ⟨x, found, closing, h⟩ := atStage_some h
    obtain rfl := Option.some.inj h
    exact .closeFd found closing

theorem Orderly.step {a : Act} (h : Orderly s) (careful : Careful s a) (steps : Steps s a t) : Orderly t := by
  cases steps with
  | construct => exact h.construct
  | @openFd d x ok found ready =>
    cases ok with
    | true => exact h.openFd found ready careful
    | false =>
      refine h.put found ?_ ⟨(h.keeps d x found).1, by simp [ready]⟩
      rintro n (file | ⟨opening, _⟩)
      · exact .inl file
      · cases ready.symm.trans opening
  | assign ok found opening possible => exact h.assign found opening possible
  | closeFile found ready => exact h.closeFile found ready
  | closeFd found closing => exact h.closeFd found closing

theorem foreign_of_started {taken : List Bool} {n : Nat} {h : Holder}
    (there : (started taken).table.lookup n = some h) : h = .foreign := by
  obtain ⟨entry, hn, rfl⟩ : ∃ entry, (started taken).table[n]? = some entry ∧ entry = some h := by
    simpa [Table.lookup, Option.join_eq_some_iff] using there
  obtain ⟨b, _, hb⟩ := List.mem_map.mp (List.mem_of_getElem? hn)
  cases b with
  | true => exact (Option.some.inj hb).symm
  | false => cases hb

theorem orderly_started (taken : List Bool) : Orderly (started taken) := by
  refine ⟨by simp [started], ?_, ?_, by simp [started]⟩
  · rintro d n ⟨k, there, _⟩
    cases foreign_of_started there
  · intro k
    have none : (started taken).table.count (some (.opened k)) = 0 := by
      by_contra some
      obtain ⟨n, there⟩ := Table.lookup_of_count (Nat.pos_of_ne_zero some)
      cases foreign_of_started there
    rw [none]
    rfl

theorem Orderly.exclusive (h : Orderly s) : Exclusive s := by
  refine ⟨h.own, fun k d opener => ?_⟩
  have once := h.once k
  rw [if_pos (List.getElem?_eq_some_iff.mp opener).1] at once
  refine ⟨by omega, fun x found gone => ?_⟩
  by_contra unclosed
  obtain ⟨n, there⟩ : ∃ n, s.table.lookup n = some (.opened k) := Table.lookup_of_count (by omega)
  obtain ⟨y, hy, holds⟩ := h.held d n ⟨k, there, opener⟩
  obtain rfl : x = y := by simpa [found] using hy
  have file : x.file = none := by simpa [gone] using (h.keeps d x found).2
  rcases holds with open_ | ⟨opening, _⟩
  · cases file.symm.trans open_
  · cases gone.symm.trans opening

/-- The device whose number has been opened again closes the descriptor of the other one. -/
theorem careless_open {a : Act} (steps : Steps s a t) (careless : ¬ Careful s a) :
    ∃ b u, t.step b = some u ∧ ¬ Exclusive u := by
  cases steps with
  | @openFd d x ok found ready =>
    cases ok with
    | false => exact absurd trivial careless
    | true =>
      simp only [Careful] at careless
      push Not at careless
      obtain ⟨y, mem, closing, fd⟩ := careless
      obtain ⟨e, he⟩ := List.mem_iff_getElem?.mp mem
      have other : d ≠ e := by
        rintro rfl
        obtain rfl : x = y := by simpa [found] using he
        cases ready.symm.trans closing
      have still : (FILEDevice.openFd d x true s).devices[e]? = some y :=
        (List.getElem?_set_ne other).trans he
      have there : (FILEDevice.openFd d x true s).table.lookup s.table.lowest = some (.opened s.opened.length) :=
        (Table.lookup_allocate ..).trans (if_pos rfl)
      refine ⟨.closeFd e, FILEDevice.closeFd e y (FILEDevice.openFd d x true s), ?_, ?_⟩
      · simp [Process.step, Process.atStage, still, closing]
      · rintro ⟨owned, _⟩
        rw [FILEDevice.closeFd, fd, sysClose_owned there] at owned
        have now : (e, Holder.opened s.opened.length) ∈ s.closed ++ [(e, Holder.opened s.opened.length)] := by simp
        obtain ⟨k, what, opener⟩ := owned _ now
        obtain rfl : s.opened.length = k := by simpa using what
        have own : (s.opened ++ [d])[s.opened.length]? = some e := opener
        exact other (by simpa using own)
  | construct => exact absurd trivial careless
  | assign => exact absurd trivial careless
  | closeFile => exact absurd trivial careless
  | closeFd => exact absurd trivial careless

/-- While no number is opened again between the two closes of a destructor, descriptors are closed
only by the device that has opened them, and each once; the first such open leads to a close of
the descriptor of another device. -/
theorem descriptors_closed_by_owner {taken : List Bool}
    (reach : Reaches Process.step Careful (started taken) s) :
    Exclusive s ∧ ∀ a t, s.step a = some t → ¬ Careful s a → ∃ b u, t.step b = some u ∧ ¬ Exclusive u := by
  have orderly : Orderly s :=
    reach.invariant (fun _ _ _ h careful hstep => h.step careful (step_steps hstep)) (orderly_started taken)
  exact ⟨orderly.exclusive, fun _ _ hstep => careless_open (step_steps hstep)⟩

/-- A device has loaded a file and is gone while another one has its file open. -/
def overlapping : List Act :=
  [.construct, .openFd 0 true, .assign 0 true, .construct, .openFd 1 true, .assign 1 true, .closeFile 0, .closeFd 0]

theorem descriptors_closed_by_owner_overlapping :
    ∃ s, Reaches Process.step Careful (started [true, true, true]) s ∧ s.closed = [(0, .opened 0)] ∧ Exclusive s := by
  obtain ⟨s, reach, closed⟩ := reaches_of_any_guarded Process.step Careful (started [true, true, true]) overlapping
    (fun s => s.closed = [(0, .opened 0)]) (by decide)
  exact ⟨s, reach, of_decide_eq_true closed, (descriptors_closed_by_owner reach).1⟩

/-- The second device gets the number that the first one closes again. -/
theorem second_close_hits_other_device :
    ∃ s, Reaches Process.step Free (started [true, true, true]) s ∧ s.opened = [0, 1] ∧
      s.closed = [(0, .opened 0), (0, .opened 1)] ∧ ¬ Exclusive s := by
  obtain ⟨s, reach, ends⟩ := reaches_of_any Process.step (started [true, true, true])
    [.construct, .openFd 0 true, .assign 0 true, .closeFile 0, .construct, .openFd 1 true, .assign 1 true, .closeFd 0]
    (fun s => s.opened = [0, 1] ∧ s.closed = [(0, .opened 0), (0, .opened 1)]) (by decide)
  obtain ⟨opened, closed⟩ := of_decide_eq_true ends
  refine ⟨s, reach, opened, closed, ?_⟩
  rintro ⟨owned, _⟩
  obtain ⟨k, what, opener⟩ := owned (0, .opened 1) (by simp [closed])
  obtain rfl : 1 = k := by simpa using what
  rw [opened] at opener
  cases opener

end FILEDevice

end AsyncIOManager
