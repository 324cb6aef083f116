import AsyncIOManager.BitswapOwner
import AsyncIOManager.EventLoop

namespace AsyncIOManager.FileManager

open Reactor

inductive Replica
  | loader | saver
deriving DecidableEq, Repr

/-- One atomic operation of a call that holds `bitswapMutex_`. A `setBitswap` of a
replica stores the bitswap and leaves the store of the DHT, a `clearBitswap` leaves
one when its exchange succeeds. -/
inductive Atomic
  | storeCacheDir (dir : Str)
  | setBitswap (r : Replica) (bitswap : Option Bitswap) (dht : Option IpfsDHT)
  | clearBitswap (r : Replica) (bitswap : Bitswap)
  | storeDht (r : Replica) (dht : Option IpfsDHT)
  | clearCacheDir
deriving DecidableEq, Repr

/-- A load or a save between its two loads. -/
structure Reader where
  replica : Replica
  bitswap : Bitswap
deriving DecidableEq, Repr

/-- `writer` is what the holder of the mutex has left to do. `passed` lists the pairs
passed to `setBitswap`, `works` those that loads and saves went on with. -/
structure Shared where
  loader : External := {}
  saver : External := {}
  cacheDir : Str := []
  cleared : Bool := false
  writer : List Atomic := []
  reading : List Reader := []
  passed : List External := []
  works : List External := []
deriving DecidableEq, Repr

namespace Shared

def replica (s : Shared) : Replica → External
  | .loader => s.loader
  | .saver => s.saver

def update (r : Replica) (f : External → External) (s : Shared) : Shared :=
  match r with
  | .loader => { s with loader := f s.loader }
  | .saver => { s with saver := f s.saver }

theorem update_replica (r q : Replica) (f : External → External) (s : Shared) :
    (s.update r f).replica q = if q = r then f (s.replica q) else s.replica q := by
  cases r <;> cases q <;> rfl

@[simp] theorem update_writer (r : Replica) (f : External → External) (s : Shared) :
    (s.update r f).writer = s.writer := by cases r <;> rfl
@[simp] theorem update_reading (r : Replica) (f : External → External) (s : Shared) :
    (s.update r f).reading = s.reading := by cases r <;> rfl
@[simp] theorem update_passed (r : Replica) (f : External → External) (s : Shared) :
    (s.update r f).passed = s.passed := by cases r <;> rfl
@[simp] theorem update_works (r : Replica) (f : External → External) (s : Shared) :
    (s.update r f).works = s.works := by cases r <;> rfl

end Shared

/-- The operations of `setBitswap` in order. -/
def setProgram (cacheDirOf : Bitswap → Str) (bitswap : Option Bitswap) (dht : Option IpfsDHT) :
    List Atomic :=
  [.storeCacheDir (cacheDirFor cacheDirOf bitswap), .setBitswap .loader bitswap dht,
    .setBitswap .saver bitswap dht]

/-- The operations of `clearBitswap` in order. -/
def clearProgram (bitswap : Bitswap) : List Atomic :=
  [.clearBitswap .loader bitswap, .clearBitswap .saver bitswap, .clearCacheDir]

/-- `s` holds what is left of the program after this operation. -/
def Atomic.perform (s : Shared) : Atomic → Shared
  | .storeCacheDir dir => { s with cacheDir := dir }
  | .setBitswap r bitswap dht =>
    { s.update r (External.storeBitswap bitswap) with writer := .storeDht r dht :: s.writer }
  | .clearBitswap r bitswap =>
    if ((s.replica r).compareExchange bitswap).2 then
      { s.update r fun e => (e.compareExchange bitswap).1 with
        writer := .storeDht r none :: s.writer, cleared := true }
    else s
  | .storeDht r dht => s.update r (External.storeDht dht)
  | .clearCacheDir => if s.cleared then { s with cacheDir := [] } else s

/-- A step of a node or of a load or save. `parsed` tells whether a load could parse its
CID, without which it does not come to its second load. -/
inductive Act
  | setBitswap (bitswap : Option Bitswap) (dht : Option IpfsDHT)
  | clearBitswap (bitswap : Option Bitswap)
  | write
  | loadBitswap (r : Replica)
  | loadDht (k : Nat) (parsed : Bool)
deriving DecidableEq, Repr

/-- A load that finds no bitswap starts a host of its own, a save gives up. -/
def step (cacheDirOf : Bitswap → Str) (s : Shared) : Act → Option Shared
  | .setBitswap bitswap dht =>
    if s.writer = [] then
      some { s with
        writer := setProgram cacheDirOf bitswap dht, passed := s.passed ++ [⟨bitswap, dht⟩] }
    else none
  | .clearBitswap none => some s
  | .clearBitswap (some b) =>
    if s.writer = [] then some { s with writer := clearProgram b, cleared := false } else none
  | .write =>
    match s.writer with
    | [] => none
    | op :: rest => some (op.perform { s with writer := rest })
  | .loadBitswap r =>
    match (s.replica r).externalBitswap with
    | none => some s
    | some b => some { s with reading := s.reading ++ [⟨r, b⟩] }
  | .loadDht k parsed =>
    match takeAt s.reading k with
    | none => none
    | some (x, rest) =>
      if x.replica = .loader ∧ parsed = false then some { s with reading := rest }
      else some { s with
        reading := rest
        works := s.works ++ [⟨some x.bitswap, (s.replica x.replica).externalDht⟩] }

/-- The next operation of the mutex holder changes the DHT of `r`. -/
def Shared.changesDht (s : Shared) (r : Replica) : Bool :=
  match s.writer with
  | .storeDht q dht :: _ => q = r && (s.replica r).externalDht ≠ dht
  | _ => false

/-- No load or save takes its bitswap from a replica whose DHT is about to change, and
none is between its two loads when the DHT does change. -/
def NotStraddled (s : Shared) : Act → Prop
  | .loadBitswap r => s.changesDht r = true → (s.replica r).externalBitswap = none
  | .write => ∀ x ∈ s.reading, s.changesDht x.replica = false
  | _ => True

instance (s : Shared) (a : Act) : Decidable (NotStraddled s a) :=
  match a with
  | .loadBitswap _ => inferInstanceAs (Decidable (_ → _))
  | .write => inferInstanceAs (Decidable (∀ x ∈ s.reading, _))
  | .setBitswap _ _ => .isTrue trivial
  | .clearBitswap _ => .isTrue trivial
  | .loadDht _ _ => .isTrue trivial

section Serialised

/-- The members that the calls of `FileManager` write. -/
def Shared.forwarding (s : Shared) : Forwarding :=
  { ipfsLoader := some s.loader, ipfsSaver := some s.saver, cacheDir := s.cacheDir }

variable (cacheDirOf : Bitswap → Str)

/-- Without a load or save in between, the operations of `setBitswap` do what the call does. -/
theorem setProgram_forwarding {s : Shared} (free : s.writer = []) (bitswap : Option Bitswap)
    (dht : Option IpfsDHT) :
    ∃ t, exec (step cacheDirOf) s (.setBitswap bitswap dht :: List.replicate 5 .write) = some t ∧
      t.writer = [] ∧ t.forwarding = setBitswap cacheDirOf bitswap dht s.forwarding := by
  refine ⟨{ s with
    loader := ⟨bitswap, dht⟩, saver := ⟨bitswap, dht⟩, writer := []
    cacheDir := cacheDirFor cacheDirOf bitswap, passed := s.passed ++ [⟨bitswap, dht⟩] }, ?_, rfl, rfl⟩
  simp [exec, step, free, setProgram, Atomic.perform, Shared.update, External.storeBitswap,
    External.storeDht, List.replicate]

theorem writes_clearBitswap (r : Replica) (b : Bitswap) (s : Shared)
    {rest : List Atomic} (next : s.writer = .clearBitswap r b :: rest) :
    ∃ n, exec (step cacheDirOf) s (List.replicate n .write) =
      some { s.update r fun e => (e.clearBitswap b).1 with
        writer := rest, cleared := s.cleared || ((s.replica r).clearBitswap b).2 } := by
  by_cases owner : (s.replica r).externalBitswap = some b
  · refine ⟨2, ?_⟩
    cases r with
    | loader | saver =>
      simp only [Shared.replica] at owner
      simp [exec, step, next, Atomic.perform, Shared.update, Shared.replica, List.replicate,
        External.compareExchange, External.clearBitswap_eq, owner, External.storeBitswap, External.storeDht]
  · refine ⟨1, ?_⟩
    cases r with
    | loader | saver =>
      simp only [Shared.replica] at owner
      simp [exec, step, next, Atomic.perform, Shared.update, Shared.replica, List.replicate,
        External.compareExchange, External.clearBitswap_eq, owner]

theorem clearProgram_forwarding {s : Shared} (free : s.writer = []) (b : Bitswap) :
    ∃ n t, exec (step cacheDirOf) s (.clearBitswap (some b) :: List.replicate n .write) = some t ∧
      t.writer = [] ∧ t.forwarding = clearBitswap (some b) s.forwarding := by
  have called : step cacheDirOf s (.clearBitswap (some b)) =
      some { s with writer := clearProgram b, cleared := false } := by simp [step, free]
  obtain ⟨n, first⟩ := writes_clearBitswap cacheDirOf .loader b
    { s with writer := clearProgram b, cleared := false } rfl
  obtain ⟨m, second⟩ := writes_clearBitswap cacheDirOf .saver b
    { s with
      loader := (s.loader.clearBitswap b).1, writer := [.clearBitswap .saver b, .clearCacheDir]
      cleared := (s.loader.clearBitswap b).2 } rfl
  have run : exec (step cacheDirOf) s
      (.clearBitswap (some b) :: List.replicate (n + m + 1) .write) =
      some { s with
        loader := (s.loader.clearBitswap b).1, saver := (s.saver.clearBitswap b).1, writer := []
        cleared := (s.loader.clearBitswap b).2 || (s.saver.clearBitswap b).2
        cacheDir := if (s.loader.clearBitswap b).2 || (s.saver.clearBitswap b).2 then []
          else s.cacheDir } := by
    rw [List.replicate_add, List.replicate_add, ← List.cons_append, ← List.cons_append, exec_append,
      exec_append, exec, called]
    simp only [Option.bind_some]
    rw [first]
    simp only [Option.bind_some, Bool.false_or]
    refine (congrArg (fun o => Option.bind o _) second).trans ?_
    simp only [exec, step, List.replicate, Atomic.perform, Shared.update, Shared.replica, Option.bind_some]
    split
    next cleared => simp [cleared]
    next kept => simp [Bool.eq_false_iff.mpr kept]
  exact ⟨n + m + 1, _, run, rfl, rfl⟩

end Serialised

/-- What a replica holds once the store under way at it is done. -/
def Shared.settled (s : Shared) (r : Replica) : External :=
  match s.writer with
  | .storeDht q dht :: _ => if q = r then (s.replica r).storeDht dht else s.replica r
  | _ => s.replica r

/-- Everything that is held, half read or worked with was passed together. -/
structure Paired (s : Shared) : Prop where
  settled : ∀ r, (s.settled r).externalBitswap ≠ none → s.settled r ∈ s.passed
  reading : ∀ x ∈ s.reading, ⟨some x.bitswap, (s.replica x.replica).externalDht⟩ ∈ s.passed
  works : ∀ p ∈ s.works, p ∈ s.passed
  program : ∀ r bitswap dht, .setBitswap r bitswap dht ∈ s.writer → ⟨bitswap, dht⟩ ∈ s.passed
  stores : ∀ r dht, .storeDht r dht ∉ s.writer.tail

section Settled

variable {s : Shared}

theorem settled_of_no_store (none : ∀ r dht, .storeDht r dht ∉ s.writer) (r : Replica) :
    s.settled r = s.replica r := by
  unfold Shared.settled
  split
  next q dht rest next => exact absurd (by simp [next]) (none q dht)
  next => rfl

theorem settled_of_unchanged {r : Replica} (same : s.changesDht r = false) :
    s.settled r = s.replica r := by
  unfold Shared.settled
  split
  next q dht rest next =>
    split
    next own =>
      have equal : (s.replica r).externalDht = dht := by
        simpa [Shared.changesDht, next, own] using same
      rw [← equal]
      rfl
    next => rfl
  next => rfl

theorem settled_storeDht {q : Replica} {dht : Option IpfsDHT} {rest : List Atomic}
    (next : s.writer = .storeDht q dht :: rest) (r : Replica) :
    s.settled r = (s.update q (External.storeDht dht)).replica r := by
  rw [Shared.update_replica]
  simp only [Shared.settled, next]
  by_cases own : q = r
  · simp [own]
  · have other : r ≠ q := fun h => own h.symm
    simp [own, other]

end Settled

theorem Paired.no_store {s : Shared} (h : Paired s) {op : Atomic} {rest : List Atomic}
    (next : s.writer = op :: rest) (r : Replica) (dht : Option IpfsDHT) : .storeDht r dht ∉ rest := by
  have tail := h.stores r dht
  rwa [next] at tail

theorem Paired.head {s : Shared} (h : Paired s) {op : Atomic} {rest : List Atomic}
    (next : s.writer = op :: rest) (other : ∀ r dht, op ≠ .storeDht r dht) (r : Replica) :
    s.settled r = s.replica r := by
  apply settled_of_no_store
  intro q dht mem
  rw [next] at mem
  rcases List.mem_cons.mp mem with eq | mem
  · exact other q dht eq.symm
  · exact h.no_store next q dht mem

/-- A step that leaves the replicas, the readers and the works as they are. -/
theorem Paired.keep {s t : Shared} (h : Paired s) (replica : ∀ r, t.replica r = s.replica r)
    (settled : ∀ r, t.settled r = s.settled r) (reading : ∀ x ∈ t.reading, x ∈ s.reading)
    (works : t.works = s.works) (passed : ∀ p ∈ s.passed, p ∈ t.passed)
    (program : ∀ r bitswap dht, .setBitswap r bitswap dht ∈ t.writer → ⟨bitswap, dht⟩ ∈ t.passed)
    (stores : ∀ r dht, .storeDht r dht ∉ t.writer.tail) : Paired t := by
  refine ⟨?_, ?_, ?_, program, stores⟩
  · intro r held
    rw [settled] at held ⊢
    exact passed _ (h.settled r held)
  · intro x hx
    rw [replica]
    exact passed _ (h.reading x (reading x hx))
  · intro p hp
    rw [works] at hp
    exact passed p (h.works p hp)

theorem Paired.rest {s : Shared} (h : Paired s) {op : Atomic} {rest : List Atomic}
    (next : s.writer = op :: rest) (other : ∀ r dht, op ≠ .storeDht r dht) :
    Paired { s with writer := rest } := by
  have none := h.no_store next
  refine h.keep (fun r => by cases r <;> rfl) ?_ (fun _ hx => hx) rfl (fun _ hp => hp) ?_ ?_
  · intro r
    rw [h.head next other, settled_of_no_store none]
    cases r <;> rfl
  · intro r bitswap dht mem
    exact h.program r bitswap dht (by rw [next]; exact List.mem_cons_of_mem op mem)
  · intro r dht mem
    exact none r dht (List.mem_of_mem_tail mem)

/-- A step that changes one replica, whose pair it leaves empty or as it was passed. -/
theorem Paired.update {s t : Shared} (h : Paired s) {r : Replica} {f : External → External}
    (replica : ∀ q, t.replica q = (s.update r f).replica q)
    (kept : ∀ e, (f e).externalDht = e.externalDht)
    (others : ∀ q, q ≠ r → t.settled q = s.settled q)
    (own : (t.settled r).externalBitswap ≠ none → t.settled r ∈ s.passed)
    (reading : t.reading = s.reading) (works : t.works = s.works) (passed : t.passed = s.passed)
    (program : ∀ q bitswap dht, .setBitswap q bitswap dht ∈ t.writer → .setBitswap q bitswap dht ∈ s.writer)
    (stores : ∀ q dht, .storeDht q dht ∉ t.writer.tail) : Paired t := by
  refine ⟨?_, ?_, by rw [works, passed]; exact h.works, ?_, stores⟩
  · intro q held
    rw [passed]
    by_cases at_r : q = r
    · subst at_r
      exact own held
    · rw [others q at_r] at held ⊢
      exact h.settled q held
  · intro x hx
    rw [reading] at hx
    have dht : (t.replica x.replica).externalDht = (s.replica x.replica).externalDht := by
      rw [replica, Shared.update_replica]
      split
      next => exact kept _
      next => rfl
    rw [dht, passed]
    exact h.reading x hx
  · intro q bitswap dht mem
    rw [passed]
    exact h.program q bitswap dht (program q bitswap dht mem)

theorem Paired.setBitswap {s : Shared} (h : Paired s) {r : Replica} {bitswap : Option Bitswap}
    {dht : Option IpfsDHT} {rest : List Atomic} (next : s.writer = .setBitswap r bitswap dht :: rest) :
    Paired (Atomic.perform { s with writer := rest } (.setBitswap r bitswap dht)) := by
  have passed : ⟨bitswap, dht⟩ ∈ s.passed := h.program r bitswap dht (by simp [next])
  refine h.update (r := r) (f := External.storeBitswap bitswap) ?_ (fun _ => rfl) ?_ ?_
    (by cases r <;> rfl) (by cases r <;> rfl) (by cases r <;> rfl) ?_ (h.no_store next)
  · intro q
    cases r <;> cases q <;> rfl
  · intro q other
    rw [h.head next (by simp), settled_storeDht rfl]
    cases r <;> cases q <;> first | rfl | exact absurd rfl other
  · intro _
    rw [settled_storeDht rfl]
    cases r with
    | loader | saver => exact passed
  · intro q b d mem
    have tail : .setBitswap q b d ∈ rest := by simpa [Atomic.perform] using mem
    rw [next]
    exact List.mem_cons_of_mem _ tail

section Exchange

variable {s : Shared} {r : Replica} {b : Bitswap}

theorem perform_clearBitswap_owner (owner : (s.replica r).externalBitswap = some b) :
    Atomic.perform s (.clearBitswap r b) = { s.update r (External.storeBitswap none) with
      writer := .storeDht r none :: s.writer, cleared := true } := by
  cases r with
  | loader | saver =>
    simp only [Shared.replica] at owner
    simp [Atomic.perform, Shared.update, Shared.replica, External.compareExchange, owner]

theorem perform_clearBitswap_other (other : (s.replica r).externalBitswap ≠ some b) :
    Atomic.perform s (.clearBitswap r b) = s := by
  simp [Atomic.perform, External.compareExchange, other]

end Exchange

theorem Paired.clearBitswap {s : Shared} (h : Paired s) {r : Replica} {b : Bitswap}
    {rest : List Atomic} (next : s.writer = .clearBitswap r b :: rest) :
    Paired (Atomic.perform { s with writer := rest } (.clearBitswap r b)) := by
  have same : ({ s with writer := rest } : Shared).replica r = s.replica r := by cases r <;> rfl
  by_cases owner : (s.replica r).externalBitswap = some b
  · rw [perform_clearBitswap_owner (by rw [same]; exact owner)]
    refine h.update (r := r) (f := External.storeBitswap none) ?_ (fun _ => rfl) ?_ ?_
      (by cases r <;> rfl) (by cases r <;> rfl) (by cases r <;> rfl) ?_ (h.no_store next)
    · intro q
      cases r <;> cases q <;> rfl
    · intro q other
      rw [h.head next (by simp), settled_storeDht rfl]
      cases r <;> cases q <;> first | rfl | exact absurd rfl other
    · intro held
      rw [settled_storeDht rfl] at held
      cases r with
      | loader | saver => exact absurd rfl held
    · intro q c d mem
      have tail : .setBitswap q c d ∈ rest := by simpa using mem
      rw [next]
      exact List.mem_cons_of_mem _ tail
  · rw [perform_clearBitswap_other (by rw [same]; exact owner)]
    exact h.rest next (by simp)

theorem Paired.storeDht {s : Shared} (h : Paired s) {r : Replica} {dht : Option IpfsDHT}
    {rest : List Atomic} (next : s.writer = .storeDht r dht :: rest)
    (idle : ∀ x ∈ s.reading, s.changesDht x.replica = false) :
    Paired (Atomic.perform { s with writer := rest } (.storeDht r dht)) := by
  have none := h.no_store next
  have replica : ∀ q, (Atomic.perform { s with writer := rest } (.storeDht r dht)).replica q =
      s.settled q := by
    intro q
    rw [settled_storeDht next]
    cases r <;> cases q <;> rfl
  have settled : ∀ q, (Atomic.perform { s with writer := rest } (.storeDht r dht)).settled q =
      s.settled q := by
    intro q
    rw [settled_of_no_store (by simpa [Atomic.perform] using none), replica]
  refine ⟨?_, ?_, by simpa [Atomic.perform] using h.works, ?_, ?_⟩
  · intro q held
    rw [settled] at held ⊢
    simpa [Atomic.perform] using h.settled q held
  · intro x hx
    have mem : x ∈ s.reading := by simpa [Atomic.perform] using hx
    rw [replica, settled_of_unchanged (idle x mem)]
    simpa [Atomic.perform] using h.reading x mem
  · intro q b d mem
    have tail : .setBitswap q b d ∈ rest := by simpa [Atomic.perform] using mem
    have passed := h.program q b d (by rw [next]; exact List.mem_cons_of_mem _ tail)
    simpa [Atomic.perform] using passed
  · intro q d mem
    have tail : .storeDht q d ∈ rest := List.mem_of_mem_tail (by simpa [Atomic.perform] using mem)
    exact none q d tail

theorem Paired.storeCacheDir {s : Shared} (h : Paired s) (dir : Str) :
    Paired { s with cacheDir := dir } := by
  refine h.keep ?_ ?_ (fun _ hx => hx) rfl (fun _ hp => hp) h.program h.stores
  · intro r
    cases r <;> rfl
  · intro r
    cases r <;> rfl

/-- The next operation of a call keeps the pairs. -/
theorem Paired.write {s : Shared} (h : Paired s) {op : Atomic} {rest : List Atomic}
    (next : s.writer = op :: rest) (idle : ∀ x ∈ s.reading, s.changesDht x.replica = false) :
    Paired (op.perform { s with writer := rest }) := by
  cases op with
  | storeCacheDir dir => exact (h.rest next (by simp)).storeCacheDir dir
  | setBitswap r bitswap dht => exact h.setBitswap next
  | clearBitswap r b => exact h.clearBitswap next
  | storeDht r dht => exact h.storeDht next idle
  | clearCacheDir =>
    simp only [Atomic.perform]
    split
    next => exact (h.rest next (by simp)).storeCacheDir []
    next => exact h.rest next (by simp)

/-- A call takes the mutex and leaves the replicas as they are. -/
theorem Paired.lock {s t : Shared} (h : Paired s) (free : s.writer = [])
    (replica : ∀ r, t.replica r = s.replica r) (reading : t.reading = s.reading)
    (works : t.works = s.works) (passed : ∀ p ∈ s.passed, p ∈ t.passed)
    (program : ∀ r bitswap dht, .setBitswap r bitswap dht ∈ t.writer → ⟨bitswap, dht⟩ ∈ t.passed)
    (stores : ∀ r dht, .storeDht r dht ∉ t.writer) : Paired t := by
  refine h.keep replica ?_ (fun x hx => by rwa [reading] at hx) works passed program ?_
  · intro r
    rw [settled_of_no_store stores, settled_of_no_store (by simp [free]), replica]
  · intro r dht mem
    exact stores r dht (List.mem_of_mem_tail mem)

theorem Paired.loadBitswap {s : Shared} (h : Paired s) {r : Replica} {b : Bitswap}
    (held : (s.replica r).externalBitswap = some b) (unchanged : s.changesDht r = false) :
    Paired { s with reading := s.reading ++ [⟨r, b⟩] } := by
  have pair : ⟨some b, (s.replica r).externalDht⟩ ∈ s.passed := by
    have settled := h.settled r
    rw [settled_of_unchanged unchanged] at settled
    rw [← held]
    exact settled (by simp [held])
  refine ⟨?_, ?_, h.works, h.program, h.stores⟩
  · intro q
    have settled := h.settled q
    cases q with
    | loader | saver => exact settled
  · intro x hx
    rcases List.mem_append.mp hx with hx | hx
    · have known := h.reading x hx
      cases hr : x.replica with
      | loader | saver =>
        rw [hr] at known
        exact known
    · obtain rfl := List.mem_singleton.mp hx
      cases r with
      | loader | saver => exact pair

theorem Paired.loadDht {s : Shared} (h : Paired s) {k : Nat} {x : Reader} {rest : List Reader}
    (taken : takeAt s.reading k = some (x, rest)) :
    Paired { s with
      reading := rest, works := s.works ++ [⟨some x.bitswap, (s.replica x.replica).externalDht⟩] } := by
  have pair := h.reading x (takeAt_mem taken)
  refine ⟨?_, ?_, ?_, h.program, h.stores⟩
  · intro q
    have settled := h.settled q
    cases q with
    | loader | saver => exact settled
  · intro y hy
    have known := h.reading y (takeAt_rest_mem taken hy)
    cases hr : y.replica with
    | loader | saver =>
      rw [hr] at known
      exact known
  · intro p hp
    rcases List.mem_append.mp hp with hp | hp
    · exact h.works p hp
    · obtain rfl := List.mem_singleton.mp hp
      exact pair

theorem Paired.step {cacheDirOf : Bitswap → Str} {s t : Shared} {a : Act} (h : Paired s)
    (ok : NotStraddled s a) (hs : step cacheDirOf s a = some t) : Paired t := by
  cases a with
  | setBitswap bitswap dht =>
    simp only [FileManager.step, Option.ite_none_right_eq_some] at hs
    obtain ⟨free, hs⟩ := hs
    obtain rfl := Option.some.inj hs
    refine h.lock free (fun r => by cases r <;> rfl) rfl rfl ?_ ?_ ?_
    · intro p hp
      exact List.mem_append_left _ hp
    · intro r b d mem
      have same : b = bitswap ∧ d = dht := by
        simp only [setProgram, List.mem_cons, Atomic.setBitswap.injEq, reduceCtorEq, false_or,
          List.not_mem_nil, or_false] at mem
        rcases mem with ⟨_, hb, hd⟩ | ⟨_, hb, hd⟩
        · exact ⟨hb, hd⟩
        · exact ⟨hb, hd⟩
      rw [same.1, same.2]
      simp
    · intro r d
      simp [setProgram]
  | clearBitswap bitswap =>
    cases bitswap with
    | none =>
      obtain rfl := Option.some.inj hs
      exact h
    | some b =>
      simp only [FileManager.step, Option.ite_none_right_eq_some] at hs
      obtain ⟨free, hs⟩ := hs
      obtain rfl := Option.some.inj hs
      refine h.lock free (fun r => by cases r <;> rfl) rfl rfl (fun _ hp => hp) ?_ ?_
      · intro r c d
        simp [clearProgram]
      · intro r d
        simp [clearProgram]
  | write =>
    simp only [FileManager.step] at hs
    split at hs
    next => simp at hs
    next op rest next =>
      obtain rfl := Option.some.inj hs
      exact h.write next ok
  | loadBitswap r =>
    simp only [FileManager.step] at hs
    split at hs
    next =>
      obtain rfl := Option.some.inj hs
      exact h
    next b held =>
      obtain rfl := Option.some.inj hs
      have unchanged : s.changesDht r = false := by
        by_contra changes
        have none := ok (by simpa using changes)
        rw [held] at none
        simp at none
      exact h.loadBitswap held unchanged
  | loadDht k parsed =>
    simp only [FileManager.step] at hs
    split at hs
    next => simp at hs
    next x rest taken =>
      split at hs
      next =>
        obtain rfl := Option.some.inj hs
        have kept := h.loadDht taken
        refine ⟨kept.settled, kept.reading, h.works, h.program, h.stores⟩
      next =>
        obtain rfl := Option.some.inj hs
        exact h.loadDht taken

theorem paired_created : Paired {} := by
  refine ⟨?_, by simp, by simp, by simp, by simp⟩
  intro r held
  cases r with
  | loader | saver => exact absurd rfl held

/-- When no load or save straddles a change of the DHT, each works with a bitswap and
a DHT that one `setBitswap` was passed. -/
theorem pairs_not_torn (cacheDirOf : Bitswap → Str) {s : Shared}
    (h : Reaches (step cacheDirOf) NotStraddled {} s) : ∀ p ∈ s.works, p ∈ s.passed := by
  have paired : Paired s := h.invariant (fun _ _ _ paired ok hs => paired.step ok hs) paired_created
  exact paired.works

/-- A node has replaced another one between two loads. -/
def replaced : Shared where
  loader := ⟨some 2, some 20⟩
  saver := ⟨some 2, some 20⟩
  passed := [⟨some 1, some 10⟩, ⟨some 2, some 20⟩]
  works := [⟨some 1, some 10⟩, ⟨some 2, some 20⟩]

theorem reaches_replaced : Reaches (step fun _ => []) NotStraddled {} replaced :=
  reaches_of_guarded (show exec (guarded (step fun _ => []) NotStraddled) {}
    [.setBitswap (some 1) (some 10), .write, .write, .write, .loadBitswap .loader, .write, .write,
      .loadDht 0 true, .setBitswap (some 2) (some 20), .write, .write, .write, .write,
      .loadBitswap .loader, .write, .loadDht 0 true] = some replaced by decide)

theorem pairs_not_torn_replaced :
    ⟨some 1, some 10⟩ ∈ replaced.passed ∧ ⟨some 2, some 20⟩ ∈ replaced.passed := by
  have paired := pairs_not_torn (fun _ => []) reaches_replaced
  exact ⟨paired _ (by simp [replaced]), paired _ (by simp [replaced])⟩

/-- A load reads the bitswap of one node and the DHT of the next. -/
def mixed : Shared where
  loader := ⟨some 2, some 20⟩
  saver := ⟨some 2, some 20⟩
  passed := [⟨some 1, some 10⟩, ⟨some 2, some 20⟩]
  works := [⟨some 1, some 20⟩]

theorem load_mixes_two_nodes :
    Reaches (step fun _ => []) Free {} mixed ∧ ¬ ∀ p ∈ mixed.works, p ∈ mixed.passed := by
  refine ⟨?_, by decide⟩
  exact reaches_of_exec (show exec (step fun _ => []) {}
    [.setBitswap (some 1) (some 10), .write, .write, .write, .write, .write, .loadBitswap .loader,
      .setBitswap (some 2) (some 20), .write, .write, .write, .write, .write, .loadDht 0 true] =
      some mixed by decide)

end AsyncIOManager.FileManager
