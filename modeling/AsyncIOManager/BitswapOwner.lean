import AsyncIOManager.Results

namespace AsyncIOManager

/-- Identity of the `Bitswap` behind a shared pointer. -/
abbrev Bitswap := Nat

/-- Identity of the `IpfsDHT` behind a shared pointer. -/
abbrev IpfsDHT := Nat

/-- The members of a loader or a saver that `setBitswap` sets. -/
structure External where
  externalBitswap : Option Bitswap := none
  externalDht : Option IpfsDHT := none
deriving DecidableEq, Repr

namespace External

def storeBitswap (bitswap : Option Bitswap) (e : External) : External :=
  { e with externalBitswap := bitswap }

def storeDht (dht : Option IpfsDHT) (e : External) : External :=
  { e with externalDht := dht }

/-- `atomic_compare_exchange_strong` from `bitswap` to a null pointer. -/
def compareExchange (bitswap : Bitswap) (e : External) : External × Bool :=
  if e.externalBitswap = some bitswap then (e.storeBitswap none, true) else (e, false)

def setBitswap (bitswap : Option Bitswap) (dht : Option IpfsDHT) (e : External) : External :=
  (e.storeBitswap bitswap).storeDht dht

def clearBitswap (bitswap : Bitswap) (e : External) : External × Bool :=
  let (e, exchanged) := e.compareExchange bitswap
  if exchanged then (e.storeDht none, true) else (e, false)

@[simp] theorem setBitswap_eq (bitswap : Option Bitswap) (dht : Option IpfsDHT) (e : External) :
    e.setBitswap bitswap dht = ⟨bitswap, dht⟩ := rfl

theorem clearBitswap_eq (bitswap : Bitswap) (e : External) :
    e.clearBitswap bitswap = if e.externalBitswap = some bitswap then ({}, true) else (e, false) := by
  unfold clearBitswap compareExchange
  by_cases owner : e.externalBitswap = some bitswap
  · simp [owner, storeBitswap, storeDht]
  · simp [owner]

end External

namespace IPFSLoader

def setBitswap (bitswap : Option Bitswap) (dht : Option IpfsDHT) (e : External) : External :=
  e.setBitswap bitswap dht

def clearBitswap (bitswap : Bitswap) (e : External) : External × Bool := e.clearBitswap bitswap

end IPFSLoader

namespace IPFSSaver

def setBitswap (bitswap : Option Bitswap) (dht : Option IpfsDHT) (e : External) : External :=
  e.setBitswap bitswap dht

def clearBitswap (bitswap : Bitswap) (e : External) : External × Bool := e.clearBitswap bitswap

end IPFSSaver

namespace FileManager

/-- What `setBitswap` and `clearBitswap` write: the members of the loader and the saver
registered under "ipfs", when there is one, and `cacheDir_`. -/
structure Forwarding where
  ipfsLoader : Option External := none
  ipfsSaver : Option External := none
  cacheDir : Str := []
deriving DecidableEq, Repr

/-- `bitswap ? bitswap->getCacheDir() : ""`, `cacheDirOf` being what an instance answers. -/
def cacheDirFor (cacheDirOf : Bitswap → Str) (bitswap : Option Bitswap) : Str :=
  match bitswap with
  | some b => cacheDirOf b
  | none => []

def setBitswap (cacheDirOf : Bitswap → Str) (bitswap : Option Bitswap) (dht : Option IpfsDHT)
    (m : Forwarding) : Forwarding :=
  let m := { m with cacheDir := cacheDirFor cacheDirOf bitswap }
  let m := { m with ipfsLoader := m.ipfsLoader.map (IPFSLoader.setBitswap bitswap dht) }
  { m with ipfsSaver := m.ipfsSaver.map (IPFSSaver.setBitswap bitswap dht) }

/-- Nothing is cleared where nothing is registered. -/
def clearReplica (clear : External → External × Bool) (replica : Option External) :
    Option External × Bool :=
  match replica with
  | some e => (some (clear e).1, (clear e).2)
  | none => (none, false)

def clearBitswap (bitswap : Option Bitswap) (m : Forwarding) : Forwarding :=
  match bitswap with
  | none => m
  | some b =>
    let (loader, clearedLoader) := clearReplica (IPFSLoader.clearBitswap b) m.ipfsLoader
    let (saver, clearedSaver) := clearReplica (IPFSSaver.clearBitswap b) m.ipfsSaver
    let cleared := clearedLoader || clearedSaver
    { ipfsLoader := loader
      ipfsSaver := saver
      cacheDir := if cleared then [] else m.cacheDir }

def getCacheDir (m : Forwarding) : Str := m.cacheDir

/-- A call of a node. -/
inductive BitswapCall
  | setBitswap (bitswap : Option Bitswap) (dht : Option IpfsDHT)
  | clearBitswap (bitswap : Option Bitswap)
deriving DecidableEq, Repr

def BitswapCall.perform (cacheDirOf : Bitswap → Str) (m : Forwarding) : BitswapCall → Forwarding
  | .setBitswap bitswap dht => FileManager.setBitswap cacheDirOf bitswap dht m
  | .clearBitswap bitswap => FileManager.clearBitswap bitswap m

/-- Loader and saver are registered and nothing has been set. -/
def registered : Forwarding := { ipfsLoader := some {}, ipfsSaver := some {} }

def performCalls (cacheDirOf : Bitswap → Str) (calls : List BitswapCall) : Forwarding :=
  calls.foldl (BitswapCall.perform cacheDirOf) registered

/-- The pair of the last `setBitswap` in a history read backwards, unless `cleared`,
the instances that later calls of `clearBitswap` named, has its instance. -/
def lastSet (cleared : List Bitswap) : List BitswapCall → External
  | [] => {}
  | .setBitswap bitswap dht :: _ =>
    if bitswap ∈ cleared.map some then {} else ⟨bitswap, dht⟩
  | .clearBitswap bitswap :: older => lastSet (bitswap.toList ++ cleared) older

/-- The one register that the replicas are to agree with. -/
def register (calls : List BitswapCall) : External := lastSet [] calls.reverse

/-- Loader, saver and manager hold what the register holds. -/
structure Agrees (cacheDirOf : Bitswap → Str) (r : External) (m : Forwarding) : Prop where
  loader : m.ipfsLoader = some r
  saver : m.ipfsSaver = some r
  cacheDir : m.cacheDir = cacheDirFor cacheDirOf r.externalBitswap

theorem Agrees.setBitswap {cacheDirOf : Bitswap → Str} {r : External} {m : Forwarding}
    (h : Agrees cacheDirOf r m) (bitswap : Option Bitswap) (dht : Option IpfsDHT) :
    Agrees cacheDirOf ⟨bitswap, dht⟩ (setBitswap cacheDirOf bitswap dht m) := by
  refine ⟨?_, ?_, rfl⟩
  · simp [FileManager.setBitswap, h.loader, IPFSLoader.setBitswap]
  · simp [FileManager.setBitswap, h.saver, IPFSSaver.setBitswap]

theorem Agrees.clearBitswap_owner {cacheDirOf : Bitswap → Str} {r : External} {m : Forwarding}
    {b : Bitswap} (h : Agrees cacheDirOf r m) (owner : r.externalBitswap = some b) :
    Agrees cacheDirOf {} (clearBitswap (some b) m) := by
  have hl : clearReplica (IPFSLoader.clearBitswap b) m.ipfsLoader = (some {}, true) := by
    simp [clearReplica, h.loader, IPFSLoader.clearBitswap, External.clearBitswap_eq, owner]
  have hs : clearReplica (IPFSSaver.clearBitswap b) m.ipfsSaver = (some {}, true) := by
    simp [clearReplica, h.saver, IPFSSaver.clearBitswap, External.clearBitswap_eq, owner]
  refine ⟨?_, ?_, ?_⟩ <;> simp [FileManager.clearBitswap, hl, hs, cacheDirFor]

theorem Agrees.clearBitswap_other {cacheDirOf : Bitswap → Str} {r : External} {m : Forwarding}
    {bitswap : Option Bitswap} (h : Agrees cacheDirOf r m)
    (other : bitswap = none ∨ r.externalBitswap ≠ bitswap) : clearBitswap bitswap m = m := by
  cases bitswap with
  | none => rfl
  | some b =>
    have ne : r.externalBitswap ≠ some b := other.resolve_left (by simp)
    have hl : clearReplica (IPFSLoader.clearBitswap b) m.ipfsLoader = (m.ipfsLoader, false) := by
      simp [clearReplica, h.loader, IPFSLoader.clearBitswap, External.clearBitswap_eq, ne]
    have hs : clearReplica (IPFSSaver.clearBitswap b) m.ipfsSaver = (m.ipfsSaver, false) := by
      simp [clearReplica, h.saver, IPFSSaver.clearBitswap, External.clearBitswap_eq, ne]
    simp [FileManager.clearBitswap, hl, hs]

theorem lastSet_congr {cleared others : List Bitswap} (same : ∀ b, b ∈ cleared ↔ b ∈ others)
    (older : List BitswapCall) : lastSet cleared older = lastSet others older := by
  induction older generalizing cleared others with
  | nil => rfl
  | cons call older ih =>
    cases call with
    | setBitswap bitswap dht => simp only [lastSet, List.mem_map, same]
    | clearBitswap bitswap =>
      apply ih
      intro b
      simp only [List.mem_append, same b]

theorem lastSet_cleared (b : Bitswap) (cleared : List Bitswap) (older : List BitswapCall) :
    lastSet (b :: cleared) older =
      if (lastSet cleared older).externalBitswap = some b then {} else lastSet cleared older := by
  induction older generalizing cleared with
  | nil => simp [lastSet]
  | cons call older ih =>
    cases call with
    | setBitswap bitswap dht =>
      simp only [lastSet, List.map_cons, List.mem_cons]
      by_cases named : bitswap ∈ cleared.map some
      · simp [named]
      · simp only [named, or_false, if_false]
    | clearBitswap bitswap =>
      have swap : lastSet (bitswap.toList ++ b :: cleared) older =
          lastSet (b :: (bitswap.toList ++ cleared)) older := by
        apply lastSet_congr
        intro c
        simp only [List.mem_append, List.mem_cons]
        exact or_left_comm
      change lastSet (bitswap.toList ++ b :: cleared) older = _
      rw [swap, ih (bitswap.toList ++ cleared)]
      rfl

theorem register_setBitswap (calls : List BitswapCall) (bitswap : Option Bitswap)
    (dht : Option IpfsDHT) : register (calls ++ [.setBitswap bitswap dht]) = ⟨bitswap, dht⟩ := by
  simp [register, lastSet]

theorem register_clearBitswap (calls : List BitswapCall) (bitswap : Option Bitswap) :
    register (calls ++ [.clearBitswap bitswap]) =
      if bitswap ≠ none ∧ (register calls).externalBitswap = bitswap then {} else register calls := by
  cases bitswap with
  | none => simp [register, lastSet]
  | some b => simpa [register, lastSet] using lastSet_cleared b [] calls.reverse

theorem performCalls_agrees (cacheDirOf : Bitswap → Str) (calls : List BitswapCall) :
    Agrees cacheDirOf (register calls) (performCalls cacheDirOf calls) := by
  induction calls using List.reverseRecOn with
  | nil => exact ⟨rfl, rfl, rfl⟩
  | append_singleton calls call ih =>
    have last : performCalls cacheDirOf (calls ++ [call]) =
        call.perform cacheDirOf (performCalls cacheDirOf calls) := by
      simp [performCalls]
    rw [last]
    cases call with
    | setBitswap bitswap dht =>
      rw [register_setBitswap]
      exact ih.setBitswap bitswap dht
    | clearBitswap bitswap =>
      rw [register_clearBitswap]
      split
      next h =>
        obtain ⟨named, owner⟩ := h
        obtain ⟨b, rfl⟩ := Option.ne_none_iff_exists'.mp named
        exact ih.clearBitswap_owner owner
      next h =>
        have other : bitswap = none ∨ (register calls).externalBitswap ≠ bitswap := by
          by_cases named : bitswap = none
          · exact .inl named
          · exact .inr fun owner => h ⟨named, owner⟩
        change Agrees cacheDirOf _ (clearBitswap bitswap (performCalls cacheDirOf calls))
        rw [ih.clearBitswap_other other]
        exact ih

/-- After any history of calls the loader, the saver and the cache directory are those
of the register, and a `clearBitswap` that does not name its instance changes nothing. -/
theorem bitswap_has_one_owner (cacheDirOf : Bitswap → Str) (calls : List BitswapCall) :
    let m := performCalls cacheDirOf calls
    m.ipfsLoader = some (register calls) ∧ m.ipfsSaver = some (register calls) ∧
      getCacheDir m = cacheDirFor cacheDirOf (register calls).externalBitswap ∧
      ∀ bitswap, bitswap = none ∨ (register calls).externalBitswap ≠ bitswap →
        clearBitswap bitswap m = m := by
  have agrees := performCalls_agrees cacheDirOf calls
  exact ⟨agrees.loader, agrees.saver, agrees.cacheDir, fun _ other => agrees.clearBitswap_other other⟩

end FileManager

end AsyncIOManager
