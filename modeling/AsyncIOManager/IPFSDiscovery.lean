import AsyncIOManager.IPFSCommon
import AsyncIOManager.Runs

namespace AsyncIOManager

open Reactor

namespace IPFSDevice

variable {lib : Libp2p} {s t : Serving} {i k : Nat}

/-- A provider query, a wait that will search again, or a content request. -/
def live (i : Nat) (x : Entry Handler Ec) : Bool :=
  match x.handler with
  | .findProviders j _ => j = i
  | .retry j _ => j = i && x.outcome ≠ some .aborted
  | .requestContent j _ _ _ => j = i
  | .handleRead _ _ => false

def posted (i : Nat) (x : Entry Handler Ec) : Bool :=
  match x.handler with
  | .handleRead j _ => j = i
  | _ => false

/-- How often the callback of a load has been invoked. -/
def delivered (i : Nat) (d : Device) : Nat :=
  match d.loads[i]? with
  | some load => load.delivered.length
  | none => 1

/-- A load goes on with one continuation, or its callback is delivered or posted once. -/
def Served (i : Nat) (s : Serving) : Prop :=
  (s.pool.countP (live i) = 1 ∧ s.pool.countP (posted i) + delivered i s.state = 0) ∨
  (s.pool.countP (live i) = 0 ∧ s.pool.countP (posted i) + delivered i s.state = 1)

def owes (i : Nat) (x : Entry Handler Ec) : Bool := live i x || posted i x

section Owes

variable (j i : Nat) (o : Option Ec)

@[simp] theorem owes_findProviders (q : Request) : owes j ⟨.findProviders i q, o⟩ = decide (i = j) := by
  simp [owes, live, posted]

@[simp] theorem owes_retry (q : Request) :
    owes j ⟨.retry i q, o⟩ = (decide (i = j) && decide (o ≠ some .aborted)) := by
  simp [owes, live, posted]

@[simp] theorem owes_requestContent (filename : Str) (parse save : Bool) :
    owes j ⟨.requestContent i filename parse save, o⟩ = decide (i = j) := by
  simp [owes, live, posted]

@[simp] theorem owes_handleRead (c : ReadCall) : owes j ⟨.handleRead i c, o⟩ = decide (i = j) := by
  simp [owes, live, posted]

end Owes

theorem countP_owes (i : Nat) (pool : List (Entry Handler Ec)) :
    pool.countP (owes i) = pool.countP (live i) + pool.countP (posted i) := by
  induction pool with
  | nil => rfl
  | cons x xs ih =>
    have apart : live i x = false ∨ posted i x = false := by
      obtain ⟨h, o⟩ := x
      cases h <;> simp [live, posted]
    have own : owes i x = (live i x || posted i x) := rfl
    simp only [List.countP_cons, ih]
    rw [own]
    rcases apart with h | h
    · rw [h, Bool.false_or, if_neg Bool.false_ne_true]
      omega
    · rw [h, Bool.or_false, if_neg Bool.false_ne_true]
      omega

/-- A load that has not come yet counts as settled. -/
theorem served_iff_balance (i : Nat) (s : Serving) : Served i s ↔ s.balance (owes i) (delivered i) = 1 := by
  unfold Served Loop.balance
  rw [countP_owes]
  omega

/-- Whether the first library call for a load returns a value. -/
def accepts (lib : Libp2p) (dht : Bool) (cid : CID) : Bool :=
  if dht then lib.fromHash cid else lib.toString cid

/-- The step takes nobody's wait from the timer, and no `.value()` in it throws. -/
def Spares (lib : Libp2p) (s : Serving) (l : Label Ec Turn (Request × Turn)) : Prop :=
  match l with
  | .finish _ _ => True
  | .run k _ =>
    match s.pool[k]? with
    | some ⟨.findProviders _ _, some (.providers (some []))⟩ => ∀ j q, ⟨.retry j q, none⟩ ∉ s.pool
    | some ⟨.findProviders _ q, some (.providers (some (_ :: _)))⟩ => lib.toString q.cid = true
    | some ⟨.retry _ q, some .expired⟩ => accepts lib s.state.dht q.cid = true
    | _ => True
  | .call (q, _) => accepts lib s.state.dht q.cid = true

/-- A handler hands its load on to one entry of the pool. -/
def HandsOn (i : Nat) (s t : Serving) : Prop :=
  t.state.loads = s.state.loads ∧ ∃ x, (∀ j, owes j x = decide (i = j)) ∧ t.pool = s.pool ++ [x]

/-- A handler leaves its load with nothing. -/
def LetsGo (s t : Serving) : Prop := t.state.loads = s.state.loads ∧ t.pool = s.pool

theorem delivered_congr {d e : Device} (same : d.loads = e.loads) (i : Nat) :
    delivered i d = delivered i e := by
  unfold delivered
  rw [same]

theorem HandsOn.balance (h : HandsOn i s t) (j : Nat) :
    t.balance (owes j) (delivered j) = s.balance (owes j) (delivered j) + if i = j then 1 else 0 := by
  obtain ⟨loads, x, own, pool⟩ := h
  simp only [Loop.balance, pool, List.countP_append, List.countP_singleton, own, decide_eq_true_eq,
    delivered_congr loads]
  omega

theorem LetsGo.balance (h : LetsGo s t) (j : Nat) :
    t.balance (owes j) (delivered j) = s.balance (owes j) (delivered j) := by
  rw [Loop.balance, h.2, delivered_congr h.1, Loop.balance]

theorem handsOn_start {h : Handler} (own : ∀ j, owes j ⟨h, none⟩ = decide (i = j)) (s : Serving) :
    HandsOn i s (s.start h) :=
  ⟨rfl, _, own, rfl⟩

theorem handsOn_handleRead (i : Nat) (c : ReadCall) (s : Serving) :
    HandsOn i s (s.post (.handleRead i c) .posted) :=
  ⟨rfl, _, fun j => by simp, rfl⟩

theorem requestBlockMain_handsOn {q : Request} (ok : lib.toString q.cid = true) (s : Serving) :
    HandsOn i s (requestBlockMain lib i q s) := by
  rw [requestBlockMain, value, if_pos ok]
  exact handsOn_start (fun j => by simp) s

theorem requestBlockMain_letsGo {q : Request} (throws : ¬ lib.toString q.cid = true) (s : Serving) :
    LetsGo s (requestBlockMain lib i q s) := by
  rw [requestBlockMain, value, if_neg throws]
  exact ⟨rfl, rfl⟩

theorem startFindingPeers_handsOn {q : Request} (ok : accepts lib s.state.dht q.cid = true) (turn : Turn) :
    HandsOn i s (startFindingPeers lib i q turn s) := by
  unfold accepts at ok
  unfold startFindingPeers
  split at ok
  next dht =>
    rw [if_pos dht, value, if_pos ok]
    split
    · exact handsOn_start (fun j => by simp) s
    · exact handsOn_handleRead i _ s
  next dht =>
    rw [if_neg dht]
    exact requestBlockMain_handsOn ok s

theorem startFindingPeers_letsGo {q : Request} (throws : ¬ accepts lib s.state.dht q.cid = true)
    (turn : Turn) : LetsGo s (startFindingPeers lib i q turn s) := by
  unfold accepts at throws
  unfold startFindingPeers
  split at throws
  next dht =>
    rw [if_pos dht, value, if_neg throws]
    exact ⟨rfl, rfl⟩
  next dht =>
    rw [if_neg dht]
    exact requestBlockMain_letsGo throws s

theorem addAddresses_handsOn {q : Request} (ok : lib.toString q.cid = true) (addresses : List Multiaddress)
    (s : Serving) : HandsOn i s (addAddresses lib q.cid addresses (requestBlockMain lib i q) s) := by
  rw [addAddresses, value, if_pos ok]
  exact requestBlockMain_handsOn ok _

theorem addAddresses_letsGo {q : Request} (throws : ¬ lib.toString q.cid = true)
    (addresses : List Multiaddress) (s : Serving) : LetsGo s (addAddresses lib q.cid addresses (requestBlockMain lib i q) s) := by
  rw [addAddresses, value, if_neg throws]
  exact ⟨rfl, rfl⟩

theorem abort_idle {p : Handler → Bool} {e : Ec} {x : Entry Handler Ec}
    (idle : p x.handler = true → x.outcome ≠ none) : x.abort p e = x := by
  unfold Entry.abort
  split
  next armed => exact absurd (Option.isNone_iff_eq_none.mp armed.2) (idle armed.1)
  next => rfl

/-- The timer is free for a wait when none is armed. -/
theorem retry_handsOn {q : Request} (free : ∀ j q, ⟨.retry j q, none⟩ ∉ s.pool) :
    HandsOn i s (startFindingPeersWithRetry i q s) := by
  refine ⟨rfl, ⟨.retry i q, none⟩, fun j => by simp, ?_⟩
  have kept : s.pool.map (Entry.abort Handler.isRetry .aborted) = s.pool := by
    refine (List.map_congr_left fun x hx => ?_).trans (List.map_id _)
    apply abort_idle
    obtain ⟨h, o⟩ := x
    cases h with
    | retry j q =>
      rintro _ rfl
      exact free j q hx
    | findProviders j q => simp [Handler.isRetry]
    | requestContent j filename parse save => simp [Handler.isRetry]
    | handleRead j c => simp [Handler.isRetry]
  rw [startFindingPeersWithRetry, Loop.start_pool, Loop.cancel_pool, kept]

theorem owes_abort_le (j : Nat) (x : Entry Handler Ec)
    (owed : owes j (x.abort Handler.isRetry .aborted) = true) : owes j x = true := by
  obtain ⟨h, o⟩ := x
  cases h <;> cases o <;> simp_all [Entry.abort, Handler.isRetry]

/-- A load whose wait is aborted has one entry less. -/
theorem countP_abort_lt {pool : List (Entry Handler Ec)} {j : Nat} {q : Request}
    (armed : ⟨.retry j q, none⟩ ∈ pool) :
    (pool.map (Entry.abort Handler.isRetry .aborted)).countP (owes j) < pool.countP (owes j) := by
  obtain ⟨l, r, rfl⟩ := List.append_of_mem armed
  have le (xs : List (Entry Handler Ec)) :
      (xs.map (Entry.abort Handler.isRetry .aborted)).countP (owes j) ≤ xs.countP (owes j) := by
    rw [List.countP_map]
    exact List.countP_mono_left fun x _ => owes_abort_le j x
  have left := le l
  have right := le r
  have gone : owes j (Entry.abort Handler.isRetry .aborted ⟨.retry j q, none⟩) = false := by
    simp [Entry.abort, Handler.isRetry]
  have owed : owes j ⟨.retry j q, none⟩ = true := by simp
  rw [List.map_append, List.map_cons, List.countP_append, List.countP_append, List.countP_cons,
    List.countP_cons, gone, owed, if_neg Bool.false_ne_true, if_pos rfl]
  omega

def Balanced (s : Serving) : Prop := ∀ i, s.balance (owes i) (delivered i) = 1

theorem balanced_created (dht : Bool) : Balanced (created dht) := fun _ => rfl

/-- The callback of a load that has not been reported. -/
theorem handleRead_balance {c : ReadCall} (waiting : delivered i s.state = 0) (j : Nat) :
    (handleRead i c s).balance (owes j) (delivered j) =
      s.balance (owes j) (delivered j) + if i = j then 1 else 0 := by
  simp only [Loop.balance, handleRead, Loop.modify_pool, Loop.modify_state]
  unfold delivered at waiting ⊢
  split at waiting
  next load known =>
    by_cases same : i = j
    · subst same
      simp [known, waiting]
    · simp [same]
  next => cases waiting

theorem Balanced.take {x : Entry Handler Ec} {rest : List (Entry Handler Ec)} (hs : Balanced s)
    (hk : takeAt s.pool k = some (x, rest)) (j : Nat) :
    ({ s with pool := rest } : Serving).balance (owes j) (delivered j) + (if owes j x then 1 else 0) = 1 := by
  have before := hs j
  have count := takeAt_countP (owes j) hk
  simp only [Loop.balance] at before ⊢
  omega

/-- A handler whose step spares the others passes on or delivers what it owed. -/
theorem Balanced.run {h : Handler} {e : Ec} {turn : Turn} {rest : List (Entry Handler Ec)} (hs : Balanced s)
    (hk : takeAt s.pool k = some (⟨h, some e⟩, rest)) (spares : Spares lib s (.run k turn))
    (hr : h.run lib e turn { s with pool := rest } = some t) (j : Nat) :
    t.balance (owes j) (delivered j) =
      ({ s with pool := rest } : Serving).balance (owes j) (delivered j) +
        if owes j ⟨h, some e⟩ then 1 else 0 := by
  simp only [Spares, takeAt_getElem hk] at spares
  cases h with
  | findProviders i q =>
    cases e with
    | providers res =>
      obtain rfl := Option.some.inj hr
      simp only [owes_findProviders, decide_eq_true_eq]
      apply HandsOn.balance
      match res with
      | none => exact handsOn_handleRead i _ _
      | some [] => exact retry_handsOn fun j q armed => spares j q (takeAt_rest_mem hk armed)
      | some (p :: ps) => exact addAddresses_handsOn (q := { q with addressoffset := 0 }) spares _ _
    | _ => cases hr
  | retry i q =>
    cases e with
    | expired =>
      obtain rfl := Option.some.inj hr
      have own : owes j ⟨.retry i q, some .expired⟩ = decide (i = j) := by simp
      simp only [own, decide_eq_true_eq]
      exact (startFindingPeers_handsOn (s := { s with pool := rest }) spares turn).balance j
    | aborted =>
      obtain rfl := Option.some.inj hr
      simp [retryHandler]
    | _ => cases hr
  | requestContent i filename parse save =>
    cases e with
    | content res =>
      obtain rfl := Option.some.inj hr
      simp only [owes_requestContent, decide_eq_true_eq]
      apply HandsOn.balance
      cases res with
      | none => exact handsOn_handleRead i _ _
      | some content =>
        simp only [contentHandler, convertUnixFSContentToResult]
        split
        · exact handsOn_handleRead i _ _
        · exact handsOn_handleRead i _ _
    | _ => cases hr
  | handleRead i c =>
    cases e with
    | posted =>
      obtain rfl := Option.some.inj hr
      have waiting : delivered i s.state = 0 := by
        have whole := hs.take hk i
        rw [owes_handleRead, if_pos (decide_eq_true rfl)] at whole
        simp only [Loop.balance] at whole
        omega
      simp only [owes_handleRead, decide_eq_true_eq]
      exact handleRead_balance (s := { s with pool := rest }) waiting j
    | _ => cases hr

theorem delivered_new (d : Device) (q : Request) (j : Nat) :
    delivered j { d with loads := d.loads ++ [{ request := q }] } + (if d.loads.length = j then 1 else 0) =
      delivered j d := by
  unfold delivered
  rcases Nat.lt_trichotomy j d.loads.length with old | rfl | later
  · simp [List.getElem?_append_left old, Nat.ne_of_gt old]
  · simp
  · rw [List.getElem?_eq_none (by simp; omega), List.getElem?_eq_none (by omega), if_neg (by omega)]

/-- A load that comes is owed by one entry. -/
theorem Balanced.load {q : Request} (hs : Balanced s) (ok : accepts lib s.state.dht q.cid = true)
    (turn : Turn) : Balanced (load lib q turn s) := by
  intro j
  have before := hs j
  have new := delivered_new s.state q j
  rw [IPFSDevice.load, (startFindingPeers_handsOn (i := s.state.loads.length) ?_ turn).balance j]
  · simp only [Loop.balance, Loop.modify_pool, Loop.modify_state] at before ⊢
    omega
  · exact ok

theorem owes_finish (j : Nat) (h : Handler) (e : Ec) (finishes : h.completes e = true) :
    owes j ⟨h, some e⟩ = owes j ⟨h, none⟩ := by
  cases h with
  | retry i q =>
    cases e with
    | expired => simp
    | _ => cases finishes
  | _ => rfl

theorem Balanced.step {l : Label Ec Turn (Request × Turn)} (hs : Balanced s) (spares : Spares lib s l)
    (h : (machine lib).step s l = some t) : Balanced t := by
  cases l with
  | call a =>
    obtain rfl := Option.some.inj h
    exact hs.load spares a.2
  | finish k e =>
    intro j
    rw [← hs j]
    exact Machine.step_balance (owes_finish j) (by rintro _ _ _ _ _ ⟨⟩) (by rintro _ ⟨⟩) h
  | run k turn =>
    intro j
    rw [← hs j]
    refine Machine.step_balance (owes_finish j) ?_ (by rintro _ ⟨⟩) h
    rintro _ _ x e rest ⟨⟩ hk hr
    exact hs.run hk spares hr j

theorem known_of_undelivered {d : Device} (h : delivered i d = 0) : ∃ load, d.loads[i]? = some load := by
  unfold delivered at h
  split at h
  next load known => exact ⟨load, known⟩
  next => cases h

/-- A handler that lets its load go leaves it unserved. -/
theorem Balanced.letsGo {x : Entry Handler Ec} {rest : List (Entry Handler Ec)} (hs : Balanced s)
    (hk : takeAt s.pool k = some (x, rest)) (own : owes i x = true)
    (gone : LetsGo { s with pool := rest } t) : ∃ load, t.state.loads[i]? = some load ∧ ¬ Served i t := by
  have whole := hs.take hk i
  rw [own, if_pos rfl] at whole
  have undelivered : delivered i s.state = 0 := by
    simp only [Loop.balance] at whole
    omega
  obtain ⟨load, known⟩ := known_of_undelivered undelivered
  refine ⟨load, by rw [gone.1]; exact known, fun served => ?_⟩
  have now := (served_iff_balance i t).mp served
  rw [gone.balance i] at now
  omega

/-- A load whose wait is aborted is left unserved. -/
theorem Balanced.aborted {q p : Request} {e : Ec} {j : Nat} {rest : List (Entry Handler Ec)} (hs : Balanced s)
    (hk : takeAt s.pool k = some (⟨.findProviders i q, some e⟩, rest)) (armed : ⟨.retry j p, none⟩ ∈ s.pool) :
    ∃ load, s.state.loads[j]? = some load ∧
      ¬ Served j (startFindingPeersWithRetry i q { s with pool := rest }) := by
  have owed : owes j ⟨.retry j p, none⟩ = true := by simp
  have kept : ⟨.retry j p, none⟩ ∈ rest := takeAt_keeps hk armed (by simp)
  have pos : 0 < rest.countP (owes j) := List.countP_pos_iff.mpr ⟨_, kept, owed⟩
  have whole := hs.take hk j
  simp only [Loop.balance] at whole
  obtain ⟨load, known⟩ := known_of_undelivered (i := j) (d := s.state) (by omega)
  refine ⟨load, known, fun served => ?_⟩
  have other : i ≠ j := by
    rintro rfl
    have own : owes i ⟨.findProviders i q, some e⟩ = true := by simp
    rw [if_pos own] at whole
    omega
  have now := (served_iff_balance j _).mp served
  have fewer := countP_abort_lt kept
  have new : owes j ⟨.retry i q, none⟩ = false := by simp [other]
  simp only [startFindingPeersWithRetry, Loop.balance_start, new, Bool.false_eq_true, if_false] at now
  simp only [Loop.balance, Loop.cancel_pool, Loop.cancel_state] at now
  omega

/-- A step that does not spare the loads drops one of them. -/
theorem Balanced.drops {l : Label Ec Turn (Request × Turn)} (hs : Balanced s)
    (h : (machine lib).step s l = some t) (careless : ¬ Spares lib s l) :
    ∃ i load, t.state.loads[i]? = some load ∧ ¬ Served i t := by
  rcases Machine.step_cases h with
    ⟨k, e, x, rfl, _, _, _⟩ | ⟨k, turn, x, e, rest, rfl, hk, hr⟩ | ⟨⟨q, turn⟩, rfl, hr⟩
  · exact absurd trivial careless
  · simp only [Spares, takeAt_getElem hk] at careless
    split at careless
    next i q at_k =>
      obtain ⟨rfl, rfl⟩ := at_k
      obtain rfl := Option.some.inj hr
      obtain ⟨j, armed⟩ := not_forall.mp careless
      obtain ⟨p, armed⟩ := not_forall.mp armed
      obtain ⟨load, known, unserved⟩ := hs.aborted hk (not_not.mp armed)
      exact ⟨j, load, known, unserved⟩
    next i q p ps at_k =>
      obtain ⟨rfl, rfl⟩ := at_k
      obtain rfl := Option.some.inj hr
      refine ⟨i, hs.letsGo hk (by simp) ?_⟩
      exact addAddresses_letsGo (q := { q with addressoffset := 0 }) careless _ _
    next i q at_k =>
      obtain ⟨rfl, rfl⟩ := at_k
      obtain rfl := Option.some.inj hr
      refine ⟨i, hs.letsGo hk (by simp) ?_⟩
      exact startFindingPeers_letsGo (s := { s with pool := rest }) careless turn
    next => exact absurd trivial careless
  · obtain rfl := Option.some.inj hr
    change ¬ accepts lib s.state.dht q.cid = true at careless
    have gone : LetsGo (s.modify fun d => { d with loads := d.loads ++ [{ request := q }] })
        (IPFSDevice.load lib q turn s) :=
      startFindingPeers_letsGo (s := s.modify fun d => { d with loads := d.loads ++ [{ request := q }] })
        careless turn
    refine ⟨s.state.loads.length, { request := q }, ?_, fun served => ?_⟩
    · rw [gone.1]
      exact List.getElem?_concat_length
    · have now := (served_iff_balance _ _).mp served
      rw [gone.balance] at now
      have before := hs s.state.loads.length
      have new := delivered_new s.state q s.state.loads.length
      rw [if_pos rfl] at new
      simp only [Loop.balance, Loop.modify_pool, Loop.modify_state] at now before
      omega

/-- A step keeps every load served exactly when it spares the loads. -/
theorem Balanced.serves_iff {l : Label Ec Turn (Request × Turn)} (hs : Balanced s)
    (h : (machine lib).step s l = some t) :
    (∀ i load, t.state.loads[i]? = some load → Served i t) ↔ Spares lib s l := by
  refine ⟨fun served => ?_, fun spares i load _ => (served_iff_balance i t).mpr (hs.step spares h i)⟩
  by_contra careless
  obtain ⟨i, load, known, unserved⟩ := hs.drops h careless
  exact unserved (served i load known)

theorem reaches_balanced {dht : Bool} (reach : Reaches (machine lib).step (Spares lib) (created dht) s) :
    Balanced s :=
  reach.invariant (fun _ _ _ ht spares hstep => ht.step spares hstep) (balanced_created dht)

/-- While every step spares the loads, each of them goes on with one continuation or is
reported once; the first step that does not spare them drops a load. -/
theorem loads_served {dht : Bool} (reach : Reaches (machine lib).step (Spares lib) (created dht) s) :
    (∀ i load, s.state.loads[i]? = some load → Served i s) ∧
    ∀ l t, (machine lib).step s l = some t →
      ((∀ i load, t.state.loads[i]? = some load → Served i t) ↔ Spares lib s l) :=
  ⟨fun i _ _ => (served_iff_balance i s).mpr (reaches_balanced reach i),
    fun _ _ hstep => (reaches_balanced reach).serves_iff hstep⟩

/-- A library that accepts the CID `Q`, whose providers have no addresses. -/
def plain : Libp2p where
  fromHash cid := cid = ['Q']
  toString cid := cid = ['Q']
  getPeerId _ := none
  fromBase58 _ := none

def request (filename : Str) : Request := ⟨['Q'], filename, 0, false, false⟩

/-- A load searches for providers. -/
def searching : Serving where
  state := ⟨true, [{ request := request ['a'] }], []⟩
  pool := [⟨.findProviders 0 (request ['a']), none⟩]

/-- It has found none, and waits. -/
def waiting : Serving := ⟨searching.state, [⟨.retry 0 (request ['a']), none⟩]⟩

theorem reaches_waiting : Reaches (machine plain).step (Spares plain) (created true) waiting := by
  have start : (machine plain).step (created true) (.call (request ['a'], {})) = some searching := rfl
  have found : (machine plain).step searching (.finish 0 (.providers (some []))) =
      some ⟨searching.state, [⟨.findProviders 0 (request ['a']), some (.providers (some []))⟩]⟩ := rfl
  refine .next (.next (.next .start ?_ start) ?_ found) (l := .run 0 {}) ?_ rfl
  · exact rfl
  · trivial
  · intro j q armed
    cases List.mem_singleton.mp armed

theorem loads_served_waiting :
    (∀ i load, waiting.state.loads[i]? = some load → Served i waiting) ∧
    ∀ l t, (machine plain).step waiting l = some t →
      ((∀ i load, t.state.loads[i]? = some load → Served i t) ↔ Spares plain waiting l) :=
  loads_served reaches_waiting

/-- The second of two loads has found no provider while the first one waits. -/
def rearmed : Serving where
  state := ⟨true, [{ request := request ['a'] }, { request := request ['b'] }], []⟩
  pool := [⟨.retry 0 (request ['a']), some .aborted⟩, ⟨.retry 1 (request ['b']), none⟩]

theorem second_wait_drops_first :
    Reaches (machine plain).step Free (created true) rearmed ∧
    rearmed.state.loads[0]? = some { request := request ['a'] } ∧ ¬ Served 0 rearmed := by
  refine ⟨?_, rfl, ?_⟩
  · exact reaches_of_exec (show exec (machine plain).step (created true)
      [.call (request ['a'], {}), .call (request ['b'], {}), .finish 0 (.providers (some [])), .run 0 {},
        .finish 0 (.providers (some [])), .run 0 {}] = some rearmed by decide)
  · unfold Served
    decide

end IPFSDevice

end AsyncIOManager
