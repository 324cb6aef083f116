import AsyncIOManager.IPFSReports
import AsyncIOManager.Rank

namespace AsyncIOManager

open Reactor

namespace IPFSDevice

variable {lib : Libp2p} {s t : Serving} {i : Nat}

/-- A search that has found no provider. -/
def Ec.empty : Ec → Bool
  | providers (some []) => true
  | _ => false

/-- How many steps a handler can lead to, itself apart, before a further search finds nothing. -/
def Handler.steps : Handler → Nat
  | findProviders _ _ => 3
  | retry _ _ => 5
  | requestContent _ _ _ _ => 1
  | handleRead _ _ => 0

/-- How many steps an entry of the pool can lead to. A search that has found nothing leads to
another one. -/
def weight (x : Entry Handler Ec) : Nat :=
  match x.outcome with
  | none => x.handler.steps + 2
  | some e => x.handler.steps + 1 + if e.empty then 4 else 0

theorem weight_running (h : Handler) : weight ⟨h, none⟩ = h.steps + 2 := rfl

theorem weight_queued (h : Handler) {e : Ec} (found : e.empty = false) : weight ⟨h, some e⟩ = h.steps + 1 := by
  simp [weight, found]

theorem weight_finish (h : Handler) (e : Ec) :
    weight ⟨h, some e⟩ + 1 = weight ⟨h, none⟩ + if e.empty then 4 else 0 := by
  simp only [weight]
  omega

theorem weight_abort (s : Serving) :
    (s.cancel Handler.isRetry .aborted).weight weight ≤ s.weight weight := by
  rw [Loop.weight, Loop.cancel_pool, List.map_map, Loop.weight]
  apply List.sum_le_sum
  intro x _
  change weight (x.abort Handler.isRetry .aborted) ≤ weight x
  unfold Entry.abort
  split
  next running =>
    obtain ⟨h, o⟩ := x
    obtain rfl : o = none := by simpa using running.2
    rw [weight_queued h rfl, weight_running]
    omega
  next => exact Nat.le_refl _

theorem weight_postFailure (i : Nat) (s : Serving) : (postFailure i s).weight weight = s.weight weight + 1 := by
  rw [postFailure, Loop.weight_post, weight_queued _ rfl, Handler.steps]

theorem weight_requestBlockMain (lib : Libp2p) (i : Nat) (q : Request) (s : Serving) :
    (requestBlockMain lib i q s).weight weight ≤ s.weight weight + 3 := by
  rw [requestBlockMain, value]
  split
  next =>
    rw [Loop.weight_start, weight_running, Handler.steps]
  next => omega

theorem weight_startFindingPeers (lib : Libp2p) (i : Nat) (q : Request) (turn : Turn) (s : Serving) :
    (startFindingPeers lib i q turn s).weight weight ≤ s.weight weight + 5 := by
  unfold startFindingPeers
  split
  next =>
    rw [value]
    split
    next =>
      split
      next =>
        rw [Loop.weight_start, weight_running, Handler.steps]
      next =>
        rw [weight_postFailure]
        omega
    next => omega
  next =>
    have bound := weight_requestBlockMain lib i q s
    omega

/-- A handler leaves less to do than it takes. -/
theorem weight_run {h : Handler} {e : Ec} {turn : Turn} (run : h.run lib e turn s = some t) :
    t.weight weight < s.weight weight + weight ⟨h, some e⟩ := by
  cases h with
  | findProviders i q =>
    cases e with
    | providers res =>
      obtain rfl := Option.some.inj run
      rcases res with _ | (_ | ⟨p, ps⟩)
      · rw [weight_queued _ rfl]
        simp only [providersHandler, weight_postFailure, Handler.steps]
        omega
      · have fewer := weight_abort s
        have again : weight ⟨.findProviders i q, some (.providers (some []))⟩ = 8 := rfl
        rw [again]
        simp only [providersHandler, startFindingPeersWithRetry, Loop.weight_start, weight_running, Handler.steps]
        omega
      · rw [weight_queued _ rfl]
        simp only [providersHandler, addAddresses, value]
        split
        next =>
          have bound := weight_requestBlockMain lib i { q with addressoffset := 0 }
            (s.modify fun d => { d with providers :=
              d.providers ++ [(q.cid, peerInfos lib ((p :: ps).flatMap PeerInfo.addresses))] })
          rw [Loop.weight_modify] at bound
          simp only [Handler.steps]
          omega
        next =>
          rw [Loop.weight_modify]
          simp only [Handler.steps]
          omega
    | _ => cases run
  | retry i q =>
    cases e with
    | expired =>
      obtain rfl := Option.some.inj run
      have bound := weight_startFindingPeers lib i q turn s
      rw [weight_queued _ rfl]
      simp only [retryHandler, Handler.steps, Bool.false_eq_true, if_false]
      omega
    | aborted =>
      obtain rfl := Option.some.inj run
      rw [weight_queued _ rfl]
      simp only [retryHandler, if_true, Handler.steps]
      omega
    | _ => cases run
  | requestContent i filename p q =>
    cases e with
    | content res =>
      obtain rfl := Option.some.inj run
      rw [weight_queued _ rfl]
      cases res with
      | none =>
        simp only [contentHandler, weight_postFailure, Handler.steps]
        omega
      | some content =>
        simp only [contentHandler, convertUnixFSContentToResult]
        split
        next =>
          rw [Loop.weight_post, weight_queued _ rfl]
          simp only [Handler.steps]
          omega
        next =>
          rw [Loop.weight_post, weight_queued _ rfl]
          simp only [Handler.steps]
          omega
    | _ => cases run
  | handleRead i c =>
    cases e with
    | posted =>
      obtain rfl := Option.some.inj run
      rw [handleRead, Loop.weight_modify, weight_queued _ rfl]
      omega
    | _ => cases run

theorem weight_load (lib : Libp2p) (q : Request) (turn : Turn) (s : Serving) :
    (load lib q turn s).weight weight ≤ s.weight weight + 5 := by
  have bound := weight_startFindingPeers lib s.state.loads.length q turn (coming q s)
  rw [coming, Loop.weight_modify] at bound
  exact bound

/-- What a step may cost beyond what the pool weighs: a load that comes, and a search that finds nothing. -/
def credit : Label Ec Turn (Request × Turn) → Nat
  | .finish _ e => if e.empty then 4 else 0
  | .run _ _ => 0
  | .call _ => 6

theorem step_pays {l : Label Ec Turn (Request × Turn)} (h : (machine lib).step s l = some t) :
    t.weight weight < s.weight weight + credit l := by
  rcases Machine.step_cases h with ⟨k, e, x, rfl, hk, _, rfl⟩ | ⟨k, o, x, e, rest, rfl, hk, hr⟩ | ⟨a, rfl, ha⟩
  · have sum := sum_map_set (w := weight) (y := ⟨x, some e⟩) hk
    have paid := weight_finish x e
    simp only [Loop.weight, credit]
    omega
  · have sum := weight_takeAt (w := weight) hk
    have lower := weight_run hr
    simp only [Loop.weight, credit] at lower ⊢
    omega
  · obtain rfl := Option.some.inj ha
    exact Nat.lt_succ_of_le (weight_load lib a.1 a.2 s)

/-- A queued handler can run. -/
theorem able_run {h : Handler} {e : Ec} (able : Able ⟨h, some e⟩) (lib : Libp2p) (turn : Turn) (s : Serving) :
    ∃ t, h.run lib e turn s = some t := by
  cases h with
  | findProviders i q =>
    cases e with
    | providers res => exact ⟨_, rfl⟩
    | _ => cases able
  | retry i q =>
    rcases able with rfl | rfl
    · exact ⟨_, rfl⟩
    · exact ⟨_, rfl⟩
  | requestContent i filename p q =>
    cases e with
    | content res => exact ⟨_, rfl⟩
    | _ => cases able
  | handleRead i c =>
    obtain rfl : e = .posted := Option.some.inj able
    exact ⟨_, rfl⟩

/-- An operation that runs can finish without another search. -/
theorem able_finish {h : Handler} (able : Able ⟨h, none⟩) : ∃ e, h.completes e = true ∧ e.empty = false := by
  cases h with
  | findProviders j q => exact ⟨.providers none, rfl, rfl⟩
  | retry j q => exact ⟨.expired, rfl, rfl⟩
  | requestContent j filename p q => exact ⟨.content none, rfl, rfl⟩
  | handleRead j c => cases able

/-- Something that is pending goes on. -/
theorem Ready.goes_on (hs : Ready s) {x : Entry Handler Ec} (pending : x ∈ s.pool) (lib : Libp2p) :
    ∃ l t, (∀ a, l ≠ .call a) ∧ (machine lib).step s l = some t ∧ t.weight weight < s.weight weight := by
  obtain ⟨h, outcome⟩ := x
  have able := hs _ pending
  cases outcome with
  | some e =>
    obtain ⟨k, rest, hk⟩ := takeAt_of_mem pending
    obtain ⟨t, run⟩ := able_run able lib {} { s with pool := rest }
    have step : (machine lib).step s (.run k {}) = some t := by
      simp only [Machine.step, hk]
      exact run
    exact ⟨.run k {}, t, fun a => (by simp), step, step_pays step⟩
  | none =>
    obtain ⟨k, hk⟩ := List.mem_iff_getElem?.mp pending
    obtain ⟨e, completes, found⟩ := able_finish able
    have step : (machine lib).step s (.finish k e) = some { s with pool := s.pool.set k ⟨h, some e⟩ } := by
      simp [Machine.step, hk, machine, completes]
    have lower := step_pays step
    simp only [credit, found, Bool.false_eq_true, if_false] at lower
    exact ⟨.finish k e, _, fun a => (by simp), step, lower⟩

/-- A load that has come, is owed something and has not been reported, has an entry that owes its report. -/
theorem owed_of_unreported {i : Nat} {q : Request} (known : requested s.state i = some q)
    (untold : reported i s.state = []) (owed : s.balance (owes i) (delivered i) ≠ 0) :
    ∃ x ∈ s.pool, owes i x = true := by
  obtain ⟨load, at_i, _⟩ := Option.map_eq_some_iff.mp known
  have none : delivered i s.state = 0 := by
    rw [reported, at_i] at untold
    rw [delivered, at_i]
    exact List.length_eq_zero_iff.mpr untold
  unfold Loop.balance at owed
  exact List.countP_pos_iff.mp (by omega)

/-- A search comes back without a provider. -/
def fruitless : Label Ec Turn (Request × Turn) → Bool
  | .finish _ e => e.empty
  | _ => false

/-- What a load is there for: at most six steps, and four for each search that finds nothing. -/
theorem step_pays_load {l : Label Ec Turn (Request × Turn)} (h : (machine lib).step s l = some t) :
    t.weight weight + 6 * s.state.loads.length <
      s.weight weight + 6 * t.state.loads.length + if fruitless l then 4 else 0 := by
  have kept {h : Handler} {u : Serving} (goes : Goes h u t) : t.state.loads.length = u.state.loads.length := by
    cases goes with
    | stops loads | on _ loads | waits _ loads => rw [loads]
    | reports c _ eq => simp [eq, handleRead]
  have paid := step_pays h
  rcases Machine.step_cases h with ⟨k, e, x, rfl, hk, _, rfl⟩ | ⟨k, o, x, e, rest, rfl, hk, hr⟩ | ⟨a, rfl, ha⟩
  · change _ < _ + 6 * s.state.loads.length + if e.empty then 4 else 0
    simp only [credit] at paid
    omega
  · have same := kept (run_goes hr)
    change t.state.loads.length = s.state.loads.length at same
    have found : fruitless (.run k o) = false := rfl
    rw [same, found]
    simp only [credit] at paid
    simpa using paid
  · obtain rfl := Option.some.inj ha
    have more : (load lib a.1 a.2 s).state.loads.length = s.state.loads.length + 1 := by
      rw [kept (load_goes lib a.1 a.2 s), coming, Loop.modify_state, List.length_append, List.length_singleton]
    have found : fruitless (.call a) = false := rfl
    rw [more, found, if_neg Bool.false_ne_true]
    simp only [credit] at paid
    omega

/-- Only one load is there, and it searches for providers. -/
structure Searches (q : Request) (s : Serving) : Prop where
  dht : s.state.dht = true
  loads : s.state.loads = [{ request := q }]
  pool : s.pool = [⟨.findProviders 0 q, none⟩]

/-- A search that finds nothing is repeated when the wait has expired. -/
theorem Searches.again {q : Request} (hs : Searches q s) (accepted : lib.fromHash q.cid = true) :
    exec (machine lib).step s [.finish 0 (.providers (some [])), .run 0 {}, .finish 0 .expired, .run 0 {}] =
      some s := by
  obtain ⟨d, pool⟩ := s
  obtain ⟨dht, loads, rfl⟩ := hs
  have on : d.dht = true := dht
  simp [exec, Machine.step, machine, Handler.completes, takeAt, Handler.run, providersHandler,
    startFindingPeersWithRetry, retryHandler, startFindingPeers, on, value, accepted, Loop.start, Loop.cancel]

theorem Searches.on {q : Request} (hs : Searches q s) (accepted : lib.fromHash q.cid = true) (k : Nat) :
    ∃ ls, exec (machine lib).step s ls = some s ∧ k ≤ ls.length := by
  induction k with
  | zero => exact ⟨[], rfl, Nat.le_refl _⟩
  | succ k ih =>
    obtain ⟨ls, run, long⟩ := ih
    refine ⟨ls ++ [.finish 0 (.providers (some [])), .run 0 {}, .finish 0 .expired, .run 0 {}], ?_, ?_⟩
    · rw [exec_append, run]
      exact hs.again accepted
    · rw [List.length_append, List.length_cons]
      omega

/-- The device reports no load twice, takes at most six steps a load and four for each search that
finds nothing, and has nothing pending when it cannot go on; loads that are spared by every step
have then all been reported. A network without a provider keeps a load from its end. -/
theorem loads_end (lib : Libp2p) (dht : Bool) :
    (∀ ls s, exec (machine lib).step (created dht) ls = some s →
      ls.length ≤ 6 * s.state.loads.length + 4 * ls.countP fruitless ∧
      (∀ i, (reported i s.state).length ≤ 1) ∧
      ((∀ l, (∀ a, l ≠ .call a) → (machine lib).step s l = none) → s.pool = [] ∧
        (Reaches (machine lib).step (Spares lib) (created dht) s →
          ∀ i, i < s.state.loads.length → (reported i s.state).length = 1))) ∧
    ∀ q, dht = true → lib.fromHash q.cid = true → ∀ k, ∃ ls s,
      exec (machine lib).step (created dht) ls = some s ∧ k ≤ ls.length ∧ s.state.loads = [{ request := q }] := by
  refine ⟨?_, ?_⟩
  · intro ls s run
    have reach := reaches_of_exec run
    have atMost : AtMost s := reach.invariant (fun _ _ _ ht _ step => ht.step step)
      fun i => Nat.le_of_eq (balanced_created dht i)
    have ready : Ready s := reach.invariant (fun _ _ _ ht _ step => ht.step step) fun x hx => by cases hx
    have known (i : Nat) (within : i < s.state.loads.length) :
        (reported i s.state).length = delivered i s.state := by
      rw [reported, delivered, List.getElem?_eq_getElem within]
    refine ⟨?_, ?_, ?_⟩
    · have bound := exec_length_le_gain (fun _ => True) (Loop.weight weight)
        (fun s => 6 * s.state.loads.length) (fun l => if fruitless l then 4 else 0)
        (fun _ _ _ _ _ => trivial) (fun _ _ _ _ step => step_pays_load step) trivial run
      have credits : (ls.map fun l => if fruitless l then 4 else 0).sum = 4 * ls.countP fruitless := by
        clear run reach bound
        induction ls with
        | nil => rfl
        | cons l ls ih =>
          rw [List.map_cons, List.sum_cons, ih, List.countP_cons]
          split <;> omega
      have start : (created dht).weight weight + 6 * (created dht).state.loads.length = 0 := rfl
      omega
    · intro i
      rcases Nat.lt_or_ge i s.state.loads.length with within | beyond
      · rw [known i within]
        exact (Nat.le_add_left _ _).trans (atMost i)
      · rw [reported, List.getElem?_eq_none beyond]
        exact Nat.zero_le 1
    · intro stuck
      have idle : s.pool = [] := by
        by_contra pending
        obtain ⟨x, hx⟩ := List.exists_mem_of_ne_nil _ pending
        obtain ⟨l, t, own, step, _⟩ := ready.goes_on hx lib
        rw [stuck l own] at step
        cases step
      refine ⟨idle, fun spared i within => ?_⟩
      have balanced := reaches_balanced spared i
      rw [known i within]
      simpa [Loop.balance, idle] using balanced
  · intro q on accepted k
    subst on
    have first : exec (machine lib).step (created true) [.call (q, {})] =
        some ⟨⟨true, [{ request := q }], []⟩, [⟨.findProviders 0 q, none⟩]⟩ := by
      simp [exec, Machine.step, machine, load, startFindingPeers, created, value, accepted, Loop.start, Loop.modify]
    have searches : Searches q ⟨⟨true, [{ request := q }], []⟩, [⟨.findProviders 0 q, none⟩]⟩ := ⟨rfl, rfl, rfl⟩
    obtain ⟨ls, run, long⟩ := searches.on accepted k
    refine ⟨[.call (q, {})] ++ ls, ⟨⟨true, [{ request := q }], []⟩, [⟨.findProviders 0 q, none⟩]⟩, ?_, ?_, rfl⟩
    · rw [exec_append, first]
      exact run
    · rw [List.length_append]
      omega

end IPFSDevice

end AsyncIOManager
