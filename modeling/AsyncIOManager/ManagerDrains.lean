import AsyncIOManager.ManagerSystem
import AsyncIOManager.IPFSEnding

namespace AsyncIOManager

open Reactor

namespace MNNLoader

/-- How many steps an entry of the pool can lead to. -/
def weight (x : Entry Handler Ec) : Nat := if x.outcome.isSome then 1 else 2

/-- A file that has not been reported is read on. -/
theorem Once.goes_on {parse save : Bool} {s : Reading} (hs : Once parse save s) (untold : s.state.delivered = []) :
    ∃ l t, machine.step s l = some t ∧ t.weight weight < s.weight weight := by
  have step : ∃ l t, machine.step s l = some t := by
    have one := Loop.owed_of_unsettled hs.balanced (by simp [settled, untold])
    obtain ⟨⟨x, outcome⟩, hx, _⟩ := List.countP_pos_iff.mp (Nat.lt_of_lt_of_eq Nat.one_pos one.symm)
    cases outcome with
    | some e =>
      obtain ⟨k, rest, hk⟩ := takeAt_of_mem hx
      exact ⟨.run k [], x.run e [] { s with pool := rest }, by simp [Machine.step, hk, machine]⟩
    | none =>
      obtain ⟨k, hk⟩ := List.mem_iff_getElem?.mp hx
      cases x with
      | completion err => exact absurd rfl (hs.posted _ hx err rfl)
      | read filename p q =>
        exact ⟨.finish k .other, { s with pool := s.pool.set k ⟨.read filename p q, some .other⟩ },
          by simp [Machine.step, hk, machine, Handler.completes]⟩
  obtain ⟨l, t, h⟩ := step
  refine ⟨l, t, h, Machine.step_lowers (fun h e => by simp [weight]) ?_ (fun a => a.elim) h⟩
  intro x e buffer u v hr
  cases Option.some.inj hr
  obtain ⟨c, eq, _⟩ := run_tells x e buffer u
  rw [eq, handleRead, Loop.weight_modify]
  simp [weight]

end MNNLoader

namespace HTTPDevice

/-- A download that has not been reported goes on. -/
theorem Sane.steps {s : Download} (hs : Sane s) (untold : s.state.delivered = []) :
    ∃ l t, machine.step s l = some t := by
  obtain ⟨⟨x, outcome⟩, hx, _⟩ := hs.unreported (by simp [untold])
  cases outcome with
  | some e =>
    obtain ⟨k, rest, hk⟩ := takeAt_of_mem hx
    exact ⟨.run k [], x.run e [] { s with pool := rest }, by simp [Machine.step, hk, machine]⟩
  | none =>
    obtain ⟨k, hk⟩ := List.mem_iff_getElem?.mp hx
    have completes : x.completes .success = true := by
      cases x with
      | completion err => exact absurd rfl (hs.posted _ hx rfl)
      | connect self | handshake self | write self request | read self | deadline phase => rfl
    exact ⟨.finish k .success, { s with pool := s.pool.set k ⟨x, some .success⟩ },
      by simp [Machine.step, hk, machine, completes]⟩

end HTTPDevice

namespace FileManager

/-- How many steps a worker can go on. -/
def Worker.rank : Worker → Nat
  | file r => r.weight MNNLoader.weight
  | https d => d.weight HTTPDevice.weight
  | refused _ ran => if ran then 0 else 1
  | posted _ _ => 6
  | own s => s.weight IPFSDevice.weight
  | shared _ => 0
  | mnn s => MNNSaver.rank s
  | ipfs s called => s.rank + (s.posts - called)
  | sftp s => SFTPSaver.rank (SFTPSaver.plan s) s

/-- A load that its device has no entry for and has not reported, or a save that has returned and
has nothing queued or posted. -/
def Worker.Lost (device : IPFSDevice.Serving) : Worker → Prop
  | own s => s.balance (IPFSDevice.owes 0) (IPFSDevice.delivered 0) = 0
  | shared i => device.balance (IPFSDevice.owes i) (IPFSDevice.delivered i) = 0
  | mnn s => s.state.exit = some .returned ∧ s.pool = [] ∧ s.state.handleWrites = 0
  | ipfs s called => s.exit = some .returned ∧ s.stage = .finished ∧ s.posts = 0 ∧ called = 0
  | _ => False

namespace Loaders

def rank (x : Loaders) : Nat := (x.workers.map Worker.rank).sum + x.device.weight IPFSDevice.weight

/-- A callback that no worker will tell. -/
def Lost (x : Loaders) (n : Nat) : Prop := ∃ w, x.workers[n]? = some w ∧ w.Lost x.device

variable {kind : Str → Saver} {x y : Loaders} {n : Nat} {w v : Worker} {hs : List Handler}

theorem rank_put (known : x.workers[n]? = some w) (lower : v.rank < w.rank) : (x.put n v).rank < x.rank := by
  have sum := sum_map_set (w := Worker.rank) (y := v) known
  simp only [rank, put]
  omega

theorem serve_of_step {lib : Libp2p} {s t : IPFSDevice.Serving}
    {l : Label IPFSDevice.Ec IPFSDevice.Turn (IPFSDevice.Request × IPFSDevice.Turn)} (served : ∀ a, l ≠ .call a)
    (h : (IPFSDevice.machine lib).step s l = some t) : serve lib s l = some t := by
  cases l with
  | call a => exact absurd rfl (served a)
  | finish k e => exact h
  | run k o => exact h

/-- A callback that has not been told and is not lost has a worker that can go on. -/
theorem Fine.goes_on (lib : Libp2p) (hx : Fine kind hs x) (known : n < hs.length) (untold : x.told n = [])
    (found : ¬ x.Lost n) : ∃ a y, x.advance lib a = some y ∧ y.rank < x.rank := by
  have bound : n < x.workers.length := by
    rw [← hx.numbered]
    exact known
  have at_n := List.getElem?_eq_getElem bound
  have fits := hx.fits n _ _ (List.getElem?_eq_getElem known) at_n
  generalize x.workers[n] = w at at_n fits
  rw [told_at at_n] at untold
  cases w with
  | file r =>
    obtain ⟨_, _, _, once⟩ := fits
    obtain ⟨l, t, h, lower⟩ := once.goes_on (List.map_eq_nil_iff.mp untold)
    exact ⟨.file n l, x.put n (.file t), by simp [Loaders.advance, at_n, h], rank_put at_n lower⟩
  | https d =>
    obtain ⟨_, _, _, sane, _⟩ := fits
    obtain ⟨l, t, h⟩ := sane.steps (List.map_eq_nil_iff.mp untold)
    exact ⟨.https n l, x.put n (.https t), by simp [Loaders.advance, at_n, h], rank_put at_n (HTTPDevice.step_lowers h)⟩
  | refused e ran =>
    cases ran with
    | true => cases untold
    | false => exact ⟨.post n {}, x.put n (.refused e true), by simp [Loaders.advance, at_n], rank_put at_n Nat.one_pos⟩
  | posted q external =>
    cases external with
    | some dht =>
      have bound := IPFSDevice.weight_load lib q {} (IPFSDevice.created dht)
      have empty : (IPFSDevice.created dht).weight IPFSDevice.weight = 0 := rfl
      refine ⟨.post n {}, x.put n (.own (IPFSDevice.load lib q {} (IPFSDevice.created dht))),
        by simp [Loaders.advance, at_n], rank_put at_n ?_⟩
      simp only [Worker.rank]
      omega
    | none =>
      have bound := IPFSDevice.weight_load lib q {} x.device
      have sum := sum_map_set (w := Worker.rank) (y := .shared x.device.state.loads.length) at_n
      refine ⟨.post n {}, ⟨x.workers.set n (.shared x.device.state.loads.length),
        IPFSDevice.load lib q {} x.device, x.files⟩, by simp [Loaders.advance, at_n], ?_⟩
      simp only [rank, Worker.rank] at sum ⊢
      omega
  | own s =>
    obtain ⟨q, _, asked, _, ready, _⟩ := fits
    obtain ⟨z, pending, _⟩ := IPFSDevice.owed_of_unreported asked (List.map_eq_nil_iff.mp untold)
      fun none => found ⟨_, at_n, none⟩
    obtain ⟨l, t, served, h, lower⟩ := ready.goes_on pending lib
    exact ⟨.own n l, x.put n (.own t), by simp [Loaders.advance, at_n, serve_of_step served h], rank_put at_n lower⟩
  | shared i =>
    obtain ⟨q, _, asked⟩ := fits
    obtain ⟨z, pending, _⟩ := IPFSDevice.owed_of_unreported asked (List.map_eq_nil_iff.mp untold)
      fun none => found ⟨_, at_n, none⟩
    obtain ⟨l, t, served, h, lower⟩ := hx.ready.goes_on pending lib
    refine ⟨.device l, { x with device := t }, by simp [Loaders.advance, serve_of_step served h], ?_⟩
    simp only [rank]
    omega
  | mnn s =>
    obtain ⟨_, _, left⟩ := fits
    have pending : s.pool ≠ [] := fun idle => found ⟨_, at_n, left.exit, idle, (List.replicate_eq_nil_iff _).mp untold⟩
    obtain ⟨l, t, h, lower⟩ := (left.on x.files.disk).goes_on target pending
    refine ⟨.mnn n l, { x.put n (.mnn t) with files := { x.files with disk := t.state.disk } },
      by simp [Loaders.advance, at_n, h], ?_⟩
    exact rank_put (v := .mnn t) at_n lower
  | ipfs s called =>
    obtain ⟨_, _, left, ran⟩ := fits
    obtain rfl : called = 0 := (List.replicate_eq_nil_iff _).mp untold
    rcases left.goes_on (fun lost => found ⟨_, at_n, left.exit, lost.1, lost.2, rfl⟩) x.files.tree with
      posted | ⟨a, v, u, h, lower⟩
    · refine ⟨.handleWrite n, x.put n (.ipfs s 1), by simp [Loaders.advance, at_n, posted], rank_put at_n ?_⟩
      simp only [Worker.rank, posted]
      omega
    · refine ⟨.ipfs n a, { x.put n (.ipfs v 0) with files := { x.files with tree := u } },
        by simp [Loaders.advance, at_n, h], ?_⟩
      exact rank_put (v := .ipfs v 0) at_n lower
  | sftp s =>
    obtain ⟨_, _, left⟩ := fits
    obtain ⟨l, t, h, lower⟩ := left.goes_on ((List.replicate_eq_nil_iff _).mp untold)
    exact ⟨.sftp n l, x.put n (.sftp t), by simp [Loaders.advance, at_n, h], rank_put at_n lower⟩

end Loaders

namespace Loaders

variable {x y : Loaders} {n : Nat} {w : Worker} {lib : Libp2p}

theorem lost_put {k : Nat} {v : Worker} (lost : x.Lost n) (known : x.workers[k]? = some w)
    (same : w.Lost x.device → v.Lost x.device) : (x.put k v).Lost n := by
  obtain ⟨u, at_n, none⟩ := lost
  by_cases here : k = n
  · subst here
    obtain rfl := Option.some.inj (known.symm.trans at_n)
    have bound := (List.getElem?_eq_some_iff.mp known).1
    exact ⟨v, List.getElem?_set_self bound, same none⟩
  · exact ⟨u, (List.getElem?_set_ne here).trans at_n, none⟩

/-- A step of the shared device adds to nothing that is owed. -/
theorem lost_device {s : IPFSDevice.Serving} {l : Label IPFSDevice.Ec IPFSDevice.Turn (IPFSDevice.Request × IPFSDevice.Turn)}
    (lost : x.Lost n) (h : (IPFSDevice.machine lib).step x.device l = some s) :
    ({ x with device := s } : Loaders).Lost n := by
  obtain ⟨w, at_n, none⟩ := lost
  refine ⟨w, at_n, ?_⟩
  cases w with
  | shared i =>
    have fewer := IPFSDevice.step_balance_le h i
    exact Nat.le_zero.mp (fewer.trans (Nat.le_of_eq none))
  | _ => exact none

/-- A load that is lost stays lost. -/
theorem Lost.advance {a : Move} (lost : x.Lost n) (h : x.advance lib a = some y) : y.Lost n := by
  cases a with
  | file k l =>
    simp only [Loaders.advance] at h
    split at h
    next r known =>
      obtain ⟨t, _, rfl⟩ := Option.map_eq_some_iff.mp h
      exact lost_put lost known False.elim
    next => cases h
  | https k l =>
    simp only [Loaders.advance] at h
    split at h
    next d known =>
      obtain ⟨t, _, rfl⟩ := Option.map_eq_some_iff.mp h
      exact lost_put lost known False.elim
    next => cases h
  | post k turn =>
    simp only [Loaders.advance] at h
    split at h
    next e known =>
      obtain rfl := Option.some.inj h
      exact lost_put lost known False.elim
    next q dht known =>
      obtain rfl := Option.some.inj h
      exact lost_put lost known False.elim
    next q known =>
      obtain rfl := Option.some.inj h
      have step : (IPFSDevice.machine lib).step x.device (.call (q, turn)) =
          some (IPFSDevice.load lib q turn x.device) := rfl
      exact lost_put (v := .shared x.device.state.loads.length) (lost_device lost step) known False.elim
    next => cases h
  | own k l =>
    simp only [Loaders.advance] at h
    split at h
    next s known =>
      obtain ⟨t, ht, rfl⟩ := Option.map_eq_some_iff.mp h
      have fewer := IPFSDevice.step_balance_le (serve_step ht) 0
      exact lost_put lost known fun none => Nat.le_zero.mp (fewer.trans (Nat.le_of_eq none))
    next => cases h
  | device l =>
    obtain ⟨t, ht, rfl⟩ := Option.map_eq_some_iff.mp h
    exact lost_device lost (serve_step ht)
  | mnn k l =>
    simp only [Loaders.advance] at h
    split at h
    next s known =>
      obtain ⟨t, ht, rfl⟩ := Option.map_eq_some_iff.mp h
      -- a lost save has nothing queued, so no step of it is left
      refine lost_put (v := .mnn t) lost known ?_
      rintro ⟨exit, idle, _⟩
      have left : (s.modify fun m => { m with disk := x.files.disk }).state.exit ≠ none := by simp [exit]
      rw [MNNSaver.stuck_of_rest left idle] at ht
      cases ht
    next => cases h
  | ipfs k a =>
    simp only [Loaders.advance] at h
    split at h
    next s called known =>
      obtain ⟨next, ht, rfl⟩ := Option.map_eq_some_iff.mp h
      refine lost_put (v := .ipfs next.1 called) lost known ?_
      rintro ⟨exit, stage, posts, _⟩
      have publishing := ((IPFSSaver.Left.dropped exit stage posts).steps (IPFSSaver.Save.step_steps ht)).1
      rw [stage] at publishing
      cases publishing
    next => cases h
  | handleWrite k =>
    simp only [Loaders.advance] at h
    split at h
    next s called known =>
      split at h
      next posted =>
        obtain rfl := Option.some.inj h
        refine lost_put lost known ?_
        rintro ⟨_, _, posts, _⟩
        omega
      next => cases h
    next => cases h
  | sftp k l =>
    simp only [Loaders.advance] at h
    split at h
    next s known =>
      obtain ⟨t, _, rfl⟩ := Option.map_eq_some_iff.mp h
      exact lost_put lost known False.elim
    next => cases h

theorem Lost.call (lost : x.Lost n) (w : Worker) (f : Storage) : (x.call w f).Lost n := by
  obtain ⟨u, at_n, none⟩ := lost
  refine ⟨u, ?_, none⟩
  rw [Loaders.call, List.getElem?_append_left (List.getElem?_eq_some_iff.mp at_n).1]
  exact at_n

/-- A callback that is lost has not been told. -/
theorem Lost.untold (lost : x.Lost n) : x.told n = [] := by
  obtain ⟨w, at_n, none⟩ := lost
  have unreported {i : Nat} {s : IPFSDevice.Serving}
      (none : s.balance (IPFSDevice.owes i) (IPFSDevice.delivered i) = 0) : IPFSDevice.reported i s.state = [] := by
    have untold : IPFSDevice.delivered i s.state = 0 := by
      unfold Loop.balance at none
      omega
    obtain ⟨load, known⟩ := IPFSDevice.known_of_undelivered untold
    rw [IPFSDevice.delivered, known] at untold
    rw [IPFSDevice.reported, known]
    exact List.length_eq_zero_iff.mp untold
  rw [told_at at_n]
  cases w with
  | own s => rw [Worker.told, unreported none, List.map_nil]
  | shared i => rw [Worker.told, unreported none, List.map_nil]
  | mnn s => rw [Worker.told, none.2.2, List.replicate_zero]
  | ipfs s called => rw [Worker.told, none.2.2.2, List.replicate_zero]
  | file r | https d | refused e ran | posted q external | sftp s => cases none

/-- No step of an IPFS device takes the wait of another load, no `.value()` in it throws, and no
publishing ends in a clean-up that throws. -/
def Spares (lib : Libp2p) (x : Loaders) : Move → Prop
  | .post n _ =>
    ∀ q external, x.workers[n]? = some (.posted q external) →
      IPFSDevice.accepts lib (external.getD x.device.state.dht) q.cid = true
  | .own n l => ∀ s, x.workers[n]? = some (.own s) → IPFSDevice.Spares lib s l
  | .device l => IPFSDevice.Spares lib x.device l
  | .ipfs _ a => a.quiet = true
  | _ => True

end Loaders

/-- Every load of the device is owed its report or has been reported once, or the save has not been
dropped. -/
def Worker.Kept : Worker → Prop
  | own s => IPFSDevice.Balanced s
  | ipfs s _ => IPFSSaver.Left s ∧ s.kept
  | _ => True

namespace Loaders

variable {kind : Str → Saver} {hs : List Handler} {x y : Loaders} {n : Nat} {w : Worker} {lib : Libp2p}

theorem New.owed {device : IPFSDevice.Serving} {h : Handler} (new : New kind device h w) : w.Kept := by
  cases w with
  | own s => exact absurd rfl (new.unowned s)
  | ipfs s called =>
    obtain ⟨_, _, left, _⟩ := new.fits
    exact ⟨left, new.kept s called rfl⟩
  | _ => trivial

/-- Nothing has been dropped. -/
structure Owed (x : Loaders) : Prop where
  device : IPFSDevice.Balanced x.device
  workers : ∀ (n : Nat) (w : Worker), x.workers[n]? = some w → w.Kept

theorem Owed.put {k : Nat} {v : Worker} (hx : Owed x) (kept : v.Kept) : Owed (x.put k v) := by
  refine ⟨hx.device, fun n w known => ?_⟩
  rcases set_cases known with ⟨_, rfl⟩ | ⟨_, old⟩
  · exact kept
  · exact hx.workers n w old

theorem Owed.files (hx : Owed x) (f : Storage) : Owed { x with files := f } := ⟨hx.device, hx.workers⟩

theorem Owed.advance {a : Move} (hx : Owed x) (spares : x.Spares lib a) (h : x.advance lib a = some y) : Owed y := by
  cases a with
  | file k l =>
    simp only [Loaders.advance] at h
    split at h
    next r known =>
      obtain ⟨t, _, rfl⟩ := Option.map_eq_some_iff.mp h
      exact hx.put trivial
    next => cases h
  | https k l =>
    simp only [Loaders.advance] at h
    split at h
    next d known =>
      obtain ⟨t, _, rfl⟩ := Option.map_eq_some_iff.mp h
      exact hx.put trivial
    next => cases h
  | post k turn =>
    simp only [Loaders.advance] at h
    split at h
    next e known =>
      obtain rfl := Option.some.inj h
      exact hx.put trivial
    next q dht known =>
      obtain rfl := Option.some.inj h
      have step : (IPFSDevice.machine lib).step (IPFSDevice.created dht) (.call (q, turn)) =
          some (IPFSDevice.load lib q turn (IPFSDevice.created dht)) := rfl
      have spared : IPFSDevice.Spares lib (IPFSDevice.created dht) (.call (q, turn)) := spares q (some dht) known
      exact hx.put (v := .own _) ((IPFSDevice.balanced_created dht).step spared step)
    next q known =>
      obtain rfl := Option.some.inj h
      have step : (IPFSDevice.machine lib).step x.device (.call (q, turn)) =
          some (IPFSDevice.load lib q turn x.device) := rfl
      have spared : IPFSDevice.Spares lib x.device (.call (q, turn)) := spares q none known
      have next : Owed { x with device := IPFSDevice.load lib q turn x.device } :=
        ⟨hx.device.step spared step, hx.workers⟩
      exact next.put (v := .shared x.device.state.loads.length) trivial
    next => cases h
  | own k l =>
    simp only [Loaders.advance] at h
    split at h
    next s known =>
      obtain ⟨t, ht, rfl⟩ := Option.map_eq_some_iff.mp h
      have balanced : IPFSDevice.Balanced s := hx.workers k _ known
      exact hx.put (v := .own t) (balanced.step (spares s known) (serve_step ht))
    next => cases h
  | device l =>
    obtain ⟨t, ht, rfl⟩ := Option.map_eq_some_iff.mp h
    exact ⟨hx.device.step spares (serve_step ht), hx.workers⟩
  | mnn k l =>
    simp only [Loaders.advance] at h
    split at h
    next s known =>
      obtain ⟨t, _, rfl⟩ := Option.map_eq_some_iff.mp h
      exact (hx.put (v := .mnn t) trivial).files _
    next => cases h
  | ipfs k a =>
    simp only [Loaders.advance] at h
    split at h
    next s called known =>
      obtain ⟨next, ht, rfl⟩ := Option.map_eq_some_iff.mp h
      obtain ⟨left, _⟩ : IPFSSaver.Left s ∧ s.kept := hx.workers k _ known
      have steps := IPFSSaver.Save.step_steps ht
      exact (hx.put (v := .ipfs next.1 called) ⟨(left.step steps).1, left.keeps steps spares⟩).files _
    next => cases h
  | handleWrite k =>
    simp only [Loaders.advance] at h
    split at h
    next s called known =>
      split at h
      next =>
        obtain rfl := Option.some.inj h
        have kept : IPFSSaver.Left s ∧ s.kept := hx.workers k _ known
        exact hx.put (v := .ipfs s (called + 1)) kept
      next => cases h
    next => cases h
  | sftp k l =>
    simp only [Loaders.advance] at h
    split at h
    next s known =>
      obtain ⟨t, _, rfl⟩ := Option.map_eq_some_iff.mp h
      exact hx.put (v := .sftp t) trivial
    next => cases h

theorem Owed.call (hx : Owed x) (kept : w.Kept) (f : Storage) : Owed (x.call w f) := by
  refine ⟨hx.device, fun n v known => ?_⟩
  rcases concat_cases known with old | rfl
  · exact hx.workers n v old
  · exact kept

/-- While nothing is dropped, only the saves to local files that name no file are lost. -/
theorem Owed.lost_iff (hx : Owed x) (fine : Fine kind hs x) :
    x.Lost n ↔ ∃ h data, hs[n]? = some h ∧ h.Saves kind .mnn data ∧ (MNNSaver.toSave data).first = [] := by
  constructor
  · rintro ⟨w, at_n, none⟩
    have bound : n < hs.length := by
      rw [fine.numbered]
      exact (List.getElem?_eq_some_iff.mp at_n).1
    have fits := fine.fits n _ w (List.getElem?_eq_getElem bound) at_n
    have kept := hx.workers n w at_n
    cases w with
    | own s => exact absurd ((kept 0).symm.trans none) Nat.one_ne_zero
    | shared i => exact absurd ((hx.device i).symm.trans none) Nat.one_ne_zero
    | mnn s =>
      obtain ⟨data, saves, left⟩ := fits
      obtain ⟨_, idle, uncalled⟩ := none
      have named := left.named idle
      rw [uncalled] at named
      refine ⟨_, data, List.getElem?_eq_getElem bound, saves, List.length_eq_zero_iff.mp ?_⟩
      by_contra some
      rw [if_pos (Nat.pos_of_ne_zero some)] at named
      cases named
    | ipfs s called =>
      obtain ⟨_, stage, posts, _⟩ := none
      have one := kept.2 stage
      omega
    | file r | https d | refused e ran | posted q external | sftp s => cases none
  · rintro ⟨h, data, known, ⟨name, saves, same⟩, none⟩
    have bound : n < x.workers.length := by
      rw [← fine.numbered]
      exact (List.getElem?_eq_some_iff.mp known).1
    have at_n := List.getElem?_eq_getElem bound
    have fits := fine.fits n h _ known at_n
    generalize x.workers[n] = w at at_n fits
    cases h with
    | handleRead op call filePath suffix => cases saves
    | nestedWrite op ioc savetype suffix buffers | handleWrite op call filePath suffix =>
      -- the worker of a save is that of its saver
      cases w with
      | file r | https d =>
        obtain ⟨_, _, reads, _⟩ := fits
        cases reads
      | refused e ran =>
        obtain ⟨_, _, reads⟩ := fits
        cases reads
      | posted q external => cases fits
      | own s =>
        obtain ⟨_, reads, _⟩ := fits
        cases reads
      | shared i =>
        obtain ⟨_, reads, _⟩ := fits
        cases reads
      | mnn s =>
        obtain ⟨other, ⟨_, own, _⟩, left⟩ := fits
        obtain ⟨rfl, rfl⟩ := Prod.mk.inj (Option.some.inj (saves.symm.trans own))
        rw [none] at left
        exact ⟨_, at_n, left.exit, left.idle, left.named left.idle⟩
      | ipfs s called | sftp s =>
        obtain ⟨_, ⟨_, own, other⟩, _⟩ := fits
        obtain ⟨rfl, rfl⟩ := Prod.mk.inj (Option.some.inj (saves.symm.trans own))
        rw [same] at other
        cases other

end Loaders

/-- What a callback may begin: a load may begin the nested save. -/
def Handler.cost : Handler → Nat
  | handleRead _ _ _ _ => 2
  | _ => 1

/-- A final call that makes no further calls begins nothing. -/
theorem invokeFinalcall_pool (op : Nat) (finalcall : Bool) (buffers : ResultType) (s : Session) :
    (invokeFinalcall op finalcall buffers {} s).pool = s.pool := by
  cases finalcall <;> rfl

/-- A callback that makes no further calls begins a nested save at most, of data that is not null. -/
theorem run_pool {h : Handler} {e : Outcome} (fits : h.fits e) (m : Manager) :
    ∃ s, h.run e {} ⟨m, []⟩ = some s ∧ (s.pool = [] ∨ h.cost = 2 ∧ ∃ op ioc savetype suffix payload,
      s.pool = [⟨.nestedWrite op ioc savetype suffix (.success (some payload)), none⟩]) := by
  cases h with
  | handleRead op call filePath suffix =>
    cases e with
    | written => cases fits
    | read c =>
      refine ⟨_, rfl, ?_⟩
      obtain ⟨buffers, parse, save⟩ := c
      cases buffers with
      | failure err => exact .inl (invokeFinalcall_pool op call.finalcall _ _)
      | success data =>
        obtain ⟨payload, rfl⟩ := Option.isSome_iff_exists.mp (fits data rfl).1
        have empty : (findParser op parse ⟨m, []⟩).pool = [] := findParser_pool op parse ⟨m, []⟩
        simp only [FileManager.handleRead]
        split
        next =>
          split
          next => exact .inl empty
          next =>
            refine .inr ⟨rfl, op, call.ioc, call.savetype, suffix, payload, ?_⟩
            rw [if_neg (by simp), invokeFinalcall_pool, Loop.start_pool, empty]
            rfl
        next =>
          rw [invokeFinalcall_pool]
          exact .inl empty
  | nestedWrite op ioc savetype suffix buffers =>
    cases e with
    | read c => cases fits
    | written => exact ⟨_, rfl, .inl rfl⟩
  | handleWrite op call filePath suffix =>
    cases e with
    | read c => cases fits
    | written => exact ⟨_, rfl, .inl (invokeFinalcall_pool op call.finalcall _ _)⟩

/-- A save of data that is not null can begin. -/
theorem Loaders.save_begins (saver : Saver) (filename : Str) (payload : Payload) (saveLocation : Option Str)
    (f : Storage) : ∃ b p, Loaders.save saver filename (.success (some payload)) saveLocation b f = some p := by
  cases saver with
  | mnn =>
    obtain ⟨s, hs⟩ := MNNSaver.returns target filename payload [] saveLocation f.disk
    exact ⟨{ openings := [.tried false false] }, _, by simp only [Loaders.save, hs, Option.map_some]; rfl⟩
  | ipfs =>
    obtain ⟨acts, p, hp⟩ := IPFSSaver.returns (.success (some payload)) false saveLocation f.tree
    exact ⟨{ acts }, _, by simp only [Loaders.save, hp, Option.map_some]; rfl⟩
  | sftp =>
    obtain ⟨resolves, s, hs⟩ := SFTPSaver.returns filename (.success (some payload)) saveLocation
    exact ⟨{ resolves }, _, by simp only [Loaders.save, hs, Option.map_some]; rfl⟩

/-- A callback can run so that a nested save is all that it begins. -/
theorem machine_settles (lib : Libp2p) (codec : IPFSLoader.Codec) (kind : Str → Saver) :
    machine.Settles (loaders lib codec kind) Handler.fits Handler.cost := by
  intro h e m x fits
  obtain ⟨s, run, none | ⟨cost, op, ioc, savetype, suffix, payload, pool⟩⟩ := run_pool fits m
  · refine ⟨{}, [], s, x, run, by rw [none]; rfl, ?_⟩
    rw [Loop.weight, none]
    cases h with
    | handleRead | nestedWrite | handleWrite => exact Nat.succ_pos _
  · obtain ⟨b, p, begun⟩ := Loaders.save_begins (kind savetype) [] payload Option.none x.files
    refine ⟨{}, [b], s, x.call p.1 p.2, run, ?_, ?_⟩
    · rw [pool]
      simp [World.startAll, loaders, World.watch, Loaders.start, begun]
    · rw [Loop.weight, pool, cost]
      exact Nat.one_lt_two

theorem loaders_goOn (lib : Libp2p) (codec : IPFSLoader.Codec) (kind : Str → Saver) :
    (loaders lib codec kind).GoesOn (Loaders.Fine kind) Loaders.Lost Loaders.rank := by
  intro hs x n hx known untold found
  obtain ⟨a, y, h, lower⟩ := hx.goes_on lib known untold found
  exact ⟨a, y, World.news Loaders.told Loaders.count x y, by simp [loaders, World.watch, h], lower⟩

/-- A step of the system in which no IPFS load and no IPFS save is dropped. -/
def Spared (lib : Libp2p) (s : System Manager Handler Loaders) (l : Work Env Call Move Meets) : Prop :=
  ∀ a env bs, l = .work a env bs → s.world.Spares lib a

section Reached

variable {lib : Libp2p} {codec : IPFSLoader.Codec} {kind : Str → Saver} {s t : System Manager Handler Loaders}

theorem reaches_lost {n : Nat} {C : System Manager Handler Loaders → Work Env Call Move Meets → Prop}
    (reach : Reaches (System.step machine (loaders lib codec kind)) C s t) (lost : s.world.Lost n) :
    t.world.Lost n := by
  refine reach.invariant (P := fun s => s.world.Lost n) ?_ lost
  intro u l v hu _ step
  refine System.step_world (P := fun x : Loaders => x.Lost n) (C := Free) ?_ ?_ (fun _ _ _ _ => trivial) hu step
  · intro x a y report hx _ work
    obtain ⟨z, hz, same⟩ := Option.map_eq_some_iff.mp work
    obtain rfl : z = y := (Prod.mk.inj same).1
    exact hx.advance hz
  · intro h b x y hx begun
    obtain ⟨w, f, rfl, _⟩ := Loaders.start_new begun
    exact hx.call w f

theorem reaches_owed (reach : Reaches (System.step machine (loaders lib codec kind)) (Spared lib) s t)
    (owed : s.world.Owed) : t.world.Owed := by
  refine reach.invariant (P := fun s => s.world.Owed) ?_ owed
  intro u l v hu spared step
  refine System.step_world (P := Loaders.Owed) (C := Loaders.Spares lib) ?_ ?_ spared hu step
  · intro x a y report hx spares work
    obtain ⟨z, hz, same⟩ := Option.map_eq_some_iff.mp work
    obtain rfl : z = y := (Prod.mk.inj same).1
    exact hx.advance spares hz
  · intro h b x y hx begun
    obtain ⟨w, f, rfl, new⟩ := Loaders.start_new begun
    exact hx.call new.owed f

/-- From every state the manager, its loaders and its savers can bring every callback to its
report without a further call, up to the callbacks that are lost. Those are never told. While no step
drops the wait of another load, throws in a device or in the clean-up of a publishing, the lost ones
are those of the saves to local files that name no file. -/
theorem system_drains {managed parsers savers : List Str} {dht : Bool} {files : Storage}
    (reach : Reaches (System.step machine (loaders lib codec kind)) Free (begun managed parsers savers dht files) s) :
    (∃ t, Reaches (System.step machine (loaders lib codec kind)) Uncalled s t ∧
      ∀ n, n < t.started.length → t.world.told n ≠ [] ∨ t.world.Lost n) ∧
    (∀ n, s.world.Lost n →
      ∀ t, Reaches (System.step machine (loaders lib codec kind)) Free s t → t.world.told n = []) ∧
    (Reaches (System.step machine (loaders lib codec kind)) (Spared lib) (begun managed parsers savers dht files) s →
      ∀ n, s.world.Lost n ↔ ∃ h data, s.started[n]? = some h ∧ h.Saves kind .mnn data ∧
        (MNNSaver.toSave data).first = []) := by
  have tells := loaders_tell lib codec kind
  have sound := (System.refines machine_begins tells (begun_fine kind managed parsers savers dht files) reach).1
  refine ⟨?_, ?_, ?_⟩
  · exact System.drains machine_begins tells (loaders_goOn lib codec kind) (machine_settles lib codec kind) {} sound
  · intro n lost t later
    exact (reaches_lost later lost).untold
  · intro spared n
    have start : (begun managed parsers savers dht files).world.Owed :=
      ⟨IPFSDevice.balanced_created dht, fun n w known => by cases known⟩
    exact (reaches_owed spared start).lost_iff sound

end Reached

/-- A file that is looked for on the shared device. -/
def pinned (file : Str) : Load := ⟨"ipfs://Q/".toList ++ file, false, false, 0, true, []⟩

/-- Two searches that find no provider; the wait of the second drops the first. -/
def searchSteps : List (Work Env Call Move Meets) :=
  [.call (.load (pinned ['a']) false) [{}], .call (.load (pinned ['b']) false) [{}],
    .work (.post 0 {}) {} [], .work (.post 1 {}) {} [],
    .work (.device (.finish 0 (.providers (some [])))) {} [], .work (.device (.run 0 {})) {} [],
    .work (.device (.finish 0 (.providers (some [])))) {} [], .work (.device (.run 0 {})) {} []]

def searchedTwice (s : System Manager Handler Loaders) : Bool :=
  match s.world.workers with
  | [.shared 0, .shared 1] => s.world.device = IPFSDevice.rearmed
  | _ => false

/-- A save to local files with a content and no name. -/
def nameless : Save := ⟨"file://d/".toList, .success (some ⟨[], [['x']]⟩), 0, true⟩

theorem system_drains_nameless :
    (∃ s t : System Manager Handler Loaders,
      Reaches (System.step machine (loaders IPFSDevice.plain anyCodec singletonSaver)) Free
        (begun ["ipfs".toList] [] [] true noFiles) s ∧
      (∀ u, Reaches (System.step machine (loaders IPFSDevice.plain anyCodec singletonSaver)) Free s u →
        u.world.told 0 = []) ∧
      Reaches (System.step machine (loaders IPFSDevice.plain anyCodec singletonSaver)) Uncalled s t ∧
      ∀ n, n < t.started.length → t.world.told n ≠ [] ∨ t.world.Lost n) ∧
    ∃ s : System Manager Handler Loaders,
      Reaches (System.step machine (loaders IPFSDevice.plain anyCodec singletonSaver)) Free
        (begun [] [] ["file".toList] false noFiles) s ∧ s.world.Lost 0 := by
  constructor
  · obtain ⟨s, reach, done⟩ := reaches_of_any
      (System.step machine (loaders IPFSDevice.plain anyCodec singletonSaver))
      (begun ["ipfs".toList] [] [] true noFiles) searchSteps searchedTwice (by decide)
    unfold searchedTwice at done
    split at done
    next both =>
      have rearmed := of_decide_eq_true done
      have lost : s.world.Lost 0 := ⟨.shared 0, by rw [both]; rfl, by rw [rearmed]; rfl⟩
      obtain ⟨⟨t, later, drained⟩, unheard, _⟩ := system_drains reach
      exact ⟨s, t, reach, unheard 0 lost, later, drained⟩
    next => cases done
  · have step : (System.step machine (loaders IPFSDevice.plain anyCodec singletonSaver))
        (begun [] [] ["file".toList] false noFiles)
        (.call (.save nameless false) [{ openings := [.tried true true] }]) = some _ := rfl
    have reach := Reaches.one (C := Free) trivial step
    refine ⟨_, reach, ((system_drains reach).2.2 (Reaches.one (fun a env bs same => by cases same) step) 0).mpr ?_⟩
    exact ⟨_, _, rfl, ⟨_, rfl, by decide⟩, rfl⟩

end FileManager

end AsyncIOManager
