import AsyncIOManager.Results
import AsyncIOManager.Runs

namespace AsyncIOManager

open Reactor

namespace IPFSDevice

/-- What has been started of a device of its own host. -/
structure Parts where
  listening : Bool := false
  bitswap : Bool := false
  host : Bool := false
  dht : Bool := false
deriving DecidableEq, Repr

def Parts.Started (d : Parts) : Prop := d.listening ∧ d.bitswap ∧ d.host ∧ d.dht

instance (d : Parts) : Decidable d.Started := inferInstanceAs (Decidable (_ ∧ _))

/-- What a call meets: whether the constructor returns, and the errors of `listen` and of the
start of the DHT. -/
structure Setup where
  constructed : Bool := true
  listenresult : Option ErrorCode := none
  dhtStart : Option ErrorCode := none
deriving DecidableEq, Repr

inductive Answer
  | device (d : Parts)
  | error (e : ErrorCode)
  | exception
deriving DecidableEq, Repr

/-- The singleton after a call, and what the call gives. Only a failed `listen` takes the new
device back. -/
def getInstance (setup : Setup) (device : Option Parts) : Option Parts × Answer :=
  match device with
  | some d => (some d, .device d)
  | none =>
    if setup.constructed = false then (none, .exception)
    else
      match setup.listenresult with
      | some e => (none, .error e)
      | none =>
        let d : Parts := { listening := true, bitswap := true, host := true }
        match setup.dhtStart with
        | some e => (some d, .error e)
        | none => (some { d with dht := true }, .device { d with dht := true })

/-- The singleton and the answer of the last call. -/
structure Singleton where
  device : Option Parts := none
  answer : Option Answer := none
deriving DecidableEq, Repr

def Singleton.call (s : Singleton) (setup : Setup) : Singleton :=
  let (device, answer) := getInstance setup s.device
  ⟨device, some answer⟩

/-- There is a device only when all of it has been started, an error leaves none, and a success
gives a device that is started. -/
def Atomic (s : Singleton) : Prop :=
  (∀ d, s.device = some d → d.Started) ∧
    (∀ e, s.answer = some (.error e) → s.device = none) ∧
    ∀ d, s.answer = some (.device d) → d.Started

/-- The DHT of a device that has been created and listens is started. -/
def StartsDht (s : Singleton) (setup : Setup) : Prop :=
  s.device = none → setup.constructed = true → setup.listenresult = none → setup.dhtStart = none

theorem atomic_empty : Atomic {} := by simp [Atomic]

theorem atomic_call_iff {s : Singleton} (hs : Atomic s) (setup : Setup) :
    Atomic (s.call setup) ↔ StartsDht s setup := by
  obtain ⟨device, answer⟩ := s
  obtain ⟨constructed, listenresult, dhtStart⟩ := setup
  cases device with
  | some d =>
    have started := hs.1 d rfl
    exact iff_of_true ⟨fun _ h => Option.some.inj h ▸ started, by simp [Singleton.call, getInstance],
      fun _ h => by cases h; exact started⟩ (by simp [StartsDht])
  | none =>
    cases constructed with
    | false => simp [Singleton.call, getInstance, Atomic, StartsDht]
    | true =>
      cases listenresult with
      | some e => simp [Singleton.call, getInstance, Atomic, StartsDht]
      | none =>
        cases dhtStart with
        | some e => simp [Singleton.call, getInstance, Atomic, StartsDht]
        | none => simp [Singleton.call, getInstance, Atomic, StartsDht, Parts.Started]

/-- `getInstance` is atomic after every call if and only if no call fails to start the DHT of a
device that it has created. -/
theorem instance_atomic_iff (calls : List Setup) :
    (∀ n, Atomic ((calls.take n).foldl Singleton.call {})) ↔
      ∀ n setup, calls[n]? = some setup → StartsDht ((calls.take n).foldl Singleton.call {}) setup :=
  foldl_always_iff atomic_empty (fun _ setup hs => atomic_call_iff hs setup) calls

/-- The DHT cannot be started in the first call; the second one returns the device all the same. -/
theorem half_started_device_returned :
    ∃ (calls : List Setup) (d : Parts), calls.length = 2 ∧
      (calls.foldl Singleton.call {}).answer = some (.device d) ∧ ¬ d.Started ∧
      ¬ ∀ n, Atomic ((calls.take n).foldl Singleton.call {}) := by
  refine ⟨[{ dhtStart := some (.other 1) }, {}], { listening := true, bitswap := true, host := true }, rfl, rfl,
    by decide, ?_⟩
  intro atomic
  exact absurd ((atomic 2).2.2 _ rfl) (by decide)

end IPFSDevice

end AsyncIOManager
