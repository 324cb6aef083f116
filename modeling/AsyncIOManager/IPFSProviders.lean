import AsyncIOManager.IPFSCommon
import AsyncIOManager.Text

namespace AsyncIOManager

open Reactor Text

/-- The addresses of a list of providers, each with the peer it is listed under. -/
def peerAddresses (infos : List PeerInfo) : List (PeerId × Multiaddress) :=
  infos.flatMap fun info => info.addresses.map fun address => (info.id, address)

theorem mem_peerAddresses {infos : List PeerInfo} {id : PeerId} {address : Multiaddress} :
    (id, address) ∈ peerAddresses infos ↔ ∃ info ∈ infos, info.id = id ∧ address ∈ info.addresses := by
  simp only [peerAddresses, List.mem_flatMap, List.mem_map, Prod.mk.injEq]
  constructor
  · rintro ⟨info, mem, _, listed, same, rfl⟩
    exact ⟨info, mem, same, listed⟩
  · rintro ⟨info, mem, same, listed⟩
    exact ⟨info, mem, address, listed, same, rfl⟩

theorem peerAddresses_addresses (infos : List PeerInfo) :
    (peerAddresses infos).map Prod.snd = infos.flatMap PeerInfo.addresses := by
  simp [peerAddresses, List.map_flatMap, Function.comp_def]

namespace IPFSDevice

variable (lib : Libp2p)

/-- The peer that an address names at its end. -/
def namedPeer (address : Multiaddress) : Option PeerId := (lib.getPeerId address).bind lib.fromBase58

/-- The providers made of an address are listed under the peer that it names. -/
theorem peerAddresses_peerInfos (addresses : List Multiaddress) :
    peerAddresses (peerInfos lib addresses) =
      addresses.filterMap fun address => (namedPeer lib address).map fun id => (id, address) := by
  induction addresses with
  | nil => rfl
  | cons address addresses ih =>
    have rest := ih
    simp only [peerAddresses, peerInfos] at rest ⊢
    cases bytes : lib.getPeerId address with
    | none => simpa [namedPeer, bytes] using rest
    | some text =>
      cases id : lib.fromBase58 text with
      | none => simpa [namedPeer, bytes, id] using rest
      | some id' => simpa [namedPeer, bytes, id] using rest

theorem mem_peerInfos {addresses : List Multiaddress} {id : PeerId} {address : Multiaddress} :
    (id, address) ∈ peerAddresses (peerInfos lib addresses) ↔ address ∈ addresses ∧ namedPeer lib address = some id := by
  rw [peerAddresses_peerInfos]
  simp only [List.mem_filterMap, Option.map_eq_some_iff, Prod.mk.injEq]
  constructor
  · rintro ⟨_, mem, _, named, rfl, rfl⟩
    exact ⟨mem, named⟩
  · rintro ⟨mem, named⟩
    exact ⟨address, mem, id, named, rfl, rfl⟩

/-- Addresses that name their peers are registered as they are listed. -/
theorem peerAddresses_kept {infos : List PeerInfo}
    (named : ∀ info ∈ infos, ∀ address ∈ info.addresses, namedPeer lib address = some info.id) :
    peerAddresses (peerInfos lib (infos.flatMap PeerInfo.addresses)) = peerAddresses infos := by
  rw [peerAddresses_peerInfos, ← peerAddresses_addresses, List.filterMap_map]
  have own (x : PeerId × Multiaddress) (mem : x ∈ peerAddresses infos) : namedPeer lib x.2 = some x.1 := by
    obtain ⟨info, listed, same, address⟩ := mem_peerAddresses.mp mem
    rw [named info listed x.2 address, same]
  calc
    (peerAddresses infos).filterMap (fun x => (namedPeer lib x.2).map fun id => (id, x.2)) =
        (peerAddresses infos).map id := by
      rw [List.filterMap_eq_map_iff_forall_eq_some]
      intro x mem
      simp [own x mem]
    _ = peerAddresses infos := List.map_id _

/-- The search hands its providers over before the content is requested. -/
theorem providersHandler_providers (i : Nat) (q : Request) (p : PeerInfo) (ps : List PeerInfo) (s : Serving) :
    (providersHandler lib i q (some (p :: ps)) s).state.providers =
      s.state.providers ++ [(q.cid, peerInfos lib ((p :: ps).flatMap PeerInfo.addresses))] := by
  simp only [providersHandler, addAddresses, requestBlockMain, value]
  split <;> rfl

/-- What a search has found is registered: each address with the peer it was found under, and nothing else. -/
def KeepsProviders (i : Nat) (q : Request) (found : List PeerInfo) (s : Serving) : Prop :=
  ∃ infos, (providersHandler lib i q (some found) s).state.providers = s.state.providers ++ [(q.cid, infos)] ∧
    ∀ id address, (id, address) ∈ peerAddresses infos ↔ (id, address) ∈ peerAddresses found

/-- No provider is lost if and only if every address names the peer that it is listed under. -/
theorem providers_kept_iff (i : Nat) (q : Request) (p : PeerInfo) (ps : List PeerInfo) (s : Serving) :
    KeepsProviders lib i q (p :: ps) s ↔
      ∀ info ∈ p :: ps, ∀ address ∈ info.addresses, namedPeer lib address = some info.id := by
  unfold KeepsProviders
  rw [providersHandler_providers]
  constructor
  · rintro ⟨infos, registered, same⟩ info mem address listed
    obtain rfl : peerInfos lib ((p :: ps).flatMap PeerInfo.addresses) = infos := by simpa using registered
    have found := (same info.id address).mpr (mem_peerAddresses.mpr ⟨info, mem, rfl, listed⟩)
    exact ((mem_peerInfos lib).mp found).2
  · intro named
    refine ⟨_, rfl, fun id address => ?_⟩
    rw [peerAddresses_kept lib named]

/-- A library that reads the name of a peer behind the last `/p2p/` of an address. -/
def trailing : Libp2p where
  fromHash _ := true
  toString _ := true
  getPeerId address :=
    match rfind "/p2p/".toList address with
    | none => none
    | some i => if '/' ∈ address.drop (i + 5) then none else some (address.drop (i + 5))
  fromBase58 text := some text

/-- The only provider is listed by an address without its name, and is lost. -/
theorem nameless_provider_lost :
    ∃ q found s, found ≠ [] ∧ ¬ KeepsProviders trailing 0 q found s ∧
      (providersHandler trailing 0 q (some found) s).state.providers = [(q.cid, [])] := by
  have registered : (providersHandler trailing 0 ⟨['Q'], ['f'], 0, false, false⟩
      (some [⟨['A'], ["/ip4/10.0.0.1/tcp/4001".toList]⟩]) (created true)).state.providers = [(['Q'], [])] := by decide
  refine ⟨_, _, _, by simp, ?_, registered⟩
  rintro ⟨infos, kept, same⟩
  rw [registered] at kept
  cases kept
  exact absurd ((same ['A'] "/ip4/10.0.0.1/tcp/4001".toList).mpr (by decide)) (by decide)

end IPFSDevice

end AsyncIOManager
