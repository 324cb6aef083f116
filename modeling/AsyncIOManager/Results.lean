import Mathlib

namespace AsyncIOManager

/-- `std::string` and `std::vector<char>`: a sequence of bytes. -/
abbrev Str := List Char

instance : LawfulBEq Str := inferInstance

def nul : Char := Char.ofNat 0

/-- What `c_str()` hands to a function that looks for the end of the text. -/
def cStr (s : Str) : Str := s.takeWhile fun c => c ≠ nul

theorem cStr_plain {s : Str} (plain : nul ∉ s) : cStr s = s := by
  refine List.takeWhile_eq_self_iff.mpr fun c hc => decide_eq_true ?_
  rintro rfl
  exact plain hc

theorem cStr_append {s : Str} (plain : nul ∉ s) (t : Str) : cStr (s ++ t) = s ++ cStr t := by
  refine List.takeWhile_append_of_pos fun c hc => decide_eq_true ?_
  rintro rfl
  exact plain hc

/-- What follows the first NUL is not looked at. -/
theorem cStr_cut {s : Str} (cut : nul ∈ s) (t : Str) : cStr (s ++ t) = cStr s := by
  obtain ⟨front, rest, rfl, plain⟩ := List.eq_append_cons_of_mem cut
  have ends (r : Str) : cStr (nul :: r) = [] := by simp [cStr]
  rw [List.append_assoc, cStr_append plain, cStr_append plain, List.cons_append, ends, ends]

theorem cStr_eq_iff {s : Str} : cStr s = s ↔ nul ∉ s := by
  refine ⟨fun same cut => ?_, cStr_plain⟩
  have some := List.takeWhile_eq_self_iff.mp same nul cut
  simp at some

inductive HTTPLoader.Error
  | invalidUrl
deriving DecidableEq, Repr

inductive HTTPDevice.Error
  | couldNotResolve | handshakeError | connectError | conInterrupt | noHeader | reqFailed | timeout
deriving DecidableEq, Repr

inductive WSLoader.Error
  | invalidUrl
deriving DecidableEq, Repr

inductive WSDevice.Error
  | couldNotResolve | handshakeError | connectError | noEof | wsHandshakeError
deriving DecidableEq, Repr

inductive IPFSDevice.Error
  | cannotDecode | noSource
deriving DecidableEq, Repr

inductive IPFSLoader.Error
  | cannotListen | badCid | invalidUrl
deriving DecidableEq, Repr

inductive MNNLoader.Error
  | readError | fileOpenFail
deriving DecidableEq, Repr

/-- `std::error_code`: one of the categories of this library. -/
inductive ErrorCode
  | httpLoader (e : HTTPLoader.Error)
  | httpDevice (e : HTTPDevice.Error)
  | wsLoader (e : WSLoader.Error)
  | wsDevice (e : WSDevice.Error)
  | ipfsLoader (e : IPFSLoader.Error)
  | ipfsDevice (e : IPFSDevice.Error)
  | mnnLoader (e : MNNLoader.Error)
  | other (value : Nat)
deriving DecidableEq, Repr

/-- Paths and contents of the loaded files. -/
structure Payload where
  first : List Str
  second : List Str
deriving DecidableEq, Repr

/-- `outcome::result` of a shared pointer, which may be null. -/
inductive ResultType
  | failure (e : ErrorCode)
  | success (buffers : Option Payload)
deriving DecidableEq, Repr

/-- The arguments of one invocation of `handle_read`, the `io_context` apart. -/
structure ReadCall where
  buffers : ResultType
  parse : Bool
  save : Bool
deriving DecidableEq, Repr

/-- `handle_read( ioc, outcome::failure( e ), false, false )`. -/
def ReadCall.failure (e : ErrorCode) : ReadCall := ⟨.failure e, false, false⟩

/-- A report of data is not null and carries the flags of its load. -/
def ReadCall.Flags (c : ReadCall) (parse save : Bool) : Prop :=
  ∀ data, c.buffers = .success data → data.isSome ∧ c.parse = parse ∧ c.save = save

theorem flags_failure (parse save : Bool) (e : ErrorCode) (p q : Bool) :
    ReadCall.Flags ⟨.failure e, p, q⟩ parse save := by
  intro data loaded
  cases loaded

theorem flags_success {parse save p q : Bool} (payload : Payload) (same : p = parse ∧ q = save) :
    ReadCall.Flags ⟨.success (some payload), p, q⟩ parse save := by
  rintro _ ⟨⟩
  exact ⟨rfl, same⟩

end AsyncIOManager
