import AsyncIOManager.Runs

namespace Resources

open Reactor

universe u v w

variable {σ : Type u} {ℓ : Type v} {ρ : Type w}

/-- What the entries of a log acquire and release. -/
structure Ledger (ℓ : Type v) (ρ : Type w) where
  acquires : ℓ → Option ρ
  releases : ℓ → Option ρ

namespace Ledger

variable [DecidableEq ρ] (k : Ledger ℓ ρ)

def acquired (log : List ℓ) (r : ρ) : Nat := log.countP fun l => k.acquires l = some r

def released (log : List ℓ) (r : ρ) : Nat := log.countP fun l => k.releases l = some r

/-- Everything acquired has been released exactly as often. -/
def Settled (log : List ℓ) : Prop := ∀ r, k.acquired log r = k.released log r

/-- What is still held after a log. -/
def Holding (log : List ℓ) (held : ρ → Nat) : Prop :=
  ∀ r, k.acquired log r = k.released log r + held r

/-- The entries that neither acquire nor release. -/
def Neutral (log : List ℓ) : Prop := ∀ l ∈ log, k.acquires l = none ∧ k.releases l = none

variable {k}

theorem acquired_append (first second : List ℓ) (r : ρ) :
    k.acquired (first ++ second) r = k.acquired first r + k.acquired second r :=
  List.countP_append

theorem released_append (first second : List ℓ) (r : ρ) :
    k.released (first ++ second) r = k.released first r + k.released second r :=
  List.countP_append

@[simp] theorem acquired_nil (r : ρ) : k.acquired [] r = 0 := rfl
@[simp] theorem released_nil (r : ρ) : k.released [] r = 0 := rfl

theorem acquired_cons (l : ℓ) (log : List ℓ) (r : ρ) :
    k.acquired (l :: log) r = k.acquired log r + if k.acquires l = some r then 1 else 0 := by
  simp [acquired, List.countP_cons]

theorem released_cons (l : ℓ) (log : List ℓ) (r : ρ) :
    k.released (l :: log) r = k.released log r + if k.releases l = some r then 1 else 0 := by
  simp [released, List.countP_cons]

theorem Neutral.counts {log : List ℓ} (h : k.Neutral log) (r : ρ) :
    k.acquired log r = 0 ∧ k.released log r = 0 := by
  refine ⟨List.countP_eq_zero.mpr ?_, List.countP_eq_zero.mpr ?_⟩
  · intro l hl
    simp [(h l hl).1]
  · intro l hl
    simp [(h l hl).2]

theorem settled_insert {first middle last : List ℓ} (h : k.Neutral middle) :
    k.Settled (first ++ (middle ++ last)) ↔ k.Settled (first ++ last) := by
  have same : ∀ r, k.acquired (first ++ (middle ++ last)) r = k.acquired (first ++ last) r ∧
      k.released (first ++ (middle ++ last)) r = k.released (first ++ last) r := by
    intro r
    have counts := h.counts r
    simp only [acquired_append, released_append]
    omega
  unfold Settled
  apply forall_congr'
  intro r
  rw [(same r).1, (same r).2]

theorem Holding.settled_iff {log : List ℓ} {held : ρ → Nat} (h : k.Holding log held) :
    k.Settled log ↔ ∀ r, held r = 0 := by
  apply forall_congr'
  intro r
  have owed := h r
  omega

/-- What a state says it holds is what its run has acquired and not released. -/
theorem holding_exec {step : σ → ℓ → Option σ} {held : σ → ρ → Nat} {s t : σ} {log : List ℓ}
    (start : ∀ r, held s r = 0)
    (keep : ∀ u l v r, step u l = some v →
      held u r + (if k.acquires l = some r then 1 else 0) =
        held v r + if k.releases l = some r then 1 else 0)
    (h : exec step s log = some t) : k.Holding log (held t) := by
  refine exec_history (I := fun log t => k.Holding log (held t)) ?_ ?_ h
  · intro r
    simp [acquired, released, start]
  · intro log u l v ih step_l r
    have owed := ih r
    have change := keep u l v r step_l
    simp only [acquired_append, released_append]
    simp only [acquired, released, List.countP_singleton, decide_eq_true_eq] at owed change ⊢
    omega

end Ledger

end Resources
