import Mathlib

namespace Text

universe u

variable {α : Type u}

theorem singleton_infix_iff {c : α} {s : List α} : [c] <:+: s ↔ c ∈ s := by
  constructor
  · intro occurs
    exact occurs.subset (List.mem_singleton_self c)
  · intro mem
    obtain ⟨front, back, rfl⟩ := List.append_of_mem mem
    exact ⟨front, back, by simp⟩

/-- A pattern whose first letter does not come again, so that no two occurrences overlap. -/
def Sharp : List α → Prop
  | [] => False
  | c :: tail => c ∉ tail

/-- An occurrence of a sharp pattern does not run into another one. -/
theorem Sharp.clear {pat front back : List α} (sharp : Sharp pat) (absent : ¬ pat <:+: front) :
    ∀ j < front.length, ¬ pat <+: front.drop j ++ (pat ++ back) := by
  intro j hj occurs
  rcases List.prefix_or_prefix_of_prefix occurs (List.prefix_append _ _) with within | across
  · exact absent (within.isInfix.trans (List.drop_suffix j front).isInfix)
  · obtain ⟨rest, split⟩ := across
    have next : rest <+: pat ++ back := by
      rw [← List.prefix_append_right_inj (front.drop j), split]
      exact occurs
    obtain ⟨d, piece, hd⟩ := List.exists_cons_of_length_pos (l := front.drop j) (by simp; omega)
    cases rest with
    | nil =>
      rw [List.append_nil] at split
      exact absent (split ▸ (List.drop_suffix j front).isInfix)
    | cons e rest =>
      rw [hd, List.cons_append] at split
      subst split
      obtain ⟨same, _⟩ := List.cons_prefix_cons.mp next
      exact sharp (by simp [same])

/-- In a text with a sharp pattern at its end, the pattern comes only there if and only if it
is not in what stands before. -/
theorem Sharp.only_end_iff {pat front : List α} (sharp : Sharp pat) :
    (∀ i, pat <+: (front ++ pat).drop i → i = front.length) ↔ ¬ pat <:+: front := by
  have some : pat ≠ [] := by
    rintro rfl
    exact sharp
  have pos := List.length_pos_of_ne_nil some
  constructor
  · rintro last ⟨s, t, rfl⟩
    have early := last s.length
      (by
        rw [List.append_assoc s pat t, List.append_assoc s (pat ++ t) pat, List.drop_left, List.append_assoc]
        exact List.prefix_append _ _)
    rw [List.length_append, List.length_append] at early
    omega
  · intro absent i occurs
    rcases Nat.lt_trichotomy i front.length with before | here | behind
    · have clear : ¬ pat <+: front.drop i ++ (pat ++ []) := sharp.clear absent i before
      rw [List.append_nil] at clear
      rw [List.drop_append_of_le_length (Nat.le_of_lt before)] at occurs
      exact absurd occurs clear
    · exact here
    · have short := occurs.length_le
      rw [List.length_drop, List.length_append] at short
      omega

/-- No occurrence of `pat` touches an occurrence of `mark`. -/
def Avoids (pat mark : List α) : Prop :=
  (∀ k < pat.length, 0 < k → ¬ pat.drop k <+: mark ∧ ¬ mark <+: pat.drop k) ∧
    ∀ k < mark.length, ¬ mark.drop k <+: pat ∧ ¬ pat <+: mark.drop k

/-- An occurrence of `pat` lies before or after one of `mark`. -/
theorem Avoids.infix_iff {pat mark front back : List α} (avoids : Avoids pat mark) :
    pat <:+: front ++ (mark ++ back) ↔ pat <:+: front ∨ pat <:+: back := by
  obtain ⟨before, after⟩ := avoids
  constructor
  · intro occurs
    rcases List.infix_append_iff_ne_nil.mp occurs with early | late | ⟨l, r, lsome, rsome, rfl, -, next⟩
    · exact .inl early
    · right
      rcases List.infix_append_iff_ne_nil.mp late with within | late | ⟨l, r, lsome, -, rfl, ends, -⟩
      · obtain ⟨s, t, rfl⟩ := within
        cases pat with
        | nil => exact List.nil_infix
        | cons c pat =>
          exact absurd (by simp) (after s.length (by simp)).2
      · exact late
      · obtain ⟨s, rfl⟩ := ends
        have short : s.length < (s ++ l).length := by
          have some := List.length_pos_of_ne_nil lsome
          simp; omega
        exact absurd (by simp) (after s.length short).1
    · have inside := before l.length
        (by have some := List.length_pos_of_ne_nil rsome; simp; omega) (List.length_pos_of_ne_nil lsome)
      rw [List.drop_left] at inside
      rcases List.prefix_or_prefix_of_prefix next (List.prefix_append _ _) with short | long
      · exact absurd short inside.1
      · exact absurd long inside.2
  · intro occurs
    rcases occurs with early | late
    · exact early.trans (List.prefix_append _ _).isInfix
    · exact late.trans ((List.suffix_append mark back).trans (List.suffix_append _ _)).isInfix

theorem first_occurrence {pat s : List α} (occurs : pat <:+: s) (some : pat ≠ []) :
    ∃ front back, s = front ++ (pat ++ back) ∧ ¬ pat <:+: front := by
  induction s with
  | nil => exact absurd (List.infix_nil.mp occurs) some
  | cons c s ih =>
    by_cases here : pat <+: c :: s
    · obtain ⟨back, split⟩ := here
      exact ⟨[], back, split.symm, fun early => some (List.infix_nil.mp early)⟩
    · rcases List.infix_cons_iff.mp occurs with now | later
      · exact absurd now here
      · obtain ⟨front, back, rfl, absent⟩ := ih later
        refine ⟨c :: front, back, rfl, fun early => ?_⟩
        rcases List.infix_cons_iff.mp early with now | before
        · exact here (now.trans (List.prefix_append (c :: front) _))
        · exact absent before

theorem last_occurrence {c : α} {s : List α} (mem : c ∈ s) : ∃ front back, s = front ++ c :: back ∧ c ∉ back := by
  obtain ⟨back, front, split, absent⟩ := List.eq_append_cons_of_mem (List.mem_reverse.mpr mem)
  refine ⟨front.reverse, back.reverse, ?_, by simpa using absent⟩
  have reversed := congrArg List.reverse split
  simpa using reversed

variable [DecidableEq α]

instance (pat mark : List α) : Decidable (Avoids pat mark) :=
  inferInstanceAs (Decidable (_ ∧ _))

instance (pat : List α) : Decidable (Sharp pat) :=
  match pat with
  | [] => inferInstanceAs (Decidable False)
  | c :: tail => inferInstanceAs (Decidable (c ∉ tail))

/-- Position of the first occurrence of `pat` in `s`. -/
def find (pat : List α) : List α → Option Nat
  | [] => if pat = [] then some 0 else none
  | c :: s => if pat <+: c :: s then some 0 else (find pat s).map (· + 1)

/-- Position of the last occurrence of `pat` in `s`. -/
def rfind (pat : List α) : List α → Option Nat
  | [] => if pat = [] then some 0 else none
  | c :: s =>
    match rfind pat s with
    | some i => some (i + 1)
    | none => if pat <+: c :: s then some 0 else none

theorem rfind_none_iff {c : α} {s : List α} : rfind [c] s = none ↔ c ∉ s := by
  induction s with
  | nil => simp [rfind]
  | cons d s ih =>
    simp only [rfind]
    cases later : rfind [c] s with
    | some i =>
      have mem : c ∈ s := by
        by_contra absent
        rw [ih.mpr absent] at later
        cases later
      simp [mem]
    | none => simp [ih.mp later]

theorem rfind_last {c : α} (front : List α) {back : List α} (last : c ∉ back) :
    rfind [c] (front ++ c :: back) = some front.length := by
  induction front with
  | nil => simp [rfind, rfind_none_iff.mpr last]
  | cons d front ih => simp [rfind, ih]

theorem find_none_iff {pat s : List α} : find pat s = none ↔ ¬ pat <:+: s := by
  induction s with
  | nil => simp [find]
  | cons c s ih =>
    simp only [find, List.infix_cons_iff]
    by_cases here : pat <+: c :: s
    · simp [here]
    · simp [here, ih]

theorem find_self (pat back : List α) : find pat (pat ++ back) = some 0 := by
  cases pat with
  | nil => cases back <;> simp [find]
  | cons c pat => simp [find]

/-- Text in which no occurrence starts only moves the first one. -/
theorem find_append {pat front s : List α} (clear : ∀ j < front.length, ¬ pat <+: front.drop j ++ s) :
    find pat (front ++ s) = (find pat s).map (· + front.length) := by
  induction front with
  | nil => simp
  | cons c front ih =>
    have here : ¬ pat <+: c :: (front ++ s) := clear 0 (by simp)
    have later : ∀ j < front.length, ¬ pat <+: front.drop j ++ s := by
      intro j hj
      exact clear (j + 1) (by simpa using hj)
    rw [List.cons_append, find, if_neg here, ih later, Option.map_map]
    congr 1

theorem find_sharp {pat front : List α} (sharp : Sharp pat) (absent : ¬ pat <:+: front) (back : List α) :
    find pat (front ++ (pat ++ back)) = some front.length := by
  rw [find_append (sharp.clear absent), find_self]
  simp

theorem find_char {c : α} {front back : List α} (absent : c ∉ front) :
    find [c] (front ++ c :: back) = some front.length :=
  find_sharp (show Sharp [c] by simp [Sharp]) (by rwa [singleton_infix_iff]) back

/-- The text before the first occurrence of `pat`, all of it if there is none. -/
def upTo (pat s : List α) : List α :=
  match find pat s with
  | none => s
  | some index => s.take index

theorem upTo_isPrefix (pat s : List α) : upTo pat s <+: s := by
  unfold upTo
  split
  · exact List.prefix_rfl
  · exact List.take_prefix _ _

theorem upTo_none {pat s : List α} (absent : ¬ pat <:+: s) : upTo pat s = s := by
  rw [upTo, find_none_iff.mpr absent]

theorem upTo_char (c : α) (s : List α) : c ∉ upTo [c] s := by
  by_cases mem : c ∈ s
  · obtain ⟨front, back, rfl, absent⟩ := List.eq_append_cons_of_mem mem
    simpa [upTo, find_char absent] using absent
  · rwa [upTo_none (by rwa [singleton_infix_iff])]

/-- A cut text still holds the first occurrence of a pattern, or holds none. -/
theorem find_take {pat s : List α} (some : pat ≠ []) {i : Nat} (found : find pat s = .some i) (n : Nat) :
    find pat (s.take n) = if i + pat.length ≤ n then .some i else none := by
  have pos := List.length_pos_of_ne_nil some
  induction s generalizing i n with
  | nil => simp [find, some] at found
  | cons c s ih =>
    cases n with
    | zero =>
      rw [List.take_zero, if_neg (by omega)]
      simp [find, some]
    | succ n =>
      have start : pat <+: (c :: s).take (n + 1) ↔ pat <+: c :: s ∧ pat.length ≤ n + 1 := List.prefix_take_iff
      rw [List.take_succ_cons] at start ⊢
      rw [find] at found ⊢
      by_cases here : pat <+: c :: s
      · rw [if_pos here] at found
        obtain rfl := Option.some.inj found
        by_cases fits : pat.length ≤ n + 1
        · rw [if_pos (start.mpr ⟨here, fits⟩), if_pos (by omega)]
        · rw [if_neg (fun early => fits (start.mp early).2), if_neg (by omega)]
          have short : ¬ pat <:+: s.take n := by
            intro occurs
            have length := occurs.length_le
            rw [List.length_take] at length
            omega
          rw [find_none_iff.mpr short]
          rfl
      · rw [if_neg here] at found
        obtain ⟨j, later, rfl⟩ := Option.map_eq_some_iff.mp found
        rw [if_neg (fun early => here (start.mp early).1), ih later n]
        by_cases fits : j + pat.length ≤ n
        · rw [if_pos fits, if_pos (by omega)]
          rfl
        · rw [if_neg fits, if_neg (by omega)]
          rfl

/-- A text has one first occurrence of a sharp pattern. -/
theorem Sharp.first_unique {pat a b x y : List α} (sharp : Sharp pat) (ha : ¬ pat <:+: a) (hb : ¬ pat <:+: b)
    (same : a ++ (pat ++ x) = b ++ (pat ++ y)) : a = b ∧ x = y := by
  have found := find_sharp sharp ha x
  rw [same, find_sharp sharp hb y] at found
  have length : b.length = a.length := Option.some.inj found
  obtain ⟨front, rest⟩ := List.append_inj same length.symm
  exact ⟨front, List.append_cancel_left rest⟩

/-- A prefix of a text that holds a pattern reaches to the end of the first occurrence. -/
theorem Sharp.first_in_prefix {pat front back p : List α} (sharp : Sharp pat) (absent : ¬ pat <:+: front)
    (start : p <+: front ++ (pat ++ back)) (occurs : pat <:+: p) : ∃ rest, p = front ++ (pat ++ rest) := by
  have some : pat ≠ [] := fun empty => by
    subst empty
    exact sharp
  obtain ⟨first, rest, rfl, absent'⟩ := first_occurrence occurs some
  obtain ⟨more, split⟩ := start
  rw [List.append_assoc, List.append_assoc] at split
  obtain ⟨rfl, _⟩ := sharp.first_unique absent' absent split
  exact ⟨rest, rfl⟩

/-- Read segments into a buffer until it holds `pat`. -/
def readUntil (pat : List α) (buffer : List α) : List (List α) → Option (List α)
  | [] => if pat <:+: buffer then some buffer else none
  | segment :: segments =>
    if pat <:+: buffer then some buffer else readUntil pat (buffer ++ segment) segments

/-- The buffer ends with the first segment after which it holds the pattern. -/
theorem readUntil_first {pat buffer : List α} {segments : List (List α)}
    (occurs : pat <:+: buffer ++ segments.flatten) :
    ∃ k, readUntil pat buffer segments = some (buffer ++ (segments.take k).flatten) ∧
      pat <:+: buffer ++ (segments.take k).flatten ∧
      ∀ j, pat <:+: buffer ++ (segments.take j).flatten → k ≤ j := by
  induction segments generalizing buffer with
  | nil =>
    have here : pat <:+: buffer := by simpa using occurs
    exact ⟨0, by simp [readUntil, here], by simpa using here, by simp⟩
  | cons segment segments ih =>
    by_cases here : pat <:+: buffer
    · exact ⟨0, by simp [readUntil, here], by simpa using here, by simp⟩
    · have later : pat <:+: (buffer ++ segment) ++ segments.flatten := by simpa using occurs
      obtain ⟨k, gives, holds, first⟩ := ih later
      refine ⟨k + 1, ?_, by simpa using holds, ?_⟩
      · simpa [readUntil, here] using gives
      · intro j hj
        cases j with
        | zero => exact absurd (by simpa using hj) here
        | succ j =>
          have le := first j (by simpa using hj)
          omega

end Text
