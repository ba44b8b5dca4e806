import Mathlib.Data.Rat.Cast.Order
import Mathlib.Algebra.Order.Field.Rat
import Mathlib.Tactic.Linarith
import Mathlib.Tactic.Ring

/-!
# Token buckets

A bucket begins with `burst` tokens and gains `rate` tokens in each unit of time, up to
`burst`. A call is allowed if it can take a token. `TokenBucket` says this of any type of
limiters, and `bucket` is one that is computed. Limiters that hold the same give the same
answers (`Alike.allow`), and one that has not been used for long enough is full
(`holds_burst`).
-/

namespace SkyAccel

/-- `Holds l t x` says that limiter `l` holds `x` tokens at time `t`, which is not before its
last use. -/
structure TokenBucket (rate burst : ℚ) (L : Type) where
  fresh : L
  allow : L → Int → Bool × L
  Holds : L → Int → ℚ → Prop
  holds_fresh : ∀ t, Holds fresh t burst
  holds_later : ∀ {l t x}, Holds l t x → ∀ {t'}, t ≤ t' →
    Holds l t' (min burst (x + rate * ((t' : ℚ) - t)))
  allow_fst : ∀ {l t x}, Holds l t x → (allow l t).1 = decide (1 ≤ x)
  allow_snd : ∀ {l t x}, Holds l t x → Holds (allow l t).2 t (if 1 ≤ x then x - 1 else x)

namespace TokenBucket

section
variable {rate burst : ℚ} {L : Type} {B : TokenBucket rate burst L} {l l' : L} {t t' : Int} {x : ℚ}

/-- Two limiters hold the same, and no fewer tokens than calls can leave. -/
def Alike (B : TokenBucket rate burst L) (l l' : L) (t : Int) : Prop :=
  ∃ x, min burst 0 ≤ x ∧ B.Holds l t x ∧ B.Holds l' t x

theorem gain_nonneg (nonneg : 0 ≤ rate) (later : t ≤ t') : 0 ≤ rate * ((t' : ℚ) - t) := by
  have since : (0 : ℚ) ≤ (t' : ℚ) - t := by exact_mod_cast Int.sub_nonneg.mpr later
  exact mul_nonneg nonneg since

theorem Alike.later (nonneg : 0 ≤ rate) (h : B.Alike l l' t) (later : t ≤ t') :
    B.Alike l l' t' := by
  obtain ⟨x, least, holds, holds'⟩ := h
  refine ⟨_, le_min (min_le_left _ _) ?_, B.holds_later holds later, B.holds_later holds' later⟩
  linarith [gain_nonneg nonneg later]

/-- They give the same answer, and still hold the same after it. -/
theorem Alike.allow (h : B.Alike l l' t) :
    (B.allow l t).1 = (B.allow l' t).1 ∧ B.Alike (B.allow l t).2 (B.allow l' t).2 t := by
  obtain ⟨x, least, holds, holds'⟩ := h
  refine ⟨(B.allow_fst holds).trans (B.allow_fst holds').symm, _, ?_, B.allow_snd holds,
    B.allow_snd holds'⟩
  split
  · rename_i enough
    exact (min_le_right _ _).trans (by linarith)
  · exact least

theorem holds_full (holds : B.Holds l t x) (later : t ≤ t')
    (full : burst ≤ x + rate * ((t' : ℚ) - t)) : B.Holds l t' burst := by
  have after := B.holds_later holds later
  rwa [min_eq_left full] at after

/-- A limiter is full after a time in which the tokens come back. -/
theorem holds_burst (nonneg : 0 ≤ rate) (least : min burst 0 ≤ x) (holds : B.Holds l t x)
    (later : t ≤ t') (back : burst ≤ 0 ∨ burst ≤ rate * ((t' : ℚ) - t)) :
    B.Holds l t' burst := by
  have gain := gain_nonneg nonneg later
  apply holds_full holds later
  obtain le | le := le_total burst 0
  · rw [min_eq_left le] at least
    linarith
  · rw [min_eq_right le] at least
    obtain none | back := back
    · linarith
    · linarith

theorem holds_burst_later (nonneg : 0 ≤ rate) (full : B.Holds l t burst) (later : t ≤ t') :
    B.Holds l t' burst := by
  apply holds_full full later
  linarith [gain_nonneg nonneg later]

/-! ## Calls at one time -/

/-- The answers to `n` calls at one time, and the limiter after them. -/
def calls (B : TokenBucket rate burst L) (l : L) (t : Int) : Nat → List Bool × L
  | 0 => ([], l)
  | n + 1 => ((B.allow l t).1 :: (B.calls (B.allow l t).2 t n).1, (B.calls (B.allow l t).2 t n).2)

/-- All of the calls are allowed exactly if there is a token for each. -/
theorem calls_eq_iff (holds : B.Holds l t x) (nonneg : 0 ≤ x) (n : Nat) :
    (B.calls l t n).1 = List.replicate n true ↔ (n : ℚ) ≤ x := by
  induction n generalizing l x with
  | zero => simpa [calls] using nonneg
  | succ n ih =>
    simp only [calls, List.replicate_succ, List.cons.injEq, B.allow_fst holds, decide_eq_true_eq,
      Nat.cast_add, Nat.cast_one]
    have after := B.allow_snd holds
    constructor
    · rintro ⟨enough, rest⟩
      rw [if_pos enough] at after
      linarith [(ih after (by linarith)).mp rest]
    · intro enough
      have positive : (0 : ℚ) ≤ n := Nat.cast_nonneg n
      have one : 1 ≤ x := by linarith
      rw [if_pos one] at after
      exact ⟨one, (ih after (by linarith)).mpr (by linarith)⟩

/-- The calls take a token each. -/
theorem calls_holds (holds : B.Holds l t x) (n : Nat) (enough : (n : ℚ) ≤ x) :
    B.Holds (B.calls l t n).2 t (x - n) := by
  induction n generalizing l x with
  | zero => simpa [calls] using holds
  | succ n ih =>
    push_cast at enough
    have positive : (0 : ℚ) ≤ n := Nat.cast_nonneg n
    have after := B.allow_snd holds
    rw [if_pos (by linarith)] at after
    have rest := ih after (by linarith)
    rw [show x - 1 - n = x - (n + 1 : Nat) by push_cast; ring] at rest
    exact rest

end

/-! ## A bucket that is computed -/

/-- The tokens after the last call that was allowed, and its time. -/
structure Bucket where
  tokens : ℚ
  last : Option Int
  deriving DecidableEq

def level (rate burst : ℚ) (b : Bucket) (t : Int) : ℚ :=
  match b.last with
  | none => burst
  | some last => min burst (b.tokens + rate * ((t : ℚ) - last))

def bucket {rate : ℚ} (nonneg : 0 ≤ rate) (burst : ℚ) : TokenBucket rate burst Bucket where
  fresh := ⟨burst, none⟩
  allow b t :=
    if 1 ≤ level rate burst b t then (true, ⟨level rate burst b t - 1, some t⟩) else (false, b)
  Holds b t x := (∀ last ∈ b.last, last ≤ t) ∧ x = level rate burst b t
  holds_fresh t := ⟨nofun, rfl⟩
  holds_later := by
    rintro b t x ⟨used, rfl⟩ t' later
    have gain := gain_nonneg nonneg later
    refine ⟨fun last mem => (used last mem).trans later, ?_⟩
    unfold level
    split
    · exact min_eq_left (by linarith)
    · rename_i last _
      rw [← min_add_add_right, ← min_assoc, min_eq_left (show burst ≤ burst + _ by linarith)]
      congr 1
      ring
  allow_fst := by
    rintro b t x ⟨-, rfl⟩
    split
    · rename_i enough
      simp [enough]
    · rename_i few
      simp [few]
  allow_snd := by
    rintro b t x ⟨used, rfl⟩
    by_cases enough : 1 ≤ level rate burst b t
    · simp only [if_pos enough]
      refine ⟨fun last mem => by simp_all, ?_⟩
      have bound : level rate burst b t ≤ burst := by
        unfold level
        split
        · exact le_refl _
        · exact min_le_left _ _
      simp only [level, sub_self, mul_zero, add_zero] at bound ⊢
      exact (min_eq_right (by linarith)).symm
    · simp only [if_neg enough]
      exact ⟨used, trivial⟩

end TokenBucket

end SkyAccel
