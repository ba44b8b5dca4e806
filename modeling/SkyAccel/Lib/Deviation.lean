import Mathlib

/-!
# Where a list leaves a collection of lists

A root of a collection is a proper beginning of one of its members. A list
deviates at a root when it goes on from there by a step no member takes. A list
that is comparable with no member deviates at exactly one root, and adding to
the collection a list that deviates at one root changes nothing at the others.
-/

namespace SkyAccel.Deviation

variable {α : Type} {A : List (List α)} {r r' p q : List α}

def Root (A : List (List α)) (r : List α) : Prop := r ≠ [] ∧ ∃ a ∈ A, r <+: a ∧ r ≠ a

/-- No member goes on from `r` by `h`. -/
def Untaken (A : List (List α)) (r : List α) (h : α) : Prop := ∀ a ∈ A, ¬ r ++ [h] <+: a

def Deviates (A : List (List α)) (r p : List α) : Prop :=
  Root A r ∧ ∃ h, r ++ [h] <+: p ∧ Untaken A r h

theorem Root.append (h : Root A r) (p : List α) : Root (A ++ [p]) r := by
  obtain ⟨ne, a, ha, proper⟩ := h
  exact ⟨ne, a, List.mem_append_left _ ha, proper⟩

theorem Deviates.proper (h : Deviates A r p) : r <+: p ∧ r ≠ p := by
  obtain ⟨-, b, hb, -⟩ := h
  refine ⟨(List.prefix_append r [b]).trans hb, ?_⟩
  rintro rfl
  have := hb.length_le
  simp at this

theorem Deviates.not_mem (h : Deviates A r p) : p ∉ A := by
  obtain ⟨-, b, hb, untaken⟩ := h
  exact fun hp => untaken p hp hb

/-- A shorter root would be left by a step that the longer one takes. -/
theorem Deviates.length_le (h : Deviates A r p) (h' : Deviates A r' p) :
    r'.length ≤ r.length := by
  by_contra longer
  obtain ⟨-, b, hb, untaken⟩ := h
  obtain ⟨a, ha, hr', -⟩ := h'.1.2
  have inside : r ++ [b] <+: r' := by
    refine List.prefix_of_prefix_length_le hb h'.proper.1 ?_
    rw [List.length_append, List.length_singleton]
    omega
  exact untaken a ha (inside.trans hr')

theorem Deviates.unique (h : Deviates A r p) (h' : Deviates A r' p) : r = r' := by
  have same : r.length = r'.length := le_antisymm (h'.length_le h) (h.length_le h')
  have le : r.length ≤ r'.length := by omega
  exact (List.prefix_of_prefix_length_le h.proper.1 h'.proper.1 le).eq_of_length same

theorem exists_deviates {s : α} (hp : p.head? = some s) (hA : ∃ a ∈ A, a.head? = some s)
    (apart : ∀ a ∈ A, ¬ p <+: a ∧ ¬ a <+: p) : ∃ r, Deviates A r p := by
  classical
  have leaves : ∃ n, ∀ a ∈ A, ¬ p.take n <+: a := by
    refine ⟨p.length, fun a ha => ?_⟩
    rw [List.take_length]
    exact (apart a ha).1
  -- the root is the longest beginning of `p` that some member shares
  set n := Nat.find leaves with hn
  have untaken := Nat.find_spec leaves
  rw [← hn] at untaken
  obtain ⟨a₀, ha₀, first⟩ := hA
  have two : 2 ≤ n := by
    by_contra small
    refine untaken a₀ ha₀ ?_
    obtain ⟨t, ht⟩ : ∃ t, a₀ = s :: t := List.head?_eq_some_iff.mp first
    obtain ⟨u, hu⟩ : ∃ u, p = s :: u := List.head?_eq_some_iff.mp hp
    rw [ht, hu]
    obtain h | h : n = 0 ∨ n = 1 := by omega
    · simp [h]
    · simp [h]
  have shared : ∃ a ∈ A, p.take (n - 1) <+: a := by
    by_contra none
    push Not at none
    have := Nat.find_min' leaves none
    omega
  obtain ⟨a, ha, hr⟩ := shared
  have inside : n - 1 < p.length := by
    by_contra long
    rw [List.take_of_length_le (by omega)] at hr
    exact (apart a ha).1 hr
  have step : p.take (n - 1) ++ [p[n - 1]] = p.take n := by
    rw [List.take_concat_get' p (n - 1) inside, Nat.sub_add_cancel (by omega)]
  refine ⟨p.take (n - 1), ⟨?_, a, ha, hr, ?_⟩, p[n - 1], ?_, ?_⟩
  · intro h
    have := congrArg List.length h
    rw [List.length_take, List.length_nil] at this
    omega
  · intro h
    exact (apart a ha).2 (h ▸ List.take_prefix (n - 1) p)
  · rw [step]; exact List.take_prefix n p
  · intro b hb
    rw [step]
    exact untaken b hb

/-- Adding a list that deviates at another root takes no step from this one. -/
theorem Deviates.untaken_append (h : Deviates A r' p) (root : Root A r) (ne : r ≠ r') (b : α) :
    Untaken (A ++ [p]) r b ↔ Untaken A r b := by
  constructor
  · exact fun u a ha => u a (List.mem_append_left _ ha)
  · intro u a ha
    rcases List.mem_append.mp ha with ha | ha
    · exact u a ha
    · obtain rfl := List.mem_singleton.mp ha
      exact fun hb => ne (Deviates.unique ⟨root, b, hb, u⟩ h)

end SkyAccel.Deviation
