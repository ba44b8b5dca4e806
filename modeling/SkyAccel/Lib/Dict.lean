import Mathlib.Data.List.AList
import Mathlib.Data.List.Induction
import Mathlib.Algebra.Order.Group.Multiset
import Mathlib.Tactic.Abel

/-!
# Finite maps

A map is an `AList` with one type of values: entries with distinct keys, whose order
says nothing. Mathlib has lookup, `insert` and `erase`; here are the values, a function
applied to each of them, the restriction to the entries that meet a test, and lookup
after each operation as one equation. `lastOf` is what a map holds into which the elements
of a list have been put one by one, each under its key (`lookup_foldl_insert`). In a map
of lists the contents change by what is put in and taken out (`contents_insert`,
`contents_erase`).
-/

namespace SkyAccel

abbrev Dict (κ ν : Type) := AList (fun _ : κ => ν)

namespace Dict

section
variable {κ ν : Type}

def values (m : Dict κ ν) : List ν := m.entries.map Sigma.snd

/-- Delete the entries that do not meet the test. -/
def keep (m : Dict κ ν) (test : κ → ν → Bool) : Dict κ ν :=
  ⟨m.entries.filter fun x => test x.1 x.2, m.nodupKeys.sublist List.filter_sublist⟩

def mapValues {μ : Type} (f : ν → μ) (m : Dict κ ν) : Dict κ μ :=
  ⟨m.entries.map fun x => ⟨x.1, f x.2⟩, by
    have keys := m.nodupKeys
    rw [List.NodupKeys, List.keys] at keys ⊢
    rw [List.map_map]
    exact keys⟩

end

section
variable {κ ν : Type} [DecidableEq κ] {m : Dict κ ν}

theorem lookup_eq_some {k : κ} {v : ν} : m.lookup k = some v ↔ ⟨k, v⟩ ∈ m.entries :=
  AList.mem_lookup_iff

theorem mem_iff {k : κ} : k ∈ m ↔ ∃ v, m.lookup k = some v := by
  rw [← AList.lookup_isSome, Option.isSome_iff_exists]

theorem mem_values {v : ν} : v ∈ m.values ↔ ∃ k, m.lookup k = some v := by
  simp only [values, List.mem_map, lookup_eq_some]
  constructor
  · rintro ⟨⟨k, w⟩, mem, rfl⟩
    exact ⟨k, mem⟩
  · rintro ⟨k, mem⟩
    exact ⟨⟨k, v⟩, mem, rfl⟩

theorem lookup_insert (k : κ) (a : κ) (b : ν) :
    (m.insert a b).lookup k = if k = a then some b else m.lookup k := by
  by_cases same : k = a
  · rw [if_pos same, same, AList.lookup_insert]
  · rw [if_neg same, AList.lookup_insert_ne same]

theorem lookup_erase (k a : κ) :
    (m.erase a).lookup k = if k = a then none else m.lookup k := by
  by_cases same : k = a
  · rw [if_pos same, same, AList.lookup_erase]
  · rw [if_neg same, AList.lookup_erase_ne same]

theorem lookup_mapValues {μ : Type} (f : ν → μ) (k : κ) :
    (m.mapValues f).lookup k = (m.lookup k).map f := by
  apply Option.ext
  intro w
  rw [lookup_eq_some, Option.map_eq_some_iff]
  simp only [mapValues, List.mem_map, lookup_eq_some]
  constructor
  · rintro ⟨⟨a, v⟩, mem, same⟩
    cases same
    exact ⟨v, mem, rfl⟩
  · rintro ⟨v, mem, rfl⟩
    exact ⟨⟨k, v⟩, mem, rfl⟩

theorem lookup_keep {test : κ → ν → Bool} {k : κ} {v : ν} :
    (m.keep test).lookup k = some v ↔ m.lookup k = some v ∧ test k v = true := by
  simp only [lookup_eq_some, keep, List.mem_filter]

end

/-! ## The last of a key -/

section
variable {κ α : Type} [DecidableEq κ] {key : α → κ}

/-- The last element of a list that has the key. -/
def lastOf (key : α → κ) (l : List α) (k : κ) : Option α := l.reverse.find? (key · = k)

theorem lastOf_append (l l' : List α) (k : κ) :
    lastOf key (l ++ l') k = (lastOf key l' k).or (lastOf key l k) := by
  rw [lastOf, List.reverse_append, List.find?_append]
  rfl

theorem lastOf_snoc (l : List α) (a : α) (k : κ) :
    lastOf key (l ++ [a]) k = if key a = k then some a else lastOf key l k := by
  rw [lastOf_append, lastOf, List.reverse_singleton, List.find?_singleton]
  by_cases same : key a = k
  · simp [same]
  · simp [same]

theorem of_lastOf {l : List α} {k : κ} {a : α} (h : lastOf key l k = some a) :
    a ∈ l ∧ key a = k :=
  ⟨List.mem_reverse.mp (List.mem_of_find?_eq_some h), by simpa using List.find?_some h⟩

theorem lastOf_eq_none {l : List α} {k : κ} : lastOf key l k = none ↔ ∀ a ∈ l, key a ≠ k := by
  simp [lastOf]

theorem exists_lastOf {l : List α} {a : α} (mem : a ∈ l) : ∃ b, lastOf key l (key a) = some b := by
  apply Option.isSome_iff_exists.mp
  rw [lastOf, List.find?_isSome]
  exact ⟨a, List.mem_reverse.mpr mem, by simp⟩

variable {ν : Type}

theorem lookup_foldl_insert (key : α → κ) (val : α → ν) (m : Dict κ ν) (l : List α) (k : κ) :
    (l.foldl (fun m a => m.insert (key a) (val a)) m).lookup k =
      ((lastOf key l k).map val).or (m.lookup k) := by
  induction l using List.reverseRecOn with
  | nil => rfl
  | append_singleton l a ih =>
    rw [List.foldl_append, List.foldl_cons, List.foldl_nil, lookup_insert, lastOf_snoc, ih]
    by_cases same : key a = k
    · simp [same]
    · simp [same, Ne.symm same]

/-- The entries of a map have distinct keys, so their order plays no part. -/
theorem lastOf_entries {m : Dict κ ν} {order : List (Sigma fun _ : κ => ν)}
    (perm : order.Perm m.entries) (k : κ) :
    lastOf Sigma.fst order k = (m.lookup k).map (Sigma.mk k) := by
  cases found : m.lookup k with
  | none =>
    apply Option.eq_none_iff_forall_not_mem.mpr
    intro entry last
    obtain ⟨mem, rfl⟩ := of_lastOf last
    have there := lookup_eq_some.mpr (perm.mem_iff.mp mem)
    exact absurd (found.symm.trans there) (Option.some_ne_none _).symm
  | some v =>
    have mem := perm.mem_iff.mpr (lookup_eq_some.mp found)
    obtain ⟨⟨k', w⟩, last⟩ : ∃ entry, lastOf Sigma.fst order k = some entry := exists_lastOf mem
    obtain ⟨mem', rfl⟩ := of_lastOf last
    have there := lookup_eq_some.mpr (perm.mem_iff.mp mem')
    obtain rfl := Option.some.inj (found.symm.trans there)
    exact last

end

/-! ## Maps of lists -/

section
variable {κ α : Type} [DecidableEq κ]

/-- The list of a key, which is empty for a missing one. -/
def listAt (m : Dict κ (List α)) (k : κ) : List α := (m.lookup k).getD []

/-- All that is in the lists. -/
def contents (m : Dict κ (List α)) : List α := m.entries.flatMap Sigma.snd

variable {m : Dict κ (List α)}

theorem listAt_of_lookup {k : κ} {l : List α} (h : m.lookup k = some l) : m.listAt k = l := by
  simp only [listAt, h, Option.getD_some]

theorem listAt_insert (k a : κ) (l : List α) :
    listAt (m.insert a l) k = if k = a then l else m.listAt k := by
  simp only [listAt, lookup_insert]
  split
  · rfl
  · rfl

theorem listAt_erase (k a : κ) : listAt (m.erase a) k = if k = a then [] else m.listAt k := by
  simp only [listAt, lookup_erase]
  split
  · rfl
  · rfl

theorem mem_contents {x : α} : x ∈ m.contents ↔ ∃ k, x ∈ m.listAt k := by
  simp only [contents, List.mem_flatMap]
  constructor
  · rintro ⟨⟨k, l⟩, entry, mem⟩
    refine ⟨k, ?_⟩
    rwa [listAt_of_lookup (lookup_eq_some.mpr entry)]
  · rintro ⟨k, mem⟩
    cases found : m.lookup k with
    | none => simp [listAt, found] at mem
    | some l =>
      rw [listAt_of_lookup found] at mem
      exact ⟨⟨k, l⟩, lookup_eq_some.mp found, mem⟩

theorem contents_erase (m : Dict κ (List α)) (k : κ) :
    (contents (m.erase k) : Multiset α) + m.listAt k = m.contents := by
  cases found : m.lookup k with
  | none =>
    have missing : k ∉ m.entries.keys := AList.lookup_eq_none.mp found
    have same : (m.erase k).entries = m.entries := List.kerase_of_notMem_keys missing
    simp [contents, listAt, found, same]
  | some l =>
    have there : k ∈ m.entries.keys := List.mem_keys_of_mem (lookup_eq_some.mp found)
    obtain ⟨l', before, after, -, split, erased⟩ := List.exists_of_kerase there
    obtain rfl : l' = l := by
      have entry : m.lookup k = some l' := lookup_eq_some.mpr (by simp [split])
      exact Option.some.inj (entry.symm.trans found)
    have rest : (m.erase k).entries = before ++ after := erased
    simp only [contents, rest, split, listAt_of_lookup found, List.flatMap_append,
      List.flatMap_cons, ← Multiset.coe_add]
    abel

theorem contents_insert (m : Dict κ (List α)) (k : κ) (l : List α) :
    (contents (m.insert k l) : Multiset α) + m.listAt k = m.contents + l := by
  have entries : contents (m.insert k l) = l ++ contents (m.erase k) := by
    simp only [contents, AList.entries_insert, List.flatMap_cons]
    rfl
  rw [entries, ← contents_erase m k, ← Multiset.coe_add]
  abel

end

end Dict

end SkyAccel
