import Mathlib.Data.Finset.Max
import Mathlib.Data.List.Infix
import SkyAccel.Lib.Dict

/-!
# Overrides of the IP database

`findIPOverride` and `GetIPInfo` of `ip-lib.go`. After the address itself, the loop takes the
first key of `ip-override.json` that it meets and that the address begins with, in the random
order of the map. So it is the longest one, and the same in every order, exactly if the
address is a key or all those keys have the same entry (`longest_override_iff`).
-/

namespace SkyAccel.Telemetry

abbrev Bytes := List UInt8

def ascii (text : String) : Bytes := text.toUTF8.data.toList

namespace IPLib

/-! ## Looking up an override -/

section
variable {ν : Type}

/-- The loop meets the entries of the table in the given order. -/
def findIPOverride (order : List (Sigma fun _ : Bytes => ν)) (ipOverrides : Dict Bytes ν)
    (ip : Bytes) : Option ν :=
  match ipOverrides.lookup ip with
  | some ov => some ov
  | none => (order.find? fun entry => entry.1.isPrefixOf ip).map Sigma.snd

/-- What the lookup is for: the entry of the longest key that the address begins with. -/
def IsLongestMatch (ipOverrides : Dict Bytes ν) (ip : Bytes) : Option ν → Prop
  | none => ∀ key ∈ ipOverrides, ¬ key <+: ip
  | some ov => ∃ key, ipOverrides.lookup key = some ov ∧ key <+: ip ∧
      ∀ key' ∈ ipOverrides, key' <+: ip → key'.length ≤ key.length

/-- The keys that the address begins with have one entry. -/
def Agree (ipOverrides : Dict Bytes ν) (ip : Bytes) : Prop :=
  ∀ key key' ov ov', ipOverrides.lookup key = some ov → ipOverrides.lookup key' = some ov' →
    key <+: ip → key' <+: ip → ov = ov'

variable {table : Dict Bytes ν} {ip : Bytes} {order : List (Sigma fun _ : Bytes => ν)}

/-- Without an entry for the address itself. -/
theorem exists_of_findIPOverride (perm : order.Perm table.entries) (absent : table.lookup ip = none)
    {ov : ν} (found : findIPOverride order table ip = some ov) :
    ∃ key, table.lookup key = some ov ∧ key <+: ip := by
  simp only [findIPOverride, absent, Option.map_eq_some_iff] at found
  obtain ⟨⟨key, ov⟩, first, rfl⟩ := found
  refine ⟨key, Dict.lookup_eq_some.mpr (perm.mem_iff.mp (List.mem_of_find?_eq_some first)), ?_⟩
  simpa using List.find?_some first

/-- Any of the entries may be the first. -/
theorem exists_order (absent : table.lookup ip = none) {key : Bytes} {ov : ν}
    (entry : table.lookup key = some ov) (begins : key <+: ip) :
    ∃ order, order.Perm table.entries ∧ findIPOverride order table ip = some ov := by
  obtain ⟨front, back, split⟩ := List.append_of_mem (Dict.lookup_eq_some.mp entry)
  refine ⟨⟨key, ov⟩ :: (front ++ back), ?_, ?_⟩
  · rw [split]
    exact List.perm_middle.symm
  · simp [findIPOverride, absent, begins]

theorem findIPOverride_none_iff (perm : order.Perm table.entries) :
    findIPOverride order table ip = none ↔ ∀ key ∈ table, ¬ key <+: ip := by
  cases exact : table.lookup ip with
  | some ov =>
    simp only [findIPOverride, exact]
    exact iff_of_false (Option.some_ne_none ov)
      fun none => none ip (Dict.mem_iff.mpr ⟨ov, exact⟩) List.prefix_rfl
  | none =>
    simp only [findIPOverride, exact, Option.map_eq_none_iff, List.find?_eq_none,
      List.isPrefixOf_iff_prefix, perm.mem_iff]
    constructor
    · intro none key mem
      obtain ⟨ov, entry⟩ := Dict.mem_iff.mp mem
      exact none ⟨key, ov⟩ (Dict.lookup_eq_some.mp entry)
    · rintro none ⟨key, ov⟩ mem
      exact none key (Dict.mem_iff.mpr ⟨ov, Dict.lookup_eq_some.mpr mem⟩)

/-- There is one longest key. -/
theorem IsLongestMatch.unique {ov ov' : Option ν} (h : IsLongestMatch table ip ov)
    (h' : IsLongestMatch table ip ov') : ov = ov' := by
  cases ov with
  | none =>
    cases ov' with
    | none => rfl
    | some ov' =>
      obtain ⟨key, entry, begins, -⟩ := h'
      exact absurd begins (h key (Dict.mem_iff.mpr ⟨ov', entry⟩))
  | some ov =>
    obtain ⟨key, entry, begins, longest⟩ := h
    cases ov' with
    | none => exact absurd begins (h' key (Dict.mem_iff.mpr ⟨ov, entry⟩))
    | some ov' =>
      obtain ⟨key', entry', begins', longest'⟩ := h'
      have shorter := longest' key (Dict.mem_iff.mpr ⟨ov, entry⟩) begins
      have longer := longest key' (Dict.mem_iff.mpr ⟨ov', entry'⟩) begins'
      have same : key = key' :=
        (List.prefix_of_prefix_length_le begins begins' shorter).eq_of_length
          (Nat.le_antisymm shorter longer)
      rw [← entry, ← entry', same]

theorem exists_longest {key : Bytes} (mem : key ∈ table) (begins : key <+: ip) :
    ∃ key ov, table.lookup key = some ov ∧ key <+: ip ∧
      ∀ key' ∈ table, key' <+: ip → key'.length ≤ key.length := by
  obtain ⟨longest, inside, greatest⟩ := Finset.exists_max_image
    (table.keys.toFinset.filter (· <+: ip)) List.length
    ⟨key, by simp [begins, AList.mem_keys.mp mem]⟩
  simp only [Finset.mem_filter, List.mem_toFinset, ← AList.mem_keys] at inside greatest
  obtain ⟨ov, entry⟩ := Dict.mem_iff.mp inside.1
  exact ⟨longest, ov, entry, inside.2, fun key' mem' begins' => greatest key' ⟨mem', begins'⟩⟩

/-- In any order, if the address is a key or the keys agree. -/
theorem isLongestMatch_of_agree (h : ip ∈ table ∨ Agree table ip)
    (perm : order.Perm table.entries) :
    IsLongestMatch table ip (findIPOverride order table ip) := by
  cases exact : table.lookup ip with
  | some ov =>
    simp only [findIPOverride, exact]
    exact ⟨ip, exact, List.prefix_rfl, fun key' _ begins => begins.length_le⟩
  | none =>
    have agree : Agree table ip := by
      refine h.resolve_left fun mem => ?_
      obtain ⟨ov, entry⟩ := Dict.mem_iff.mp mem
      cases exact.symm.trans entry
    cases found : findIPOverride order table ip with
    | none => exact (findIPOverride_none_iff perm).mp found
    | some ov =>
      obtain ⟨key, entry, begins⟩ := exists_of_findIPOverride perm exact found
      obtain ⟨longest, ov', entry', begins', greatest⟩ :=
        exists_longest (Dict.mem_iff.mpr ⟨ov, entry⟩) begins
      obtain rfl := agree key longest ov ov' entry entry' begins begins'
      exact ⟨longest, entry', begins', greatest⟩

/-- **The override is that of the longest key**, whatever order the loop meets the table in,
exactly if the address is a key or the keys that it begins with have one entry. None is
found exactly if there is no such key. -/
theorem longest_override_iff (table : Dict Bytes ν) (ip : Bytes) :
    (((∀ order, order.Perm table.entries →
        IsLongestMatch table ip (findIPOverride order table ip)) ∧
      ∀ order order', order.Perm table.entries → order'.Perm table.entries →
        findIPOverride order table ip = findIPOverride order' table ip) ↔
      ip ∈ table ∨ Agree table ip) ∧
    ∀ order, order.Perm table.entries →
      (findIPOverride order table ip = none ↔ ∀ key ∈ table, ¬ key <+: ip) := by
  refine ⟨⟨?_, fun h => ⟨fun order perm => isLongestMatch_of_agree h perm, ?_⟩⟩,
    fun order perm => findIPOverride_none_iff perm⟩
  · rintro ⟨longest, -⟩
    by_cases mem : ip ∈ table
    · exact .inl mem
    · right
      intro key key' ov ov' entry entry' begins begins'
      -- each of the two may be met first
      obtain ⟨order, perm, found⟩ := exists_order (AList.lookup_eq_none.mpr mem) entry begins
      obtain ⟨order', perm', found'⟩ := exists_order (AList.lookup_eq_none.mpr mem) entry' begins'
      have same := (longest order perm).unique (longest order' perm')
      rw [found, found'] at same
      exact Option.some.inj same
  · intro order order' perm perm'
    exact (isLongestMatch_of_agree h perm).unique (isLongestMatch_of_agree h perm')

/-- The overrides that may be found: the one of the address itself, or else any one for a
beginning of it. -/
def overrides (ipOverrides : Dict Bytes ν) (ip : Bytes) : List (Option ν) :=
  match ipOverrides.lookup ip with
  | some ov => [some ov]
  | none =>
    match ipOverrides.entries.filter fun entry => entry.1.isPrefixOf ip with
    | [] => [none]
    | found => found.map fun entry => some entry.2

/-- These are the ones of all orders. -/
theorem mem_overrides_iff {ov : Option ν} : ov ∈ overrides table ip ↔
    ∃ order, order.Perm table.entries ∧ findIPOverride order table ip = ov := by
  cases exact : table.lookup ip with
  | some ov' =>
    simp only [overrides, findIPOverride, exact, List.mem_singleton]
    constructor
    · rintro rfl
      exact ⟨_, .refl _, rfl⟩
    · rintro ⟨-, -, rfl⟩
      rfl
  | none =>
    simp only [overrides, exact]
    have matching : ∀ entry, entry ∈ table.entries.filter (fun e => e.1.isPrefixOf ip) ↔
        table.lookup entry.1 = some entry.2 ∧ entry.1 <+: ip := by
      intro entry
      simp [Dict.lookup_eq_some]
    cases listed : table.entries.filter fun e => e.1.isPrefixOf ip with
    | nil =>
      rw [listed] at matching
      have nobody : ∀ key ∈ table, ¬ key <+: ip := by
        intro key mem begins
        obtain ⟨ov, entry⟩ := Dict.mem_iff.mp mem
        exact List.not_mem_nil ((matching ⟨key, ov⟩).mpr ⟨entry, begins⟩)
      simp only [List.mem_singleton]
      constructor
      · rintro rfl
        exact ⟨_, .refl _, (findIPOverride_none_iff (.refl _)).mpr nobody⟩
      · rintro ⟨order, perm, rfl⟩
        exact (findIPOverride_none_iff perm).mpr nobody
    | cons first rest =>
      rw [listed] at matching
      simp only [List.mem_map]
      constructor
      · rintro ⟨entry, mem, rfl⟩
        obtain ⟨found, begins⟩ := (matching entry).mp mem
        exact exists_order exact found begins
      · rintro ⟨order, perm, rfl⟩
        cases found : findIPOverride order table ip with
        | none =>
          obtain ⟨entry, begins⟩ := (matching first).mp List.mem_cons_self
          exact absurd begins
            ((findIPOverride_none_iff perm).mp found _ (Dict.mem_iff.mpr ⟨_, entry⟩))
        | some ov =>
          obtain ⟨key, entry, begins⟩ := exists_of_findIPOverride perm exact found
          exact ⟨⟨key, ov⟩, (matching ⟨key, ov⟩).mpr ⟨entry, begins⟩, rfl⟩

end

/-! ## The answer for an address -/

structure IPOverride where
  country : Bytes
  continent : Bytes
  province : Bytes
  city : Bytes
  deriving DecidableEq

/-- The fields of the database that are read. -/
structure DBRecord where
  countryShort : Bytes
  region : Bytes
  city : Bytes

structure IPInfoResult where
  ip : Bytes
  country : Bytes
  continent : Bytes
  province : Bytes
  city : Bytes
  deriving DecidableEq

/-- The IP database with its `Get_all`, if it could be opened, and the tables. -/
structure Env where
  ipDb : Option (Bytes → Except String DBRecord)
  countryToContinent : Dict Bytes Bytes
  ipOverrides : Dict Bytes IPOverride

def Env.getContinentByCountry (env : Env) (country : Bytes) : Bytes :=
  (env.countryToContinent.lookup country).getD (ascii "Unknown")

def IPInfoResult.override (result : IPInfoResult) (ov : IPOverride) : IPInfoResult :=
  { result with
    country := if ov.country ≠ [] then ov.country else result.country
    continent := if ov.continent ≠ [] then ov.continent else result.continent
    province := if ov.province ≠ [] then ov.province else result.province
    city := if ov.city ≠ [] then ov.city else result.city }

/-- The result for an address, with the override that is found for it. -/
def Env.ipInfo (env : Env) (ip : Bytes) (override : Option IPOverride) :
    Except String IPInfoResult :=
  match env.ipDb with
  | none => .error "ipDb is nil"
  | some getAll =>
    match getAll ip with
    | .error err => .error err
    | .ok res =>
      let result : IPInfoResult :=
        ⟨ip, res.countryShort, env.getContinentByCountry res.countryShort, res.region, res.city⟩
      match override with
      | none => .ok result
      | some ov => .ok (result.override ov)

def Env.getIPInfo (order : List (Sigma fun _ : Bytes => IPOverride)) (env : Env) (ip : Bytes) :
    Except String IPInfoResult :=
  env.ipInfo ip (findIPOverride order env.ipOverrides ip)

/-- What `GetIPInfo` may return. -/
def Env.answers (env : Env) (ip : Bytes) : List (Except String IPInfoResult) :=
  (overrides env.ipOverrides ip).map (env.ipInfo ip)

theorem mem_answers_iff {env : Env} {ip : Bytes} {answer : Except String IPInfoResult} :
    answer ∈ env.answers ip ↔
      ∃ order, order.Perm env.ipOverrides.entries ∧ env.getIPInfo order ip = answer := by
  simp only [Env.answers, Env.getIPInfo, List.mem_map, mem_overrides_iff]
  constructor
  · rintro ⟨_, ⟨order, perm, rfl⟩, same⟩
    exact ⟨order, perm, same⟩
  · rintro ⟨order, perm, same⟩
    exact ⟨_, ⟨order, perm, rfl⟩, same⟩

/-- Where the keys agree, a client does not move between answers. -/
theorem getIPInfo_order {env : Env} {ip : Bytes}
    (h : ip ∈ env.ipOverrides ∨ Agree env.ipOverrides ip)
    {order order' : List (Sigma fun _ : Bytes => IPOverride)}
    (perm : order.Perm env.ipOverrides.entries) (perm' : order'.Perm env.ipOverrides.entries) :
    env.getIPInfo order ip = env.getIPInfo order' ip := by
  have same := (isLongestMatch_of_agree h perm).unique (isLongestMatch_of_agree h perm')
  simp only [Env.getIPInfo, same]

/-! ## Two keys for one address -/

def inCity (city : String) : IPOverride := ⟨[], [], [], ascii city⟩

def wide : Sigma fun _ : Bytes => IPOverride := ⟨ascii "47.", inCity "Hangzhou"⟩

def narrow : Sigma fun _ : Bytes => IPOverride := ⟨ascii "47.86.", inCity "Seoul"⟩

/-- A database that knows nothing, and two overrides. -/
def nested : Env where
  ipDb := some fun _ => .ok ⟨ascii "-", ascii "-", ascii "-"⟩
  countryToContinent := ∅
  ipOverrides := ((∅ : Dict Bytes IPOverride).insert narrow.1 narrow.2).insert wide.1 wide.2

theorem longest_narrow :
    IsLongestMatch nested.ipOverrides (ascii "47.86.1.1") (some (inCity "Seoul")) := by
  have keys : ∀ key ∈ nested.ipOverrides.keys, key <+: ascii "47.86.1.1" →
      key.length ≤ narrow.1.length := by
    decide +kernel
  exact ⟨narrow.1, by decide +kernel, by decide +kernel, fun key mem => keys key mem⟩

/-- The client is in Hangzhou or in Seoul, as the loop happens to meet the entries. -/
theorem shorter_override_found :
    ([wide, narrow].Perm nested.ipOverrides.entries ∧
      findIPOverride [wide, narrow] nested.ipOverrides (ascii "47.86.1.1") =
        some (inCity "Hangzhou") ∧
      (nested.getIPInfo [wide, narrow] (ascii "47.86.1.1")).toOption.map IPInfoResult.city =
        some (ascii "Hangzhou") ∧
      ¬ IsLongestMatch nested.ipOverrides (ascii "47.86.1.1") (some (inCity "Hangzhou"))) ∧
    [narrow, wide].Perm nested.ipOverrides.entries ∧
      findIPOverride [narrow, wide] nested.ipOverrides (ascii "47.86.1.1") =
        some (inCity "Seoul") ∧
      (nested.getIPInfo [narrow, wide] (ascii "47.86.1.1")).toOption.map IPInfoResult.city =
        some (ascii "Seoul") := by
  refine ⟨⟨by decide +kernel, by decide +kernel, by decide +kernel, fun longest => ?_⟩,
    by decide +kernel, by decide +kernel, by decide +kernel⟩
  exact absurd (longest.unique longest_narrow) (by decide +kernel)

/-- The address itself is a key. -/
theorem longest_override_exact :
    IsLongestMatch nested.ipOverrides (ascii "47.86.")
      (findIPOverride [wide, narrow] nested.ipOverrides (ascii "47.86.")) := by
  have found := (longest_override_iff nested.ipOverrides (ascii "47.86.")).1.mpr
    (.inl (by decide +kernel))
  exact found.1 [wide, narrow] (by decide +kernel)

end IPLib

end SkyAccel.Telemetry
