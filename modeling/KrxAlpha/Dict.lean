import Mathlib.Data.List.Induction
import Mathlib.Algebra.BigOperators.Group.Finset.Basic
import Mathlib.Algebra.Order.BigOperators.Group.List
import Mathlib.Tactic.Ring

/-! Insertion-ordered dictionaries, the keyed container a dynamic language
iterates in the order its keys first arrived. Overwriting a key keeps its
place, a new key goes to the end, and iteration order is therefore part of
what a traversal can observe. Nothing here refers to a particular program. -/
namespace KrxAlpha
open List hiding count

universe u v

/-- Pieces that are kept or dropped as a whole, with their items. -/
theorem filter_flatMap_whole {items : List α} {piece : α → List β} {p : β → Bool} {q : α → Bool}
    (whole : ∀ item ∈ items, ∀ part ∈ piece item, p part = q item) :
    (items.flatMap piece).filter p = (items.filter q).flatMap piece := by
  induction items with
  | nil => rfl
  | cons item rest ih =>
    obtain ⟨here, later⟩ := forall_mem_cons.mp whole
    rw [flatMap_cons, filter_append, ih later, filter_congr here, filter_cons]
    cases q item <;> simp

section Own

variable {α β κ : Type*} [DecidableEq κ] {items : List α} {item : α} {owner : α → κ}
  (distinct : (items.map owner).Nodup) (listed : item ∈ items)
include distinct listed

/-- Of items with keys of their own, one has the key. -/
theorem filter_own : items.filter (owner · = owner item) = [item] := by
  have once : (items.filter (owner · = owner item)).Nodup := (distinct.of_map _).filter _
  refine perm_singleton.mp ((perm_ext_iff_of_nodup once (nodup_singleton _)).mpr fun other => ?_)
  rw [mem_filter, decide_eq_true_eq, mem_singleton]
  exact ⟨fun ⟨held, same⟩ => inj_on_of_nodup_map distinct held listed same, by rintro rfl; exact ⟨listed, rfl⟩⟩

/-- Of the pieces of items with labels of their own, those under an item's label are its own. -/
theorem filter_flatMap_own {piece : α → List β} {label : β → κ}
    (labelled : ∀ other, ∀ part ∈ piece other, label part = owner other) :
    (items.flatMap piece).filter (label · = owner item) = piece item := by
  rw [filter_flatMap_whole fun other _ part member => by rw [labelled other part member],
    filter_own distinct listed, flatMap_singleton]

end Own

/-- Keys are distinct by construction, so a lookup never depends on which of
two entries is met first. -/
structure Dict (κ : Type u) (ν : Type v) where
  entries : List (κ × ν)
  distinct : (entries.map Prod.fst).Nodup

namespace Dict

variable {κ : Type u} {ν : Type v} {first second : Dict κ ν}

theorem ext_entries (same : first.entries = second.entries) :
    first = second := by
  cases first
  cases second
  cases same
  rfl

def empty : Dict κ ν := ⟨[], List.nodup_nil⟩

instance : EmptyCollection (Dict κ ν) := ⟨empty⟩

def keys (dict : Dict κ ν) : List κ := dict.entries.map Prod.fst

def values (dict : Dict κ ν) : List ν := dict.entries.map Prod.snd

theorem keys_nodup (dict : Dict κ ν) : dict.keys.Nodup := dict.distinct

@[simp] theorem entries_empty : (∅ : Dict κ ν).entries = [] := rfl

variable [DecidableEq κ]

def find (key : κ) : List (κ × ν) → Option ν
  | [] => none
  | (other, value) :: rest => if other = key then some value else find key rest

/-- Replace the value in place, or append the key when it is new. -/
def store (key : κ) (value : ν) : List (κ × ν) → List (κ × ν)
  | [] => [(key, value)]
  | (other, previous) :: rest =>
    if other = key then (other, value) :: rest else (other, previous) :: store key value rest

variable {entries : List (κ × ν)}

theorem find_eq_lookup (key : κ) (entries : List (κ × ν)) : find key entries = entries.lookup key := by
  induction entries with
  | nil => rfl
  | cons entry rest ih =>
    obtain ⟨other, value⟩ := entry
    by_cases same : other = key
    · simp [find, same]
    · simp [find, lookup_cons, same, beq_false_of_ne (Ne.symm same), ih]

theorem find_none_iff : find key entries = none ↔ key ∉ entries.map Prod.fst := by
  rw [find_eq_lookup, lookup_eq_none_iff]
  simp only [bne_iff_ne, mem_map, not_exists, not_and, ne_comm, ne_eq]

theorem store_append {front : List (κ × ν)} (absent : key ∉ front.map Prod.fst)
    (back : List (κ × ν)) : store key value (front ++ back) = front ++ store key value back := by
  induction front with
  | nil => rfl
  | cons entry rest ih =>
    obtain ⟨other, previous⟩ := entry
    simp only [map_cons, mem_cons, not_or] at absent
    simp [store, Ne.symm absent.1, ih absent.2]

theorem store_of_absent
    (absent : key ∉ entries.map Prod.fst) : store key value entries = entries ++ [(key, value)] := by
  simpa [store] using store_append absent []

theorem find_store (key probe : κ) (value : ν) (entries : List (κ × ν)) :
    find probe (store key value entries) =
      if probe = key then some value else find probe entries := by
  induction entries with
  | nil =>
    by_cases same : probe = key
    · simp [store, find, same]
    · simp [store, find, same, Ne.symm same]
  | cons entry rest ih =>
    obtain ⟨other, previous⟩ := entry
    by_cases here : other = key
    · subst here
      by_cases same : probe = other
      · simp [store, find, same]
      · simp [store, find, same, Ne.symm same]
    · by_cases same : other = probe
      · subst same
        simp [store, find, here]
      · simp [store, find, here, same, ih]

theorem keys_store_of_present (present : key ∈ entries.map Prod.fst) :
    (store key value entries).map Prod.fst = entries.map Prod.fst := by
  induction entries with
  | nil => simp at present
  | cons entry rest ih =>
    obtain ⟨other, previous⟩ := entry
    by_cases same : other = key
    · simp [store, same]
    · have tail : key ∈ rest.map Prod.fst := by simpa [Ne.symm same] using present
      simp [store, same, ih tail]

theorem store_distinct (distinct : (entries.map Prod.fst).Nodup) :
    ((store key value entries).map Prod.fst).Nodup := by
  by_cases present : key ∈ entries.map Prod.fst
  · rw [keys_store_of_present present]
    exact distinct
  · rw [store_of_absent present, map_append]
    exact nodup_append.mpr ⟨distinct, by simp, by
      intro probe member other single equal
      simp only [map_cons, map_nil, mem_singleton] at single
      exact present (single ▸ equal ▸ member)⟩

def get? (dict : Dict κ ν) (key : κ) : Option ν := find key dict.entries

def contains (dict : Dict κ ν) (key : κ) : Bool := (dict.get? key).isSome

def set (dict : Dict κ ν) (key : κ) (value : ν) : Dict κ ν :=
  ⟨store key value dict.entries, store_distinct dict.distinct⟩

def erase (dict : Dict κ ν) (key : κ) : Dict κ ν :=
  ⟨dict.entries.filter (fun entry => entry.1 ≠ key),
    dict.distinct.sublist (List.filter_sublist.map _)⟩

omit [DecidableEq κ] in
/-- Delete the oldest keys. -/
def dropOldest (dict : Dict κ ν) (count : Nat) : Dict κ ν :=
  ⟨dict.entries.drop count, dict.distinct.sublist ((List.drop_sublist _ _).map _)⟩

/-- A comprehension over pairs: a repeated key keeps its first place and its
last value. -/
def ofList (pairs : List (κ × ν)) : Dict κ ν :=
  pairs.foldl (fun dict pair => dict.set pair.1 pair.2) ∅

omit [DecidableEq κ] in
private theorem keys_map (change : ν → ν) (entries : List (κ × ν)) :
    (entries.map fun entry => (entry.1, change entry.2)).map Prod.fst = entries.map Prod.fst := by
  simp

omit [DecidableEq κ] in
/-- Change every value in place. -/
def mapValues (dict : Dict κ ν) (change : ν → ν) : Dict κ ν :=
  ⟨dict.entries.map fun entry => (entry.1, change entry.2), by
    rw [keys_map]
    exact dict.distinct⟩

@[simp] theorem get?_empty (key : κ) : (∅ : Dict κ ν).get? key = none := rfl

theorem get?_set (dict : Dict κ ν) (key probe : κ) (value : ν) :
    (dict.set key value).get? probe = if probe = key then some value else dict.get? probe :=
  find_store key probe value dict.entries

@[simp] theorem get?_set_self (dict : Dict κ ν) (key : κ) (value : ν) :
    (dict.set key value).get? key = some value := by
  simp [get?_set]

variable {dict : Dict κ ν}

theorem get?_set_of_ne (different : probe ≠ key) :
    (dict.set key value).get? probe = dict.get? probe := by
  simp [get?_set, different]

/-- What holds of the value written and of every value there was holds of all. -/
theorem forall_set {P : κ → ν → Prop} (here : P key value)
    (elsewhere : ∀ probe other, dict.get? probe = some other → P probe other) :
    ∀ probe other, (dict.set key value).get? probe = some other → P probe other := by
  intro probe other held
  rw [get?_set] at held
  split at held
  · rename_i same
    cases held
    exact same ▸ here
  · exact elsewhere probe other held

theorem get?_eq_none : dict.get? key = none ↔ key ∉ dict.keys :=
  find_none_iff

theorem mem_keys_iff : key ∈ dict.keys ↔ (dict.get? key).isSome := by
  rw [← not_iff_not, ← get?_eq_none, Option.not_isSome_iff_eq_none]

theorem mem_keys_of_get?
    (found : dict.get? key = some value) : key ∈ dict.keys := by
  by_contra absent
  rw [get?_eq_none.mpr absent] at found
  cases found

omit [DecidableEq κ] in
@[simp] theorem keys_mapValues (dict : Dict κ ν) (change : ν → ν) :
    (dict.mapValues change).keys = dict.keys :=
  keys_map change dict.entries

theorem split_of_get? {value : ν} (found : dict.get? key = some value) :
    ∃ front back, dict.entries = front ++ (key, value) :: back := by
  rw [get?, find_eq_lookup, lookup_eq_some_iff] at found
  obtain ⟨front, back, shape, -⟩ := found
  exact ⟨front, back, shape⟩

/-- A lookup finds the one entry of its key; most of what a lookup finds follows from what the
entries are. -/
theorem mem_entries_iff : (key, value) ∈ dict.entries ↔ dict.get? key = some value := by
  have listed {value : ν} (found : dict.get? key = some value) : (key, value) ∈ dict.entries := by
    obtain ⟨front, back, shape⟩ := split_of_get? found
    simp [shape]
  refine ⟨fun member => ?_, listed⟩
  cases found : dict.get? key with
  | none => exact absurd (mem_map_of_mem member) (get?_eq_none.mp found)
  | some other =>
    have same := inj_on_of_nodup_map dict.distinct (listed found) member rfl
    rw [(Prod.mk.inj same).2]

theorem get?_of_split
    (shape : dict.entries = front ++ (key, value) :: back) : dict.get? key = some value :=
  mem_entries_iff.mp (by simp [shape])

theorem get?_erase (dict : Dict κ ν) (key probe : κ) :
    (dict.erase key).get? probe = if probe = key then none else dict.get? probe := by
  ext value
  rw [← mem_entries_iff]
  by_cases same : probe = key
  · simp [erase, same]
  · simp [erase, same, mem_entries_iff]

theorem get?_mapValues (dict : Dict κ ν) (change : ν → ν) (key : κ) :
    (dict.mapValues change).get? key = (dict.get? key).map change := by
  ext value
  rw [← mem_entries_iff]
  simp [mapValues, mem_entries_iff]

/-! ### Comprehensions -/

theorem ofList_concat (pairs : List (κ × ν)) (pair : κ × ν) :
    ofList (pairs ++ [pair]) = (ofList pairs).set pair.1 pair.2 :=
  foldl_concat ..

/-- A comprehension holds nothing but its pairs. -/
theorem mem_of_ofList {key : κ} {value : ν}
    (found : (ofList pairs).get? key = some value) : (key, value) ∈ pairs := by
  induction pairs using reverseRecOn with
  | nil => cases found
  | append_singleton pairs pair ih =>
    rw [ofList_concat, get?_set] at found
    split_ifs at found with same
    · cases found
      simp [same]
    · exact mem_append_left _ (ih found)

/-- Over distinct keys a comprehension is its list of pairs. -/
theorem entries_ofList {pairs : List (κ × ν)} (distinct : (pairs.map Prod.fst).Nodup) :
    (ofList pairs).entries = pairs := by
  induction pairs using reverseRecOn with
  | nil => rfl
  | append_singleton pairs pair ih =>
    rw [map_append, nodup_append'] at distinct
    obtain ⟨early, -, apart⟩ := distinct
    have absent : pair.1 ∉ (ofList pairs).entries.map Prod.fst := by
      rw [ih early]
      exact fun member => apart member (by simp)
    rw [ofList_concat]
    exact (store_of_absent absent).trans (by rw [ih early])

omit [DecidableEq κ] in
private theorem keys_filterMap_sublist (key : ι → κ) (value : ι → Option ν) (items : List ι) :
    ((items.filterMap fun item => (value item).map (key item, ·)).map Prod.fst).Sublist
      (items.map key) := by
  induction items with
  | nil => simp
  | cons item rest ih =>
    cases here : value item with
    | none => simpa [here] using ih.cons _
    | some found => simpa [here] using ih

variable {items : List ι}

/-- A comprehension with a condition, over items with distinct keys, read back at an
item. -/
theorem get?_ofList_filterMap {key : ι → κ} (value : ι → Option ν)
    (distinct : (items.map key).Nodup) (listed : item ∈ items) :
    (ofList (items.filterMap fun item => (value item).map (key item, ·))).get? (key item) =
      value item := by
  ext held
  rw [← mem_entries_iff,
    entries_ofList (distinct.sublist (keys_filterMap_sublist key value items)), mem_filterMap]
  constructor
  · rintro ⟨other, among, here⟩
    obtain ⟨own, stored, same⟩ := Option.map_eq_some_iff.mp here
    obtain ⟨keys, rfl⟩ := Prod.mk.inj same
    rwa [inj_on_of_nodup_map distinct listed among keys.symm]
  · exact fun stored => ⟨item, listed, by rw [stored]; rfl⟩

/-! ### Writing -/

theorem entries_set_at (shape : dict.entries = front ++ (key, previous) :: back) :
    (dict.set key value).entries = front ++ (key, value) :: back := by
  have distinct := dict.distinct
  rw [shape, map_append, map_cons, nodup_middle, nodup_cons] at distinct
  simp only [set, shape]
  rw [store_append fun member => distinct.1 (mem_append_left _ member)]
  simp [store]

theorem entries_set_new (absent : dict.get? key = none) :
    (dict.set key value).entries = dict.entries ++ [(key, value)] :=
  store_of_absent (find_none_iff.mp absent)

theorem keys_set_of_present
    (found : dict.get? key = some previous) : (dict.set key value).keys = dict.keys :=
  keys_store_of_present (by_contra fun absent => by simp [get?, find_none_iff.mpr absent] at found)

theorem keys_set_new (absent : dict.get? key = none) :
    (dict.set key value).keys = dict.keys ++ [key] := by
  simp [keys, entries_set_new absent]

theorem get?_of_dropOldest
    (found : (dict.dropOldest count).get? key = some value) : dict.get? key = some value :=
  mem_entries_iff.mp (mem_of_mem_drop (mem_entries_iff.mpr found))

/-- Dictionaries with the same keys in the same order and the same values are equal. -/
theorem ext_get? (keys : first.keys = second.keys)
    (same : ∀ key value, first.get? key = some value → second.get? key = some value) :
    first = second := by
  have listed (dict : Dict κ ν) :
      dict.entries.map (Prod.map id some) = dict.keys.map fun key => (key, dict.get? key) := by
    rw [Dict.keys, map_map]
    exact map_congr_left fun entry member =>
      congrArg (Prod.mk entry.1) (mem_entries_iff.mp member).symm
  refine ext_entries (map_injective_iff.mpr
    (Function.injective_id.prodMap (Option.some_injective ν)) ?_)
  rw [listed, listed, ← keys]
  refine map_congr_left fun key member => ?_
  obtain ⟨value, found⟩ := Option.isSome_iff_exists.mp (mem_keys_iff.mp member)
  rw [found, same key value found]

theorem present_of_keys (keys : first.keys = second.keys)
    (found : first.get? key = some value) : ∃ other, second.get? key = some other := by
  cases held : second.get? key with
  | some other => exact ⟨other, rfl⟩
  | none =>
    rw [get?_eq_none, ← keys, ← get?_eq_none, found] at held
    cases held

theorem mem_values_iff :
    value ∈ dict.values ↔ ∃ key, dict.get? key = some value := by
  constructor
  · intro member
    obtain ⟨⟨key, held⟩, inside, rfl⟩ := mem_map.mp member
    exact ⟨key, mem_entries_iff.mp inside⟩
  · rintro ⟨key, found⟩
    exact mem_map.mpr ⟨(key, value), mem_entries_iff.mpr found, rfl⟩

/-- Writing back the value a key already has changes nothing. -/
theorem set_same (found : dict.get? key = some value) :
    dict.set key value = dict := by
  obtain ⟨front, back, shape⟩ := split_of_get? found
  exact ext_entries ((entries_set_at shape).trans shape.symm)

/-- Of two writes to a key only the second remains. -/
theorem set_set (dict : Dict κ ν) (key : κ) (first second : ν) :
    (dict.set key first).set key second = dict.set key second := by
  cases found : dict.get? key with
  | none =>
    have absent : (dict.set key first).entries = dict.entries ++ (key, first) :: [] :=
      entries_set_new found
    exact ext_entries ((entries_set_at absent).trans (entries_set_new found).symm)
  | some value =>
    obtain ⟨front, back, shape⟩ := split_of_get? found
    exact ext_entries ((entries_set_at (entries_set_at shape)).trans (entries_set_at shape).symm)

/-! ### Totals over the values -/

/-- The total of a measure over every value. -/
def total (dict : Dict κ ν) (measure : ν → ℤ) : ℤ := (dict.values.map measure).sum

omit [DecidableEq κ] in
@[simp] theorem total_empty (measure : ν → ℤ) : (∅ : Dict κ ν).total measure = 0 := rfl

/-- Overwriting one value moves a total by exactly that value's difference. -/
theorem total_set_present (measure : ν → ℤ)
    (found : dict.get? key = some previous) :
    (dict.set key value).total measure = dict.total measure - measure previous + measure value := by
  obtain ⟨front, back, shape⟩ := split_of_get? found
  simp only [total, values, entries_set_at shape, shape, map_append, map_cons,
    sum_append, sum_cons]
  ring

theorem total_set_new (measure : ν → ℤ) (absent : dict.get? key = none) :
    (dict.set key value).total measure = dict.total measure + measure value := by
  simp [total, values, entries_set_new absent]

/-- What stands under a key in the entries is its value. -/
theorem filter_key (dict : Dict κ ν) (key : κ) :
    dict.entries.filter (·.1 = key) = (dict.get? key).toList.map (key, ·) := by
  cases found : dict.get? key with
  | none =>
    refine filter_eq_nil_iff.mpr fun entry member same => get?_eq_none.mp found ?_
    exact mem_map.mpr ⟨entry, member, of_decide_eq_true same⟩
  | some value => exact filter_own dict.distinct (mem_entries_iff.mpr found)

/-- Deleting a key takes its value's contribution off a total. -/
theorem total_erase (measure : ν → ℤ) (found : dict.get? key = some value) :
    (dict.erase key).total measure = dict.total measure - measure value := by
  have parts := ((filter_append_perm (fun entry => decide (entry.1 = key)) dict.entries).map
    fun entry => measure entry.2).sum_eq
  rw [filter_key, found] at parts
  simp only [Option.toList_some, map_append, map_cons, map_nil, sum_append, sum_cons, sum_nil] at parts
  simp only [total, values, erase, map_map, Function.comp_def, ← parts, ne_eq, decide_not]
  ring

variable {measure : ν → ℤ}

section

variable (nonneg : ∀ key value, dict.get? key = some value → 0 ≤ measure value)
include nonneg

private theorem contributions_nonneg :
    ∀ contribution ∈ dict.values.map measure, 0 ≤ contribution := by
  intro contribution inside
  obtain ⟨value, held, rfl⟩ := mem_map.mp inside
  obtain ⟨key, stored⟩ := mem_values_iff.mp held
  exact nonneg key value stored

/-- With no negative contribution, one value is part of the total. -/
theorem le_total (found : dict.get? key = some value) : measure value ≤ dict.total measure := by
  have member : measure value ∈ dict.values.map measure :=
    mem_map_of_mem (mem_values_iff.mpr ⟨key, found⟩)
  exact single_le_sum (contributions_nonneg nonneg) _ member

theorem total_nonneg : 0 ≤ dict.total measure :=
  sum_nonneg (contributions_nonneg nonneg)

end

theorem total_congr {measure other : ν → ℤ}
    (same : ∀ key value, dict.get? key = some value → measure value = other value) :
    dict.total measure = dict.total other := by
  refine congrArg sum (map_congr_left fun value inside => ?_)
  obtain ⟨key, found⟩ := mem_values_iff.mp inside
  exact same key value found

omit [DecidableEq κ] in
/-- A sum over selected values is a total in which the others count nothing. -/
theorem sum_filter_eq_total (dict : Dict κ ν) (select : ν → Bool) (measure : ν → ℤ) :
    ((dict.values.filter select).map measure).sum =
      dict.total fun value => if select value then measure value else 0 := by
  simp only [total]
  induction dict.values with
  | nil => rfl
  | cons value rest ih => by_cases chosen : select value <;> simp [chosen, ih]

/-! ### Selected values -/

theorem values_set_new (absent : dict.get? key = none) :
    (dict.set key value).values = dict.values ++ [value] := by
  simp [values, entries_set_new absent]

/-- Deleting a key whose value is not selected leaves the selected values. -/
theorem filter_values_erase {select : ν → Bool}
    (unselected : ∀ value, dict.get? key = some value → select value = false) :
    (dict.erase key).values.filter select = dict.values.filter select := by
  simp only [values, erase, filter_map, filter_filter]
  refine congrArg (map Prod.snd) (filter_congr fun entry inside => ?_)
  by_cases same : entry.1 = key
  · have found : dict.get? key = some entry.2 := same ▸ mem_entries_iff.mp inside
    simp [same, unselected entry.2 found]
  · simp [same]

variable (keyOf : ι → κ)

/-- Items that each key's weight has room for are no more than all the weights. -/
theorem length_le_sum (weight : ν → ℕ) (dict : Dict κ ν)
    (within : ∀ key, items.countP (keyOf · = key) ≤ ((dict.get? key).map weight).getD 0) :
    items.length ≤ (dict.values.map weight).sum := by
  have known : ∀ key ∈ (items.map keyOf : Multiset κ), key ∈ dict.keys.toFinset := by
    intro key member
    obtain ⟨item, listed, rfl⟩ := mem_map.mp member
    have held : 0 < items.countP (keyOf · = keyOf item) :=
      countP_pos_iff.mpr ⟨item, listed, by simp⟩
    refine mem_toFinset.mpr (by_contra fun absent => ?_)
    have bound := within (keyOf item)
    rw [get?_eq_none.mpr absent, Option.map_none, Option.getD_none] at bound
    omega
  have classes := Multiset.sum_count_eq_card known
  rw [List.sum_toFinset _ dict.keys_nodup, Multiset.coe_card, length_map] at classes
  rw [← classes, Dict.keys, values, map_map, map_map]
  refine sum_le_sum fun entry member => ?_
  have bound := within entry.1
  rw [mem_entries_iff.mp member, Option.map_some, Option.getD_some] at bound
  simpa [count_eq_countP, countP_map, Function.comp_def, Bool.beq_eq_decide_eq] using bound

/-! ### Groups -/

/-- Items under their keys, each group in the items' order: `setdefault(key, []).append(item)`. -/
def groups {ι : Type*} (keyOf : ι → κ) (items : List ι) : Dict κ (List ι) :=
  items.foldl (fun dict item => dict.set (keyOf item) ((dict.get? (keyOf item)).getD [] ++ [item])) ∅

theorem groups_concat (items : List ι) (item : ι) :
    groups keyOf (items ++ [item]) = (groups keyOf items).set (keyOf item)
      (((groups keyOf items).get? (keyOf item)).getD [] ++ [item]) :=
  foldl_concat ..

theorem get?_groups (items : List ι) (key : κ) :
    ((groups keyOf items).get? key).getD [] = items.filter (keyOf · = key) := by
  induction items using reverseRecOn with
  | nil => rfl
  | append_singleton items item ih =>
    rw [groups_concat, get?_set, filter_append]
    split_ifs with own
    · rw [Option.getD_some, ← own, ih]
      simp [own]
    · simp [ih, Ne.symm own]

private theorem groups_filled (items : List ι) (key : κ) :
    (groups keyOf items).get? key ≠ some [] := by
  induction items using reverseRecOn with
  | nil => simp [groups]
  | append_singleton items item ih =>
    rw [groups_concat, get?_set]
    split_ifs
    · simp
    · exact ih

/-- A key has a group if an item has it. -/
theorem mem_groups {keyOf : ι → κ} (member : (key, group) ∈ (groups keyOf items).entries) :
    group = items.filter (keyOf · = key) ∧ group ≠ [] := by
  have found := mem_entries_iff.mp member
  have own := get?_groups keyOf items key
  rw [found] at own
  refine ⟨own, ?_⟩
  rintro rfl
  exact groups_filled keyOf items key found

theorem values_under_key (dict : Dict κ (List ι)) (key : κ) :
    (dict.entries.filter (·.1 = key)).flatMap (·.2) = (dict.get? key).getD [] := by
  rw [filter_key]
  cases dict.get? key <;> simp

end Dict
end KrxAlpha
