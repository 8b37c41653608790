import Mathlib.Data.List.Induction
import Mathlib.Data.List.Nodup

/-! Lists of key-value pairs in which a search takes the first match. -/

namespace Assoc

universe u v
variable {κ : Type u} {α : Type v} [DecidableEq κ]

/-- The first pair with the key is replaced; a new key goes to the end. -/
def put (entries : List (κ × α)) (pair : κ × α) : List (κ × α) :=
  match entries with
  | [] => [pair]
  | entry :: rest => if pair.1 = entry.1 then pair :: rest else entry :: put rest pair

/-- A pair is added unless its key is there already. -/
def addMissing (entries : List (κ × α)) (pair : κ × α) : List (κ × α) :=
  if entries.any (·.1 = pair.1) then entries else entries ++ [pair]

theorem lookup_cons (entry : κ × α) (rest : List (κ × α)) (key : κ) :
    (entry :: rest).lookup key = if key = entry.1 then some entry.2 else rest.lookup key := by
  obtain ⟨name, value⟩ := entry
  by_cases same : key = name
  · simp [same]
  · simp [List.lookup_cons, same, beq_eq_false_iff_ne.mpr same]

@[simp] theorem lookup_put (entries : List (κ × α)) (pair : κ × α) (key : κ) :
    (put entries pair).lookup key = if key = pair.1 then some pair.2 else entries.lookup key := by
  induction entries with
  | nil => rw [put, lookup_cons]
  | cons entry rest ih =>
    rw [put]
    split
    next here => rw [lookup_cons, lookup_cons, here]; split <;> rfl
    next other =>
      rw [lookup_cons, lookup_cons, ih]
      by_cases same : key = entry.1
      · simp [same, Ne.symm other]
      · simp [same]

/-- What is kept by its key is found as before. -/
theorem lookup_filter (entries : List (κ × α)) (keep : κ → Bool) (key : κ) :
    (entries.filter fun entry => keep entry.1).lookup key = if keep key then entries.lookup key else none := by
  induction entries with
  | nil => simp
  | cons entry rest ih =>
    rw [lookup_cons, List.filter_cons]
    by_cases same : key = entry.1
    · rw [if_pos same]
      split
      next kept => rw [lookup_cons, if_pos same, same, if_pos kept]
      next gone => rw [ih, same, if_neg gone, if_neg gone]
    · rw [if_neg same]
      split
      next => rw [lookup_cons, if_neg same, ih]
      next => exact ih

theorem lookup_filter_ne (entries : List (κ × α)) {removed key : κ} (other : key ≠ removed) :
    (entries.filter (·.1 ≠ removed)).lookup key = entries.lookup key := by
  rw [lookup_filter entries (· ≠ removed), if_pos (by simpa using other)]

theorem find_snd (entries : List (κ × α)) (key : κ) :
    (entries.find? (key = ·.1)).map Prod.snd = entries.lookup key := by
  induction entries with
  | nil => rfl
  | cons entry rest ih =>
    rw [List.find?_cons, lookup_cons]
    by_cases same : key = entry.1
    · simp [same]
    · simp [same, ih]

theorem lookup_eq_none {entries : List (κ × α)} {key : κ} :
    entries.lookup key = none ↔ entries.any (·.1 = key) = false := by
  simp [List.lookup_eq_none_iff, @eq_comm _ key]

theorem lookup_of_mem {entries : List (κ × α)} (distinct : (entries.map Prod.fst).Nodup) {key : κ} {value : α}
    (inside : (key, value) ∈ entries) : entries.lookup key = some value := by
  induction entries with
  | nil => cases inside
  | cons entry rest ih =>
    rw [List.map_cons, List.nodup_cons] at distinct
    rw [lookup_cons]
    rcases List.mem_cons.mp inside with rfl | inside
    · rw [if_pos rfl]
    · have different : key ≠ entry.1 := by
        rintro rfl
        exact distinct.1 (List.mem_map.mpr ⟨_, inside, rfl⟩)
      rw [if_neg different, ih distinct.2 inside]

theorem mem_of_lookup {entries : List (κ × α)} {key : κ} {value : α} (found : entries.lookup key = some value) :
    (key, value) ∈ entries := by
  obtain ⟨before, after, rfl, -⟩ := List.lookup_eq_some_iff.mp found
  simp

@[simp] theorem lookup_addMissing (entries : List (κ × α)) (pair : κ × α) (key : κ) :
    (addMissing entries pair).lookup key = (entries.lookup key).or (if key = pair.1 then some pair.2 else none) := by
  unfold addMissing
  split
  next present =>
    by_cases same : key = pair.1
    · cases found : entries.lookup key with
      | none => simp [lookup_eq_none.mp (same ▸ found)] at present
      | some value => rfl
    · simp [same]
  next => rw [List.lookup_append, lookup_cons, List.lookup_nil]

theorem nodup_addMissing {entries : List (κ × α)} (distinct : (entries.map Prod.fst).Nodup) (pair : κ × α) :
    ((addMissing entries pair).map Prod.fst).Nodup := by
  unfold addMissing
  split
  next => exact distinct
  next absent =>
    rw [List.map_append, List.map_singleton, ← List.concat_eq_append]
    apply distinct.concat
    simpa using absent

theorem nodup_foldl_addMissing (pairs : List (κ × α)) {entries : List (κ × α)}
    (distinct : (entries.map Prod.fst).Nodup) : ((pairs.foldl addMissing entries).map Prod.fst).Nodup := by
  induction pairs generalizing entries with
  | nil => exact distinct
  | cons pair pairs ih => exact ih (nodup_addMissing distinct pair)

theorem mem_of_put {entries : List (κ × α)} {pair entry : κ × α} (inside : entry ∈ put entries pair) :
    entry = pair ∨ entry ∈ entries := by
  induction entries with
  | nil => exact .inl (List.mem_singleton.mp inside)
  | cons first rest ih =>
    rw [put] at inside
    split at inside
    · rcases List.mem_cons.mp inside with same | later
      · exact .inl same
      · exact .inr (List.mem_cons_of_mem _ later)
    · rcases List.mem_cons.mp inside with same | later
      · exact .inr (by simp [same])
      · rcases ih later with same | old
        · exact .inl same
        · exact .inr (List.mem_cons_of_mem _ old)

theorem nodup_put {entries : List (κ × α)} (distinct : (entries.map Prod.fst).Nodup) (pair : κ × α) :
    ((put entries pair).map Prod.fst).Nodup := by
  induction entries with
  | nil => simp [put]
  | cons first rest ih =>
    rw [List.map_cons, List.nodup_cons] at distinct
    rw [put]
    split
    next same =>
      rw [List.map_cons, List.nodup_cons, same]
      exact distinct
    next other =>
      rw [List.map_cons, List.nodup_cons]
      refine ⟨?_, ih distinct.2⟩
      intro again
      obtain ⟨entry, inside, key⟩ := List.mem_map.mp again
      rcases mem_of_put inside with rfl | old
      · exact other key
      · exact distinct.1 (List.mem_map.mpr ⟨entry, old, key⟩)

theorem put_fresh {entries : List (κ × α)} {pair : κ × α} (fresh : pair.1 ∉ entries.map Prod.fst) :
    put entries pair = entries ++ [pair] := by
  induction entries with
  | nil => rfl
  | cons entry rest ih =>
    rw [List.map_cons, List.mem_cons, not_or] at fresh
    rw [put, if_neg fresh.1, ih fresh.2, List.cons_append]

theorem foldl_put_fresh (pairs entries : List (κ × α)) (distinct : ((entries ++ pairs).map Prod.fst).Nodup) :
    pairs.foldl put entries = entries ++ pairs := by
  induction pairs generalizing entries with
  | nil => simp
  | cons pair pairs ih =>
    have fresh : pair.1 ∉ entries.map Prod.fst := by
      intro inside
      simp only [List.map_append, List.map_cons, List.nodup_append] at distinct
      exact distinct.2.2 _ inside _ (List.mem_cons_self ..) rfl
    rw [List.foldl_cons, put_fresh fresh]
    simpa using ih (entries ++ [pair]) (by simpa using distinct)

theorem keys_put (entries : List (κ × α)) (pair : κ × α) : (put entries pair).map Prod.fst =
    if pair.1 ∈ entries.map Prod.fst then entries.map Prod.fst else entries.map Prod.fst ++ [pair.1] := by
  induction entries with
  | nil => simp [put]
  | cons entry rest ih =>
    rw [put]
    by_cases same : pair.1 = entry.1
    · simp [same]
    · rw [if_neg same, List.map_cons, ih]
      split <;> simp_all

/-- The keys come in the order in which they were first put. -/
theorem keys_foldl_put (pairs : List (κ × α)) :
    (pairs.foldl put []).map Prod.fst = (pairs.map Prod.fst).eraseDups := by
  induction pairs using List.reverseRecOn with
  | nil => rfl
  | append_singleton pairs pair ih =>
    rw [List.foldl_append, List.foldl_cons, List.foldl_nil, keys_put, ih, List.map_append, List.map_singleton,
      List.eraseDups_append]
    by_cases known : pair.1 ∈ pairs.map Prod.fst
    · simp [known, List.removeAll]
    · simp [known, List.removeAll, List.eraseDups_cons]

theorem lookup_foldl_put (pairs entries : List (κ × α)) (key : κ) :
    (pairs.foldl put entries).lookup key = (pairs.reverse.lookup key).or (entries.lookup key) := by
  induction pairs generalizing entries with
  | nil => rfl
  | cons pair pairs ih =>
    rw [List.foldl_cons, ih, lookup_put, List.reverse_cons, List.lookup_append, Option.or_assoc, lookup_cons,
      List.lookup_nil]
    by_cases same : key = pair.1 <;> simp [same]

theorem lookup_foldl_addMissing (pairs entries : List (κ × α)) (key : κ) :
    (pairs.foldl addMissing entries).lookup key = (entries.lookup key).or (pairs.lookup key) := by
  induction pairs generalizing entries with
  | nil => simp
  | cons pair pairs ih =>
    rw [List.foldl_cons, ih, lookup_addMissing, Option.or_assoc, lookup_cons]
    by_cases same : key = pair.1 <;> simp [same]

section Find
variable {ι : Type v} {nameOf : ι → κ} {items : List ι} {name : κ}

theorem find_none (missing : name ∉ items.map nameOf) : items.find? (name = nameOf ·) = none := by
  refine List.find?_eq_none.mpr fun item inside same => missing ?_
  rw [of_decide_eq_true same]
  exact List.mem_map_of_mem inside

theorem find_some (named : name ∈ items.map nameOf) :
    ∃ item ∈ items, nameOf item = name ∧ items.find? (name = nameOf ·) = some item := by
  cases found : items.find? (name = nameOf ·) with
  | none =>
    obtain ⟨item, inside, same⟩ := List.mem_map.mp named
    exact absurd (decide_eq_true same.symm) (List.find?_eq_none.mp found item inside)
  | some item =>
    have same : name = nameOf item := by simpa using List.find?_some found
    exact ⟨item, List.mem_of_find?_eq_some found, same.symm, rfl⟩

/-- When each name stands for one item, the search finds it. -/
theorem find_only (nameOf : ι → κ) {item : ι} (single : (items.map nameOf).Nodup) (inside : item ∈ items) :
    items.find? (nameOf item = nameOf ·) = some item := by
  have named : nameOf item ∈ items.map nameOf := List.mem_map_of_mem inside
  obtain ⟨other, kept, same, found⟩ := find_some named
  rw [found, List.inj_on_of_nodup_map single kept inside same]

end Find
end Assoc
