/-!
# Tables

Finite maps from strings, kept as lists of entries.  A `Table` is sorted by key, so that two tables
with the same entries are the same list and an entry is found in key order; a `Roster` keeps its
keys in the order in which they first came.  Looking up after an insertion, an erasure or an
override is described by one equation each.
-/

namespace Runsheet

/-- A finite map from strings, sorted by key. -/
abbrev Table (α : Type) :=
  List (String × α)

namespace Table

variable {α β : Type}

/-- The value under a key. -/
def get? (key : String) : Table α → Option α
  | [] => none
  | (k, v) :: rest => if k = key then some v else get? key rest

/-- Is there an entry under the key? -/
def contains (key : String) (t : Table α) : Bool :=
  (get? key t).isSome

/-- Puts a value under a key, in place of the value that was there. -/
def insert (key : String) (value : α) : Table α → Table α
  | [] => [(key, value)]
  | (k, v) :: rest =>
    if k = key then (key, value) :: rest
    else if key < k then (key, value) :: (k, v) :: rest
    else (k, v) :: insert key value rest

/-- Removes the entry under a key. -/
def erase (key : String) : Table α → Table α
  | [] => []
  | (k, v) :: rest => if k = key then erase key rest else (k, v) :: erase key rest

/-- The entries of `top` over those of `base`. -/
def override (base top : Table α) : Table α :=
  top.foldl (fun t entry => insert entry.1 entry.2 t) base

/-- The table of a list of entries; of two entries under one key the later one counts. -/
def ofList (entries : List (String × α)) : Table α :=
  override [] entries

/-- The keys, in order. -/
def keys (t : Table α) : List String :=
  t.map (·.1)

/-- Changes every value. -/
def mapValues (f : α → β) (t : Table α) : Table β :=
  t.map fun entry => (entry.1, f entry.2)

/-- Keeps the entries whose value passes a test. -/
def filterValues (p : α → Bool) (t : Table α) : Table α :=
  t.filter fun entry => p entry.2

@[simp]
theorem get?_nil (key : String) : get? key ([] : Table α) = none := rfl

theorem get?_insert (key k : String) (value : α) (t : Table α) :
    get? k (insert key value t) = if key = k then some value else get? k t := by
  induction t with
  | nil => simp [insert, get?]
  | cons entry rest ih =>
    obtain ⟨k', v'⟩ := entry
    simp only [insert]
    split
    · next h =>
      subst h
      simp only [get?]
      split <;> rfl
    · next h =>
      split
      · simp [get?]
      · simp only [get?, ih]
        by_cases hk : k' = k
        · subst hk
          simp [Ne.symm h]
        · simp [hk]

theorem get?_erase (key k : String) (t : Table α) :
    get? k (erase key t) = if key = k then none else get? k t := by
  induction t with
  | nil => simp [erase]
  | cons entry rest ih =>
    obtain ⟨k', v'⟩ := entry
    simp only [erase]
    split
    · next h =>
      subst h
      rw [ih]
      split
      · rfl
      · next hk => simp [get?, hk]
    · next h =>
      simp only [get?, ih]
      by_cases hk : k' = k
      · subst hk
        simp [Ne.symm h]
      · simp [hk]

private theorem insert_comm_of_lt {key k : String} (h : key < k) (value v : α) (t : Table α) :
    insert key value (insert k v t) = insert k v (insert key value t) := by
  have hne : key ≠ k := by
    intro heq
    rw [heq] at h
    exact String.lt_irrefl k h
  have hge : ¬ k < key := String.lt_asymm h
  induction t with
  | nil => simp [insert, h, hne, Ne.symm hne, hge]
  | cons entry rest ih =>
    obtain ⟨k', v'⟩ := entry
    by_cases hk : k' = key
    · subst hk
      simp [insert, hne, hge]
    by_cases hkey : key < k'
    · -- The smaller key comes before the entry, and the other one stays behind it.
      by_cases heq : k' = k
      · subst heq
        simp only [insert, h, hne, Ne.symm hne, hge, ↓reduceIte]
      by_cases hlt : k < k'
      · simp [insert, h, hne, Ne.symm hne, hge, hk, hkey, heq, hlt]
      · simp [insert, hne, hge, hk, hkey, heq, hlt]
    · have hk' : k' < key := by
        rw [← String.not_le]
        intro hle
        exact hk (String.le_antisymm (String.not_lt.mp hkey) hle)
      have hlt : k' < k := String.lt_trans hk' h
      have heq : k' ≠ k := by
        intro heq
        rw [heq] at hlt
        exact String.lt_irrefl k hlt
      simp [insert, hk, hkey, heq, String.lt_asymm hlt, ih]

/-- Insertions under two keys may change places. -/
theorem insert_comm {key k : String} (h : key ≠ k) (value v : α) (t : Table α) :
    insert key value (insert k v t) = insert k v (insert key value t) := by
  by_cases hlt : key < k
  · exact insert_comm_of_lt hlt value v t
  · have hgt : k < key := by
      rw [← String.not_le]
      intro hle
      exact h (String.le_antisymm hle (String.not_lt.mp hlt))
    exact (insert_comm_of_lt hgt v value t).symm

theorem get?_eq_none_of_notMem {key : String} {t : Table α} (h : key ∉ keys t) :
    get? key t = none := by
  induction t with
  | nil => rfl
  | cons entry rest ih =>
    obtain ⟨k, v⟩ := entry
    have hne : key ≠ k := List.ne_of_not_mem_cons h
    have hrest : key ∉ keys rest := List.not_mem_of_not_mem_cons h
    rw [get?, if_neg (Ne.symm hne)]
    exact ih hrest

theorem get?_eq_none_iff {key : String} {t : Table α} : get? key t = none ↔ key ∉ keys t := by
  refine ⟨fun h hmem => ?_, get?_eq_none_of_notMem⟩
  induction t with
  | nil => cases hmem
  | cons entry rest ih =>
    obtain ⟨k, v⟩ := entry
    rw [get?] at h
    split at h
    · cases h
    · next hne =>
      rcases List.mem_cons.mp hmem with heq | hmem
      · exact hne heq.symm
      · exact ih h hmem

theorem mem_keys_congr {key : String} {t u : Table α} (h : get? key t = get? key u) :
    key ∈ keys t ↔ key ∈ keys u := by
  rw [← Decidable.not_iff_not, ← get?_eq_none_iff, ← get?_eq_none_iff, h]

theorem mem_of_get? {key : String} {value : α} {t : Table α} (h : get? key t = some value) :
    (key, value) ∈ t := by
  induction t with
  | nil => cases h
  | cons entry rest ih =>
    obtain ⟨k, v⟩ := entry
    rw [get?] at h
    split at h
    · next hk =>
      cases h
      rw [hk]
      exact List.mem_cons_self ..
    · exact List.mem_cons_of_mem _ (ih h)

theorem get?_of_mem {key : String} {value : α} {t : Table α} (ht : (keys t).Nodup)
    (h : (key, value) ∈ t) : get? key t = some value := by
  induction t with
  | nil => cases h
  | cons entry rest ih =>
    obtain ⟨k, v⟩ := entry
    obtain ⟨hk, hrest⟩ := List.nodup_cons.mp ht
    rcases List.mem_cons.mp h with heq | hmem
    · cases heq
      rw [get?, if_pos rfl]
    · have hne : k ≠ key := by
        intro heq
        rw [heq] at hk
        exact hk (List.mem_map.mpr ⟨(key, value), hmem, rfl⟩)
      rw [get?, if_neg hne]
      exact ih hrest hmem

theorem mem_keys_insert {key k : String} {value : α} {t : Table α} :
    k ∈ keys (insert key value t) ↔ k = key ∨ k ∈ keys t := by
  have hkeys : k ∈ keys (insert key value t) ↔ get? k (insert key value t) ≠ none := by
    simp [get?_eq_none_iff]
  rw [hkeys, get?_insert]
  by_cases hk : key = k
  · simp [hk]
  · simp [hk, Ne.symm hk, get?_eq_none_iff]

/-- A table stays sorted. -/
theorem sorted_insert {t : Table α} (ht : (keys t).Pairwise (· < ·)) (key : String) (value : α) :
    (keys (insert key value t)).Pairwise (· < ·) := by
  induction t with
  | nil => exact List.pairwise_singleton ..
  | cons entry rest ih =>
    obtain ⟨k, v⟩ := entry
    obtain ⟨hfirst, hrest⟩ := List.pairwise_cons.mp ht
    rw [insert]
    split
    · next hk => exact hk ▸ ht
    · next hk =>
      split
      · next hlt =>
        -- The new entry comes before the first one, and with it before all others.
        refine List.pairwise_cons.mpr ⟨fun k' hk' => ?_, ht⟩
        rcases List.mem_cons.mp hk' with rfl | hk'
        · exact hlt
        · exact String.lt_trans hlt (hfirst k' hk')
      · next hge =>
        refine List.pairwise_cons.mpr ⟨fun k' hk' => ?_, ih hrest⟩
        rcases mem_keys_insert.mp hk' with rfl | hk'
        · rw [← String.not_le]
          intro hle
          exact hk (String.le_antisymm (String.not_lt.mp hge) hle)
        · exact hfirst k' hk'

theorem nodup_of_sorted {t : Table α} (ht : (keys t).Pairwise (· < ·)) : (keys t).Nodup := by
  refine ht.imp fun {a b} hlt heq => ?_
  rw [heq] at hlt
  exact String.lt_irrefl b hlt

/-! ### Several entries at once -/

/-- The value is the first one under the key. -/
def FirstUnder (key : String) (value : α) (entries : List (String × α)) : Prop :=
  ∃ earlier later, entries = earlier ++ (key, value) :: later ∧ key ∉ keys earlier

/-- The value is the last one under the key. -/
def LastUnder (key : String) (value : α) (entries : List (String × α)) : Prop :=
  ∃ earlier later, entries = earlier ++ (key, value) :: later ∧ key ∉ keys later

theorem lastUnder_cons {key : String} {value : α} {entry : String × α}
    {rest : List (String × α)} : LastUnder key value (entry :: rest) ↔
      LastUnder key value rest ∨ (entry = (key, value) ∧ key ∉ keys rest) := by
  constructor
  · rintro ⟨earlier, later, hsplit, hnone⟩
    cases earlier with
    | nil =>
      cases hsplit
      exact Or.inr ⟨rfl, hnone⟩
    | cons first earlier =>
      cases hsplit
      exact Or.inl ⟨earlier, later, rfl, hnone⟩
  · rintro (⟨earlier, later, rfl, hnone⟩ | ⟨rfl, hnone⟩)
    · exact ⟨entry :: earlier, later, rfl, hnone⟩
    · exact ⟨[], rest, rfl, hnone⟩

theorem get?_append (key : String) (t u : List (String × α)) :
    get? key (t ++ u) = (get? key t).or (get? key u) := by
  induction t with
  | nil => rfl
  | cons entry rest ih =>
    obtain ⟨k, v⟩ := entry
    rw [List.cons_append, get?, get?, ih]
    split <;> rfl

/-- An entry that is found is the first one under its key. -/
theorem get?_eq_some_iff_first {key : String} {value : α} {entries : List (String × α)} :
    get? key entries = some value ↔ FirstUnder key value entries := by
  constructor
  · intro hfound
    induction entries with
    | nil => cases hfound
    | cons entry rest ih =>
      obtain ⟨k, v⟩ := entry
      rw [get?] at hfound
      by_cases hk : k = key
      · rw [if_pos hk] at hfound
        cases hfound
        exact ⟨[], rest, by rw [hk]; rfl, List.not_mem_nil⟩
      · rw [if_neg hk] at hfound
        obtain ⟨earlier, later, rfl, hnone⟩ := ih hfound
        refine ⟨(k, v) :: earlier, later, rfl, fun hmem => ?_⟩
        rcases List.mem_cons.mp hmem with rfl | hmem
        · exact hk rfl
        · exact hnone hmem
  · rintro ⟨earlier, later, rfl, hnone⟩
    rw [get?_append, get?_eq_none_of_notMem hnone]
    simp [get?]

/-- The last entry under a key is the first one from behind. -/
theorem get?_reverse_eq_some_iff_last {key : String} {value : α} {entries : List (String × α)} :
    get? key entries.reverse = some value ↔ LastUnder key value entries := by
  rw [get?_eq_some_iff_first]
  constructor
  · rintro ⟨earlier, later, hsplit, hnone⟩
    refine ⟨later.reverse, earlier.reverse, ?_, by simpa [keys] using hnone⟩
    rw [← entries.reverse_reverse, hsplit]
    simp
  · rintro ⟨earlier, later, rfl, hnone⟩
    exact ⟨later.reverse, earlier.reverse, by simp, by simpa [keys] using hnone⟩

theorem get?_reverse_of_nodup {t : Table α} (ht : (keys t).Nodup) (key : String) :
    get? key t.reverse = get? key t := by
  have hreverse : (keys t.reverse).Nodup := by
    rw [keys, List.map_reverse, List.Nodup, List.pairwise_reverse]
    exact ht.imp Ne.symm
  ext value
  constructor
  · intro h
    exact get?_of_mem ht (List.mem_reverse.mp (mem_of_get? h))
  · intro h
    exact get?_of_mem hreverse (List.mem_reverse.mpr (mem_of_get? h))

/-- Of the entries on top the last one counts, and without one what is below. -/
theorem get?_override (key : String) (base top : Table α) :
    get? key (override base top) = (get? key top.reverse).or (get? key base) := by
  induction top generalizing base with
  | nil => rfl
  | cons entry rest ih =>
    obtain ⟨k, v⟩ := entry
    have hcons : override base ((k, v) :: rest) = override (insert k v base) rest := rfl
    rw [hcons, ih, get?_insert, List.reverse_cons, get?_append, Option.or_assoc]
    congr 1
    simp only [get?]
    split <;> rfl

/-- A table stays sorted. -/
theorem sorted_override {base : Table α} (h : (keys base).Pairwise (· < ·)) (top : Table α) :
    (keys (override base top)).Pairwise (· < ·) := by
  induction top generalizing base with
  | nil => exact h
  | cons entry rest ih => exact ih (sorted_insert h entry.1 entry.2)

/-- A table of entries says what the last entry under a key says. -/
theorem get?_override_ofList (key : String) (base : Table α) (entries : List (String × α)) :
    get? key (override base (ofList entries)) =
      (get? key entries.reverse).or (get? key base) := by
  have hnodup : (keys (ofList entries)).Nodup := nodup_of_sorted (sorted_override .nil entries)
  have hlast : get? key (ofList entries) = get? key entries.reverse :=
    (get?_override key [] entries).trans (Option.or_none ..)
  rw [get?_override, get?_reverse_of_nodup hnodup, hlast]

theorem get?_mapValues (f : α → β) (key : String) (t : Table α) :
    get? key (mapValues f t) = (get? key t).map f := by
  induction t with
  | nil => rfl
  | cons entry rest ih =>
    simp only [mapValues, List.map_cons, get?] at ih ⊢
    split
    · rfl
    · exact ih

end Table

/-- A finite map from strings whose entries keep the order in which their keys first came. -/
abbrev Roster (α : Type) :=
  List (String × α)

namespace Roster

variable {α : Type}

/-- Puts a value under a key: in place if the key is there, at the end otherwise. -/
def put (key : String) (value : α) : Roster α → Roster α
  | [] => [(key, value)]
  | (k, v) :: rest => if k = key then (k, value) :: rest else (k, v) :: put key value rest

/-- Puts a list of entries, one after the other. -/
def putAll (r : Roster α) (entries : List (String × α)) : Roster α :=
  entries.foldl (fun r entry => put entry.1 entry.2 r) r

/-- The roster of a list of entries: each key once, where it first came, with its last value. -/
def ofList (entries : List (String × α)) : Roster α :=
  putAll [] entries

theorem get?_put (key k : String) (value : α) (r : Roster α) :
    Table.get? k (put key value r) = if key = k then some value else Table.get? k r := by
  induction r with
  | nil => simp [put, Table.get?]
  | cons entry rest ih =>
    obtain ⟨k', v'⟩ := entry
    simp only [put]
    split
    · next h =>
      subst h
      simp only [Table.get?]
      split <;> rfl
    · next h =>
      simp only [Table.get?, ih]
      by_cases hk : k' = k
      · subst hk
        simp [Ne.symm h]
      · simp [hk]

theorem keys_put (key : String) (value : α) (r : Roster α) :
    Table.keys (put key value r) =
      if key ∈ Table.keys r then Table.keys r else Table.keys r ++ [key] := by
  induction r with
  | nil => rfl
  | cons entry rest ih =>
    obtain ⟨k, v⟩ := entry
    rw [put]
    by_cases hk : k = key
    · subst hk
      simp [Table.keys]
    · rw [if_neg hk]
      have hmem : key ∈ Table.keys ((k, v) :: rest) ↔ key ∈ Table.keys rest := by
        simp [Table.keys, Ne.symm hk]
      have hcons (r : Roster α) : Table.keys ((k, v) :: r) = k :: Table.keys r := rfl
      rw [hcons, ih]
      by_cases hkey : key ∈ Table.keys rest
      · rw [if_pos hkey, if_pos (hmem.mpr hkey), hcons]
      · rw [if_neg hkey, if_neg (fun h => hkey (hmem.mp h)), hcons, List.cons_append]

/-- The keys of a roster stay different from each other. -/
theorem nodup_put {r : Roster α} (hr : (Table.keys r).Nodup) (key : String) (value : α) :
    (Table.keys (put key value r)).Nodup := by
  rw [keys_put]
  by_cases hkey : key ∈ Table.keys r
  · rwa [if_pos hkey]
  · rw [if_neg hkey, List.nodup_append]
    refine ⟨hr, by simp, ?_⟩
    intro k hk k' hk' heq
    obtain rfl : k' = key := List.mem_singleton.mp hk'
    rw [heq] at hk
    exact hkey hk

theorem nodup_putAll {r : Roster α} (hr : (Table.keys r).Nodup) (entries : List (String × α)) :
    (Table.keys (putAll r entries)).Nodup := by
  induction entries generalizing r with
  | nil => exact hr
  | cons entry rest ih => exact ih (nodup_put hr entry.1 entry.2)

/-- A roster of entries has each key once. -/
theorem nodup_ofList (entries : List (String × α)) : (Table.keys (ofList entries)).Nodup :=
  nodup_putAll (r := []) List.nodup_nil entries

end Roster

end Runsheet
