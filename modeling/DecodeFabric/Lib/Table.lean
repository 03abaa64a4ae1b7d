import Mathlib.Data.List.Dedup
import Mathlib.Data.List.Nodup
import Mathlib.Data.List.Perm.Basic
import Mathlib.Algebra.BigOperators.Ring.List
import Mathlib.Algebra.Order.BigOperators.Group.Finset
import Mathlib.Algebra.GroupWithZero.Nat
import Mathlib.Algebra.Ring.Int.Defs

/- Finite maps with an enumeration order.

   A `Table κ ν` is the list of its entries, no key occurring twice: what a hash
   map is to a program that both looks keys up and loops over the map. The order
   of the list is the order a loop visits the entries in. Lookups and totals do
   not depend on it (`find?_reorder`, `total_reorder`), so a result stated with them holds
   for every order a hash map may choose. -/
namespace Lib

/-- A finite map: its entries in enumeration order, keys distinct. -/
structure Table (κ ν : Type) where
  entries : List (κ × ν)
  nodup : (entries.map Prod.fst).Nodup

namespace Table
open Function List
variable {κ ν : Type}

def empty : Table κ ν := ⟨[], nodup_nil⟩

/-- The keys, in enumeration order. -/
def keys (t : Table κ ν) : List κ := t.entries.map Prod.fst

theorem keys_nodup (t : Table κ ν) : t.keys.Nodup := t.nodup

/-- The same map enumerated in another order. -/
def Reorder (t u : Table κ ν) : Prop := t.entries.Perm u.entries

theorem Reorder.refl (t : Table κ ν) : t.Reorder t := List.Perm.refl _

@[ext] theorem ext_entries {t u : Table κ ν} (h : t.entries = u.entries) : t = u := by
  cases t; cases u; cases h; rfl

/-- The sum of `w` over all entries. -/
def total (t : Table κ ν) (w : κ → ν → Nat) : Nat := (t.entries.map (fun e => w e.1 e.2)).sum

theorem total_reorder {t u : Table κ ν} (h : t.Reorder u) (w : κ → ν → Nat) : t.total w = u.total w :=
  (h.map _).sum_eq

variable [DecidableEq κ] {α β μ : Type} {t u : Table κ ν} {j k : κ} {w : κ → ν → Nat} {v : ν} {f g : ν → ν}

def find? (t : Table κ ν) (k : κ) : Option ν := t.entries.lookup k

/-- The value at `k`, or `d` where there is none. -/
def getD (t : Table κ ν) (k : κ) (d : ν) : ν := (t.find? k).getD d

theorem map_fst_update (l : List (κ × ν)) (k : κ) (f : ν → ν) :
    (l.map (fun e => if e.1 = k then (e.1, f e.2) else e)).map Prod.fst = l.map Prod.fst := by
  rw [map_map]
  apply map_congr_left
  intro e _
  simp only [comp]
  split <;> rfl

/-- Apply `f` to the value at `k`, if there is one. -/
def modify (t : Table κ ν) (k : κ) (f : ν → ν) : Table κ ν :=
  ⟨t.entries.map (fun e => if e.1 = k then (e.1, f e.2) else e), by
    rw [map_fst_update]; exact t.nodup⟩

/-- Write `v` at `k`: in place when the key is there, else as a new entry. -/
def insert (t : Table κ ν) (k : κ) (v : ν) : Table κ ν :=
  if h : k ∈ t.keys then t.modify k (fun _ => v)
  else ⟨t.entries ++ [(k, v)], by
    rw [map_append, nodup_append]
    refine ⟨t.nodup, by simp, ?_⟩
    intro a ha b hb
    simp only [map_cons, map_nil, mem_singleton] at hb
    subst hb
    exact fun hab => h (hab ▸ ha)⟩

def erase (t : Table κ ν) (k : κ) : Table κ ν :=
  ⟨t.entries.filter (fun e => e.1 ≠ k), (filter_sublist.map Prod.fst).nodup t.nodup⟩

/-! Lookups. -/

theorem lookup_eq_some_iff : ∀ {l : List (κ × ν)}, (l.map Prod.fst).Nodup → ∀ {k : κ} {v : ν},
    l.lookup k = some v ↔ (k, v) ∈ l
  | [], _, k, v => by simp
  | (j, w) :: l, h, k, v => by
    simp only [map_cons, nodup_cons] at h
    rw [lookup_cons]
    by_cases hk : k = j
    · subst hk
      simp only [beq_self_eq_true, Option.some.injEq, mem_cons, Prod.mk.injEq, true_and]
      refine ⟨fun hv => .inl hv.symm, fun hv => ?_⟩
      rcases hv with hv | hv
      · exact hv.symm
      · exact absurd (mem_map_of_mem (f := Prod.fst) hv) h.1
    · rw [beq_false_of_ne hk]
      simp only [mem_cons, Prod.mk.injEq, hk, false_and, false_or]
      exact lookup_eq_some_iff h.2

theorem find?_eq_some_iff : t.find? k = some v ↔ (k, v) ∈ t.entries := lookup_eq_some_iff t.nodup

theorem mem_keys_iff : k ∈ t.keys ↔ ∃ v, t.find? k = some v := by
  simp only [keys, mem_map, find?_eq_some_iff]
  constructor
  · rintro ⟨⟨j, v⟩, h, rfl⟩; exact ⟨v, h⟩
  · rintro ⟨v, h⟩; exact ⟨(k, v), h, rfl⟩

theorem find?_eq_none_iff : t.find? k = none ↔ k ∉ t.keys := by
  rw [mem_keys_iff, Option.eq_none_iff_forall_ne_some, not_exists]

@[simp] theorem find?_empty (k : κ) : (empty : Table κ ν).find? k = none := rfl

theorem keys_modify (t : Table κ ν) (k : κ) (f : ν → ν) : (t.modify k f).keys = t.keys := map_fst_update _ _ _

theorem find?_modify (t : Table κ ν) (k : κ) (f : ν → ν) (j : κ) :
    (t.modify k f).find? j = if j = k then (t.find? j).map f else t.find? j := by
  simp only [find?, modify]
  induction t.entries with
  | nil => simp
  | cons e l ih =>
    obtain ⟨i, v⟩ := e
    by_cases hik : i = k <;> by_cases hji : j = i <;>
      simp_all [lookup_cons, beq_false_of_ne]

@[simp] theorem find?_modify_self (t : Table κ ν) (k : κ) (f : ν → ν) :
    (t.modify k f).find? k = (t.find? k).map f := by rw [find?_modify, if_pos rfl]

theorem find?_modify_ne (h : j ≠ k) (f : ν → ν) : (t.modify k f).find? j = t.find? j := by rw [find?_modify, if_neg h]

/-- A value found after a change at `k` is the changed one or one found before. -/
theorem find?_modify_cases {w : ν} (h : (t.modify k f).find? j = some w) :
    (j = k ∧ ∃ v, t.find? k = some v ∧ w = f v) ∨ (j ≠ k ∧ t.find? j = some w) := by
  by_cases hj : j = k
  · subst hj
    rw [find?_modify_self, Option.map_eq_some_iff] at h
    obtain ⟨v, hv, rfl⟩ := h
    exact .inl ⟨rfl, v, hv, rfl⟩
  · rw [find?_modify_ne hj] at h
    exact .inr ⟨hj, h⟩

/-- The same when it is known what was at `k`. -/
theorem find?_modify_of_some {w : ν} (hk : t.find? k = some v)
    (h : (t.modify k f).find? j = some w) : (j = k ∧ w = f v) ∨ (j ≠ k ∧ t.find? j = some w) := by
  rcases find?_modify_cases h with ⟨hj, v', hv', hw⟩ | hother
  · cases hk.symm.trans hv'
    exact .inl ⟨hj, hw⟩
  · exact .inr hother

theorem find?_modify_eq_none_iff : (t.modify k f).find? j = none ↔ t.find? j = none := by
  rw [find?_eq_none_iff, keys_modify, find?_eq_none_iff]

theorem find?_insert (t : Table κ ν) (k : κ) (v : ν) (j : κ) :
    (t.insert k v).find? j = if j = k then some v else t.find? j := by
  unfold insert
  split
  · next h =>
    rw [find?_modify]
    split
    · next hj =>
      subst hj
      obtain ⟨w, hw⟩ := mem_keys_iff.mp h
      rw [hw]; rfl
    · rfl
  · next h =>
    have hn : t.entries.lookup k = none := find?_eq_none_iff.mpr h
    simp only [find?, lookup_append, lookup_cons, lookup_nil]
    by_cases hj : j = k
    · subst hj; simp [hn]
    · simp [hj, beq_false_of_ne hj]

@[simp] theorem find?_insert_self (t : Table κ ν) (k : κ) (v : ν) :
    (t.insert k v).find? k = some v := by rw [find?_insert, if_pos rfl]

theorem find?_insert_ne (h : j ≠ k) (v : ν) : (t.insert k v).find? j = t.find? j := by rw [find?_insert, if_neg h]

theorem find?_insert_isSome (h : (t.find? j).isSome) : ((t.insert k v).find? j).isSome := by
  rw [find?_insert]
  split
  · rfl
  · exact h

theorem getD_modify (t : Table κ ν) (k j : κ) {d : ν} (hd : f d = d) :
    (t.modify k f).getD j d = if j = k then f (t.getD j d) else t.getD j d := by
  unfold getD
  rw [find?_modify]
  split
  · cases t.find? j with
    | none => exact hd.symm
    | some v => rfl
  · rfl

theorem getD_insert (t : Table κ ν) (k j : κ) (v d : ν) :
    (t.insert k v).getD j d = if j = k then v else t.getD j d := by
  unfold getD
  rw [find?_insert]
  split <;> rfl

theorem find?_reorder (h : t.Reorder u) (k : κ) : t.find? k = u.find? k := by
  apply Option.ext
  intro v
  rw [find?_eq_some_iff, find?_eq_some_iff]
  exact h.mem_iff

theorem find?_erase (t : Table κ ν) (k j : κ) : (t.erase k).find? j = if j = k then none else t.find? j := by
  apply Option.ext
  intro v
  have hmem : (t.erase k).find? j = some v ↔ (j, v) ∈ t.entries ∧ j ≠ k := by
    rw [find?_eq_some_iff]
    simp only [erase, mem_filter, decide_eq_true_eq]
  rw [hmem]
  split
  · next hj => simp [hj]
  · next hj => rw [find?_eq_some_iff]; simp [hj]

theorem modify_modify (t : Table κ ν) (k : κ) (f g : ν → ν) : (t.modify k f).modify k g = t.modify k (g ∘ f) := by
  apply ext_entries
  simp only [modify, map_map]
  apply map_congr_left
  intro e _
  simp only [comp]
  split <;> simp_all

/-- Two changes commute, if they do so where they meet. -/
theorem modify_comm (h : j = k → ∀ v, f (g v) = g (f v)) : (t.modify j f).modify k g = (t.modify k g).modify j f := by
  apply ext_entries
  simp only [modify, map_map]
  apply map_congr_left
  rintro ⟨i, v⟩ _
  simp only [comp]
  by_cases hj : i = j
  · subst hj
    by_cases hk : i = k
    · subst hk
      simp [h rfl]
    · simp [hk]
  · by_cases hk : i = k
    · subst hk
      simp [hj]
    · simp [hj, hk]

/-- Two functions that agree on the value at `k` modify alike. -/
theorem modify_congr (h : ∀ v, t.find? k = some v → f v = g v) : t.modify k f = t.modify k g := by
  apply ext_entries
  simp only [modify]
  apply map_congr_left
  rintro ⟨j, v⟩ hm
  split
  · next hj =>
    simp only at hj
    subst hj
    rw [h v (find?_eq_some_iff.mpr hm)]
  · rfl

@[simp] theorem modify_id (t : Table κ ν) (k : κ) : t.modify k id = t := by
  apply ext_entries
  simp [modify]

theorem modify_congr_at (hk : t.find? k = some v) (h : f v = g v) : t.modify k f = t.modify k g :=
  modify_congr fun w hw => by cases hk.symm.trans hw; exact h

/-- Changing nothing at `k` changes nothing. -/
theorem modify_eq_self (hk : t.find? k = some v) (h : f v = v) : t.modify k f = t :=
  (modify_congr_at hk h).trans (modify_id t k)

theorem modify_eq_insert (hk : t.find? k = some v) (f : ν → ν) : t.modify k f = t.insert k (f v) := by
  have hmem : k ∈ t.keys := mem_keys_iff.mpr ⟨v, hk⟩
  rw [insert, dif_pos hmem]
  exact modify_congr_at hk rfl

theorem modify_of_none (hk : t.find? k = none) (f : ν → ν) : t.modify k f = t :=
  (modify_congr fun w hw => by cases hk.symm.trans hw).trans (modify_id t k)

/-- A loop that changes every key of a list once. -/
theorem find?_foldl_modify (f : ν → ν) : ∀ {l : List κ}, l.Nodup → ∀ (t : Table κ ν) (k : κ),
    (l.foldl (fun u j => u.modify j f) t).find? k = if k ∈ l then (t.find? k).map f else t.find? k
  | [], _, t, k => by simp
  | j :: l, h, t, k => by
    obtain ⟨hj, hl⟩ := nodup_cons.mp h
    rw [foldl_cons, find?_foldl_modify f hl, find?_modify]
    by_cases hk : k = j
    · subst hk
      simp [hj]
    · simp [hk]

theorem find?_foldl_modify_cases {l : List κ} (hl : l.Nodup) {y : ν}
    (h : (l.foldl (fun u j => u.modify j f) t).find? k = some y) :
    (k ∈ l ∧ ∃ x, t.find? k = some x ∧ y = f x) ∨ (k ∉ l ∧ t.find? k = some y) := by
  rw [find?_foldl_modify f hl] at h
  split at h
  · next hk =>
    obtain ⟨x, hx, rfl⟩ := Option.map_eq_some_iff.mp h
    exact .inl ⟨hk, x, hx, rfl⟩
  · next hk => exact .inr ⟨hk, h⟩

/-- A loop over all keys changes every entry. -/
theorem find?_modify_all (t : Table κ ν) (f : ν → ν) (k : κ) :
    (t.keys.foldl (fun u j => u.modify j f) t).find? k = (t.find? k).map f := by
  rw [find?_foldl_modify f t.keys_nodup]
  split
  · rfl
  · next h => rw [find?_eq_none_iff.mpr h]; rfl

/-! Tables built from others. -/

/-- The same keys with other values. -/
def map (t : Table κ ν) (f : ν → μ) : Table κ μ :=
  ⟨t.entries.map fun e => (e.1, f e.2), by
    rw [map_map]
    exact t.nodup⟩

@[simp] theorem find?_map (t : Table κ ν) (f : ν → μ) (k : κ) : (t.map f).find? k = (t.find? k).map f := by
  simp only [find?, map]
  induction t.entries with
  | nil => rfl
  | cons e l ih =>
    obtain ⟨j, v⟩ := e
    by_cases hk : k = j
    · simp [hk]
    · simp [lookup_cons, beq_false_of_ne hk, ih]

/-- A change `g` does not see. -/
theorem map_modify (t : Table κ ν) (k : κ) {g : ν → μ} (h : ∀ v, g (f v) = g v) :
    (t.modify k f).map g = t.map g := by
  apply ext_entries
  simp only [map, modify, map_map]
  apply map_congr_left
  intro e _
  simp only [comp]
  split
  · rw [h]
  · rfl

/-- The table as a function, its values seen through `f`. -/
def view (t : Table κ ν) (f : ν → μ) (k : κ) : Option μ := (t.find? k).map f

theorem view_insert (t : Table κ ν) (f : ν → μ) (k : κ) (v : ν) :
    (t.insert k v).view f = update (t.view f) k (some (f v)) := by
  funext j
  unfold view
  rw [find?_insert, update_apply]
  split
  · rfl
  · rfl

theorem view_modify (t : Table κ ν) (f : ν → μ) (k : κ) {h : μ → μ} (hg : ∀ v, f (g v) = h (f v)) :
    (t.modify k g).view f = update (t.view f) k ((t.view f k).map h) := by
  funext j
  unfold view
  rw [find?_modify, update_apply]
  split
  · next hj =>
    subst hj
    cases t.find? j with
    | none => rfl
    | some v => simp [hg]
  · rfl

theorem isSome_find?_insert (t : Table κ ν) (k : κ) (v : ν) :
    (fun j => ((t.insert k v).find? j).isSome) = update (fun j => (t.find? j).isSome) k true := by
  funext j
  rw [find?_insert, update_apply]
  split
  · rfl
  · rfl

omit [DecidableEq κ] in
/-- Tables that look the same through `g` have the same entries up to `g`. -/
theorem mem_of_map_eq {g : ν → μ} (h : t.map g = u.map g) {e : κ × ν} (he : e ∈ u.entries) :
    ∃ e' ∈ t.entries, e'.1 = e.1 ∧ g e'.2 = g e.2 := by
  have hmem : (e.1, g e.2) ∈ (t.map g).entries := by
    rw [h]
    exact mem_map.mpr ⟨e, he, rfl⟩
  obtain ⟨e', he', heq⟩ := mem_map.mp hmem
  obtain ⟨hkey, hval⟩ := Prod.mk.inj heq
  exact ⟨e', he', hkey, hval⟩

theorem insert_new (h : t.find? k = none) (v : ν) : (t.insert k v).entries = t.entries ++ [(k, v)] := by
  unfold insert
  rw [dif_neg (find?_eq_none_iff.mp h)]

/-- A loop that enters every entry of `t` under its own key, into a table that has none of them. -/
theorem entries_foldl_fresh {f : ν → μ} {step : Table κ μ → κ × ν → Table κ μ} :
    ∀ (l : List (κ × ν)) (u : Table κ μ), (u.keys ++ l.map Prod.fst).Nodup →
      (∀ e ∈ l, ∀ u, u.find? e.1 = none → (step u e).entries = u.entries ++ [(e.1, f e.2)]) →
      (l.foldl step u).entries = u.entries ++ l.map fun e => (e.1, f e.2)
  | [], u, _, _ => by simp
  | e :: l, u, hnd, hstep => by
    have hnew : u.find? e.1 = none := by
      rw [find?_eq_none_iff]
      intro hmem
      exact (nodup_append.mp hnd).2.2 e.1 hmem e.1 (by simp) rfl
    have hfirst := hstep e mem_cons_self u hnew
    have hkeys : (step u e).keys ++ l.map Prod.fst = u.keys ++ (e :: l).map Prod.fst := by
      simp [keys, hfirst]
    rw [foldl_cons, entries_foldl_fresh l (step u e) (by rw [hkeys]; exact hnd)
      fun e' he' => hstep e' (mem_cons_of_mem e he'), hfirst]
    simp

/-- Rebuilding a table entry by entry. -/
theorem foldl_fresh {f : ν → μ} {step : Table κ μ → κ × ν → Table κ μ}
    (hstep : ∀ e ∈ t.entries, ∀ u, u.find? e.1 = none → (step u e).entries = u.entries ++ [(e.1, f e.2)]) :
    t.entries.foldl step empty = t.map f := by
  apply ext_entries
  rw [entries_foldl_fresh t.entries empty t.nodup hstep]
  rfl

/-! How totals change. -/

theorem total_insert_new (h : t.find? k = none) (v : ν)
    (w : κ → ν → Nat) : (t.insert k v).total w = t.total w + w k v := by
  simp [total, insert_new h]

/-- The weight of the entry at `k`, if there is one. -/
def weight (t : Table κ ν) (w : κ → ν → Nat) (k : κ) : Nat := ((t.find? k).map (w k)).getD 0

theorem weight_found (h : t.find? k = some v) (w : κ → ν → Nat) : t.weight w k = w k v := by
  unfold weight
  rw [h]
  rfl

theorem weight_ne_zero (h : t.weight w k ≠ 0) : ∃ v, t.find? k = some v ∧ t.weight w k = w k v := by
  cases hk : t.find? k with
  | none => exact absurd (by simp [weight, hk]) h
  | some v => exact ⟨v, rfl, weight_found hk w⟩

/-- The sum over the entries, key by key. -/
theorem total_eq_sum (t : Table κ ν) (w : κ → ν → Nat) : t.total w = ∑ k ∈ t.keys.toFinset, t.weight w k := by
  rw [sum_toFinset _ t.keys_nodup]
  unfold total keys
  rw [map_map]
  congr 1
  apply map_congr_left
  intro e he
  exact (weight_found (find?_eq_some_iff.mpr he) w).symm

theorem mem_toFinset_keys : k ∈ t.keys.toFinset ↔ ∃ v, t.find? k = some v := mem_toFinset.trans mem_keys_iff

theorem total_erase (h : t.find? k = some v) (w : κ → ν → Nat) : (t.erase k).total w + w k v = t.total w := by
  have hkeys : (t.erase k).keys.toFinset = t.keys.toFinset.erase k := by
    ext j
    rw [Finset.mem_erase, mem_toFinset_keys, mem_toFinset_keys, find?_erase]
    by_cases hj : j = k <;> simp [hj]
  rw [total_eq_sum, total_eq_sum, hkeys, ← Finset.sum_erase_add _ _ (mem_toFinset_keys.mpr ⟨v, h⟩), weight_found h]
  congr 1
  refine Finset.sum_congr rfl fun j hj => ?_
  unfold weight
  rw [find?_erase, if_neg (Finset.ne_of_mem_erase hj)]

/-- Two tables with the same keys and the same weight at each of them. -/
theorem total_congr {u : Table κ μ} {w' : κ → μ → Nat}
    (h : ∀ k, (t.find? k).map (w k) = (u.find? k).map (w' k)) : t.total w = u.total w' := by
  have hkeys : t.keys.toFinset = u.keys.toFinset := by
    ext k
    have hk := congrArg Option.isSome (h k)
    rw [Option.isSome_map, Option.isSome_map] at hk
    rw [mem_toFinset_keys, mem_toFinset_keys, ← Option.isSome_iff_exists, ← Option.isSome_iff_exists, hk]
  rw [total_eq_sum, total_eq_sum, hkeys]
  exact Finset.sum_congr rfl fun k _ => congrArg (Option.getD · 0) (h k)

/-- The other entries are those of before. -/
theorem total_modify (h : t.find? k = some v) (f : ν → ν)
    (w : κ → ν → Nat) : (t.modify k f).total w + w k v = t.total w + w k (f v) := by
  have hrest : ((t.modify k f).erase k).total w = (t.erase k).total w := by
    refine total_congr fun j => ?_
    rw [find?_erase, find?_erase, find?_modify]
    split <;> rfl
  have hbefore := total_erase h w
  have hafter := total_erase (t := t.modify k f) (v := f v) (by rw [find?_modify_self, h]; rfl) w
  rw [hrest] at hafter
  omega

theorem le_total (h : t.find? k = some v) (w : κ → ν → Nat) : w k v ≤ t.total w := by
  have herase := total_erase h w
  omega

omit [DecidableEq κ] in
theorem total_add (t : Table κ ν) (w w' : κ → ν → Nat) :
    t.total (fun k v => w k v + w' k v) = t.total w + t.total w' := sum_map_add

/-- Entries under distinct keys are part of the total. -/
theorem keys_le_total {g : κ → Nat} {l : List κ} (hn : l.Nodup)
    (h : ∀ k ∈ l, ∃ v, t.find? k = some v ∧ g k ≤ w k v) : (l.map g).sum ≤ t.total w := by
  rw [← sum_toFinset g hn, total_eq_sum]
  calc ∑ k ∈ l.toFinset, g k ≤ ∑ k ∈ l.toFinset, t.weight w k := by
        refine Finset.sum_le_sum fun k hk => ?_
        obtain ⟨v, hv, hle⟩ := h k (mem_toFinset.mp hk)
        rw [weight_found hv]
        exact hle
    _ ≤ ∑ k ∈ t.keys.toFinset, t.weight w k := by
        refine Finset.sum_le_sum_of_subset fun k hk => ?_
        obtain ⟨v, hv, -⟩ := h k (mem_toFinset.mp hk)
        exact mem_toFinset_keys.mpr ⟨v, hv⟩

/-- The total, if only the entries under given keys have weight. -/
theorem total_le_keys {g : κ → Nat} {l : List κ} (hn : l.Nodup)
    (h : ∀ k v, t.find? k = some v → w k v ≠ 0 → k ∈ l ∧ w k v ≤ g k) : t.total w ≤ (l.map g).sum := by
  have hweight : ∀ k, t.weight w k ≠ 0 → k ∈ l ∧ t.weight w k ≤ g k := by
    intro k hne
    obtain ⟨v, hv, heq⟩ := weight_ne_zero hne
    rw [heq]
    exact h k v hv (heq ▸ hne)
  rw [← sum_toFinset g hn, total_eq_sum]
  calc ∑ k ∈ t.keys.toFinset, t.weight w k ≤ ∑ k ∈ l.toFinset, t.weight w k :=
        Finset.sum_le_sum_of_ne_zero fun k _ hne => mem_toFinset.mpr (hweight k hne).1
    _ ≤ ∑ k ∈ l.toFinset, g k := by
        refine Finset.sum_le_sum fun k _ => ?_
        by_cases hzero : t.weight w k = 0
        · omega
        · exact (hweight k hzero).2

/-- Weights that are paid for by the entries of another table. -/
theorem total_le_total {u : Table κ μ} {w' : κ → μ → Nat}
    (h : ∀ k v, t.find? k = some v → w k v ≠ 0 → ∃ v', u.find? k = some v' ∧ w k v ≤ w' k v') :
    t.total w ≤ u.total w' := by
  have hn : (t.keys.filter fun k => t.weight w k ≠ 0).Nodup := t.keys_nodup.filter _
  calc t.total w ≤ ((t.keys.filter fun k => t.weight w k ≠ 0).map (t.weight w)).sum := by
        refine total_le_keys hn fun k v hv hne => ?_
        simp only [mem_filter, mem_keys_iff, weight_found hv, decide_eq_true_eq]
        exact ⟨⟨⟨v, hv⟩, hne⟩, Nat.le_refl _⟩
    _ ≤ u.total w' := by
        refine keys_le_total hn fun k hk => ?_
        obtain ⟨v, hv, heq⟩ := weight_ne_zero (of_decide_eq_true (mem_filter.mp hk).2)
        rw [heq]
        exact h k v hv (heq ▸ of_decide_eq_true (mem_filter.mp hk).2)

/-- Weights that are paid for by the entries of another table, those that fall to one entry together. -/
theorem total_le_fibers {κ' ν' : Type} [DecidableEq κ'] {u : Table κ' ν'} (f : κ → ν → κ') {w' : κ' → ν' → Nat}
    (hinto : ∀ k v, t.find? k = some v → w k v ≠ 0 → ∃ v', u.find? (f k v) = some v')
    (hfiber : ∀ k' v', u.find? k' = some v' → t.total (fun k v => if f k v = k' then w k v else 0) ≤ w' k' v') :
    t.total w ≤ u.total w' := by
  let fiber (k' : κ') (k : κ) (v : ν) : Nat := if f k v = k' then w k v else 0
  calc t.total w ≤ ∑ k ∈ t.keys.toFinset, ∑ k' ∈ u.keys.toFinset, t.weight (fiber k') k := by
        rw [total_eq_sum]
        refine Finset.sum_le_sum fun k _ => ?_
        by_cases hzero : t.weight w k = 0
        · omega
        · obtain ⟨v, hv, heq⟩ := weight_ne_zero hzero
          -- the fiber it falls to
          have hle := Finset.single_le_sum (f := fun k' => t.weight (fiber k') k) (fun _ _ => Nat.zero_le _)
            (mem_toFinset_keys.mpr (hinto k v hv (heq ▸ hzero)))
          simp only [weight_found hv, fiber, if_true] at hle ⊢
          exact hle
    _ = ∑ k' ∈ u.keys.toFinset, t.total (fiber k') := by
        rw [Finset.sum_comm]
        exact Finset.sum_congr rfl fun k' _ => (t.total_eq_sum _).symm
    _ ≤ u.total w' := by
        rw [total_eq_sum]
        refine Finset.sum_le_sum fun k' hk' => ?_
        obtain ⟨v', hv'⟩ := mem_toFinset_keys.mp hk'
        rw [weight_found hv']
        exact hfiber k' v' hv'

/-- A change no entry's weight notices leaves the total alone. -/
theorem total_modify_same (h : ∀ v, t.find? k = some v → w k (f v) = w k v) : (t.modify k f).total w = t.total w := by
  cases hf : t.find? k with
  | none => rw [modify_of_none hf]
  | some v =>
    have ht := total_modify hf f w
    have hw := h v hf
    omega

omit [DecidableEq κ] in
/-- Weights that agree up to multiples of `n` have totals that do. -/
theorem total_mod {n : Nat} {w' : κ → ν → Nat}
    (h : ∀ e ∈ t.entries, w e.1 e.2 % n = w' e.1 e.2 % n) : t.total w % n = t.total w' % n := by
  unfold total
  revert h
  induction t.entries with
  | nil => exact fun _ => rfl
  | cons e l ih =>
    intro h
    rw [map_cons, map_cons, sum_cons, sum_cons, Nat.add_mod, Nat.add_mod (w' e.1 e.2),
      h e mem_cons_self, ih fun e' he' => h e' (mem_cons_of_mem e he')]

/-! Tables filled by a loop. -/

theorem mem_keys_foldl_insert (f : α → κ) (g : Table κ ν → α → ν) (k : κ) : ∀ (l : List α) (t : Table κ ν),
    k ∈ (l.foldl (fun t a => t.insert (f a) (g t a)) t).keys ↔ k ∈ t.keys ∨ k ∈ l.map f
  | [], t => by simp
  | a :: l, t => by
    have hins : k ∈ (t.insert (f a) (g t a)).keys ↔ k = f a ∨ k ∈ t.keys := by
      rw [mem_keys_iff, mem_keys_iff, find?_insert]
      split
      · next hk => simp [hk]
      · next hk => simp [hk]
    rw [foldl_cons, mem_keys_foldl_insert f g k l, hins, map_cons, mem_cons]
    tauto

/-- What repeated insertion leaves at a key was there or is one of the insertions. -/
theorem find?_foldl_insert {f : α → κ} {g : α → ν} : ∀ (l : List α) (t : Table κ ν),
    (l.foldl (fun u a => u.insert (f a) (g a)) t).find? k = some v → t.find? k = some v ∨ ∃ a ∈ l, f a = k ∧ g a = v
  | [], _, h => .inl h
  | a :: l, t, h => by
    rcases find?_foldl_insert l (t.insert (f a) (g a)) h with h | ⟨b, hb, hfb⟩
    · rw [find?_insert] at h
      split at h
      · next hk => exact .inr ⟨a, mem_cons_self, hk.symm, Option.some.inj h⟩
      · exact .inl h
    · exact .inr ⟨b, mem_cons_of_mem a hb, hfb⟩

/-- The loop leaves an entry for each key it meets. -/
theorem length_foldl_insert (f : α → κ) (g : Table κ ν → α → ν) (l : List α) :
    (l.foldl (fun t a => t.insert (f a) (g t a)) empty).entries.length = (l.map f).dedup.length := by
  have hperm : (l.foldl (fun t a => t.insert (f a) (g t a)) (empty : Table κ ν)).keys.Perm (l.map f).dedup := by
    rw [perm_ext_iff_of_nodup (keys_nodup _) (nodup_dedup _)]
    intro k
    rw [mem_keys_foldl_insert, mem_dedup]
    simp [keys, empty]
  simpa [keys] using hperm.length_eq

/-! Images of all entries. -/

theorem filterMap_entries (t : Table κ ν) (f : κ → ν → Option β) :
    t.entries.filterMap (fun e => f e.1 e.2) = t.keys.filterMap (fun k => (t.find? k).bind (f k)) := by
  rw [keys, filterMap_map]
  apply filterMap_congr
  intro e he
  have hfind : t.find? e.1 = some e.2 := find?_eq_some_iff.mpr he
  simp only [comp, hfind, Option.bind_some]

/-- A table keyed by small numbers, read in the order of its keys. -/
theorem filterMap_perm_range {t : Table Nat ν} {n : Nat} (h : ∀ k v, t.find? k = some v → k < n)
    (f : Nat → ν → Option β) : (t.entries.filterMap fun e => f e.1 e.2).Perm
      ((range n).filterMap fun k => (t.find? k).bind (f k)) := by
  have hkeys : t.keys.Perm ((range n).filter fun k => decide (k ∈ t.keys)) := by
    rw [perm_ext_iff_of_nodup t.keys_nodup (nodup_range.filter _)]
    intro k
    rw [mem_filter, mem_range, decide_eq_true_eq]
    refine ⟨fun hk => ⟨?_, hk⟩, fun hk => hk.2⟩
    obtain ⟨v, hv⟩ := mem_keys_iff.mp hk
    exact h k v hv
  rw [filterMap_entries]
  refine (hkeys.filterMap _).trans (List.Perm.of_eq ?_)
  rw [filterMap_filter]
  apply filterMap_congr
  intro k _
  by_cases hk : k ∈ t.keys
  · simp [hk]
  · simp [hk, find?_eq_none_iff.mpr hk]

/-! Tables as functions. -/

/-- The map `m` with its value at `k` changed by `g`. -/
def alter (m : κ → β) (k : κ) (g : β → β) : κ → β := update m k (g (m k))

theorem alter_of_ne (m : κ → β) (g : β → β) (h : j ≠ k) : alter m k g j = m j :=
  update_of_ne h _ _

theorem alter_alter (m : κ → β) (k : κ) (f g : β → β) : alter (alter m k f) k g = alter m k (g ∘ f) := by
  unfold alter
  rw [update_self, update_idem]
  rfl

/-- Changes at different places commute, and so do changes at one place that commute there. -/
theorem alter_comm (m : κ → β) {f g : β → β} (h : j ≠ k ∨ ∀ v, f (g v) = g (f v)) :
    alter (alter m j f) k g = alter (alter m k g) j f := by
  unfold alter
  by_cases hjk : j = k
  · subst hjk
    simp only [update_self, update_idem]
    rw [h.resolve_left (· rfl)]
  · rw [update_of_ne (Ne.symm hjk), update_of_ne hjk, update_comm hjk]

theorem eq_alter {m m' : κ → β} {g : β → β} (h : ∀ j, m' j = if j = k then g (m j) else m j) :
    m' = alter m k g := by
  funext j
  rw [h]
  unfold alter
  by_cases hj : j = k
  · rw [if_pos hj, hj, update_self]
  · rw [if_neg hj, update_of_ne hj]

theorem find?_modify_alter (t : Table κ ν) (k : κ) (f : ν → ν) :
    (t.modify k f).find? = alter t.find? k (Option.map f) :=
  eq_alter (find?_modify t k f)

theorem find?_insert_alter (t : Table κ ν) (k : κ) (v : ν) : (t.insert k v).find? = alter t.find? k fun _ => some v :=
  eq_alter (find?_insert t k v)

theorem find?_erase_alter (t : Table κ ν) (k : κ) : (t.erase k).find? = alter t.find? k fun _ => none :=
  eq_alter (find?_erase t k)

/-- Tables with the same lookups have the same keys. -/
theorem keys_perm (h : t.find? = u.find?) : t.keys.Perm u.keys := by
  rw [perm_ext_iff_of_nodup t.keys_nodup u.keys_nodup]
  intro k
  rw [mem_keys_iff, mem_keys_iff, h]

end Table
end Lib
