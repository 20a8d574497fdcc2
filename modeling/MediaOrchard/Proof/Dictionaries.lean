/-
  Dictionaries as lists of entries in insertion order.

  * `lookup_dictSet`, `dictSet_keys`: what a key holds after `d[k] = v`, and the
    keys, in their order;
  * `mergeDict d p`: the entries of `p` set in `d` one after another, as
    `d.update(p)` does; a later entry wins (`lookup_mergeDict`);
  * `mergeDict_mergeDict`: a dictionary that was built entry by entry merges like
    its entries.
-/
import MediaOrchard.Shared.Basic
import Mathlib.Data.List.Nodup

namespace MediaOrchard

variable {α : Type} {d p e : List (String × α)} {k j : String} {v w : α}

/-- The entries with the value `v` under the key `k`. -/
def overwrite (k : String) (v : α) (d : List (String × α)) : List (String × α) :=
  d.map fun kv => if kv.1 = k then (k, v) else kv

@[simp] theorem overwrite_keys : (overwrite k v d).map Prod.fst = d.map Prod.fst := by
  unfold overwrite
  rw [List.map_map]
  refine List.map_congr_left fun kv _ => ?_
  simp only [Function.comp_apply]
  split_ifs with hk
  exacts [hk.symm, rfl]

/-- An existing key keeps its place. -/
theorem dictSet_old (h : k ∈ d.map Prod.fst) : dictSet d k v = overwrite k v d := by
  unfold dictSet overwrite
  rw [if_pos]
  · simp only [beq_iff_eq]
  · obtain ⟨kv, hkv, rfl⟩ := List.mem_map.1 h
    exact List.any_eq_true.2 ⟨kv, hkv, by simp⟩

/-- A new key is added at the end. -/
theorem dictSet_new (h : k ∉ d.map Prod.fst) : dictSet d k v = d ++ [(k, v)] := by
  unfold dictSet
  rw [if_neg]
  simp only [List.any_eq_true, beq_iff_eq, not_exists, not_and]
  intro kv hkv hk
  exact h (hk ▸ List.mem_map_of_mem hkv)

theorem overwrite_new (h : k ∉ d.map Prod.fst) : overwrite k v d = d := by
  refine (List.map_congr_left fun kv hkv => if_neg fun hk => h ?_).trans (List.map_id d)
  exact hk ▸ List.mem_map_of_mem hkv

theorem dictSet_keys : (dictSet d k v).map Prod.fst =
    if k ∈ d.map Prod.fst then d.map Prod.fst else d.map Prod.fst ++ [k] := by
  split_ifs with h
  · rw [dictSet_old h, overwrite_keys]
  · rw [dictSet_new h, List.map_append]
    rfl

theorem mem_dictSet {kv : String × α} (h : kv ∈ dictSet d k v) : kv ∈ d ∨ kv = (k, v) := by
  by_cases hk : k ∈ d.map Prod.fst
  · rw [dictSet_old hk, overwrite, List.mem_map] at h
    obtain ⟨kv', hkv', rfl⟩ := h
    split_ifs
    exacts [Or.inr rfl, Or.inl hkv']
  · rw [dictSet_new hk, List.mem_append, List.mem_singleton] at h
    exact h

theorem lookup_entry (kv : String × α) :
    (kv :: d).lookup j = if j = kv.1 then some kv.2 else d.lookup j := by
  obtain ⟨i, u⟩ := kv
  by_cases hj : j = i
  · simp [hj]
  · simp [hj, List.lookup_cons, beq_eq_false_iff_ne.2 hj]

theorem lookup_absent (h : k ∉ d.map Prod.fst) : d.lookup k = none := by
  induction d with
  | nil => rfl
  | cons kv d ih =>
    rw [List.map_cons, List.mem_cons, not_or] at h
    rw [lookup_entry, if_neg h.1, ih h.2]

theorem lookup_overwrite : (overwrite k v d).lookup j =
    if j = k then (d.lookup k).map fun _ => v else d.lookup j := by
  induction d with
  | nil => simp [overwrite]
  | cons kv d ih =>
    have hcons : overwrite k v (kv :: d) =
        (if kv.1 = k then (k, v) else kv) :: overwrite k v d := rfl
    rw [hcons, lookup_entry, lookup_entry, lookup_entry, ih]
    by_cases hkv : kv.1 = k
    · by_cases hj : j = k <;> simp [hkv, hj]
    · by_cases hj : j = k
      · simp [hkv, hj, Ne.symm hkv]
      · simp [hkv, hj]

theorem lookup_present (h : k ∈ d.map Prod.fst) : ∃ u, d.lookup k = some u := by
  induction d with
  | nil => exact absurd h List.not_mem_nil
  | cons kv d ih =>
    rw [lookup_entry]
    split_ifs with hk
    · exact ⟨kv.2, rfl⟩
    · exact ih ((List.mem_cons.1 h).resolve_left hk)

theorem lookup_dictSet : (dictSet d k v).lookup j = if j = k then some v else d.lookup j := by
  by_cases hk : k ∈ d.map Prod.fst
  · obtain ⟨u, hu⟩ := lookup_present hk
    rw [dictSet_old hk, lookup_overwrite, hu, Option.map_some]
  · rw [dictSet_new hk, List.lookup_append]
    by_cases hj : j = k
    · simp [hj, lookup_absent hk]
    · simp [hj, lookup_entry]

/-- A key that is there keeps its place, whatever is set in between. -/
theorem dictSet_comm (hk : k ∈ d.map Prod.fst) (h : j ≠ k) :
    dictSet (dictSet d j w) k v = dictSet (dictSet d k v) j w := by
  have hkeys : k ∈ (dictSet d j w).map Prod.fst := by
    rw [dictSet_keys]
    split_ifs
    exacts [hk, List.mem_append_left _ hk]
  rw [dictSet_old hkeys, dictSet_old hk]
  by_cases hj : j ∈ d.map Prod.fst
  · rw [dictSet_old hj, dictSet_old (by rwa [overwrite_keys])]
    simp only [overwrite, List.map_map]
    refine List.map_congr_left fun kv _ => ?_
    simp only [Function.comp_apply]
    by_cases hkv : kv.1 = k <;> by_cases hjv : kv.1 = j
    · exact absurd (hjv.symm.trans hkv) h
    · simp [hkv, h.symm]
    · simp [hjv, h]
    · simp [hkv, hjv]
  · rw [dictSet_new hj, dictSet_new (by rwa [overwrite_keys]), overwrite, List.map_append,
      List.map_singleton, if_neg h]
    rfl

theorem dictSet_dictSet : dictSet (dictSet d k w) k v = dictSet d k v := by
  have hkeys : k ∈ (dictSet d k w).map Prod.fst := by
    rw [dictSet_keys]
    split_ifs with hk
    exacts [hk, List.mem_append_right _ (List.mem_singleton_self k)]
  rw [dictSet_old hkeys]
  by_cases hk : k ∈ d.map Prod.fst
  · rw [dictSet_old hk, dictSet_old hk]
    simp only [overwrite, List.map_map]
    refine List.map_congr_left fun kv _ => ?_
    simp only [Function.comp_apply]
    split_ifs <;> simp_all
  · rw [dictSet_new hk, dictSet_new hk, overwrite, List.map_append, List.map_singleton, if_pos rfl]
    exact congrArg (· ++ [(k, v)]) (overwrite_new hk)

/-! ## Merging -/

/-- `d.update(p)` -/
def mergeDict (d p : List (String × α)) : List (String × α) :=
  p.foldl (fun d kv => dictSet d kv.1 kv.2) d

@[simp] theorem mergeDict_nil : mergeDict d [] = d := rfl

@[simp] theorem mergeDict_cons (kv : String × α) :
    mergeDict d (kv :: p) = mergeDict (dictSet d kv.1 kv.2) p := rfl

theorem mergeDict_append : mergeDict d (p ++ e) = mergeDict (mergeDict d p) e :=
  List.foldl_append

theorem mem_mergeDict {kv : String × α} (h : kv ∈ mergeDict d p) : kv ∈ d ∨ kv ∈ p := by
  induction p generalizing d with
  | nil => exact Or.inl h
  | cons kv' p ih =>
    rcases ih h with h | h
    · exact (mem_dictSet h).imp_right fun heq => by rw [heq]; exact List.mem_cons_self
    · exact Or.inr (List.mem_cons_of_mem _ h)

/-- The keys stay distinct. -/
theorem mergeDict_nodup (h : (d.map Prod.fst).Nodup) : ((mergeDict d p).map Prod.fst).Nodup := by
  induction p generalizing d with
  | nil => exact h
  | cons kv p ih =>
    refine ih ?_
    rw [dictSet_keys]
    split_ifs with hk
    · exact h
    · exact List.nodup_append.2 ⟨h, List.nodup_singleton _, fun a ha b hb hab =>
        hk (List.mem_singleton.1 hb ▸ hab ▸ ha)⟩

/-- New entries with distinct keys are added at the end. -/
theorem mergeDict_new (h : ((d ++ p).map Prod.fst).Nodup) : mergeDict d p = d ++ p := by
  induction p generalizing d with
  | nil => exact (List.append_nil d).symm
  | cons kv p ih =>
    have hk : kv.1 ∉ d.map Prod.fst := fun hk => by
      rw [List.map_append] at h
      exact List.disjoint_of_nodup_append h hk (by simp)
    rw [mergeDict_cons, dictSet_new hk, ih (by simpa using h), List.append_assoc]
    rfl

/-- **The later entry wins.** -/
theorem lookup_mergeDict (hp : (p.map Prod.fst).Nodup) :
    (mergeDict d p).lookup k = (p.lookup k).or (d.lookup k) := by
  induction p generalizing d with
  | nil => rfl
  | cons kv p ih =>
    obtain ⟨hnew, hp⟩ := List.nodup_cons.1 hp
    rw [mergeDict_cons, ih hp, lookup_dictSet, lookup_entry]
    by_cases hk : k = kv.1
    · subst hk
      simp [lookup_absent hnew]
    · simp [hk]

/-- Setting a key after a merge, or before it if the merge leaves the key alone. -/
theorem dictSet_mergeDict (hk : k ∈ d.map Prod.fst) (hp : k ∉ p.map Prod.fst) :
    dictSet (mergeDict d p) k v = mergeDict (dictSet d k v) p := by
  induction p generalizing d with
  | nil => rfl
  | cons kv p ih =>
    rw [List.map_cons, List.mem_cons, not_or] at hp
    have hmem : k ∈ (dictSet d kv.1 kv.2).map Prod.fst := by
      rw [dictSet_keys]
      split_ifs
      exacts [hk, List.mem_append_left _ hk]
    rw [mergeDict_cons, mergeDict_cons, ih hmem hp.2, dictSet_comm hk (Ne.symm hp.1)]

/-- Setting a key of what is merged. -/
theorem mergeDict_dictSet (hp : (p.map Prod.fst).Nodup) :
    mergeDict d (dictSet p k v) = dictSet (mergeDict d p) k v := by
  by_cases hk : k ∈ p.map Prod.fst
  · rw [dictSet_old hk]
    induction p generalizing d with
    | nil => exact absurd hk List.not_mem_nil
    | cons kv p ih =>
      obtain ⟨hnew, hp⟩ := List.nodup_cons.1 hp
      by_cases hkv : kv.1 = k
      · subst hkv
        have hmem : kv.1 ∈ (dictSet d kv.1 kv.2).map Prod.fst := by
          rw [dictSet_keys]
          split_ifs with hd
          exacts [hd, List.mem_append_right _ (List.mem_singleton_self _)]
        rw [overwrite, List.map_cons, if_pos rfl, mergeDict_cons, mergeDict_cons,
          dictSet_mergeDict hmem hnew, dictSet_dictSet]
        exact congrArg (mergeDict _) (overwrite_new hnew)
      · rw [overwrite, List.map_cons, if_neg hkv, mergeDict_cons, mergeDict_cons]
        exact ih hp ((List.mem_cons.1 hk).resolve_left (Ne.symm hkv))
  · rw [dictSet_new hk, mergeDict_append]
    rfl

/-- **A dictionary built entry by entry merges like its entries.** -/
theorem mergeDict_mergeDict : mergeDict d (mergeDict [] p) = mergeDict d p := by
  induction p using List.reverseRecOn with
  | nil => rfl
  | append_singleton p kv ih =>
    have hnd : ((mergeDict [] p).map Prod.fst).Nodup := mergeDict_nodup List.nodup_nil
    rw [mergeDict_append, mergeDict_append, mergeDict_cons, mergeDict_nil, mergeDict_dictSet hnd, ih]
    rfl

end MediaOrchard
