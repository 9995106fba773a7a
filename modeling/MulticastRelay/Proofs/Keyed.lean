import MulticastRelay.Ascending
import Mathlib.Algebra.GroupWithZero.Nat
import Mathlib.Data.List.Nodup

/-! # Ascending and keyed lists

What insertion, replacement and removal do to membership, order and keys.
-/
namespace MulticastRelay

namespace Ascending

variable {α : Type} {before : α → α → Bool} {a x : α} {xs : List α}

/-- An element that precedes or follows each element of a list is added to it once. -/
theorem insert_perm (h : ∀ b ∈ xs, before a b = true ∨ before b a = true) :
    (insert before a xs).Perm (a :: xs) := by
  induction xs with
  | nil => exact .refl _
  | cons b bs ih =>
    have hb := h b (List.mem_cons_self ..)
    have hbs := ih fun c hc => h c (List.mem_cons_of_mem _ hc)
    unfold insert
    split
    · exact .refl _
    · rename_i hab
      rw [if_pos (hb.resolve_left hab)]
      exact (hbs.cons b).trans (.swap a b bs)

/-- Under a total order insertion adds exactly the new element. -/
theorem mem_insert_iff (total : ∀ a b, before a b = true ∨ before b a = true ∨ a = b) :
    x ∈ insert before a xs ↔ x = a ∨ x ∈ xs := by
  constructor
  · exact eq_or_mem_of_mem_insert
  · rintro (rfl | hx)
    · induction xs with
      | nil => exact List.mem_singleton_self _
      | cons b bs ih =>
        unfold insert
        split
        · exact List.mem_cons_self
        · split
          · exact List.mem_cons_of_mem _ ih
          · rename_i hab hba
            rcases total x b with h | h | rfl
            · exact absurd h hab
            · exact absurd h hba
            · exact List.mem_cons_self
    · exact mem_insert_of_mem hx

/-- All elements of a list are there, and no others. -/
theorem mem_ofList_iff (total : ∀ a b, before a b = true ∨ before b a = true ∨ a = b) :
    x ∈ ofList before xs ↔ x ∈ xs := by
  have hfold : ∀ (ys acc : List α),
      x ∈ ys.foldl (fun acc a => insert before a acc) acc ↔ x ∈ acc ∨ x ∈ ys := by
    intro ys
    induction ys with
    | nil => intro acc; simp
    | cons y ys ih =>
      intro acc
      rw [List.foldl_cons, ih, mem_insert_iff total, List.mem_cons, or_comm (a := x = y), or_assoc]
  rw [ofList, hfold]
  simp

theorem ofList_pairwise
    (trans : ∀ {a b c}, before a b = true → before b c = true → before a c = true) :
    (ofList before xs).Pairwise (before · ·) :=
  List.foldlRecOn (motive := List.Pairwise (before · ·)) xs _ List.Pairwise.nil
    fun _ h _ _ => insert_pairwise trans h

/-- A test that fails for an element does not see it come in. -/
theorem filter_insert_of_neg {p : α → Bool} (ha : ¬p a = true) (xs : List α) :
    (insert before a xs).filter p = xs.filter p := by
  induction xs with
  | nil => exact List.filter_cons_of_neg ha
  | cons b bs ih =>
    unfold insert
    split
    · exact List.filter_cons_of_neg ha
    · split
      · rw [List.filter_cons, List.filter_cons, ih]
      · rfl

theorem insert_ne_nil (a : α) (xs : List α) : insert before a xs ≠ [] := by
  cases xs with
  | nil => exact List.cons_ne_nil a []
  | cons b bs =>
    unfold insert
    split
    · exact List.cons_ne_nil _ _
    · split <;> exact List.cons_ne_nil _ _

theorem ofList_ne_nil (h : xs ≠ []) : ofList before xs ≠ [] := by
  have hfold : ∀ (ys acc : List α), acc ≠ [] →
      ys.foldl (fun acc a => insert before a acc) acc ≠ [] := by
    intro ys
    induction ys with
    | nil => exact fun _ h => h
    | cons y ys ih => exact fun acc _ => ih _ (insert_ne_nil y acc)
  cases xs with
  | nil => exact absurd rfl h
  | cons x xs => exact hfold xs _ (insert_ne_nil x [])

end Ascending

namespace Keyed

variable {α κ : Type} [DecidableEq κ] {key : α → κ} {k : κ} {a b : α} {xs : List α} {f : α → α}

theorem get?_mem (h : get? key k xs = some a) : a ∈ xs ∧ key a = k :=
  ⟨List.mem_of_find?_eq_some h, by simpa using List.find?_some h⟩

theorem get?_eq_none_iff : get? key k xs = none ↔ k ∉ xs.map key := by
  simp [get?, List.find?_eq_none]

/-- Where keys are distinct, an entry is the one found under its key. -/
theorem get?_eq_some_iff (hn : (xs.map key).Nodup) :
    get? key k xs = some a ↔ a ∈ xs ∧ key a = k := by
  constructor
  · exact get?_mem
  · rintro ⟨ha, hk⟩
    cases h : get? key k xs with
    | none => exact absurd (hk ▸ List.mem_map_of_mem ha) (get?_eq_none_iff.1 h)
    | some b =>
      obtain ⟨hb, hbk⟩ := get?_mem h
      have := List.inj_on_of_nodup_map hn hb ha (hbk.trans hk.symm)
      rw [this]

/-- In a table of pairs with distinct keys, an entry is the one found under its key. -/
theorem lookup_eq_some_iff {β : Type} {ps : List (κ × β)} {v : β}
    (hn : (ps.map Prod.fst).Nodup) : ps.lookup k = some v ↔ (k, v) ∈ ps := by
  induction ps with
  | nil => simp
  | cons p ps ih =>
    obtain ⟨hp, hn⟩ := List.nodup_cons.1 hn
    rw [List.lookup_cons, List.mem_cons]
    by_cases hk : k = p.1
    · subst hk
      have hnone : (p.1, v) ∉ ps := fun hm => hp (List.mem_map.2 ⟨_, hm, rfl⟩)
      simp [hnone, Prod.ext_iff, eq_comm]
    · have hbeq : (k == p.1) = false := beq_eq_false_iff_ne.2 hk
      simp [hbeq, ih hn, Prod.ext_iff, hk]

/-- The lookup after one entry was added somewhere. -/
theorem get?_of_perm_cons {ys : List α} (hp : ys.Perm (a :: xs)) (hn : (ys.map key).Nodup) (k : κ) :
    get? key k ys = if key a = k then some a else get? key k xs := by
  have hc : ((a :: xs).map key).Nodup := (hp.map key).nodup_iff.1 hn
  have hs : get? key k ys = get? key k (a :: xs) := by
    apply Option.ext
    intro b
    rw [get?_eq_some_iff hn, get?_eq_some_iff hc, hp.mem_iff]
  rw [hs]
  by_cases ha : key a = k
  · simp [get?, ha]
  · simp [get?, ha]

/-- The lookup after an entry of a new key was inserted. -/
theorem get?_insert {before : α → α → Bool} (hk : ∀ b ∈ xs, key b ≠ key a)
    (ht : ∀ b ∈ xs, before a b = true ∨ before b a = true) (k : κ) :
    get? key k (Ascending.insert before a xs) = if key a = k then some a else get? key k xs := by
  induction xs with
  | nil => simp [Ascending.insert, get?]
  | cons b bs ih =>
    have hrest := ih (fun c hc => hk c (List.mem_cons_of_mem _ hc)) fun c hc =>
      ht c (List.mem_cons_of_mem _ hc)
    have hne := hk b List.mem_cons_self
    unfold get? at hrest ⊢
    unfold Ascending.insert
    by_cases hab : before a b = true
    · rw [if_pos hab]
      by_cases ha : key a = k <;> simp [ha]
    · rw [if_neg hab, if_pos ((ht b List.mem_cons_self).resolve_left hab), List.find?_cons,
        List.find?_cons, hrest]
      by_cases hb : key b = k
      · have ha : key a ≠ k := fun ha => hne (hb.trans ha.symm)
        simp [hb, ha]
      · simp [hb]

theorem map_key_modify (hf : ∀ a, key a = k → key (f a) = k) :
    (modify key k f xs).map key = xs.map key := by
  unfold modify
  rw [List.map_map]
  apply List.map_congr_left
  intro a _
  by_cases ha : key a = k
  · simp [ha, hf a ha]
  · simp [ha]

theorem mem_modify : b ∈ modify key k f xs ↔ ∃ a ∈ xs, b = if key a = k then f a else a := by
  simp only [modify, List.mem_map, eq_comm]

/-- A change that is none at the entry with the key, and only then, changes nothing. -/
theorem modify_eq_self_iff (hn : (xs.map key).Nodup) :
    modify key k f xs = xs ↔ ∀ a, get? key k xs = some a → f a = a := by
  have hpoint : modify key k f xs = xs ↔ ∀ a ∈ xs, (if key a = k then f a else a) = id a := by
    rw [← List.map_inj_left, List.map_id]
    rfl
  rw [hpoint]
  constructor
  · intro h a ha
    obtain ⟨hm, hk⟩ := get?_mem ha
    simpa [hk] using h a hm
  · intro h a hm
    split
    · rename_i hk
      exact h a ((get?_eq_some_iff hn).2 ⟨hm, hk⟩)
    · rfl

theorem get?_modify (hf : ∀ a, key a = k → key (f a) = k) (j : κ) :
    get? key j (modify key k f xs) = if j = k then (get? key k xs).map f else get? key j xs := by
  induction xs with
  | nil => simp [modify, get?]
  | cons x xs ih =>
    unfold modify get? at ih ⊢
    by_cases hx : key x = k
    · by_cases hj : j = k
      · subst hj
        simp [hx, hf x hx]
      · have hxj : key x ≠ j := fun h => hj (h ▸ hx)
        have hfj : key (f x) ≠ j := fun h => hj (h ▸ (hf x hx))
        simpa [hx, hj, hfj, Ne.symm hj] using ih
    · by_cases hj : key x = j
      · subst hj
        simp [hx]
      · by_cases hjk : j = k
        · subst hjk
          simpa [hx] using ih
        · simpa [hx, hj, hjk] using ih

theorem get?_map (hf : ∀ a, key (f a) = key a) : get? key k (xs.map f) = (get? key k xs).map f := by
  unfold get?
  rw [List.find?_map]
  simp only [Function.comp_def, hf]

theorem get?_erase (j : κ) : get? key j (erase key k xs) = if j = k then none else get? key j xs := by
  unfold get? erase
  rw [List.find?_filter]
  by_cases hj : j = k
  · rw [if_pos hj, List.find?_eq_none]
    intro a _
    simp [hj]
  · rw [if_neg hj]
    congr 1
    funext a
    by_cases ha : key a = j
    · simp [ha, hj]
    · simp [ha]

theorem mem_keys_erase {j : κ} : j ∈ (erase key k xs).map key ↔ j ≠ k ∧ j ∈ xs.map key := by
  simp only [erase, List.mem_map, List.mem_filter, decide_eq_true_eq]
  constructor
  · rintro ⟨a, ⟨ha, hk⟩, rfl⟩
    exact ⟨hk, a, ha, rfl⟩
  · rintro ⟨hk, a, ha, rfl⟩
    exact ⟨a, ⟨ha, hk⟩, rfl⟩

/-- An entry put under its key takes no other key. -/
theorem nodup_put (a : α) (h : (xs.map key).Nodup) : ((put key a xs).map key).Nodup := by
  unfold put
  split
  · rw [map_key_modify fun _ _ => rfl]
    exact h
  · rename_i hs
    have hk : key a ∉ xs.map key := get?_eq_none_iff.1 (Option.not_isSome_iff_eq_none.1 hs)
    rw [List.map_append, List.nodup_append]
    refine ⟨h, List.nodup_singleton _, fun k hx j hj => ?_⟩
    rw [List.mem_singleton.1 hj]
    exact fun he => hk (he ▸ hx)

theorem modify_of_not_mem (h : k ∉ xs.map key) : modify key k f xs = xs := by
  unfold modify
  rw [List.map_congr_left (g := id), List.map_id]
  intro a ha
  have : key a ≠ k := fun hk => h (hk ▸ List.mem_map_of_mem ha)
  simp [this]

theorem erase_of_not_mem (h : k ∉ xs.map key) : erase key k xs = xs := by
  unfold erase
  rw [List.filter_eq_self]
  intro a ha
  have : key a ≠ k := fun hk => h (hk ▸ List.mem_map_of_mem ha)
  simp [this]

/-- Replacing an entry replaces its share of a sum. -/
theorem sum_modify (hn : (xs.map key).Nodup) (h : get? key k xs = some a) (w : α → Nat) :
    ((modify key k (fun _ => b) xs).map w).sum + w a = (xs.map w).sum + w b := by
  induction xs with
  | nil => cases h
  | cons x xs ih =>
    obtain ⟨hx, hn⟩ := List.nodup_cons.1 hn
    by_cases hk : key x = k
    · have ha : x = a := by simpa [get?, hk] using h
      have hm := modify_of_not_mem (f := fun _ => b) (hk ▸ hx)
      have : modify key k (fun _ => b) (x :: xs) = b :: modify key k (fun _ => b) xs := by
        simp [modify, hk]
      rw [this, hm, ← ha]
      simp only [List.map_cons, List.sum_cons]
      omega
    · have ht : get? key k xs = some a := by simpa [get?, hk] using h
      have hs := ih hn ht
      have : modify key k (fun _ => b) (x :: xs) = x :: modify key k (fun _ => b) xs := by
        simp [modify, hk]
      rw [this]
      simp only [List.map_cons, List.sum_cons]
      omega

theorem sum_erase (hn : (xs.map key).Nodup) (h : get? key k xs = some a) (w : α → Nat) :
    ((erase key k xs).map w).sum + w a = (xs.map w).sum := by
  induction xs with
  | nil => cases h
  | cons x xs ih =>
    obtain ⟨hx, hn⟩ := List.nodup_cons.1 hn
    by_cases hk : key x = k
    · have ha : x = a := by simpa [get?, hk] using h
      have hm : erase key k xs = xs := erase_of_not_mem (hk ▸ hx)
      have : erase key k (x :: xs) = erase key k xs := by simp [erase, hk]
      rw [this, hm, ← ha]
      simp only [List.map_cons, List.sum_cons]
      omega
    · have ht : get? key k xs = some a := by simpa [get?, hk] using h
      have hs := ih hn ht
      have : erase key k (x :: xs) = x :: erase key k xs := by simp [erase, hk]
      rw [this]
      simp only [List.map_cons, List.sum_cons]
      omega

end Keyed
end MulticastRelay
