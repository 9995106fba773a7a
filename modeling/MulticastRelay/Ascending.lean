/-! # Ascending lists

Lists kept in ascending order without repetition under a strict order, and lists of entries addressed
by a key. Insertion adds exactly the new element.
-/
namespace MulticastRelay

namespace Ascending

variable {α : Type}

/-- Inserts an element at its place; an element that neither precedes nor follows is there already. -/
def insert (before : α → α → Bool) (a : α) : List α → List α
  | [] => [a]
  | b :: bs =>
    if before a b then a :: b :: bs
    else if before b a then b :: insert before a bs
    else b :: bs

/-- All elements of a list, in ascending order and once each. -/
def ofList (before : α → α → Bool) (xs : List α) : List α :=
  xs.foldl (fun acc a => insert before a acc) []

theorem mem_insert_of_mem {before : α → α → Bool} {a x : α} {xs : List α} (h : x ∈ xs) :
    x ∈ insert before a xs := by
  induction xs with
  | nil => simp at h
  | cons b bs ih =>
    simp only [insert]
    split
    · exact List.mem_cons_of_mem _ h
    · split
      · rcases List.mem_cons.1 h with rfl | h
        · exact List.mem_cons_self
        · exact List.mem_cons_of_mem _ (ih h)
      · exact h

theorem eq_or_mem_of_mem_insert {before : α → α → Bool} {a x : α} {xs : List α}
    (h : x ∈ insert before a xs) : x = a ∨ x ∈ xs := by
  induction xs with
  | nil => simpa [insert] using h
  | cons b bs ih =>
    simp only [insert] at h
    split at h
    · simpa using h
    · split at h
      · rcases List.mem_cons.1 h with rfl | h
        · simp
        · rcases ih h with rfl | h
          · simp
          · simp [h]
      · exact Or.inr h

theorem insert_pairwise {before : α → α → Bool} {a : α} {xs : List α}
    (trans : ∀ {a b c}, before a b = true → before b c = true → before a c = true)
    (h : xs.Pairwise (before · ·)) : (insert before a xs).Pairwise (before · ·) := by
  induction xs with
  | nil => exact List.pairwise_singleton _ a
  | cons b bs ih =>
    obtain ⟨hb, hbs⟩ := List.pairwise_cons.1 h
    unfold insert
    split
    · rename_i hab
      refine List.pairwise_cons.2 ⟨fun c hc => ?_, h⟩
      rcases List.mem_cons.1 hc with rfl | hc
      · exact hab
      · exact trans hab (hb c hc)
    · split
      · rename_i hba
        refine List.pairwise_cons.2 ⟨fun c hc => ?_, ih hbs⟩
        rcases eq_or_mem_of_mem_insert hc with rfl | hc
        · exact hba
        · exact hb c hc
      · exact h

end Ascending

namespace Keyed

variable {α κ : Type} [DecidableEq κ]

/-- The first entry with a key. -/
def get? (key : α → κ) (k : κ) (xs : List α) : Option α := xs.find? (fun a => key a = k)

/-- Changes the entries with a key. -/
def modify (key : α → κ) (k : κ) (f : α → α) (xs : List α) : List α :=
  xs.map (fun a => if key a = k then f a else a)

/-- Drops the entries with a key. -/
def erase (key : α → κ) (k : κ) (xs : List α) : List α := xs.filter (fun a => key a ≠ k)

/-- Replaces the entry with the same key, or adds one at the end. -/
def put (key : α → κ) (a : α) (xs : List α) : List α :=
  if (get? key (key a) xs).isSome then modify key (key a) (fun _ => a) xs else xs ++ [a]

/-- A change that keeps keys keeps their order. -/
theorem pairwise_modify {key : α → κ} {k : κ} {f : α → α} {xs : List α} {r : κ → κ → Prop}
    (hf : ∀ a, key (f a) = key a) (h : xs.Pairwise fun a b => r (key a) (key b)) :
    (modify key k f xs).Pairwise fun a b => r (key a) (key b) := by
  have hkey : ∀ a, key (if key a = k then f a else a) = key a := by
    intro a
    split
    · exact hf a
    · rfl
  unfold modify
  rw [List.pairwise_map]
  simp only [hkey]
  exact h

end Keyed
end MulticastRelay
