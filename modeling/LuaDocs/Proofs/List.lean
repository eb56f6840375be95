import Mathlib.Data.List.Perm.Basic

/-!
# Dividing a list by a key

A list is divided into the items of each key, where every key is taken once.
-/

namespace List

variable {κ : Type} [DecidableEq κ]

theorem nodup_eraseDups (l : List κ) : l.eraseDups.Nodup := by
  cases l with
  | nil => exact nodup_nil
  | cons a l =>
    rw [eraseDups_cons, nodup_cons]
    exact ⟨by simp, nodup_eraseDups _⟩
termination_by l.length
decreasing_by exact Nat.lt_succ_of_le (length_filter_le _ _)

/-- Dividing a list by a key loses nothing and repeats nothing. -/
theorem flatMap_filter_perm {α : Type} {key : α → κ} {keys : List κ} (hkeys : keys.Nodup)
    {l : List α} (hall : ∀ a ∈ l, key a ∈ keys) :
    (keys.flatMap fun k => l.filter fun a => key a == k).Perm l := by
  induction keys generalizing l with
  | nil =>
    obtain rfl := eq_nil_iff_forall_not_mem.2 fun a ha => not_mem_nil (hall a ha)
    exact .nil
  | cons k keys ih =>
    obtain ⟨hnew, hkeys⟩ := nodup_cons.1 hkeys
    have hothers : (keys.flatMap fun k => l.filter fun a => key a == k) =
        keys.flatMap fun other => (l.filter fun a => !(key a == k)).filter fun a =>
          key a == other := by
      refine flatMap_congr fun other hother => ?_
      rw [filter_filter]
      refine filter_congr fun a _ => ?_
      by_cases heq : key a = other
      · have hne : other ≠ k := fun heq => hnew (heq ▸ hother)
        simp [heq, hne]
      · simp [heq]
    rw [flatMap_cons, hothers]
    refine .trans (.append_left _ (ih hkeys fun a ha => ?_)) (filter_append_perm _ l)
    obtain ⟨ha, hne⟩ := mem_filter.1 ha
    exact (mem_cons.1 (hall a ha)).resolve_left (by simpa using hne)

end List
