import Mathlib.Data.List.Nodup
import Mathlib.Logic.Relation

/-!
# Depth-first order

The nodes of a graph below some given nodes can be listed depth first: each given node, unless it
has been listed before, is followed by all that is below it and was not listed before, and only
then comes the next given node.

A program that lists nodes this way keeps one list of pending nodes instead. It takes the first of
them and, if the node is new, puts the nodes next to it in front of the others. That this gives the
same list is `DepthFirst.push`.
-/

namespace LuaDocs

/-- The nodes `order` are those of `todo` and below, depth first, without those that have been seen.
Next to a node are the nodes that `next` gives for it. -/
inductive DepthFirst {α : Type} (next : α → List α) : List α → List α → List α → Prop
  | done (seen : List α) : DepthFirst next seen [] []
  /-- A node that has been seen is not listed again. -/
  | skip {seen todo order : List α} {a : α} : a ∈ seen → DepthFirst next seen todo order →
      DepthFirst next seen (a :: todo) order
  /-- A new node is followed by what is below it, and then by what is left. -/
  | visit {seen todo below after : List α} {a : α} : a ∉ seen →
      DepthFirst next (a :: seen) (next a) below →
      DepthFirst next (below ++ a :: seen) todo after →
      DepthFirst next seen (a :: todo) (a :: (below ++ after))

namespace DepthFirst

variable {α : Type} {next : α → List α} {seen todo order : List α} {a b : α}

/-- Of the nodes that have been seen it matters only which they are. -/
theorem congr_seen (h : DepthFirst next seen todo order) {seen' : List α}
    (hseen : ∀ x, x ∈ seen' ↔ x ∈ seen) : DepthFirst next seen' todo order := by
  induction h generalizing seen' with
  | done seen => exact .done seen'
  | skip ha _ ih => exact .skip ((hseen _).2 ha) (ih hseen)
  | visit ha _ _ ihbelow ihafter =>
    refine .visit (fun hm => ha ((hseen _).1 hm)) (ihbelow fun x => ?_) (ihafter fun x => ?_)
    · rw [List.mem_cons, List.mem_cons, hseen]
    · rw [List.mem_append, List.mem_append, List.mem_cons, List.mem_cons, hseen]

/-- What is listed for two lists of nodes, one after the other. -/
theorem exists_of_append {front back : List α} (h : DepthFirst next seen (front ++ back) order) :
    ∃ below after, DepthFirst next seen front below ∧
      DepthFirst next (below ++ seen) back after ∧ order = below ++ after := by
  induction front generalizing seen order with
  | nil => exact ⟨[], order, .done seen, h, rfl⟩
  | cons x front ih =>
    cases h with
    | skip hx h =>
      obtain ⟨below, after, hbelow, hafter, rfl⟩ := ih h
      exact ⟨below, after, .skip hx hbelow, hafter, rfl⟩
    | @visit _ _ inner _ _ hx hinner h =>
      obtain ⟨below, after, hbelow, hafter, rfl⟩ := ih h
      refine ⟨x :: (inner ++ below), after, .visit hx hinner hbelow, ?_, by simp⟩
      exact hafter.congr_seen fun y => by simp only [List.mem_append, List.mem_cons]; grind

/-- **Pending nodes may be kept in one list**, with the nodes next to a new one in front. -/
theorem push (ha : a ∉ seen) (h : DepthFirst next (a :: seen) (next a ++ todo) order) :
    DepthFirst next seen (a :: todo) (a :: order) := by
  obtain ⟨below, after, hbelow, hafter, rfl⟩ := h.exists_of_append
  exact .visit ha hbelow hafter

/-! ### Names of nodes

What is pending may be names, each of which stands for a node or for nothing. -/

section Names

variable {ν : Type} {node? : ν → Option α} {n : ν} {names : List ν}

/-- A name that stands for nothing, or for a node that has been seen, is passed over. -/
theorem skip_name (hn : ∀ a, node? n = some a → a ∈ seen)
    (h : DepthFirst next seen (names.filterMap node?) order) :
    DepthFirst next seen ((n :: names).filterMap node?) order := by
  cases ha : node? n with
  | none => rwa [List.filterMap_cons_none ha]
  | some a =>
    rw [List.filterMap_cons_some ha]
    exact .skip (hn a ha) h

/-- The names that a new node has are put in front of the others. -/
theorem push_name {below : List ν} (hn : node? n = some a) (ha : a ∉ seen)
    (hbelow : next a = below.filterMap node?)
    (h : DepthFirst next (a :: seen) ((below ++ names).filterMap node?) order) :
    DepthFirst next seen ((n :: names).filterMap node?) (a :: order) := by
  rw [List.filterMap_cons_some hn]
  rw [List.filterMap_append, ← hbelow] at h
  exact push ha h

end Names

/-! ### What is listed -/

/-- There is one depth-first order. -/
theorem unique {order' : List α} (h : DepthFirst next seen todo order)
    (h' : DepthFirst next seen todo order') : order = order' := by
  induction h generalizing order' with
  | done seen =>
    cases h'
    rfl
  | skip ha _ ih =>
    cases h' with
    | skip _ h' => exact ih h'
    | visit hnew => exact absurd ha hnew
  | visit ha _ _ ihbelow ihafter =>
    cases h' with
    | skip hseen => exact absurd hseen ha
    | visit _ hbelow hafter =>
      obtain rfl := ihbelow hbelow
      obtain rfl := ihafter hafter
      rfl

/-- Nothing that has been seen is listed. -/
theorem not_mem_seen (h : DepthFirst next seen todo order) (hb : b ∈ order) : b ∉ seen := by
  induction h with
  | done => cases hb
  | skip _ _ ih => exact ih hb
  | visit ha _ _ ihbelow ihafter =>
    rcases List.mem_cons.1 hb with rfl | hb
    · exact ha
    · rcases List.mem_append.1 hb with hb | hb
      · exact fun hm => ihbelow hb (List.mem_cons_of_mem _ hm)
      · exact fun hm => ihafter hb (List.mem_append_right _ (List.mem_cons_of_mem _ hm))

/-- No node is listed twice. -/
theorem nodup (h : DepthFirst next seen todo order) : order.Nodup := by
  induction h with
  | done => exact List.nodup_nil
  | skip _ _ ih => exact ih
  | visit ha hbelow hafter ihbelow ihafter =>
    refine List.nodup_cons.2 ⟨fun hm => ?_, ihbelow.append ihafter fun x hx hx' => ?_⟩
    · rcases List.mem_append.1 hm with hm | hm
      · exact hbelow.not_mem_seen hm List.mem_cons_self
      · exact hafter.not_mem_seen hm (List.mem_append_right _ List.mem_cons_self)
    · exact hafter.not_mem_seen hx' (List.mem_append_left _ hx)

/-- The given nodes are listed unless they have been seen. -/
theorem mem_of_todo (h : DepthFirst next seen todo order) (ha : a ∈ todo) :
    a ∈ seen ∨ a ∈ order := by
  induction h with
  | done => cases ha
  | skip hx _ ih =>
    rcases List.mem_cons.1 ha with rfl | ha
    · exact .inl hx
    · exact ih ha
  | visit _ _ _ _ ihafter =>
    rcases List.mem_cons.1 ha with rfl | ha
    · exact .inr List.mem_cons_self
    · have := ihafter ha
      simp only [List.mem_append, List.mem_cons] at this ⊢
      grind

/-- What is next to a node that is listed is listed unless it has been seen. -/
theorem mem_of_next (h : DepthFirst next seen todo order) (ha : a ∈ order) (hb : b ∈ next a) :
    b ∈ seen ∨ b ∈ order := by
  induction h with
  | done => cases ha
  | skip _ _ ih => exact ih ha
  | visit _ hbelow _ ihbelow ihafter =>
    simp only [List.mem_append, List.mem_cons] at ha ihbelow ihafter ⊢
    rcases ha with rfl | ha | ha
    · have := hbelow.mem_of_todo hb
      simp only [List.mem_cons] at this
      grind
    · have := ihbelow ha
      grind
    · have := ihafter ha
      grind

/-- What is listed is reached from a given node. -/
theorem exists_reaches (h : DepthFirst next seen todo order) (hb : b ∈ order) :
    ∃ a ∈ todo, Relation.ReflTransGen (fun x y => y ∈ next x) a b := by
  induction h with
  | done => cases hb
  | skip _ _ ih =>
    obtain ⟨a, ha, hab⟩ := ih hb
    exact ⟨a, List.mem_cons_of_mem _ ha, hab⟩
  | @visit _ _ _ _ x _ _ _ ihbelow ihafter =>
    rcases List.mem_cons.1 hb with rfl | hb
    · exact ⟨b, List.mem_cons_self, .refl⟩
    · rcases List.mem_append.1 hb with hb | hb
      · obtain ⟨a, ha, hab⟩ := ihbelow hb
        exact ⟨x, List.mem_cons_self, .head ha hab⟩
      · obtain ⟨a, ha, hab⟩ := ihafter hb
        exact ⟨a, List.mem_cons_of_mem _ ha, hab⟩

section Reached

variable {r : α → α → Prop} (hr : ∀ x y, y ∈ next x ↔ r x y)
include hr

/-- **Exactly the nodes that are reached are listed**, those apart that have been seen, if all that
is next to these is given too. -/
theorem mem_iff (h : DepthFirst next seen todo order)
    (hseen : ∀ x ∈ seen, ∀ y ∈ next x, y ∈ todo) :
    b ∈ order ↔ b ∉ seen ∧ ∃ a ∈ todo, Relation.ReflTransGen r a b := by
  obtain rfl : (fun x y => y ∈ next x) = r := by
    funext x y
    exact propext (hr x y)
  refine ⟨fun hb => ⟨h.not_mem_seen hb, h.exists_reaches hb⟩, ?_⟩
  rintro ⟨hnew, a, ha, hab⟩
  suffices b ∈ seen ∨ b ∈ order from this.resolve_left hnew
  clear hnew
  induction hab with
  | refl => exact h.mem_of_todo ha
  | tail _ hxy ih =>
    rcases ih with hx | hx
    · exact h.mem_of_todo (hseen _ hx _ hxy)
    · exact h.mem_of_next hx hxy

/-- What is listed below one node, which is not listed itself. -/
theorem mem_below_iff (h : DepthFirst next [a] (next a) order) :
    b ∈ order ↔ b ≠ a ∧ Relation.TransGen r a b := by
  rw [mem_iff hr h fun x hx y hy => List.mem_singleton.1 hx ▸ hy, List.mem_singleton,
    Relation.TransGen.head'_iff]
  simp only [hr]

/-- What is listed below one node, which may be below itself. -/
theorem mem_iff_transGen (h : DepthFirst next [] (next a) order) :
    b ∈ order ↔ Relation.TransGen r a b := by
  rw [mem_iff hr h (List.forall_mem_nil _), Relation.TransGen.head'_iff]
  simp only [hr]
  exact and_iff_right List.not_mem_nil

end Reached

end DepthFirst

end LuaDocs
