import ApiDocs.UnitGraph
import Mathlib.Data.List.Perm.Subperm
import Mathlib.Logic.Relation

/-!
# Breadth-first order

Exploration takes paths from the front of a queue and puts what they mention and nobody mentioned
before at its end. `walk` is the order in which it takes them, whatever is found there. The paths
around the root form layers, each made of what the one before it mentions for the first time
(`layers`); the walk goes through them one after the other (`walk_eq_append_iff`). As soon as the
bound exceeds the number of paths that can be mentioned at all, the walk ends with an empty queue,
and has been to all paths that can be reached (`mem_walk_iff`).
-/

namespace ApiDocs.UnitGraph

/-! ## Paths that are not seen -/

/-- The unseen paths are those that are left after the seen ones, each of them once. -/
theorem unseen_eq_eraseDups (seen paths : List ImportPath) :
    unseen seen paths = (paths.filter (· ∉ seen)).eraseDups := by
  induction paths generalizing seen with
  | nil => rfl
  | cons path paths ih =>
      rw [unseen]
      by_cases known : path ∈ seen
      · rw [if_pos (List.contains_iff_mem.mpr known), ih,
          List.filter_cons_of_neg (by simpa using known)]
      · rw [if_neg (fun has => known (List.contains_iff_mem.mp has)), ih,
          List.filter_cons_of_pos (by simpa using known), List.eraseDups_cons, List.filter_filter]
        congr 2
        refine List.filter_congr fun other _ => ?_
        by_cases same : other = path <;> simp [same]

theorem mem_unseen {seen paths : List ImportPath} {path : ImportPath} :
    path ∈ unseen seen paths ↔ path ∈ paths ∧ path ∉ seen := by
  rw [unseen_eq_eraseDups, List.mem_eraseDups, List.mem_filter, decide_eq_true_eq]

theorem nodup_unseen (seen paths : List ImportPath) : (unseen seen paths).Nodup := by
  induction paths generalizing seen with
  | nil => exact List.nodup_nil
  | cons path paths ih =>
      rw [unseen]
      split
      · exact ih seen
      · refine List.nodup_cons.mpr ⟨fun later => ?_, ih _⟩
        exact (mem_unseen.mp later).2 List.mem_cons_self

/-- Only which paths are seen matters. -/
theorem unseen_congr {seen seen' : List ImportPath} (same : ∀ path, path ∈ seen ↔ path ∈ seen')
    (paths : List ImportPath) : unseen seen paths = unseen seen' paths := by
  simp only [unseen_eq_eraseDups, same]

/-- Paths that are seen first are no longer new to the paths after them. -/
theorem unseen_append (seen first second : List ImportPath) :
    unseen seen (first ++ second) =
      unseen seen first ++ unseen (seen ++ unseen seen first) second := by
  induction first generalizing seen with
  | nil => rw [List.nil_append, unseen, List.nil_append, List.append_nil]
  | cons path first ih =>
      rw [List.cons_append, unseen, unseen]
      split
      · exact ih seen
      · rw [ih, List.cons_append]
        congr 2
        refine unseen_congr (fun other => ?_) second
        simp only [List.mem_append, List.mem_cons]
        tauto

/-! ## The order of a queue -/

variable (next : ImportPath → List ImportPath)

/-- The order in which paths are taken from a queue, at most `bound` of them, where `next` gives the
paths that a path mentions. -/
def walk : (bound : Nat) → (queue seen : List ImportPath) → List ImportPath
  | 0, _, _ => []
  | _ + 1, [], _ => []
  | bound + 1, path :: queue, seen =>
    path :: walk bound (queue ++ unseen seen (next path)) (seen ++ unseen seen (next path))

/-- The first layers, one after the other: the next layer is what a layer mentions and no path so
far is, in order of first mention. -/
def layers : (count : Nat) → (seen layer : List ImportPath) → List ImportPath
  | 0, _, _ => []
  | count + 1, seen, layer =>
    let found := ((layer.flatMap next).filter (· ∉ seen)).eraseDups
    layer ++ layers count (seen ++ found) found

theorem walk_nil (bound : Nat) (seen : List ImportPath) : walk next bound [] seen = [] := by
  cases bound <;> rfl

/-- A smaller bound gives the beginning of the walk. -/
theorem walk_eq_take (bound more : Nat) (queue seen : List ImportPath) :
    walk next bound queue seen = (walk next (bound + more) queue seen).take bound := by
  induction bound generalizing queue seen with
  | zero => rw [List.take_zero, walk]
  | succ bound ih =>
      rw [Nat.add_right_comm]
      cases queue with
      | nil => rw [walk_nil, walk_nil, List.take_nil]
      | cons path queue =>
          rw [walk, walk, List.take_succ_cons]
          exact congrArg _ (ih _ _)

/-- A larger bound only makes the walk longer. -/
theorem walk_mono {bound bound' : Nat} (le : bound ≤ bound') (queue seen : List ImportPath) :
    walk next bound queue seen <+: walk next bound' queue seen := by
  obtain ⟨more, rfl⟩ := Nat.exists_eq_add_of_le le
  rw [walk_eq_take next bound more]
  exact List.take_prefix _ _

/-- The walk goes through the paths at the front of the queue and leaves what they mention at its
end. -/
theorem walk_append {bound : Nat} (layer : List ImportPath) (le : layer.length ≤ bound)
    (queue seen : List ImportPath) :
    walk next bound (layer ++ queue) seen =
      layer ++ walk next (bound - layer.length) (queue ++ unseen seen (layer.flatMap next))
        (seen ++ unseen seen (layer.flatMap next)) := by
  induction layer generalizing bound queue seen with
  | nil => simp only [List.nil_append, List.flatMap_nil, unseen, List.append_nil, List.length_nil,
      Nat.sub_zero]
  | cons path layer ih =>
      obtain ⟨bound, rfl⟩ : ∃ less, bound = less + 1 := ⟨bound - 1, by simp at le; omega⟩
      have room : layer.length ≤ bound := by simpa using le
      rw [List.cons_append, walk, List.append_assoc, ih room, List.cons_append, List.length_cons,
        Nat.add_sub_add_right, List.flatMap_cons, unseen_append]
      simp only [List.append_assoc]

/-- A walk over a layer goes on with the layer that follows from it. -/
theorem walk_layer {bound : Nat} {layer : List ImportPath} (le : layer.length ≤ bound)
    (seen : List ImportPath) :
    walk next bound layer seen =
      layer ++ walk next (bound - layer.length) (unseen seen (layer.flatMap next))
        (seen ++ unseen seen (layer.flatMap next)) := by
  have step := walk_append next layer le [] seen
  rwa [List.append_nil, List.nil_append] at step

theorem layers_succ (count : Nat) (seen layer : List ImportPath) :
    layers next (count + 1) seen layer = layer ++ layers next count
      (seen ++ unseen seen (layer.flatMap next)) (unseen seen (layer.flatMap next)) := by
  rw [layers, unseen_eq_eraseDups]

/-- More layers only make the list longer. -/
theorem layers_mono {count count' : Nat} (le : count ≤ count') (seen layer : List ImportPath) :
    layers next count seen layer <+: layers next count' seen layer := by
  induction count generalizing count' seen layer with
  | zero => exact List.nil_prefix
  | succ count ih =>
      obtain ⟨count', rfl⟩ : ∃ less, count' = less + 1 := ⟨count' - 1, by omega⟩
      rw [layers_succ, layers_succ]
      exact List.prefix_append_right_inj layer |>.mpr (ih (by omega) _ _)

/-- The layers come in the order of the walk. -/
theorem layers_prefix_walk {count bound : Nat} {seen layer : List ImportPath}
    (le : (layers next count seen layer).length ≤ bound) :
    layers next count seen layer <+: walk next bound layer seen := by
  induction count generalizing bound seen layer with
  | zero => exact List.nil_prefix
  | succ count ih =>
      rw [layers_succ, List.length_append] at le
      rw [layers_succ, walk_layer next (by omega)]
      exact List.prefix_append_right_inj layer |>.mpr (ih (by omega))

/-- The walk takes at least one path of each layer, so it does not leave the first layers. -/
theorem walk_prefix_layers (bound : Nat) (layer seen : List ImportPath) :
    walk next bound layer seen <+: layers next bound seen layer := by
  induction bound using Nat.strongRecOn generalizing layer seen with
  | _ bound ih =>
      cases bound with
      | zero => exact List.nil_prefix
      | succ bound =>
          rw [layers_succ]
          rcases Nat.lt_or_ge (bound + 1) layer.length with short | room
          · have whole := walk_layer next (Nat.le_refl layer.length) seen
            rw [Nat.sub_self, walk, List.append_nil] at whole
            have ahead := walk_mono next (Nat.le_of_lt short) layer seen
            rw [whole] at ahead
            exact ahead.trans (List.prefix_append _ _)
          · cases layer with
            | nil =>
                rw [walk_nil]
                exact List.nil_prefix
            | cons path layer =>
                rw [walk_layer next room]
                refine List.prefix_append_right_inj (path :: layer) |>.mpr ?_
                have fewer : bound + 1 - (path :: layer).length < bound + 1 := by
                  rw [List.length_cons] at room ⊢
                  omega
                exact (ih _ fewer _ _).trans (layers_mono next (by omega) _ _)

/-! ## The paths of a walk -/

variable {next}

/-- What is taken was in the queue or is met on the way. -/
theorem mem_queue_or_not_mem_seen {bound : Nat} {queue seen : List ImportPath} {path : ImportPath}
    (among : path ∈ walk next bound queue seen) : path ∈ queue ∨ path ∉ seen := by
  induction bound generalizing queue seen with
  | zero => cases among
  | succ bound ih =>
      cases queue with
      | nil => cases among
      | cons first queue =>
          rcases List.mem_cons.mp among with rfl | later
          · exact Or.inl List.mem_cons_self
          · rcases ih later with queued | fresh
            · rcases List.mem_append.mp queued with queued | found
              · exact Or.inl (List.mem_cons_of_mem _ queued)
              · exact Or.inr (mem_unseen.mp found).2
            · exact Or.inr fun known => fresh (List.mem_append_left _ known)

/-- A queue of seen paths, each once. -/
structure Queued (queue seen : List ImportPath) : Prop where
  once : queue.Nodup
  seen : ∀ path ∈ queue, path ∈ seen

namespace Queued

variable {queue seen : List ImportPath} {path : ImportPath}

theorem root (path : ImportPath) : Queued [path] [path] :=
  ⟨List.nodup_cons.mpr ⟨List.not_mem_nil, List.nodup_nil⟩, fun _ among => among⟩

theorem tail (queued : Queued (path :: queue) seen) : Queued queue seen :=
  ⟨(List.nodup_cons.mp queued.once).2, fun other among =>
    queued.seen other (List.mem_cons_of_mem _ among)⟩

/-- Appending what is unseen keeps a queue without repetitions. -/
theorem append (queued : Queued queue seen) (paths : List ImportPath) :
    Queued (queue ++ unseen seen paths) (seen ++ unseen seen paths) := by
  refine ⟨List.nodup_append.mpr ⟨queued.once, nodup_unseen seen paths, ?_⟩, fun other among => ?_⟩
  · rintro first early second found rfl
    exact (mem_unseen.mp found).2 (queued.seen _ early)
  · exact (List.mem_append.mp among).elim
      (fun early => List.mem_append_left _ (queued.seen other early)) (List.mem_append_right _)

/-- The path at the front does not come up again. -/
theorem not_mem_walk (queued : Queued (path :: queue) seen) (bound : Nat) :
    path ∉
      walk next bound (queue ++ unseen seen (next path)) (seen ++ unseen seen (next path)) := by
  intro again
  have known := queued.seen path List.mem_cons_self
  rcases mem_queue_or_not_mem_seen again with later | fresh
  · rcases List.mem_append.mp later with later | found
    · exact (List.nodup_cons.mp queued.once).1 later
    · exact (mem_unseen.mp found).2 known
  · exact fresh (List.mem_append_left _ known)

/-- A walk meets no path twice. -/
theorem nodup_walk (queued : Queued queue seen) (bound : Nat) :
    (walk next bound queue seen).Nodup := by
  induction bound generalizing queue seen with
  | zero => exact List.nodup_nil
  | succ bound ih =>
      cases queue with
      | nil => exact List.nodup_nil
      | cons path queue =>
          exact List.nodup_cons.mpr ⟨queued.not_mem_walk bound, ih (queued.tail.append _)⟩

end Queued

/-- Along the walk every path is one that can be reached. -/
theorem reached_of_mem_walk {root : ImportPath} {bound : Nat} {queue seen : List ImportPath}
    (reached : ∀ path ∈ queue, Relation.ReflTransGen (fun p q => q ∈ next p) root path)
    {path : ImportPath} (among : path ∈ walk next bound queue seen) :
    Relation.ReflTransGen (fun p q => q ∈ next p) root path := by
  induction bound generalizing queue seen with
  | zero => cases among
  | succ bound ih =>
      cases queue with
      | nil => cases among
      | cons first queue =>
          have here := reached first List.mem_cons_self
          rcases List.mem_cons.mp among with rfl | later
          · exact here
          · refine ih (fun other queued => ?_) later
            rcases List.mem_append.mp queued with queued | found
            · exact reached other (List.mem_cons_of_mem _ queued)
            · exact here.tail (mem_unseen.mp found).1

/-- A walk that ends before its bound has emptied the queue, and has been to all that it met. -/
theorem closed_of_length_lt {bound : Nat} {queue seen : List ImportPath}
    (ends : (walk next bound queue seen).length < bound) :
    (∀ path ∈ queue, path ∈ walk next bound queue seen) ∧
      ∀ path ∈ walk next bound queue seen, ∀ other ∈ next path,
        other ∈ seen ∨ other ∈ walk next bound queue seen := by
  induction bound generalizing queue seen with
  | zero => exact absurd ends (Nat.not_lt_zero _)
  | succ bound ih =>
      cases queue with
      | nil => exact ⟨nofun, nofun⟩
      | cons first queue =>
          rw [walk] at ends ⊢
          obtain ⟨taken, closed⟩ := ih (Nat.lt_of_succ_lt_succ ends)
          have found : ∀ other ∈ unseen seen (next first), other ∈ walk next bound
              (queue ++ unseen seen (next first)) (seen ++ unseen seen (next first)) :=
            fun other new => taken other (List.mem_append_right _ new)
          refine ⟨fun path queued => ?_, fun path among other mentioned => ?_⟩
          · rcases List.mem_cons.mp queued with rfl | queued
            · exact List.mem_cons_self
            · exact List.mem_cons_of_mem _ (taken path (List.mem_append_left _ queued))
          · rcases List.mem_cons.mp among with rfl | among
            · by_cases known : other ∈ seen
              · exact Or.inl known
              · exact Or.inr (List.mem_cons_of_mem _
                  (found other (mem_unseen.mpr ⟨mentioned, known⟩)))
            · rcases closed path among other mentioned with known | later
              · exact (List.mem_append.mp known).imp_right
                  fun new => List.mem_cons_of_mem _ (found other new)
              · exact Or.inr (List.mem_cons_of_mem _ later)

/-! ## Whole walks -/

section Whole

variable {root : ImportPath} {supply : List ImportPath}
  (supplied : ∀ path, ∀ other ∈ next path, other ∈ supply)

include supplied

/-- However large its bound, a walk meets no more paths than there are. -/
theorem length_walk_le (bound : Nat) :
    (walk next bound [root] [root]).length ≤ supply.length + 1 := by
  have within : walk next bound [root] [root] ⊆ root :: supply := by
    intro path among
    have reached : Relation.ReflTransGen (fun p q => q ∈ next p) root path := by
      refine reached_of_mem_walk (fun other queued => ?_) among
      rw [List.mem_singleton.mp queued]
    rcases Relation.ReflTransGen.cases_tail reached with rfl | ⟨before, _, mentioned⟩
    · exact List.mem_cons_self
    · exact List.mem_cons_of_mem _ (supplied before path mentioned)
  exact (List.subperm_of_subset ((Queued.root root).nodup_walk bound) within).length_le

/-- No bound beyond the number of paths that are mentioned changes the walk. -/
theorem walk_eq_of_le {bound : Nat} (le : supply.length + 1 ≤ bound) :
    walk next bound [root] [root] = walk next (supply.length + 1) [root] [root] := by
  obtain ⟨more, rfl⟩ := Nat.exists_eq_add_of_le le
  rw [walk_eq_take next (supply.length + 1) more,
    List.take_of_length_le (length_walk_le supplied _)]

/-- With enough bound a walk meets exactly the paths that lead from the root. -/
theorem mem_walk_iff {path : ImportPath} :
    path ∈ walk next (supply.length + 1) [root] [root] ↔
      Relation.ReflTransGen (fun p q => q ∈ next p) root path := by
  constructor
  · refine reached_of_mem_walk fun other queued => ?_
    rw [List.mem_singleton.mp queued]
  · intro reached
    rw [← walk_eq_of_le supplied (Nat.le_succ _)]
    have ends : (walk next (supply.length + 1 + 1) [root] [root]).length < supply.length + 1 + 1 :=
      Nat.lt_succ_of_le (length_walk_le supplied _)
    obtain ⟨taken, closed⟩ := closed_of_length_lt ends
    induction reached with
    | refl => exact taken root List.mem_cons_self
    | tail _ mentioned ih =>
        rcases closed _ ih _ mentioned with known | later
        · exact taken _ known
        · exact later

/-- The walk is at a path when the layers around the root are. -/
theorem walk_eq_append_iff {before : List ImportPath} {path : ImportPath} :
    (∃ after, walk next (supply.length + 1) [root] [root] = before ++ path :: after) ↔
      ∃ count after, layers next count [root] [root] = before ++ path :: after := by
  constructor
  · rintro ⟨after, split⟩
    obtain ⟨more, whole⟩ := walk_prefix_layers next (supply.length + 1) [root] [root]
    refine ⟨supply.length + 1, after ++ more, ?_⟩
    rw [← whole, split, List.append_assoc, List.cons_append]
  · rintro ⟨count, after, split⟩
    have le := Nat.le_max_left (layers next count [root] [root]).length (supply.length + 1)
    obtain ⟨more, whole⟩ := layers_prefix_walk next le
    refine ⟨after ++ more, ?_⟩
    rw [← walk_eq_of_le supplied (Nat.le_max_right _ _), ← whole, split, List.append_assoc,
      List.cons_append]

end Whole

end ApiDocs.UnitGraph
