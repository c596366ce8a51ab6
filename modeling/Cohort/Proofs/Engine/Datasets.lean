import Cohort.Proofs.Engine.Selection

/-!
# Datasets as sets of users

A run writes a table that has each user once and no unknown user. The rows of a query have each
user once, and the unknown one is left out of them. Set operations on such datasets lead to such a
dataset, and so does a single dataset that stays as it is.

## Main definitions

* `Dataset.IsSet` — each user occurs once, and the unknown one does not occur

## Main results

* `Query.isSet_dropNull_evaluate` — the known users that a query selects
* `Dataset.IsSet.combine`, `Dataset.IsSet.intersect` — set operations
-/

namespace Cohort

namespace Dataset

/-- Each user occurs once, and the unknown one does not occur. -/
structure IsSet (d : Dataset) : Prop where
  distinct : d.users.Nodup
  known : none ∉ d.users

variable {d left right : Dataset} {ds : List Dataset}

theorem isSet_nil : IsSet [] := ⟨List.nodup_nil, List.not_mem_nil⟩

/-- The first rows of users are those of different users. -/
theorem nodup_users_firstRows (keep : Option String → Bool) (seen : List (Option String))
    (d : Dataset) : (firstRows keep seen d).users.Nodup := by
  induction d generalizing seen with
  | nil => exact List.nodup_nil
  | cons row rest ih =>
    rw [firstRows]
    split
    · -- The user of the first row counts as seen from now on.
      refine List.nodup_cons.mpr ⟨fun again => ?_, ih _⟩
      have unseen := ((mem_users_firstRows keep (row.user :: seen)).mp again).2.2
      exact unseen List.mem_cons_self
    · exact ih seen

/-- The first rows of known users form a set. -/
theorem isSet_firstRows (known : none ∉ d.users) (keep : Option String → Bool) :
    (firstRows keep [] d).IsSet where
  distinct := nodup_users_firstRows keep [] d
  known unknown := known ((mem_users_firstRows keep []).mp unknown).1

theorem isSet_dropNull (distinct : d.users.Nodup) : (dropNull d).IsSet where
  distinct := distinct.sublist (List.filter_sublist.map _)
  known unknown := by cases (mem_users_dropNull.mp unknown).2

theorem IsSet.intersect (h : left.IsSet) (right : Dataset) : (left.intersect right).IsSet :=
  isSet_firstRows h.known _

theorem IsSet.except (h : left.IsSet) (right : Dataset) : (left.except right).IsSet :=
  isSet_firstRows h.known _

/-- Datasets that form sets are combined to one that does. -/
theorem IsSet.combine {operation : SetOperation} {combined : Dataset} (h : ∀ d ∈ ds, d.IsSet)
    (result : combine operation ds = .ok combined) : combined.IsSet := by
  cases ds with
  | nil => cases result
  | cons first rest =>
    cases rest with
    | nil =>
      obtain rfl := Except.ok.inj result
      exact h _ (List.mem_singleton_self _)
    | cons second rest =>
      obtain rfl := Except.ok.inj result
      have begun : first.IsSet := h first List.mem_cons_self
      cases operation with
      | union =>
        refine isSet_firstRows (fun unknown => ?_) _
        -- The unknown user would come from one of the datasets.
        obtain ⟨row, hrow, none_known⟩ := List.mem_map.mp unknown
        obtain ⟨d, hd, hrow⟩ := List.mem_flatten.mp hrow
        exact (h d hd).known (List.mem_map.mpr ⟨row, hrow, none_known⟩)
      | intersection =>
        exact List.foldlRecOn (motive := IsSet) _ _ begun fun _ hd right _ => hd.intersect right
      | difference =>
        exact List.foldlRecOn (motive := IsSet) _ _ begun fun _ hd right _ => hd.except right

end Dataset

/-- The known users that a query selects form a set. -/
theorem Query.isSet_dropNull_evaluate (q : Query) (ts : List Transaction) :
    (Dataset.dropNull (q.evaluate ts)).IsSet :=
  Dataset.isSet_dropNull
    (List.pairwise_map.mpr ((q.evaluate_inOrder ts).imp ne_of_userBefore))

end Cohort
