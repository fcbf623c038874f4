import Mathlib
import PageQuery.Proofs.Predicate.Detached
import PageQuery.Proofs.Store.Bindings
import PageQuery.Proofs.Store.Mirrors

/-!
# Rows that a path leads to

The rows that a path leads to in the store are, mirrored, the elements that it leads to in the mirror of
the row it starts from.  Behind a base they are the rows of one more collection, each of them reached from
a row at the base, and a missing row for each row at the base whose collection is empty.
-/

namespace PageQuery

namespace Store

variable {s : Store} {root base m : Model} {path relations : List String} {name : String}
  {f : ModelField} {r : Row}

/-! ## One collection more -/

theorem reach_nil (root : Option Model) (r : Row) : s.reach root r [] = [some r] := rfl

/-- Single relations lead on from each row that is reached. -/
theorem reach_leads (hbase : s.Base root path base) (hleads : s.Leads base relations m) (r : Row) :
    s.reach (some root) r (path ++ relations) =
      (s.reach (some root) r path).map fun o => o.bind fun e => s.ahead base e relations := by
  induction relations using List.reverseRecOn generalizing m with
  | nil =>
      have hself (o : Option Row) : (o.bind fun e => s.ahead base e []) = o := by
        cases o <;> rfl
      simp [hself]
  | append_singleton relations name ih =>
      obtain ⟨middle, -, hbefore, -⟩ := hleads.last_step
      have hnexts := nexts_base hbase hleads
      rw [← List.append_assoc] at hnexts ⊢
      rw [reach_concat, ih hbefore, List.flatMap_map, ← List.flatMap_singleton' (List.map _ _),
        List.flatMap_map]
      exact List.flatMap_congr fun o _ => hnexts o

/-- A collection behind a base leads to the rows of the collections of all rows there, and to a missing
row for each of these collections that is empty. -/
theorem reach_elements (hbase : s.Base root path base) (hleads : s.Leads base relations m)
    (hfield : m.field? name = some f) (r : Row) :
    s.reach (some root) r (path ++ (relations ++ [name])) =
      (s.reach (some root) r path).flatMap fun o =>
        if s.gathered base o relations name f = [] then [none]
        else (s.gathered base o relations name f).map some := by
  have hm : s.modelAt (some root) (path ++ relations) = some m := by
    rw [modelAt_append, hbase.modelAt, hleads.modelAt]
  rw [← List.append_assoc, reach_concat, reach_leads hbase hleads, List.flatMap_map]
  refine List.flatMap_congr fun o _ => ?_
  rw [gathered]
  cases o.bind fun e => s.ahead base e relations with
  | none => rfl
  | some t => rw [nexts_some hm hfield, Option.map_some, Option.getD_some]

/-! ## Mirrors of the rows -/

/-- The mirror of a row that may be missing is no list. -/
theorem spread_of_mirror? {v : Value} {depth : ℕ} {o : Option Row}
    (h : v.readAttribute name = s.mirror? depth m o) : v.spread [name] = [s.mirror? depth m o] := by
  rw [Value.spread, h]
  cases o with
  | none => rfl
  | some r => cases depth <;> rfl

/-- One relation leads in the mirror of a row to the mirrors of the rows that it leads to from there. -/
theorem spread_mirror?_singleton {target : Model} (hm : s.modelAt (some root) path = some m)
    (hfield : m.field? name = some f) (htarget : f.target?.bind s.model? = some target)
    (depth : ℕ) (o : Option Row) :
    (s.mirror? (depth + 1) m o).spread [name] =
      (s.nexts (some root) (path ++ [name]) o).map (s.mirror? depth target) := by
  cases o with
  | none => rfl
  | some e =>
      have hread : (s.mirror? (depth + 1) m (some e)).readAttribute name =
          s.mirrored (s.mirror depth) e name f := readAttribute_mirror hfield depth e
      rw [mirrored_relation htarget] at hread
      cases hsingle : f.isSingle with
      | true =>
          rw [hsingle, if_pos rfl] at hread
          rw [nexts_of_isSingle hm hfield hsingle, Option.bind_some]
          exact spread_of_mirror? hread
      | false =>
          rw [hsingle, if_neg Bool.false_ne_true] at hread
          rw [nexts_some hm hfield, Value.spread, hread]
          cases s.related e name f with
          | nil => rfl
          | cons t ts => simp [Value.spread, mirror?]

/-- A path of relations leads in the mirror of a row to the mirrors of the rows that it reaches. -/
theorem spread_mirror (hm : s.modelAt (some root) path = some m) {depth : ℕ}
    (hdepth : path.length ≤ depth) (r : Row) :
    (s.mirror depth root r).spread path =
      (s.reach (some root) r path).map (s.mirror? (depth - path.length) m) := by
  induction path using List.reverseRecOn generalizing m with
  | nil =>
      obtain rfl : root = m := Option.some.inj hm
      rfl
  | append_singleton path name ih =>
      obtain ⟨middle, f, hmiddle, hfield, htarget⟩ := exists_of_modelAt_concat hm
      rw [List.length_append, List.length_singleton] at hdepth ⊢
      obtain ⟨rest, hrest⟩ : ∃ d, depth - path.length = d + 1 :=
        Nat.exists_eq_add_one.mpr (by omega)
      rw [Value.spread_append, ih hmiddle (by omega), reach_concat, List.flatMap_map,
        List.map_flatMap, ← Nat.sub_sub, hrest, Nat.add_sub_cancel]
      exact List.flatMap_congr fun o _ => spread_mirror?_singleton hmiddle hfield htarget rest o

end Store
end PageQuery
